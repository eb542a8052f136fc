import ExprLine.Json.Lexeme
import ExprLine.Json.Printer

namespace ExprLine.Json

/-! ### Texts in quotes -/

theorem hexUnit?_hex (n : Nat) (h : n < 0x20) :
    ∃ a b c d, Text.hex 4 n = [a, b, c, d] ∧ hexUnit? a b c d = some n := by
  have hall : ∀ n < 0x20, hexUnit? (Text.hexDigit (n / 16 / 16 / 16 % 16))
      (Text.hexDigit (n / 16 / 16 % 16)) (Text.hexDigit (n / 16 % 16))
      (Text.hexDigit (n % 16)) = some n := by decide
  exact ⟨_, _, _, _, rfl, hall n h⟩

/-- A character that stands for itself in quotes. -/
theorem quoted?_cons_of_plain {c : Char} (hquote : c ≠ '"') (hslash : c ≠ '\\')
    (hcontrol : ¬ c.toNat < 0x20) (r : List Char) :
    quoted? (c :: r) = (quoted? r).map fun q => (c.toNat :: q.1, q.2) := by
  rw [quoted?]
  · rw [if_neg hcontrol]
    cases quoted? r <;> rfl
  all_goals simp [hquote, hslash]

/-- A backslash and one character. -/
theorem quoted?_short {e c : Char} (hu : e ≠ 'u') (h : unescape? e = some c) (r : List Char) :
    quoted? ('\\' :: e :: r) = (quoted? r).map fun q => (c.toNat :: q.1, q.2) := by
  rw [quoted?]
  · simp only [h]
    cases quoted? r <;> rfl
  · intro _ _ _ _ _ he
    simp [hu] at he

theorem quoted?_unit {a b c d : Char} {n : Nat} (h : hexUnit? a b c d = some n) (r : List Char) :
    quoted? ('\\' :: 'u' :: a :: b :: c :: d :: r) =
      (quoted? r).map fun q => (n :: q.1, q.2) := by
  rw [quoted?, h]
  cases quoted? r <;> rfl

theorem quoted?_escape (c : Char) (r : List Char) :
    quoted? (escape c ++ r) = (quoted? r).map fun q => (c.toNat :: q.1, q.2) := by
  fun_cases escape c
  case case8 hcontrol =>
    obtain ⟨a, b, c', d, hhex, hunit⟩ := hexUnit?_hex c.toNat hcontrol
    rw [hhex]
    exact quoted?_unit hunit r
  case case9 hquote hslash _ _ _ _ _ hcontrol =>
    exact quoted?_cons_of_plain hquote hslash hcontrol r
  all_goals exact quoted?_short (by decide) rfl r

theorem quoted?_flatMap_escape (cs r : List Char) :
    quoted? (cs.flatMap escape ++ '"' :: r) = some (cs.map Char.toNat, r) := by
  induction cs with
  | nil => simp [quoted?]
  | cons c cs ih =>
    rw [List.flatMap_cons, List.append_assoc, quoted?_escape, ih]
    rfl

theorem characters?_map_toNat (cs : List Char) : characters? (cs.map Char.toNat) = some cs := by
  induction cs with
  | nil => rfl
  | cons c cs ih =>
    have hvalid : c.toNat.isValidChar := c.valid
    have hnot : ¬ (0xD800 ≤ c.toNat ∧ c.toNat < 0xDC00) := by
      rcases hvalid with h | h <;> omega
    cases cs with
    | nil => simp [characters?, hvalid]
    | cons d ds =>
      rw [List.map_cons, List.map_cons] at *
      rw [characters?, if_neg (by omega), if_pos hvalid, ih]
      simp

/-! ### Numbers -/

/-- What may follow a number: no further digit. -/
def Apart (r : List Char) : Prop := ∀ c ∈ r.head?, c.isDigit = false

theorem takeWhile_digits {ds r : List Char} (hds : ∀ c ∈ ds, c.isDigit = true) (hr : Apart r) :
    (ds ++ r).takeWhile Char.isDigit = ds ∧ (ds ++ r).dropWhile Char.isDigit = r := by
  have hstop : r.takeWhile Char.isDigit = [] ∧ r.dropWhile Char.isDigit = r := by
    cases r with
    | nil => exact ⟨rfl, rfl⟩
    | cons c r => simp [hr c rfl]
  rw [List.takeWhile_append_of_pos hds, List.dropWhile_append_of_pos hds, hstop.1, hstop.2]
  exact ⟨List.append_nil ds, rfl⟩

theorem digitsValue_toDigits (n : Nat) : digitsValue (Nat.toDigits 10 n) = n := by
  have h := Nat.ofDigitChars_toDigits (b := 10) (n := n) (by decide) (by decide)
  simpa [digitsValue, Nat.ofDigitChars, Nat.mul_comm] using h

/-- Only zero begins with the digit zero. -/
theorem toDigits_eq_cons (n : Nat) :
    ∃ d ds, Nat.toDigits 10 n = d :: ds ∧ d.isDigit = true ∧ (d = '0' → ds = []) := by
  induction n using Nat.strongRecOn with
  | ind n ih =>
    by_cases hlt : n < 10
    · have hall : ∀ k < 10, k.digitChar.isDigit = true := by decide
      exact ⟨n.digitChar, [], Nat.toDigits_of_lt_base hlt, hall n hlt, fun _ => rfl⟩
    · obtain ⟨d, ds, h, hdigit, hzero⟩ := ih (n / 10) (by omega)
      have hn : Nat.toDigits 10 n = d :: (ds ++ [(n % 10).digitChar]) := by
        rw [Nat.toDigits_of_base_le (by decide) (by omega), h, List.cons_append]
      refine ⟨d, _, hn, hdigit, fun hd => ?_⟩
      -- A leading zero would make the number without its last digit zero.
      have hvalue := digitsValue_toDigits (n / 10)
      rw [h, hd, hzero hd] at hvalue
      have : n / 10 = 0 := hvalue.symm
      omega

theorem number?_toDigits (negative : Bool) (n : Nat) : number? negative (Nat.toDigits 10 n) =
    some (.int (if negative then -(n : Int) else n)) := by
  have hvalue := digitsValue_toDigits n
  obtain ⟨d, ds, h, -, hzero⟩ := toDigits_eq_cons n
  rw [h] at hvalue ⊢
  unfold number?
  split
  · next h => simp at h
  · next h =>
    obtain ⟨rfl, rfl⟩ := List.cons.inj h
    simp at hzero
  · rw [hvalue]

/-! ### Lexemes one after another -/

theorem lexemes?_space {c : Char} (h : isSpace c = true) (r : List Char) :
    lexemes? (c :: r) = lexemes? r := by
  have hc : c = ' ' ∨ c = '\n' ∨ c = '\r' ∨ c = '\t' := by simpa [isSpace, or_assoc] using h
  rcases hc with rfl | rfl | rfl | rfl <;> simp [lexemes?, isSpace]

theorem lexemes?_newline (level : Nat) (r : List Char) :
    lexemes? ((newline level).toList ++ r) = lexemes? r := by
  have hspaces (n : Nat) : lexemes? (List.replicate n ' ' ++ r) = lexemes? r := by
    induction n with
    | zero => rfl
    | succ n ih =>
      rw [List.replicate_succ, List.cons_append, lexemes?_space rfl, ih]
  rw [newline, String.toList_ofList, List.cons_append, lexemes?_space rfl, hspaces]

theorem lexemes?_quote (s : String) (r : List Char) :
    lexemes? ((quote s).toList ++ r) = (lexemes? r).map (.text s :: ·) := by
  have hquoted := quoted?_flatMap_escape s.toList r
  have hcharacters := characters?_map_toNat s.toList
  rw [quote, String.toList_ofList]
  simp only [List.cons_append, List.append_assoc, List.nil_append]
  rw [lexemes?]
  split
  · next h => simp [hquoted] at h
  · next us rest h =>
    obtain ⟨rfl, rfl⟩ := Prod.mk.inj (Option.some.inj (hquoted.symm.trans h))
    rw [hcharacters]
    simp

theorem lexemes?_digits {d : Char} {ds r : List Char} {v : Json} (hd : d.isDigit = true)
    (hds : ∀ c ∈ ds, c.isDigit = true) (hr : Apart r) (hv : number? false (d :: ds) = some v) :
    lexemes? (d :: ds ++ r) = (lexemes? r).map (.scalar v :: ·) := by
  obtain ⟨htake, hdrop⟩ := takeWhile_digits hds hr
  have hne {c : Char} (hc : c.isDigit = false) : d ≠ c := by
    rintro rfl
    simp [hd] at hc
  have hspace : isSpace d = false := by
    simp [isSpace, hne]
  rw [List.cons_append, lexemes?]
  · rw [hspace, hd, htake, hdrop, hv]
    simp
  all_goals simp [hne]

theorem lexemes?_minus {ds r : List Char} {v : Json} (hds : ∀ c ∈ ds, c.isDigit = true)
    (hr : Apart r) (hv : number? true ds = some v) :
    lexemes? ('-' :: ds ++ r) = (lexemes? r).map (.scalar v :: ·) := by
  obtain ⟨htake, hdrop⟩ := takeWhile_digits hds hr
  rw [List.cons_append, lexemes?, htake, hdrop, hv]

theorem lexemes?_int (i : Int) {r : List Char} (hr : Apart r) :
    lexemes? ((toString i).toList ++ r) = (lexemes? r).map (.scalar (.int i) :: ·) := by
  have hdigits (n : Nat) : ∀ c ∈ Nat.toDigits 10 n, c.isDigit = true :=
    fun c => Nat.isDigit_of_mem_toDigits (by decide) (by decide)
  rw [Int.toString_eq_repr]
  cases i with
  | ofNat n =>
    obtain ⟨d, ds, h, hd, -⟩ := toDigits_eq_cons n
    have hds : ∀ c ∈ ds, c.isDigit = true := by
      intro c hc
      exact hdigits n c (h ▸ List.mem_cons_of_mem d hc)
    have hv := number?_toDigits false n
    rw [h] at hv
    have htext : (Int.repr (.ofNat n)).toList = d :: ds := Nat.toList_repr.trans h
    rw [htext]
    exact lexemes?_digits hd hds hr hv
  | negSucc n =>
    have hv := number?_toDigits true (n + 1)
    have htext : (Int.repr (.negSucc n)).toList = '-' :: Nat.toDigits 10 (n + 1) := by
      simp [Int.repr, Nat.toList_repr]
    rw [htext, Int.negSucc_eq]
    exact lexemes?_minus (hdigits (n + 1)) hr hv

/-! ### Whole values -/

mutual

/-- The lexemes a value is written with. -/
def lexemes : Json → List Lexeme
  | null => [.scalar .null]
  | bool b => [.scalar (.bool b)]
  | int i => [.scalar (.int i)]
  | str s => [.text s]
  | arr [] => [.openList, .closeList]
  | arr (v :: vs) => .openList :: v.lexemes ++ itemLexemes vs ++ [.closeList]
  | obj [] => [.openObject, .closeObject]
  | obj ((k, v) :: ms) =>
    .openObject :: .text k :: .colon :: v.lexemes ++ memberLexemes ms ++ [.closeObject]

/-- The items of a list after its first. -/
def itemLexemes : List Json → List Lexeme
  | [] => []
  | v :: vs => .comma :: v.lexemes ++ itemLexemes vs

/-- The members of an object after its first. -/
def memberLexemes : Members → List Lexeme
  | [] => []
  | (k, v) :: ms => .comma :: .text k :: .colon :: v.lexemes ++ memberLexemes ms

end

theorem apart_newline (level : Nat) (r : List Char) : Apart ((newline level).toList ++ r) := by
  simp [Apart, newline]

theorem apart_prettyItems (level : Nat) (vs : List Json) {r : List Char} (hr : Apart r) :
    Apart ((prettyItems level vs).toList ++ r) := by
  cases vs with
  | nil => exact hr
  | cons v vs => simp [Apart, prettyItems]

theorem apart_prettyMembers (level : Nat) (ms : Members) {r : List Char} (hr : Apart r) :
    Apart ((prettyMembers level ms).toList ++ r) := by
  cases ms with
  | nil => exact hr
  | cons m ms => simp [Apart, prettyMembers]

mutual

theorem lexemes?_pretty : ∀ (level : Nat) (v : Json) {r : List Char}, Apart r →
    lexemes? ((pretty level v).toList ++ r) = (lexemes? r).map (v.lexemes ++ ·)
  | _, null, r, _ => by simp [pretty, lexemes, lexemes?]
  | _, bool true, r, _ => by simp [pretty, lexemes, lexemes?]
  | _, bool false, r, _ => by simp [pretty, lexemes, lexemes?]
  | _, int i, r, hr => by rw [pretty, lexemes?_int i hr]; rfl
  | _, str s, r, _ => by rw [pretty, lexemes?_quote s r]; rfl
  | _, arr [], r, _ => by simp [pretty, lexemes, lexemes?, Function.comp_def]
  | level, arr (v :: vs), r, _ => by
    have hclose := apart_newline level (']' :: r)
    have hitems := apart_prettyItems (level + 1) vs hclose
    simp only [pretty, String.toList_append, String.reduceToList, List.append_assoc,
      List.cons_append, List.nil_append]
    rw [lexemes?, lexemes?_newline, lexemes?_pretty _ v hitems, lexemes?_prettyItems _ vs hclose,
      lexemes?_newline, lexemes?]
    simp [lexemes, Function.comp_def]
  | _, obj [], r, _ => by simp [pretty, lexemes, lexemes?, Function.comp_def]
  | level, obj ((k, v) :: ms), r, _ => by
    have hclose := apart_newline level ('\x7d' :: r)
    have hmembers := apart_prettyMembers (level + 1) ms hclose
    simp only [pretty, String.toList_append, String.reduceToList, List.append_assoc,
      List.cons_append, List.nil_append]
    rw [lexemes?, lexemes?_newline, lexemes?_quote, lexemes?, lexemes?_space rfl,
      lexemes?_pretty _ v hmembers, lexemes?_prettyMembers _ ms hclose, lexemes?_newline, lexemes?]
    simp [lexemes, Function.comp_def]

theorem lexemes?_prettyItems : ∀ (level : Nat) (vs : List Json) {r : List Char}, Apart r →
    lexemes? ((prettyItems level vs).toList ++ r) = (lexemes? r).map (itemLexemes vs ++ ·)
  | _, [], r, _ => by simp [prettyItems, itemLexemes]
  | level, v :: vs, r, hr => by
    have hrest := apart_prettyItems level vs hr
    simp only [prettyItems, String.toList_append, String.reduceToList, List.append_assoc,
      List.cons_append, List.nil_append]
    rw [lexemes?, lexemes?_newline, lexemes?_pretty _ v hrest, lexemes?_prettyItems _ vs hr]
    simp [itemLexemes, Function.comp_def]

theorem lexemes?_prettyMembers : ∀ (level : Nat) (ms : Members) {r : List Char}, Apart r →
    lexemes? ((prettyMembers level ms).toList ++ r) = (lexemes? r).map (memberLexemes ms ++ ·)
  | _, [], r, _ => by simp [prettyMembers, memberLexemes]
  | level, (k, v) :: ms, r, hr => by
    have hrest := apart_prettyMembers level ms hr
    simp only [prettyMembers, String.toList_append, String.reduceToList, List.append_assoc,
      List.cons_append, List.nil_append]
    rw [lexemes?, lexemes?_newline, lexemes?_quote, lexemes?, lexemes?_space rfl,
      lexemes?_pretty _ v hrest, lexemes?_prettyMembers _ ms hr]
    simp [memberLexemes, Function.comp_def]

end

theorem lexemes?_document (v : Json) : lexemes? v.document.toList = some v.lexemes := by
  have hend : Apart [] := by simp [Apart]
  have h := lexemes?_pretty 0 v hend
  rw [List.append_nil] at h
  rw [document, h]
  simp [lexemes?]

end ExprLine.Json
