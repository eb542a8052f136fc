import ExprLine.Proofs.Contract

namespace ExprLine

/-- The characters that are lexemes, each on its own. -/
def IsLexeme (c : Char) : Prop :=
  ('0' ≤ c ∧ c ≤ '9') ∨ ('A' ≤ c ∧ c ≤ 'Z') ∨ ('a' ≤ c ∧ c ≤ 'z') ∨
    c ∈ ['+', '-', '*', '/', '(', ')']

/-- A text may hold blanks and lexemes only. -/
def IsReadable (c : Char) : Prop := Text.isBlank c = true ∨ IsLexeme c

namespace Kind

theorem isDigit_iff {c : Char} : c.isDigit = true ↔ '0' ≤ c ∧ c ≤ '9' := by
  show (decide ('0' ≤ c) && decide (c ≤ '9')) = true ↔ _
  simp

theorem isAlpha_iff {c : Char} :
    c.isAlpha = true ↔ ('A' ≤ c ∧ c ≤ 'Z') ∨ ('a' ≤ c ∧ c ≤ 'z') := by
  show (decide ('A' ≤ c ∧ c ≤ 'Z') || (decide ('a' ≤ c) && decide (c ≤ 'z'))) = true ↔ _
  simp

theorem isSome_ofChar?_iff {c : Char} : (ofChar? c).isSome = true ↔ IsLexeme c := by
  rw [IsLexeme, ← isDigit_iff, ← or_assoc (a := 'A' ≤ c ∧ c ≤ 'Z'), ← isAlpha_iff]
  unfold ofChar?
  split
  · next h => simp [h]
  · next h =>
    split
    · next h' => simp [h']
    · next h' =>
      rw [or_iff_right h, or_iff_right h']
      split <;> simp_all

theorem toNat_of_isLexeme {c : Char} (h : IsLexeme c) : 40 ≤ c.toNat ∧ c.toNat ≤ 122 := by
  rcases h with ⟨h₁, h₂⟩ | ⟨h₁, h₂⟩ | ⟨h₁, h₂⟩ | h
  · have l : '0'.toNat ≤ c.toNat := h₁
    have u : c.toNat ≤ '9'.toNat := h₂
    exact ⟨Nat.le_trans (by decide) l, Nat.le_trans u (by decide)⟩
  · have l : 'A'.toNat ≤ c.toNat := h₁
    have u : c.toNat ≤ 'Z'.toNat := h₂
    exact ⟨Nat.le_trans (by decide) l, Nat.le_trans u (by decide)⟩
  · have l : 'a'.toNat ≤ c.toNat := h₁
    have u : c.toNat ≤ 'z'.toNat := h₂
    exact ⟨Nat.le_trans (by decide) l, Nat.le_trans u (by decide)⟩
  · simp only [List.mem_cons, List.not_mem_nil, or_false] at h
    rcases h with rfl | rfl | rfl | rfl | rfl | rfl <;> decide

/-- A lexeme is printable ASCII, and of that only the space is blank. -/
theorem not_isBlank_of_isLexeme {c : Char} (h : IsLexeme c) : Text.isBlank c = false := by
  have hb := toNat_of_isLexeme h
  rw [Bool.eq_false_iff]
  intro hc
  obtain ⟨r, hr, h₁, h₂⟩ := Text.Charset.has_iff.mp hc
  have hout : ∀ r ∈ Text.blanks, r.2 < 40 ∨ 122 < r.1 := by decide
  rcases hout r hr with h | h <;> omega

theorem ofChar?_eq_none_of_isBlank {c : Char} (h : Text.isBlank c = true) : ofChar? c = none := by
  cases hk : ofChar? c with
  | none => rfl
  | some k =>
    have hl : IsLexeme c := isSome_ofChar?_iff.mp (by rw [hk]; rfl)
    rw [not_isBlank_of_isLexeme hl] at h
    exact absurd h (by decide)

end Kind

namespace Token

/-- The tokens of the lexemes in `s`, whose first character has offset `p`. All other characters
are passed over. -/
def lexemes : List Char → Nat → List Token
  | [], _ => []
  | c :: r, p =>
    match Kind.ofChar? c with
    | none => lexemes r (p + 1)
    | some k => ⟨k, some (String.singleton c), p⟩ :: lexemes r (p + 1)

theorem lexemes_cons_some {c : Char} {k : Kind} (h : Kind.ofChar? c = some k) (r : List Char)
    (p : Nat) : lexemes (c :: r) p = ⟨k, some (String.singleton c), p⟩ :: lexemes r (p + 1) := by
  rw [lexemes, h]

theorem lexemes_cons_none {c : Char} (h : Kind.ofChar? c = none) (r : List Char) (p : Nat) :
    lexemes (c :: r) p = lexemes r (p + 1) := by
  rw [lexemes, h]

theorem lexemes_of_isBlank {s : List Char} (h : ∀ c ∈ s, Text.isBlank c = true) (p : Nat) :
    lexemes s p = [] := by
  induction s generalizing p with
  | nil => rfl
  | cons c r ih =>
    have hc := Kind.ofChar?_eq_none_of_isBlank (h c List.mem_cons_self)
    rw [lexemes_cons_none hc]
    exact ih (fun d hd => h d (List.mem_cons_of_mem c hd)) (p + 1)

theorem lexemes_append (s t : List Char) (p : Nat) :
    lexemes (s ++ t) p = lexemes s p ++ lexemes t (p + s.length) := by
  induction s generalizing p with
  | nil => rfl
  | cons c r ih =>
    have hp : p + (c :: r).length = p + 1 + r.length := by
      rw [List.length_cons]
      omega
    rw [List.cons_append, hp]
    cases hk : Kind.ofChar? c with
    | none => rw [lexemes_cons_none hk, lexemes_cons_none hk, ih]
    | some k => rw [lexemes_cons_some hk, lexemes_cons_some hk, ih, List.cons_append]

/-- What the tokens of a readable text show of their characters is shown by the characters that
are not blank, in their order. -/
theorem map_lexemes {β : Type} {f : Token → β} {g : Char → β}
    (hf : ∀ c k, Kind.ofChar? c = some k → ∀ p, f ⟨k, some (String.singleton c), p⟩ = g c)
    {s : List Char} (h : ∀ c ∈ s, IsReadable c) (p : Nat) :
    (lexemes s p).map f = (s.filter (!Text.isBlank ·)).map g := by
  induction s generalizing p with
  | nil => rfl
  | cons c r ih =>
    have hr := ih (fun d hd => h d (List.mem_cons_of_mem c hd)) (p + 1)
    cases hb : Text.isBlank c with
    | true =>
      rw [lexemes_cons_none (Kind.ofChar?_eq_none_of_isBlank hb), hr,
        List.filter_cons_of_neg (by simp [hb])]
    | false =>
      have hl : IsLexeme c := (h c List.mem_cons_self).resolve_left (by simp [hb])
      obtain ⟨k, hk⟩ := Option.isSome_iff_exists.mp (Kind.isSome_ofChar?_iff.mpr hl)
      rw [lexemes_cons_some hk, List.filter_cons_of_pos (by simp [hb]), List.map_cons,
        List.map_cons, hf c k hk, hr]

theorem of_mem_lexemes {s : List Char} {p : Nat} {a : Token} (h : a ∈ lexemes s p) :
    a.isEnd = false ∧ ∃ c, a.lexeme = some (String.singleton c) := by
  induction s generalizing p with
  | nil => simp [lexemes] at h
  | cons c r ih =>
    cases hk : Kind.ofChar? c with
    | none =>
      rw [lexemes_cons_none hk] at h
      exact ih h
    | some k =>
      rw [lexemes_cons_some hk] at h
      rcases List.mem_cons.mp h with rfl | h
      · exact ⟨decide_eq_false (Kind.ofChar?_ne_endOfInput hk), c, rfl⟩
      · exact ih h

theorem scan_ok {s : List Char} (h : ∀ c ∈ s, IsReadable c) (p : Nat) :
    scan s p = .ok (lexemes s p ++ [endAt (p + s.length)]) := by
  induction s generalizing p with
  | nil => rfl
  | cons c r ih =>
    have hr := ih (fun d hd => h d (List.mem_cons_of_mem c hd)) (p + 1)
    have hp : p + (c :: r).length = p + 1 + r.length := by
      rw [List.length_cons]
      omega
    rw [hp, scan]
    split
    · next hb => rw [hr, lexemes_cons_none (Kind.ofChar?_eq_none_of_isBlank hb)]
    · next hb =>
      have hl : IsLexeme c := (h c List.mem_cons_self).resolve_left hb
      obtain ⟨k, hk⟩ := Option.isSome_iff_exists.mp (Kind.isSome_ofChar?_iff.mpr hl)
      rw [hk, lexemes_cons_some hk, hr]
      rfl

/-- Any other character, the first of its sort, is all that is reported. -/
theorem scan_error {s r : List Char} {c : Char} (h : ∀ d ∈ s, IsReadable d) (hc : ¬IsReadable c)
    (p : Nat) : scan (s ++ c :: r) p = .error ⟨c, p + s.length⟩ := by
  induction s generalizing p with
  | nil =>
    obtain ⟨hb, hl⟩ := not_or.mp hc
    have hk : Kind.ofChar? c = none := by
      rw [← Option.not_isSome_iff_eq_none, Kind.isSome_ofChar?_iff]
      exact hl
    rw [List.nil_append, scan, if_neg hb, hk]
    rfl
  | cons d s ih =>
    have hr := ih (fun e he => h e (List.mem_cons_of_mem d he)) (p + 1)
    have hp : p + (d :: s).length = p + 1 + s.length := by
      rw [List.length_cons]
      omega
    rw [hp, List.cons_append, scan]
    split
    · exact hr
    · next hb =>
      have hl : IsLexeme d := (h d List.mem_cons_self).resolve_left hb
      obtain ⟨k, hk⟩ := Option.isSome_iff_exists.mp (Kind.isSome_ofChar?_iff.mpr hl)
      rw [hk, hr]
      rfl

theorem exists_first_unreadable {s : List Char} (h : ¬∀ c ∈ s, IsReadable c) :
    ∃ q c r, s = q ++ c :: r ∧ (∀ d ∈ q, IsReadable d) ∧ ¬IsReadable c := by
  induction s with
  | nil => simp at h
  | cons d s ih =>
    by_cases hd : IsReadable d
    · have hs : ¬∀ c ∈ s, IsReadable c := by
        intro hs
        exact h (by simpa [hd] using hs)
      obtain ⟨q, c, r, rfl, hq, hc⟩ := ih hs
      exact ⟨d :: q, c, r, rfl, by simpa [hd] using hq, hc⟩
    · exact ⟨[], d, s, rfl, by simp, hd⟩

def stream (s : List Char) : List Token := lexemes s 0 ++ [endAt s.length]

theorem ofText_readable {s : List Char} (h : ∀ c ∈ s, IsReadable c) : ofText s = .ok (stream s) := by
  rw [ofText, scan_ok h, Nat.zero_add]
  rfl

theorem ofText_unreadable {q r : List Char} {c : Char} (hq : ∀ d ∈ q, IsReadable d)
    (hc : ¬IsReadable c) : ofText (q ++ c :: r) = .error ⟨c, q.length⟩ := by
  rw [ofText, scan_error hq hc, Nat.zero_add]

theorem readable_of_ofText {s : List Char} {ts : List Token} (h : ofText s = .ok ts) :
    ∀ c ∈ s, IsReadable c := by
  by_contra hn
  obtain ⟨q, c, r, rfl, hq, hc⟩ := exists_first_unreadable hn
  rw [ofText_unreadable hq hc] at h
  simp at h

theorem stream_ne_nil (s : List Char) : stream s ≠ [] := by simp [stream]

theorem getLast_stream (s : List Char) : ((stream s).getLast (stream_ne_nil s)).isEnd = true := by
  simp [stream, endAt, isEnd]

theorem filter_stream (s : List Char) : (stream s).filter (!·.isEnd) = lexemes s 0 := by
  have hall : ∀ a ∈ lexemes s 0, (!a.isEnd) = true := by
    intro a ha
    rw [(of_mem_lexemes ha).1]
    rfl
  rw [stream, List.filter_append, List.filter_eq_self.mpr hall]
  simp [endAt, isEnd]

/-- A lexeme parts the tokens of a text as it parts the text. -/
theorem stream_append_cons {c : Char} {k : Kind} (h : Kind.ofChar? c = some k) (q r : List Char) :
    stream (q ++ c :: r) = lexemes q 0 ++ ⟨k, some (String.singleton c), q.length⟩ ::
      (lexemes r (q.length + 1) ++ [endAt (q ++ c :: r).length]) := by
  rw [stream, lexemes_append, Nat.zero_add, lexemes_cons_some h, List.append_assoc, List.cons_append]

/-- Each token stands where its character does. Those before it are the tokens of the text before
that character. -/
theorem split_lexemes {s : List Char} {p : Nat} {us vs : List Token} {a : Token}
    (h : lexemes s p = us ++ a :: vs) :
    ∃ q c r k, s = q ++ c :: r ∧ Kind.ofChar? c = some k ∧ us = lexemes q p ∧
      a = ⟨k, some (String.singleton c), (p + q.length : Nat)⟩ := by
  induction s generalizing p us with
  | nil => simp [lexemes] at h
  | cons c r ih =>
    cases hk : Kind.ofChar? c with
    | none =>
      rw [lexemes_cons_none hk] at h
      obtain ⟨q, d, t, k, rfl, hd, rfl, rfl⟩ := ih h
      refine ⟨c :: q, d, t, k, rfl, hd, (lexemes_cons_none hk q p).symm, ?_⟩
      rw [List.length_cons, Nat.add_right_comm, Nat.add_assoc]
    | some k =>
      rw [lexemes_cons_some hk] at h
      cases us with
      | nil =>
        obtain ⟨rfl, -⟩ := List.cons.inj h
        exact ⟨[], c, r, k, rfl, hk, rfl, rfl⟩
      | cons u us =>
        obtain ⟨rfl, hr⟩ := List.cons.inj h
        obtain ⟨q, d, t, l, rfl, hd, rfl, rfl⟩ := ih hr
        refine ⟨c :: q, d, t, l, rfl, hd, (lexemes_cons_some hk q p).symm, ?_⟩
        rw [List.length_cons, Nat.add_right_comm, Nat.add_assoc]

theorem pairwise_lexemes (s : List Char) (p : Nat) :
    (lexemes s p).Pairwise fun a b => a.position < b.position := by
  induction s generalizing p with
  | nil => exact .nil
  | cons c r ih =>
    cases hk : Kind.ofChar? c with
    | none =>
      rw [lexemes_cons_none hk]
      exact ih (p + 1)
    | some k =>
      rw [lexemes_cons_some hk]
      refine List.pairwise_cons.mpr ⟨?_, ih (p + 1)⟩
      intro b hb
      obtain ⟨us, vs, hsplit⟩ := List.append_of_mem hb
      obtain ⟨q, d, t, l, -, -, -, rfl⟩ := split_lexemes hsplit
      show (p : Int) < ((p + 1 + q.length : Nat) : Int)
      omega

theorem position_lt_of_mem_lexemes {s : List Char} {p : Nat} {a : Token} (h : a ∈ lexemes s p) :
    a.position < ((p + s.length : Nat) : Int) := by
  obtain ⟨us, vs, hsplit⟩ := List.append_of_mem h
  obtain ⟨q, c, r, k, rfl, -, -, rfl⟩ := split_lexemes hsplit
  show ((p + q.length : Nat) : Int) < _
  rw [List.length_append, List.length_cons]
  omega

theorem pairwise_stream (s : List Char) :
    (stream s).Pairwise fun a b => a.position < b.position := by
  refine List.pairwise_append.mpr ⟨pairwise_lexemes s 0, List.pairwise_singleton _ _, ?_⟩
  intro a ha b hb
  rw [List.mem_singleton.mp hb]
  have hlt := position_lt_of_mem_lexemes ha
  rw [Nat.zero_add] at hlt
  exact hlt

theorem split_stream {s : List Char} {us vs : List Token} {a : Token}
    (h : stream s = us ++ a :: vs) :
    (us = lexemes s 0 ∧ a = endAt s.length ∧ vs = []) ∨
    ∃ q c r k, s = q ++ c :: r ∧ Kind.ofChar? c = some k ∧ us = lexemes q 0 ∧
      a = ⟨k, some (String.singleton c), q.length⟩ := by
  rw [stream] at h
  rcases List.eq_nil_or_concat vs with rfl | ⟨vs, e, rfl⟩
  · obtain ⟨rfl, he⟩ := List.append_inj' h rfl
    exact Or.inl ⟨rfl, (List.singleton_inj.mp he).symm, rfl⟩
  · rw [List.concat_eq_append, ← List.cons_append, ← List.append_assoc] at h
    obtain ⟨hl, -⟩ := List.append_inj' h rfl
    obtain ⟨q, c, r, k, hs, hk, hus, ha⟩ := split_lexemes hl
    exact Or.inr ⟨q, c, r, k, hs, hk, hus, by rw [ha, Nat.zero_add]⟩

end Token
end ExprLine
