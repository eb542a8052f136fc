import ExprLine.Proofs.Agreement
import ExprLine.Proofs.EarliestError
import ExprLine.Proofs.Relocation

namespace ExprLine

open Token (lexemes stream)

namespace Text

/-- The characters of `s` that are not blank, each with its offset. -/
def visible (s : List Char) : List (Char × Nat) := s.zipIdx.filter fun x => !isBlank x.1

theorem getElem?_visible (q r : List Char) {c : Char} (h : isBlank c = false) :
    (visible (q ++ c :: r))[(q.filter (!isBlank ·)).length]? = some (c, q.length) := by
  have hfilter : q.filter (!isBlank ·) = (q.zipIdx.filter fun x => !isBlank x.1).map Prod.fst := by
    conv_lhs => rw [← List.zipIdx_map_fst 0 q, List.filter_map]
    rfl
  have hlength : (q.filter (!isBlank ·)).length = (q.zipIdx.filter fun x => !isBlank x.1).length := by
    rw [hfilter, List.length_map]
  rw [visible, List.zipIdx_append, List.filter_append, hlength, List.zipIdx_cons,
    List.filter_cons_of_pos (by simpa using h), List.getElem?_append_right (Nat.le_refl _),
    Nat.sub_self, Nat.zero_add]
  rfl

/-- A character that is not blank is also in a text that differs in blanks only, after the same
characters. -/
theorem exists_split_of_filter_eq {q r s : List Char} {c : Char} (h : isBlank c = false)
    (hs : (q ++ c :: r).filter (!isBlank ·) = s.filter (!isBlank ·)) :
    ∃ q' r', s = q' ++ c :: r' ∧ q.filter (!isBlank ·) = q'.filter (!isBlank ·) := by
  rw [List.filter_append, List.filter_cons_of_pos (by simpa using h)] at hs
  obtain ⟨q₁, r₁, rfl, hq, hr⟩ := List.filter_eq_append_iff.mp hs.symm
  obtain ⟨q₂, r₂, rfl, hblank, -, -⟩ := List.filter_eq_cons_iff.mp hr
  refine ⟨q₁ ++ q₂, r₂, by rw [List.append_assoc], ?_⟩
  have hnone : q₂.filter (!isBlank ·) = [] := List.filter_eq_nil_iff.mpr hblank
  rw [List.filter_append, hnone, List.append_nil, hq]

end Text

theorem forall_blank_congr {s t : List Char}
    (h : s.filter (!Text.isBlank ·) = t.filter (!Text.isBlank ·)) :
    (∀ c ∈ s, Text.isBlank c = true) ↔ ∀ c ∈ t, Text.isBlank c = true := by
  have hall (u : List Char) :
      (∀ c ∈ u, Text.isBlank c = true) ↔ u.filter (!Text.isBlank ·) = [] := by
    simp [List.filter_eq_nil_iff]
  rw [hall s, hall t, h]

/-- Blanks are readable, so that a text is readable or not by its other characters. -/
theorem forall_readable_congr {s t : List Char}
    (h : s.filter (!Text.isBlank ·) = t.filter (!Text.isBlank ·)) :
    (∀ c ∈ s, IsReadable c) ↔ ∀ c ∈ t, IsReadable c := by
  have hall (u : List Char) :
      (∀ c ∈ u, IsReadable c) ↔ ∀ c ∈ u.filter (!Text.isBlank ·), IsReadable c := by
    constructor
    · intro hu c hc
      exact hu c (List.mem_of_mem_filter hc)
    · intro hu c hc
      by_cases hb : Text.isBlank c = true
      · exact Or.inl hb
      · exact hu c (List.mem_filter.mpr ⟨hc, by simpa using hb⟩)
  rw [hall s, hall t, h]

namespace Token

/-- What the tokens of a text are, but for their offsets, is told by its characters that are not
blank. -/
theorem map_key_stream {s : List Char} (h : ∀ c ∈ s, IsReadable c) : (stream s).map key =
    ((s.filter (!Text.isBlank ·)).map fun c =>
      ((Kind.ofChar? c).getD .endOfInput, some (String.singleton c))) ++ [(.endOfInput, none)] := by
  have hkeys := map_lexemes (f := key)
    (g := fun c => ((Kind.ofChar? c).getD .endOfInput, some (String.singleton c)))
    (fun c k hk p => by rw [hk]; rfl) h 0
  rw [stream, List.map_append, hkeys]
  rfl

/-- The offsets that `f` gives for those of the tokens are in the same order. -/
def Ordered (f : Int → Int) (ts : List Token) : Prop :=
  ∀ a ∈ ts, ∀ b ∈ ts, a.position < b.position → f a.position < f b.position

/-- Tokens that are the same but for their offsets are moved into each other, in their order. -/
theorem exists_moved {ts us : List Token} (hts : ts.Pairwise fun a b => a.position < b.position)
    (hus : us.Pairwise fun a b => a.position < b.position) (h : ts.map key = us.map key) :
    ∃ f, Ordered f ts ∧ us = ts.map (moved f) := by
  induction ts generalizing us with
  | nil =>
    have hnil : us = [] := List.map_eq_nil_iff.mp h.symm
    exact ⟨id, by simp [Ordered], hnil⟩
  | cons a ts ih =>
    cases us with
    | nil => simp at h
    | cons b us =>
      obtain ⟨hkey, hkeys⟩ := List.cons.inj h
      obtain ⟨hkind, hlexeme⟩ := Prod.mk.inj hkey
      obtain ⟨hfirst, hts⟩ := List.pairwise_cons.mp hts
      obtain ⟨hfirst', hus⟩ := List.pairwise_cons.mp hus
      obtain ⟨g, hg, rfl⟩ := ih hts hus hkeys
      -- the first token goes to its place, all later ones go on as they did
      let f := Function.update g a.position b.position
      have hf : ∀ c ∈ ts, f c.position = g c.position := by
        intro c hc
        exact Function.update_of_ne (Int.ne_of_gt (hfirst c hc)) _ _
      have hfa : f a.position = b.position := Function.update_self _ _ _
      have hmoved : a.moved f = b := by
        rw [moved, hfa, hkind, hlexeme]
      have hmap : ts.map (moved f) = ts.map (moved g) := by
        apply List.map_congr_left
        intro c hc
        rw [moved, moved, hf c hc]
      refine ⟨f, ?_, by rw [List.map_cons, hmoved, hmap]⟩
      intro c hc d hd hcd
      rcases List.mem_cons.mp hc with rfl | hct
      · rcases List.mem_cons.mp hd with rfl | hdt
        · exact absurd hcd (Int.lt_irrefl _)
        · rw [hfa, hf d hdt]
          exact hfirst' (d.moved g) (List.mem_map_of_mem hdt)
      · rcases List.mem_cons.mp hd with rfl | hdt
        · exact absurd hcd (Int.lt_asymm (hfirst c hct))
        · rw [hf c hct, hf d hdt]
          exact hg c hct d hdt hcd

end Token

namespace Analysis

/-- Two analyses that blanks do not tell apart but by offsets. -/
structure Respaced (s₁ s₂ : List Char) (a b : Analysis) : Prop where
  success : a.success = b.success
  errorType : a.errorType = b.errorType
  accepted : a.success = true → a.tree = b.tree ∧ a.tally = b.tally
  rejected : a.errorType = some .syntaxError → a.message = b.message ∧ ∃ (k : Nat) (x y : Token),
    a.tokens[k]? = some x ∧ b.tokens[k]? = some y ∧ x.lexeme = y.lexeme ∧
    a.errors = some [⟨a.message, some x.position, x.lexeme⟩] ∧
    b.errors = some [⟨b.message, some y.position, y.lexeme⟩]
  unreadable : a.errorType = some .lexicalError → ∃ (k : Nat) (c : Char) (p₁ p₂ : Nat),
    (Text.visible s₁)[k]? = some (c, p₁) ∧ (Text.visible s₂)[k]? = some (c, p₂) ∧
    Token.ofText s₁ = .error ⟨c, p₁⟩ ∧ Token.ofText s₂ = .error ⟨c, p₂⟩ ∧
    a.message = "Invalid character: '" ++ String.singleton c ++ "' at position " ++ toString p₁ ∧
    b.message = "Invalid character: '" ++ String.singleton c ++ "' at position " ++ toString p₂
  moved : (∃ ts, Token.ofText s₁ = .ok ts) → ∃ ts f, Token.ofText s₁ = .ok ts ∧
    Token.ofText s₂ = .ok (ts.map (Token.moved f)) ∧
    Token.Ordered f ts ∧ b.symbols = a.symbols.map (Symbol.moved f)

variable {s₁ s₂ : List Char} (h : s₁.filter (!Text.isBlank ·) = s₂.filter (!Text.isBlank ·))
include h

/-- The analysis of a readable text is that of any text with the same characters that are not
blank, moved. -/
theorem exists_ofText_moved (hr : ∀ c ∈ s₁, IsReadable c) :
    ∃ f, Token.Ordered f (stream s₁) ∧
      stream s₂ = (stream s₁).map (Token.moved f) ∧
      ∀ limit, ofText s₂ limit = (ofText s₁ limit).moved f := by
  have hr₂ : ∀ c ∈ s₂, IsReadable c := (forall_readable_congr h).mp hr
  have hkeys : (stream s₁).map Token.key = (stream s₂).map Token.key := by
    rw [Token.map_key_stream hr, Token.map_key_stream hr₂, h]
  obtain ⟨f, hf, hstream⟩ :=
    Token.exists_moved (Token.pairwise_stream s₁) (Token.pairwise_stream s₂) hkeys
  refine ⟨f, hf, hstream, ?_⟩
  intro limit
  by_cases hb : ∀ c ∈ s₁, Text.isBlank c = true
  · have hb₂ : ∀ c ∈ s₂, Text.isBlank c = true := (forall_blank_congr h).mp hb
    rw [ofText, ofText, run_blank hb, run_blank hb₂]
    rfl
  · have hb₂ : ¬∀ c ∈ s₂, Text.isBlank c = true := fun hall => hb ((forall_blank_congr h).mpr hall)
    rw [ofText, ofText, run_of_readable hb hr, run_of_readable hb₂ hr₂, hstream, runTokens_moved]
    rfl

theorem respaced_of_readable (hr : ∀ c ∈ s₁, IsReadable c) (limit : Int) :
    Respaced s₁ s₂ (ofText s₁ limit) (ofText s₂ limit) := by
  obtain ⟨f, hf, hstream, hmoved⟩ := exists_ofText_moved h hr
  have hr₂ : ∀ c ∈ s₂, IsReadable c := (forall_readable_congr h).mp hr
  rw [hmoved limit]
  constructor
  case success => rfl
  case errorType => rfl
  case accepted => exact fun _ => ⟨rfl, rfl⟩
  case rejected =>
    intro he
    obtain ⟨-, p, hrun, hmessage, herrors⟩ := exists_stop_of_syntaxError he
    obtain ⟨us, c, hsplit, -, -⟩ := Scanner.exists_walk_of_run hrun
    have hb : ¬∀ c ∈ s₁, Text.isBlank c = true := by
      intro hb
      rw [ofText, run_blank hb] at he
      simp [failure] at he
    obtain ⟨-, -, htokens, -⟩ := exists_views hb hr limit
    have hblamed : (ofText s₁ limit).tokens[us.length]? = some p.token := by
      rw [htokens, hsplit]
      simp
    have hblamed₂ : ((ofText s₁ limit).moved f).tokens[us.length]? = some (p.token.moved f) := by
      simp [Analysis.moved, hblamed]
    refine ⟨rfl, us.length, p.token, p.token.moved f, hblamed, hblamed₂, rfl, ?_, ?_⟩
    · rw [herrors, hmessage]
      rfl
    · simp only [Analysis.moved, herrors, hmessage]
      rfl
  case unreadable =>
    intro he
    obtain ⟨c, hc, hn⟩ := exists_unreadable he
    exact absurd (hr c hc) hn
  case moved =>
    intro _
    have hscan : Token.ofText s₂ = .ok ((stream s₁).map (Token.moved f)) := by
      rw [← hstream]
      exact Token.ofText_readable hr₂
    exact ⟨stream s₁, f, Token.ofText_readable hr, hscan, hf, rfl⟩

theorem respaced_of_unreadable (hr : ¬∀ c ∈ s₁, IsReadable c) (limit : Int) :
    Respaced s₁ s₂ (ofText s₁ limit) (ofText s₂ limit) := by
  obtain ⟨q₁, c, r₁, rfl, hq₁, hc⟩ := Token.exists_first_unreadable hr
  have hvisible : Text.isBlank c = false := Bool.eq_false_iff.mpr fun hb => hc (Or.inl hb)
  obtain ⟨q₂, r₂, rfl, hq⟩ := Text.exists_split_of_filter_eq hvisible h
  have hq₂ : ∀ d ∈ q₂, IsReadable d := (forall_readable_congr hq).mp hq₁
  have ha (q r : List Char) (hq : ∀ d ∈ q, IsReadable d) : ofText (q ++ c :: r) limit =
      failure .lexicalError (BadCharacter.message ⟨c, q.length⟩) := by
    rw [ofText, run_unreadable (not_blank_of_mem (by simp) hvisible) hq hc]
  have hscan (q r : List Char) (hq : ∀ d ∈ q, IsReadable d) :
      Token.ofText (q ++ c :: r) = .error ⟨c, q.length⟩ := Token.ofText_unreadable hq hc
  rw [ha q₁ r₁ hq₁, ha q₂ r₂ hq₂]
  constructor
  case success => rfl
  case errorType => rfl
  case accepted => simp [failure]
  case rejected => simp [failure]
  case unreadable =>
    intro _
    have hplace := Text.getElem?_visible q₂ r₂ hvisible
    rw [← hq] at hplace
    exact ⟨_, c, q₁.length, q₂.length, Text.getElem?_visible q₁ r₁ hvisible, hplace,
      hscan q₁ r₁ hq₁, hscan q₂ r₂ hq₂, BadCharacter.message_eq _, BadCharacter.message_eq _⟩
  case moved =>
    rintro ⟨ts, hts⟩
    rw [hscan q₁ r₁ hq₁] at hts
    exact absurd hts (by simp)

/-- Blanks matter to nothing but the offsets, in texts of every outcome. -/
theorem respaced_of_filter_eq (limit : Int) :
    Respaced s₁ s₂ (ofText s₁ limit) (ofText s₂ limit) := by
  by_cases hr : ∀ c ∈ s₁, IsReadable c
  · exact respaced_of_readable h hr limit
  · exact respaced_of_unreadable h hr limit

omit h in
/-- The end of input is the token that is missing, at 4 in one text and at 9 in the other. -/
theorem respaced_of_filter_eq_unclosed :
    let s := ['(', 'a', '+', 'a']
    let t := [' ', '(', 'a', '\n', '+', '\t', ' ', 'a', ' ']
    s.filter (!Text.isBlank ·) = t.filter (!Text.isBlank ·) ∧
      Respaced s t (ofText s 9) (ofText t 9) ∧
      (ofText t 9).errors = some [⟨(ofText s 9).message, some 9, none⟩] := by
  intro s t
  have hfilter : s.filter (!Text.isBlank ·) = t.filter (!Text.isBlank ·) := by decide
  exact ⟨hfilter, respaced_of_filter_eq hfilter 9, by decide⟩

end Analysis
end ExprLine
