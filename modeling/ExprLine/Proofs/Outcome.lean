import ExprLine.Proofs.Lexing
import ExprLine.Proofs.Recognition
import ExprLine.Proofs.Simulation
import ExprLine.Proofs.Tabulation
import ExprLine.Record.Wire

namespace ExprLine

open Descent (Accepts accepts_iff sentence sentence_append_end parse_scan)
open Token (lexemes stream)

def characterLeaf (c : Char) : Option Tree :=
  (Kind.ofChar? c).map fun k => (Token.mk k (some (String.singleton c)) 0).leaf

/-- The characters that are not blank are, in their order, a sentence of the grammar with no more
nonterminals open at once than the limit. -/
def IsSentence (s : List Char) (limit : Int) : Prop :=
  ∃ t, Derives .expr t ∧
    t.yield.map some = (s.filter (!Text.isBlank ·)).map characterLeaf ∧ (t.height : Int) ≤ limit

theorem map_leaf_lexemes {s : List Char} (h : ∀ c ∈ s, IsReadable c) (p : Nat) :
    ((lexemes s p).map Token.leaf).map some = (s.filter (!Text.isBlank ·)).map characterLeaf := by
  rw [List.map_map]
  refine Token.map_lexemes ?_ h p
  intro c k hk p
  rw [characterLeaf, hk]
  rfl

theorem sentence_stream (s : List Char) : sentence (stream s) = lexemes s 0 :=
  sentence_append_end (fun _ ha => (Token.of_mem_lexemes ha).1) rfl

theorem isSentence_iff_accepts {s : List Char} (h : ∀ c ∈ s, IsReadable c) {limit : Int} :
    IsSentence s limit ↔ ∃ t, Accepts (stream s) limit t := by
  have hy (t : Tree) : t.yield.map some = (s.filter (!Text.isBlank ·)).map characterLeaf ↔
      t.yield = (lexemes s 0).map Token.leaf := by
    rw [← map_leaf_lexemes h 0, List.map_inj_right fun _ _ => Option.some.inj]
  simp only [IsSentence, accepts_iff (Token.stream_ne_nil s) (Token.getLast_stream s),
    sentence_stream, hy]

/-- No token of a text is refused by the table. -/
theorem SymbolTable.exists_ofTokens_stream (s : List Char) : ∃ t, ofTokens (stream s) = .ok t := by
  apply exists_ofTokens
  intro a ha
  rcases List.mem_append.mp ha with ha | ha
  · obtain ⟨-, c, hc⟩ := Token.of_mem_lexemes ha
    exact Or.inr (by rw [hc]; rfl)
  · rw [List.mem_singleton.mp ha]
    exact Or.inl rfl

theorem BadCharacter.message_eq (e : BadCharacter) : e.message =
    "Invalid character: '" ++ String.singleton e.char ++ "' at position " ++ toString e.position := by
  simp only [message, FaultCode.fill, FaultCode.pieces, List.foldr_cons, List.foldr_nil,
    String.append_assoc, String.append_empty]

namespace Analysis

theorem not_blank_of_mem {s : List Char} {c : Char} (hc : c ∈ s) (h : Text.isBlank c = false) :
    ¬∀ d ∈ s, Text.isBlank d = true := by
  intro hs
  have hb := hs c hc
  rw [h] at hb
  exact absurd hb (by decide)

theorem run_blank {s : List Char} (h : ∀ c ∈ s, Text.isBlank c = true) (stop : Option String)
    (limit : Option Int) :
    run (some s) stop limit = ⟨failure .inputError FaultCode.emptyInput.template, []⟩ := by
  rw [run, if_pos (List.all_eq_true.mpr h)]

theorem run_unreadable {q r : List Char} {c : Char} (hb : ¬∀ d ∈ q ++ c :: r, Text.isBlank d = true)
    (hq : ∀ d ∈ q, IsReadable d) (hc : ¬IsReadable c) (stop : Option String) (limit : Option Int) :
    run (some (q ++ c :: r)) stop limit =
      ⟨failure .lexicalError (BadCharacter.message ⟨c, q.length⟩), []⟩ := by
  rw [run, if_neg (fun h => hb (List.all_eq_true.mp h)), Token.ofText_unreadable hq hc]

theorem run_of_readable {s : List Char} (hb : ¬∀ c ∈ s, Text.isBlank c = true)
    (hr : ∀ c ∈ s, IsReadable c) (stop : Option String) (limit : Option Int) :
    run (some s) stop limit = runTokens (stream s) stop limit := by
  rw [run, if_neg (fun h => hb (List.all_eq_true.mp h)), Token.ofText_readable hr]

/-- A readable text gets as far as its verdict: it is accepted, or the scanner stops in it. -/
theorem run_readable {s : List Char} (hb : ¬∀ c ∈ s, Text.isBlank c = true)
    (hr : ∀ c ∈ s, IsReadable c) (limit : Int) :
    ∃ table, SymbolTable.ofTokens (stream s) = .ok table ∧
      ((∃ t, Scanner.run limit .start (stream s) = none ∧ Accepts (stream s) limit t ∧
          (run (some s) none (some limit)).analysis =
            ofVerdict (stream s) table ⟨true, some t, []⟩) ∨
        ∃ p, Scanner.run limit .start (stream s) = some p ∧
          (¬∃ t, Accepts (stream s) limit t) ∧
          (run (some s) none (some limit)).analysis =
            ofVerdict (stream s) table ⟨false, none, [p.diagnostic]⟩) := by
  obtain ⟨table, ht⟩ := SymbolTable.exists_ofTokens_stream s
  have ha {v : Verdict} (hv : parse (stream s) (some limit) = .ok v) :
      (run (some s) none (some limit)).analysis = ofVerdict (stream s) table v := by
    rw [run, if_neg (fun h => hb (List.all_eq_true.mp h)), Token.ofText_readable hr]
    simp [runTokens, ht, hv]
  refine ⟨table, ht, ?_⟩
  rcases parse_scan (Token.stream_ne_nil s) (Token.getLast_stream s) limit with
    ⟨hrun, t, hv⟩ | ⟨p, hrun, hv⟩
  · exact Or.inl ⟨t, hrun, ⟨_, hv, rfl, rfl⟩, ha hv⟩
  · refine Or.inr ⟨p, hrun, ?_, ha hv⟩
    rintro ⟨t, v, hv', hs, -⟩
    obtain rfl := Except.ok.inj (hv.symm.trans hv')
    simp at hs

/-- Only a character that no expression may hold makes a lexical error. -/
theorem exists_unreadable {s : List Char} {limit : Int}
    (h : (run (some s) none (some limit)).analysis.errorType = some .lexicalError) :
    ∃ c ∈ s, ¬IsReadable c := by
  by_contra hn
  have hr : ∀ c ∈ s, IsReadable c := by simpa using hn
  by_cases hb : ∀ c ∈ s, Text.isBlank c = true
  · rw [run_blank hb] at h
    simp [failure] at h
  · obtain ⟨table, -, ⟨t, -, -, ha⟩ | ⟨p, -, -, ha⟩⟩ := run_readable hb hr limit
    · simp [ha, ofVerdict] at h
    · simp [ha, ofVerdict] at h

/-- No analysis gets anywhere with a blank text or with one that has no tokens. -/
theorem readable_of_success {s : List Char} {stop : Option String} {limit : Int}
    (h : (run (some s) stop (some limit)).analysis.success = true) :
    (¬∀ c ∈ s, Text.isBlank c = true) ∧ ∀ c ∈ s, IsReadable c := by
  by_cases hb : ∀ c ∈ s, Text.isBlank c = true
  · rw [run_blank hb] at h
    simp [failure] at h
  by_cases hr : ∀ c ∈ s, IsReadable c
  · exact ⟨hb, hr⟩
  · obtain ⟨q, c, r, rfl, hq, hc⟩ := Token.exists_first_unreadable hr
    rw [run_unreadable hb hq hc] at h
    simp [failure] at h

def IsBlank (source : Option (List Char)) : Prop :=
  source = none ∨ ∃ s, source = some s ∧ ∀ c ∈ s, Text.isBlank c = true

/-- The record of an analysis that found no tokens. -/
def failureRecord (errorType message : String) : Json :=
  .obj [("success", .bool false), ("errorType", .str errorType), ("message", .str message),
    ("tokens", .arr []), ("symbolTable", .arr []), ("parseTree", .null)]

/-- The record of tokens that are no expression: one diagnostic, with the message of the whole. -/
def rejectedRecord (tokens : List Token) (table : SymbolTable) (message : String) (position : Int)
    (token : Option String) : Json :=
  .obj [("success", .bool false), ("errorType", .str "SYNTAX_ERROR"), ("message", .str message),
    ("tokens", .arr (tokens.map Token.toJson)),
    ("symbolTable", .arr (table.symbols.map Symbol.toJson)),
    ("errors", .arr [.obj [("message", .str message), ("position", .int position),
      ("token", .text token)]]),
    ("parseTree", .null)]

def acceptedRecord (tokens : List Token) (table : SymbolTable) (tree : Tree) : Json :=
  .obj [("success", .bool true), ("errorType", .null), ("message", .str "Input string accepted!"),
    ("tokens", .arr (tokens.map Token.toJson)),
    ("symbolTable", .arr (table.symbols.map Symbol.toJson)),
    ("statistics", table.tally.toJson), ("parseTree", tree.toJson)]

/-- Which of the four outcomes an analysis has, and its whole record in each. -/
structure Outcome (source : Option (List Char)) (limit : Int) (a : Analysis) : Prop where
  inputError_iff : a.errorType = some .inputError ↔ IsBlank source
  lexicalError_iff : a.errorType = some .lexicalError ↔
    ¬IsBlank source ∧ ∃ s, source = some s ∧ ∃ c ∈ s, ¬IsReadable c
  success_iff : a.success = true ↔ ¬IsBlank source ∧
    ∃ s, source = some s ∧ (∀ c ∈ s, IsReadable c) ∧ IsSentence s limit
  syntaxError_iff : a.errorType = some .syntaxError ↔ ¬IsBlank source ∧
    ∃ s, source = some s ∧ (∀ c ∈ s, IsReadable c) ∧ ¬IsSentence s limit
  errorType_eq_none_iff : a.errorType = none ↔ a.success = true
  ne_internalError : a.errorType ≠ some .internalError
  inputError_record : a.errorType = some .inputError →
    a.toJson = failureRecord "INPUT_ERROR" "Input string is required"
  lexicalError_record : a.errorType = some .lexicalError → ∃ q c r,
    source = some (q ++ c :: r) ∧ (∀ d ∈ q, IsReadable d) ∧ ¬IsReadable c ∧
    a.toJson = failureRecord "LEXICAL_ERROR"
      ("Invalid character: '" ++ String.singleton c ++ "' at position " ++ toString q.length)
  syntaxError_record : a.errorType = some .syntaxError → ∃ s tokens table message position token,
    source = some s ∧ Token.ofText s = .ok tokens ∧ SymbolTable.ofTokens tokens = .ok table ∧
    a.toJson = rejectedRecord tokens table message position token ∧
    ((∃ (p : Nat) (c : Char), s[p]? = some c ∧ Text.isBlank c = false ∧ position = p ∧
        token = some (String.singleton c)) ∨
      (position = s.length ∧ token = none))
  success_record : a.success = true → ∃ s tokens table t, source = some s ∧
    Token.ofText s = .ok tokens ∧ SymbolTable.ofTokens tokens = .ok table ∧ Derives .expr t ∧
    t.yield.map some = (s.filter (!Text.isBlank ·)).map characterLeaf ∧
    a.toJson = acceptedRecord tokens table t

theorem outcome_blank {source : Option (List Char)} (hb : IsBlank source) (limit : Int) :
    Outcome source limit (run source none (some limit)).analysis := by
  have ha : (run source none (some limit)).analysis =
      failure .inputError "Input string is required" := by
    rcases hb with rfl | ⟨s, rfl, hs⟩
    · rfl
    · rw [run_blank hs]
      rfl
  rw [ha]
  exact {
    inputError_iff := by simp [failure, hb]
    lexicalError_iff := by simp [failure, hb]
    success_iff := by simp [failure, hb]
    syntaxError_iff := by simp [failure, hb]
    errorType_eq_none_iff := by simp [failure]
    ne_internalError := by simp [failure]
    inputError_record := fun _ => rfl
    lexicalError_record := by simp [failure]
    syntaxError_record := by simp [failure]
    success_record := by simp [failure] }

theorem not_isBlank_some {s : List Char} (h : ¬IsBlank (some s)) :
    ¬∀ c ∈ s, Text.isBlank c = true := by
  intro hs
  exact h (Or.inr ⟨s, rfl, hs⟩)

theorem of_source {s : List Char} {P : List Char → Prop} (h : ∃ s', some s = some s' ∧ P s') :
    P s := by
  obtain ⟨s', hs, hp⟩ := h
  obtain rfl := Option.some.inj hs
  exact hp

theorem outcome_unreadable {q r : List Char} {c : Char} (hb : ¬IsBlank (some (q ++ c :: r)))
    (hq : ∀ d ∈ q, IsReadable d) (hc : ¬IsReadable c) (limit : Int) :
    Outcome (some (q ++ c :: r)) limit (run (some (q ++ c :: r)) none (some limit)).analysis := by
  have hn : ¬∀ d ∈ q ++ c :: r, IsReadable d := by
    intro h
    exact hc (h c (by simp))
  rw [run_unreadable (not_isBlank_some hb) hq hc, BadCharacter.message_eq]
  exact {
    inputError_iff := by simp [failure, hb]
    lexicalError_iff := ⟨fun _ => ⟨hb, _, rfl, c, by simp, hc⟩, fun _ => rfl⟩
    success_iff := by
      refine ⟨by simp [failure], ?_⟩
      intro h
      exact absurd (of_source h.2).1 hn
    syntaxError_iff := by
      refine ⟨by simp [failure], ?_⟩
      intro h
      exact absurd (of_source h.2).1 hn
    errorType_eq_none_iff := by simp [failure]
    ne_internalError := by simp [failure]
    inputError_record := by simp [failure]
    lexicalError_record := fun _ => ⟨q, c, r, rfl, hq, hc, rfl⟩
    syntaxError_record := by simp [failure]
    success_record := by simp [failure] }

theorem outcome_accepted {s : List Char} (hb : ¬IsBlank (some s)) (hr : ∀ c ∈ s, IsReadable c)
    {limit : Int} {t : Tree} {table : SymbolTable} (ht : Accepts (stream s) limit t)
    (htable : SymbolTable.ofTokens (stream s) = .ok table) :
    Outcome (some s) limit (ofVerdict (stream s) table ⟨true, some t, []⟩) := by
  have hsent : IsSentence s limit := (isSentence_iff_accepts hr).mpr ⟨t, ht⟩
  obtain ⟨hder, hy, -⟩ := Descent.derives_of_accepts ht
  rw [sentence_stream] at hy
  exact {
    inputError_iff := by simp [ofVerdict, hb]
    lexicalError_iff := by
      refine ⟨by simp [ofVerdict], ?_⟩
      intro h
      obtain ⟨c, hc, hn⟩ := of_source h.2
      exact absurd (hr c hc) hn
    success_iff := ⟨fun _ => ⟨hb, s, rfl, hr, hsent⟩, fun _ => rfl⟩
    syntaxError_iff := by
      refine ⟨by simp [ofVerdict], ?_⟩
      intro h
      exact absurd hsent (of_source h.2).2
    errorType_eq_none_iff := by simp [ofVerdict]
    ne_internalError := by simp [ofVerdict]
    inputError_record := by simp [ofVerdict]
    lexicalError_record := by simp [ofVerdict]
    syntaxError_record := by simp [ofVerdict]
    success_record := fun _ => ⟨s, stream s, table, t, rfl, Token.ofText_readable hr, htable, hder,
      by rw [hy, map_leaf_lexemes hr], rfl⟩ }

theorem outcome_rejected {s : List Char} (hb : ¬IsBlank (some s)) (hr : ∀ c ∈ s, IsReadable c)
    {limit : Int} {p : Scanner.Stop} {table : SymbolTable}
    (hp : Scanner.run limit .start (stream s) = some p)
    (hn : ¬∃ t, Accepts (stream s) limit t)
    (htable : SymbolTable.ofTokens (stream s) = .ok table) :
    Outcome (some s) limit (ofVerdict (stream s) table ⟨false, none, [p.diagnostic]⟩) := by
  have hsent : ¬IsSentence s limit := by
    intro h
    exact hn ((isSentence_iff_accepts hr).mp h)
  obtain ⟨us, d, hsplit, -, -⟩ := Scanner.exists_walk_of_run hp
  have hplace : (∃ (i : Nat) (c : Char), s[i]? = some c ∧ Text.isBlank c = false ∧
      p.token.position = i ∧ p.token.lexeme = some (String.singleton c)) ∨
      (p.token.position = s.length ∧ p.token.lexeme = none) := by
    rcases Token.split_stream hsplit with ⟨-, ha, -⟩ | ⟨q, c, r, k, rfl, hk, -, ha⟩
    · exact Or.inr ⟨by rw [ha]; rfl, by rw [ha]; rfl⟩
    · have hl : IsLexeme c := Kind.isSome_ofChar?_iff.mp (by rw [hk]; rfl)
      exact Or.inl ⟨q.length, c, by simp, Kind.not_isBlank_of_isLexeme hl, by rw [ha], by rw [ha]⟩
  exact {
    inputError_iff := by simp [ofVerdict, hb]
    lexicalError_iff := by
      refine ⟨by simp [ofVerdict], ?_⟩
      intro h
      obtain ⟨c, hc, hu⟩ := of_source h.2
      exact absurd (hr c hc) hu
    success_iff := by
      refine ⟨by simp [ofVerdict], ?_⟩
      intro h
      exact absurd (of_source h.2).2 hsent
    syntaxError_iff := ⟨fun _ => ⟨hb, s, rfl, hr, hsent⟩, fun _ => rfl⟩
    errorType_eq_none_iff := by simp [ofVerdict]
    ne_internalError := by simp [ofVerdict]
    inputError_record := by simp [ofVerdict]
    lexicalError_record := by simp [ofVerdict]
    syntaxError_record := fun _ => ⟨s, stream s, table, p.message, p.token.position,
      p.token.lexeme, rfl, Token.ofText_readable hr, htable, rfl, hplace⟩
    success_record := by simp [ofVerdict] }

/-- Every source has one of the four outcomes, told apart by its characters, and no analysis
fails internally. -/
theorem outcome_of_source (source : Option (List Char)) (limit : Int) :
    Outcome source limit (run source none (some limit)).analysis := by
  by_cases hb : IsBlank source
  · exact outcome_blank hb limit
  obtain ⟨s, rfl⟩ : ∃ s, source = some s := by
    cases source with
    | none => exact absurd (Or.inl rfl) hb
    | some s => exact ⟨s, rfl⟩
  by_cases hr : ∀ c ∈ s, IsReadable c
  · obtain ⟨table, ht, ⟨t, -, hacc, ha⟩ | ⟨p, hp, hn, ha⟩⟩ :=
      run_readable (not_isBlank_some hb) hr limit
    · rw [ha]
      exact outcome_accepted hb hr hacc ht
    · rw [ha]
      exact outcome_rejected hb hr hp hn ht
  · obtain ⟨q, c, r, rfl, hq, hc⟩ := Token.exists_first_unreadable hr
    exact outcome_unreadable hb hq hc limit

end Analysis
end ExprLine
