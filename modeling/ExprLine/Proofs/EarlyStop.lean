import ExprLine.Proofs.DepthLimit
import ExprLine.Proofs.Outcome

namespace ExprLine

open Descent (append_ne_append parse_scan)
open Token (stream)

namespace Stage

/-- The stages a run goes through that is to stop after the one named: all of them if none is. -/
def through (stop : Option String) : List Stage → List Stage
  | [] => []
  | g :: gs => if stop = some g.name then [g] else g :: through stop gs

theorem through_isPrefix (stop : Option String) (gs : List Stage) : through stop gs <+: gs := by
  induction gs with
  | nil => exact List.prefix_refl _
  | cons g gs ih =>
    rw [through]
    split
    · exact List.prefix_append [g] gs
    · exact (List.prefix_cons_inj g).mpr ih

end Stage

namespace Scanner.Stop

theorem message_ne_accepted (p : Stop) : p.message ≠ Analysis.accepted := by
  obtain ⟨cause, a, r⟩ := p
  have hdiffer {m x : String} (hm : 2 ≤ m.toList.length)
      (hn : m.toList.take 2 ≠ Analysis.accepted.toList.take 2) : m ++ x ≠ Analysis.accepted := by
    rw [← String.append_empty (s := Analysis.accepted)]
    exact append_ne_append hm (by decide) hn x ""
  cases cause with
  | nestingTooDeep m =>
    have hm : (Stop.mk (.nestingTooDeep m) a r).message =
        "Expression is nested too deeply (maximum depth is " ++ (toString m ++ ")") := by
      rw [← String.append_assoc]
      rfl
    rw [hm]
    exact hdiffer (by decide) (by decide)
  | expectedOperand => exact hdiffer (by decide) (by decide)
  | expectedClosing => exact hdiffer (by decide) (by decide)
  | unexpectedToken => exact hdiffer (by decide) (by decide)

end Scanner.Stop

theorem BadCharacter.message_ne_accepted (e : BadCharacter) : e.message ≠ Analysis.accepted := by
  rw [message_eq, String.append_assoc, String.append_assoc,
    ← String.append_empty (s := Analysis.accepted)]
  exact append_ne_append (n := 3) (by decide) (by decide) (by decide) _ _

namespace Analysis

/-- Nothing came of the source, not even tokens. -/
def Barred (a : Analysis) : Prop :=
  a.errorType = some .inputError ∨ a.errorType = some .lexicalError

/-- The stages get as far as a table and a verdict with these tokens. -/
structure Completes (limit : Int) (ts : List Token) (t : SymbolTable) (v : Verdict) : Prop where
  table : SymbolTable.ofTokens ts = .ok t
  verdict : parse ts (some limit) = .ok v
  errors : v.success = false → ∃ p : Scanner.Stop, v.errors = [p.diagnostic]

theorem completes_stream (s : List Char) (limit : Int) : ∃ t v, Completes limit (stream s) t v := by
  obtain ⟨t, ht⟩ := SymbolTable.exists_ofTokens_stream s
  rcases parse_scan (Token.stream_ne_nil s) (Token.getLast_stream s) limit with
    ⟨-, tree, hv⟩ | ⟨p, -, hv⟩
  · exact ⟨t, _, ht, hv, by simp⟩
  · exact ⟨t, _, ht, hv, fun _ => ⟨p, rfl⟩⟩

/-- A source fails before the first stage is complete, or it has tokens with which all stages can
be completed. -/
theorem run_cases (source : Option (List Char)) (limit : Int) :
    (∃ a : Analysis, Barred a ∧ a.message ≠ accepted ∧ ∀ stop, run source stop (some limit) = ⟨a, []⟩) ∨
    ∃ ts t v, Completes limit ts t v ∧
      ∀ stop, run source stop (some limit) = runTokens ts stop (some limit) := by
  have hempty : FaultCode.emptyInput.template ≠ accepted := by decide
  cases source with
  | none => exact Or.inl ⟨_, Or.inl rfl, hempty, fun stop => rfl⟩
  | some s =>
    by_cases hb : ∀ c ∈ s, Text.isBlank c = true
    · exact Or.inl ⟨_, Or.inl rfl, hempty, fun stop => run_blank hb stop _⟩
    by_cases hr : ∀ c ∈ s, IsReadable c
    · obtain ⟨t, v, hc⟩ := completes_stream s limit
      exact Or.inr ⟨stream s, t, v, hc, fun stop => run_of_readable hb hr stop _⟩
    · obtain ⟨q, c, r, rfl, hq, hc⟩ := Token.exists_first_unreadable hr
      exact Or.inl ⟨_, Or.inr rfl, BadCharacter.message_ne_accepted _,
        fun stop => run_unreadable hb hq hc stop _⟩

section

variable {limit : Int} {ts : List Token} {t : SymbolTable} {v : Verdict}

theorem not_barred_ofVerdict : ¬Barred (ofVerdict ts t v) := by
  rw [Barred, ofVerdict]
  split <;> simp

theorem tokens_ofVerdict : (ofVerdict ts t v).tokens = ts := by
  rw [ofVerdict]
  split <;> rfl

theorem symbols_ofVerdict : (ofVerdict ts t v).symbols = t.symbols := by
  rw [ofVerdict]
  split <;> rfl

theorem tally_ofVerdict (h : (ofVerdict ts t v).success = true) :
    (ofVerdict ts t v).tally = some t.tally := by
  rw [ofVerdict] at h ⊢
  split
  · rfl
  · next hv =>
    rw [if_neg hv] at h
    simp at h

variable (h : Completes limit ts t v)

theorem runTokens_tokens : runTokens ts (some "tokens") (some limit) =
    ⟨{ success := true, errorType := none, message := "Analysis stopped after stage 'tokens'",
       tokens := ts, symbols := [], tally := none, errors := none, tree := none },
      [.tokens ts]⟩ := rfl

include h

theorem runTokens_symbolTable : runTokens ts (some "symbol_table") (some limit) =
    ⟨{ success := true, errorType := none,
       message := "Analysis stopped after stage 'symbol_table'", tokens := ts,
       symbols := t.symbols, tally := some t.tally, errors := none, tree := none },
      [.tokens ts, .symbolTable t]⟩ := by
  rw [runTokens, if_neg (by decide), h.table]
  rfl

theorem runTokens_full {stop : Option String} (ht : stop ≠ some "tokens")
    (hs : stop ≠ some "symbol_table") : runTokens ts stop (some limit) =
      ⟨ofVerdict ts t v, [.tokens ts, .symbolTable t, .parseTree v]⟩ := by
  have ht' : stop ≠ some Stage.tokens.name := ht
  have hs' : stop ≠ some Stage.symbolTable.name := hs
  simp only [runTokens, if_neg ht', h.table, if_neg hs', h.verdict]

/-- The stages completed are those up to the one to stop after. -/
theorem stages_runTokens (stop : Option String) :
    (runTokens ts stop (some limit)).products.map Product.stage = Stage.through stop Stage.all := by
  by_cases ht : stop = some "tokens"
  · have hthrough : Stage.through (some "tokens") Stage.all = [.tokens] := by decide
    rw [ht, runTokens_tokens, hthrough]
    rfl
  by_cases hs : stop = some "symbol_table"
  · have hthrough : Stage.through (some "symbol_table") Stage.all = [.tokens, .symbolTable] := by
      decide
    rw [hs, runTokens_symbolTable h, hthrough]
    rfl
  · have ht' : stop ≠ some Stage.tokens.name := ht
    have hs' : stop ≠ some Stage.symbolTable.name := hs
    have hthrough : Stage.through stop Stage.all = Stage.all := by
      simp [Stage.all, Stage.through, ht', hs']
    rw [runTokens_full h ht hs, hthrough]
    rfl

theorem message_ofVerdict_iff : (ofVerdict ts t v).message = accepted ↔ v.success = true := by
  cases hv : v.success with
  | true => simp [ofVerdict, hv]
  | false =>
    obtain ⟨p, hp⟩ := h.errors hv
    have hmessage : (ofVerdict ts t v).message = p.message := by
      rw [ofVerdict, hv, hp]
      rfl
    rw [hmessage]
    simp [p.message_ne_accepted]

end

/-- How a run that may stop early stands to the full one. The products of its stages are the same
as far as it goes, and so is what is said of them. -/
structure Stopped (stop : Option String) (r full : Run) : Prop where
  barred : Barred full.analysis → r = full ∧ r.products = []
  tokens : ¬Barred full.analysis → stop = some "tokens" → r.analysis = {
    success := true, errorType := none, message := "Analysis stopped after stage 'tokens'",
    tokens := full.analysis.tokens, symbols := [], tally := none, errors := none, tree := none }
  symbolTable : ¬Barred full.analysis → stop = some "symbol_table" → ∃ t,
    SymbolTable.ofTokens full.analysis.tokens = .ok t ∧ full.analysis.symbols = t.symbols ∧
    (full.analysis.success = true → full.analysis.tally = some t.tally) ∧ r.analysis = {
      success := true, errorType := none, message := "Analysis stopped after stage 'symbol_table'",
      tokens := full.analysis.tokens, symbols := full.analysis.symbols, tally := some t.tally,
      errors := none, tree := none }
  whole : stop ≠ some "tokens" → stop ≠ some "symbol_table" → r = full
  stages : ¬Barred full.analysis → r.products.map Product.stage = Stage.through stop Stage.all
  stages_isPrefix : r.products.map Product.stage <+: Stage.all
  products_isPrefix : r.products <+: full.products
  accepted_iff : r.analysis.message = accepted ↔
    ∃ v, Product.parseTree v ∈ r.products ∧ v.success = true

theorem stopped_of_barred {a : Analysis} (ha : Barred a) (hm : a.message ≠ accepted)
    (stop : Option String) : Stopped stop ⟨a, []⟩ ⟨a, []⟩ where
  barred := fun _ => ⟨rfl, rfl⟩
  tokens := fun hn => absurd ha hn
  symbolTable := fun hn => absurd ha hn
  whole := fun _ _ => rfl
  stages := fun hn => absurd ha hn
  stages_isPrefix := List.nil_prefix
  products_isPrefix := List.prefix_refl _
  accepted_iff := by simp [hm]

theorem stopped_of_completes {limit : Int} {ts : List Token} {t : SymbolTable} {v : Verdict}
    (h : Completes limit ts t v) (stop : Option String) :
    Stopped stop (runTokens ts stop (some limit)) (runTokens ts none (some limit)) := by
  have hfull : runTokens ts none (some limit) =
      ⟨ofVerdict ts t v, [.tokens ts, .symbolTable t, .parseTree v]⟩ :=
    runTokens_full h (by decide) (by decide)
  have hstages := stages_runTokens h stop
  have hprefix := Stage.through_isPrefix stop Stage.all
  rw [← hstages] at hprefix
  rw [hfull]
  by_cases ht : stop = some "tokens"
  · subst ht
    rw [runTokens_tokens] at hstages hprefix ⊢
    exact {
      barred := fun hb => absurd hb not_barred_ofVerdict
      tokens := fun _ _ => by rw [tokens_ofVerdict]
      symbolTable := by simp
      whole := fun hn => absurd rfl hn
      stages := fun _ => hstages
      stages_isPrefix := hprefix
      products_isPrefix := List.prefix_append [_] _
      accepted_iff := by simp [accepted] }
  by_cases hs : stop = some "symbol_table"
  · subst hs
    rw [runTokens_symbolTable h] at hstages hprefix ⊢
    exact {
      barred := fun hb => absurd hb not_barred_ofVerdict
      tokens := by simp
      symbolTable := by
        intro _ _
        rw [tokens_ofVerdict]
        exact ⟨t, h.table, symbols_ofVerdict, tally_ofVerdict, by rw [symbols_ofVerdict]⟩
      whole := fun _ hn => absurd rfl hn
      stages := fun _ => hstages
      stages_isPrefix := hprefix
      products_isPrefix := List.prefix_append [_, _] _
      accepted_iff := by simp [accepted] }
  · rw [runTokens_full h ht hs] at hstages hprefix ⊢
    exact {
      barred := fun hb => absurd hb not_barred_ofVerdict
      tokens := fun _ hn => absurd hn ht
      symbolTable := fun _ hn => absurd hn hs
      whole := fun _ _ => rfl
      stages := fun _ => hstages
      stages_isPrefix := hprefix
      products_isPrefix := List.prefix_refl _
      accepted_iff := by simp [message_ofVerdict_iff h] }

/-- A run that is to stop after a stage agrees with the full run of the same source, whatever
becomes of that one, and only a parse that succeeded is called accepted. -/
theorem stopped_of_source (source : Option (List Char)) (limit : Int) (stop : Option String) :
    Stopped stop (run source stop (some limit)) (run source none (some limit)) := by
  rcases run_cases source limit with ⟨a, ha, hm, hrun⟩ | ⟨ts, t, v, h, hrun⟩
  · rw [hrun, hrun]
    exact stopped_of_barred ha hm stop
  · rw [hrun, hrun]
    exact stopped_of_completes h stop

end Analysis
end ExprLine
