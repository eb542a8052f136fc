import ExprLine.Analysis.Run

namespace ExprLine

/-- The token at the offset that `f` gives for its own. -/
def Token.moved (f : Int → Int) (a : Token) : Token := { a with position := f a.position }

def Blame.moved (f : Int → Int) (b : Blame) : Blame := { b with token := b.token.moved f }

def Diagnostic.moved (f : Int → Int) (d : Diagnostic) : Diagnostic :=
  { d with position := d.position.map f }

def Verdict.moved (f : Int → Int) (v : Verdict) : Verdict :=
  { v with errors := v.errors.map (Diagnostic.moved f) }

def Symbol.moved (f : Int → Int) (e : Symbol) : Symbol :=
  { e with first := f e.first, occurrences := e.occurrences.map f }

def SymbolTable.moved (f : Int → Int) (t : SymbolTable) : SymbolTable :=
  { t with symbols := t.symbols.map (Symbol.moved f) }

def Product.moved (f : Int → Int) : Product → Product
  | tokens ts => tokens (ts.map (Token.moved f))
  | symbolTable t => symbolTable (t.moved f)
  | parseTree v => parseTree (v.moved f)

/-- All offsets of an analysis are in its tokens, its symbols and its errors. -/
def Analysis.moved (f : Int → Int) (a : Analysis) : Analysis :=
  { a with
    tokens := a.tokens.map (Token.moved f)
    symbols := a.symbols.map (Symbol.moved f)
    errors := a.errors.map (List.map (Diagnostic.moved f)) }

def Run.moved (f : Int → Int) (r : Run) : Run :=
  ⟨r.analysis.moved f, r.products.map (Product.moved f)⟩

variable (f : Int → Int)

theorem Token.isEnd_moved (a : Token) : (a.moved f).isEnd = a.isEnd := rfl

/-- A message shows the token it blames and not where that stands. -/
theorem Blame.diagnostic_moved (b : Blame) : (b.moved f).diagnostic = b.diagnostic.moved f := rfl

theorem Diagnostic.message_moved (d : Diagnostic) : (d.moved f).message = d.message := rfl

namespace Descent

def State.moved (s : State) : State :=
  { s with
    current := s.current.moved f
    ahead := s.ahead.map (Token.moved f)
    blames := s.blames.map (Blame.moved f) }

def movedResult {α : Type} : Except Blame α × State → Except Blame α × State
  | (.error b, s) => (.error (b.moved f), s.moved f)
  | (.ok x, s) => (.ok x, s.moved f)

/-- The procedure decides nothing by an offset: with all tokens moved it does the same. -/
def Blind {α : Type} (p : Procedure α) : Prop := ∀ s, p (s.moved f) = movedResult f (p s)

namespace State

theorem kind_moved (s : State) : (s.moved f).current.kind = s.current.kind := rfl

theorem enter_moved (s : State) : (s.moved f).enter = s.enter.moved f := rfl

theorem advance_moved (s : State) : (s.moved f).advance = s.advance.moved f := by
  obtain ⟨a, ahead, depth, blames⟩ := s
  cases ahead <;> rfl

theorem fail_moved {α : Type} (s : State) (c : Cause) :
    (s.moved f).fail (α := α) c = movedResult f (s.fail c) := by
  simp [fail, movedResult, moved, Blame.moved]

end State

section

variable {f} {sub : Nonterminal → Procedure Tree} (hsub : ∀ n, Blind f (sub n))
include hsub

theorem item_blind (i : Item) : Blind f (item sub i) := by
  intro s
  cases i with
  | token k =>
    rw [item, item, State.kind_moved]
    by_cases hk : s.current.kind = k
    · rw [if_pos hk, if_pos hk, State.advance_moved]
      rfl
    · rw [if_neg hk, if_neg hk, State.fail_moved]
  | sub n => exact hsub n s
  | empty => rfl

theorem items_blind (is : List Item) : Blind f (items sub is) := by
  induction is with
  | nil =>
    intro s
    rfl
  | cons i is ih =>
    intro s
    have hone := item_blind hsub i s
    rw [items, items, hone]
    rcases item sub i s with ⟨b | t, s₁⟩
    · rfl
    · have hmore := ih s₁
      simp only [movedResult, hmore]
      rcases items sub is s₁ with ⟨b | ts, s₂⟩ <;> rfl

end

/-- One level more is blind if those below it are: productions are selected by kinds alone. -/
theorem derive_blind (limit : Int) (room : Nat) (n : Nonterminal) :
    Blind f (derive limit room n) := by
  induction room generalizing n with
  | zero =>
    intro s
    exact State.fail_moved f s _
  | succ room ih =>
    intro s
    rw [derive, derive, State.kind_moved]
    cases production n s.current.kind with
    | none => exact State.fail_moved f s _
    | some is =>
      have hall := items_blind ih is s.enter
      simp only [State.enter_moved, hall]
      rcases items (derive limit room) is s.enter with ⟨b | ts, s₁⟩ <;> rfl

theorem whole_blind (limit : Int) : Blind f (whole limit) := by
  intro s
  have hexpr : procedure limit .expr (s.moved f) = movedResult f (procedure limit .expr s) :=
    derive_blind f limit _ .expr s
  rw [whole, whole, hexpr]
  rcases procedure limit .expr s with ⟨b | t, s₁⟩
  · rfl
  · have hend : (s₁.moved f).current.isEnd = s₁.current.isEnd := rfl
    simp only [movedResult, hend]
    split
    · rfl
    · exact State.fail_moved f s₁ _

theorem start?_moved (ts : List Token) :
    State.start? (ts.map (Token.moved f)) = (State.start? ts).map (State.moved f) := by
  cases ts with
  | nil => rfl
  | cons a ts =>
    have hlast : (((a :: ts).map (Token.moved f)).getLast (by simp)).isEnd =
        ((a :: ts).getLast (by simp)).isEnd := by
      rw [List.getLast_map, Token.isEnd_moved]
    simp only [List.map_cons] at hlast ⊢
    rw [State.start?, State.start?, hlast]
    split <;> rfl

end Descent

/-- With its tokens moved an expression has the same tree, and the same errors, moved. -/
theorem parse_moved (ts : List Token) (limit : Option Int) :
    parse (ts.map (Token.moved f)) limit = (parse ts limit).map (Verdict.moved f) := by
  have hstart := Descent.start?_moved f ts
  cases hs : Descent.State.start? ts with
  | none => simp only [parse, hstart, hs, Option.map_none, Except.map]
  | some s =>
    cases limit with
    | none => simp only [parse, hstart, hs, Option.map_some, Except.map]
    | some limit =>
      have hwhole := Descent.whole_blind f limit s
      simp only [parse, hstart, hs, Option.map_some, hwhole]
      rcases Descent.whole limit s with ⟨b | t, s₁⟩
      · have herrors : (s₁.blames.map (Blame.moved f)).map Blame.diagnostic =
            (s₁.blames.map Blame.diagnostic).map (Diagnostic.moved f) := by
          rw [List.map_map, List.map_map]
          exact List.map_congr_left fun b _ => Blame.diagnostic_moved f b
        simp only [Descent.movedResult, Descent.State.moved, herrors]
        rfl
      · rfl

namespace SymbolTable

theorem insert_moved (k : Kind) (x : String) (p : Int) (es : List Symbol) :
    insert k x (f p) (es.map (Symbol.moved f)) = (insert k x p es).map (Symbol.moved f) := by
  induction es with
  | nil => rfl
  | cons e es ih =>
    have hkey : (e.moved f).kind = k ∧ (e.moved f).lexeme = x ↔ e.kind = k ∧ e.lexeme = x := Iff.rfl
    rw [List.map_cons, insert, insert, ih]
    simp only [hkey]
    split
    · simp [Symbol.moved]
    · rfl

theorem add_moved (t : SymbolTable) (a : Token) :
    (t.moved f).add (a.moved f) = (t.add a).map (SymbolTable.moved f) := by
  rw [add, add, Token.isEnd_moved]
  split
  · rfl
  · have hlexeme : (a.moved f).lexeme = a.lexeme := rfl
    rw [hlexeme]
    cases a.lexeme with
    | none => rfl
    | some x =>
      have hinsert := insert_moved f a.kind x a.position t.symbols
      simp only [moved, Token.moved, hinsert]
      rfl

theorem foldlM_add_moved (ts : List Token) (t : SymbolTable) :
    (ts.map (Token.moved f)).foldlM add (t.moved f) = (ts.foldlM add t).map (SymbolTable.moved f) := by
  induction ts generalizing t with
  | nil => rfl
  | cons a ts ih =>
    rw [List.map_cons, List.foldlM_cons, List.foldlM_cons, add_moved]
    cases t.add a with
    | error r => rfl
    | ok u => exact ih u

theorem ofTokens_moved (ts : List Token) :
    ofTokens (ts.map (Token.moved f)) = (ofTokens ts).map (SymbolTable.moved f) := by
  have hfilter : (ts.map (Token.moved f)).filter (!·.isEnd) =
      (ts.filter (!·.isEnd)).map (Token.moved f) := List.filter_map
  rw [ofTokens, ofTokens, hfilter]
  exact foldlM_add_moved f _ empty

/-- What is counted are tokens, wherever they stand. -/
theorem tally_moved (t : SymbolTable) : (t.moved f).tally = t.tally := rfl

end SymbolTable

namespace Analysis

theorem ofVerdict_moved (ts : List Token) (t : SymbolTable) (v : Verdict) :
    ofVerdict (ts.map (Token.moved f)) (t.moved f) (v.moved f) = (ofVerdict ts t v).moved f := by
  have hmessage : ((v.moved f).errors.head?.map (·.message)) = v.errors.head?.map (·.message) := by
    rw [Verdict.moved, List.head?_map, Option.map_map]
    exact Option.map_congr fun d _ => Diagnostic.message_moved f d
  rw [ofVerdict, ofVerdict, hmessage, SymbolTable.tally_moved]
  have hsuccess : (v.moved f).success = v.success := rfl
  rw [hsuccess]
  split <;> rfl

/-- After the tokens are known no stage decides anything by an offset. -/
theorem runTokens_moved (ts : List Token) (stop : Option String) (limit : Option Int) :
    runTokens (ts.map (Token.moved f)) stop limit = (runTokens ts stop limit).moved f := by
  rw [runTokens, runTokens]
  split
  · rfl
  · rw [SymbolTable.ofTokens_moved]
    cases SymbolTable.ofTokens ts with
    | error r => rfl
    | ok t =>
      simp only [Except.map]
      split
      · rfl
      · rw [parse_moved]
        cases parse ts limit with
        | error u => rfl
        | ok v =>
          simp only [Except.map, ofVerdict_moved]
          rfl

end Analysis
end ExprLine
