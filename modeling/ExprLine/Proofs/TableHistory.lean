import ExprLine.Proofs.Tabulation
import ExprLine.Token.Lexer

namespace ExprLine.SymbolTable

/-- What can be asked of a table in use. It can be built anew from tokens or from a text, and
snapshots of its symbols are numbered as they are taken. -/
inductive Call where
  | add (a : Token)
  | build (ts : List Token)
  | read (s : List Char)
  | lookup (k : Kind) (x : String)
  | symbolAt (p : Int)
  | snapshot
  | revisit (i : Nat)
deriving DecidableEq, Repr

inductive Answer where
  | done
  | refused (r : Rejection)
  | unreadable (e : BadCharacter)
  | symbol (e : Option Symbol)
  | taken (i : Nat)
  | shown (es : Option (List Symbol))
deriving DecidableEq, Repr

/-- A table in use and the snapshots taken so far. -/
structure Session where
  table : SymbolTable
  shots : List (List Symbol)
deriving DecidableEq, Repr

namespace Session

def start : Session := ⟨empty, []⟩

/-- A new table takes the place of the old one only when it is complete. -/
def build (s : Session) (ts : List Token) : Answer × Session :=
  match ofTokens ts with
  | .ok t => (.done, { s with table := t })
  | .error r => (.refused r, s)

def step (s : Session) : Call → Answer × Session
  | .add a =>
    match s.table.add a with
    | .ok t => (.done, { s with table := t })
    | .error r => (.refused r, s)
  | .build ts => s.build ts
  | .read cs =>
    match Token.ofText cs with
    | .ok ts => s.build ts
    | .error e => (.unreadable e, s)
  | .lookup k x => (.symbol (s.table.lookup k x), s)
  | .symbolAt p => (.symbol (s.table.symbolAt p), s)
  | .snapshot => (.taken s.shots.length, { s with shots := s.shots ++ [s.table.symbols] })
  | .revisit i => (.shown s.shots[i]?, s)

def afterFrom (s : Session) (cs : List Call) : Session := cs.foldl (fun s c => (s.step c).2) s

/-- A session in which the calls `cs` were made. -/
def after (cs : List Call) : Session := start.afterFrom cs

theorem after_append (cs ds : List Call) : after (cs ++ ds) = (after cs).afterFrom ds :=
  List.foldl_append

end Session

/-- The log after tokens were to replace it: a lexeme that lacks leaves it as it was. -/
def rebuilt (log ts : List Token) : List Token :=
  if ∀ a ∈ ts, a.isEnd = true ∨ a.lexeme.isSome = true then ts.filter (!·.isEnd) else log

/-- The tokens accepted since the last build, those of the build included, after one call more. -/
def Call.log (log : List Token) : Call → List Token
  | add a => if a.isEnd = false ∧ a.lexeme.isSome = true then log ++ [a] else log
  | build ts => rebuilt log ts
  | read s =>
    match Token.ofText s with
    | .ok ts => rebuilt log ts
    | .error _ => log
  | lookup _ _ | symbolAt _ | snapshot | revisit _ => log

def logOf (cs : List Call) : List Token := cs.foldl Call.log []

/-- The tokens of one kind and lexeme as a symbol. Every token of a log has a lexeme. -/
def group (log : List Token) (key : Kind × Option String) : Symbol :=
  let ps := (log.filter fun a => a.key = key).map Token.position
  ⟨key.2.getD "", key.1, ps.headD 0, ps⟩

/-- The groups in the order in which they first appear. -/
def groups (log : List Token) : List Symbol := (log.map Token.key).eraseDups.map (group log)

namespace Tabulates

variable {log : List Token} {t : SymbolTable} (h : Tabulates log t)
include h

theorem eq_group {e : Symbol} (he : e ∈ t.symbols) : e = group log e.key := by
  have hoccurrences := h.occurrences e he
  have hfirst : e.occurrences.headD 0 = e.first := by
    rw [List.headD_eq_head?_getD, h.first e he]
    rfl
  rw [group, ← hoccurrences, hfirst]
  rfl

theorem symbols_eq : t.symbols = groups log := by
  have hmap : t.symbols.map (group log ∘ Symbol.key) = t.symbols.map id := by
    apply List.map_congr_left
    intro e he
    exact (h.eq_group he).symm
  rw [groups, ← h.keys, List.map_map, hmap, List.map_id]

theorem size_eq : t.size = (log.map Token.key).eraseDups.length := by
  rw [size, ← h.keys, List.length_map]

theorem lookup_eq (k : Kind) (x : String) : t.lookup k x =
    if ∃ a ∈ log, a.key = (k, some x) then some (group log (k, some x)) else none := by
  rw [SymbolTable.lookup]
  split
  · next hin =>
    obtain ⟨e, he, hkey⟩ := List.mem_map.mp (h.mem_keys_iff.mpr hin)
    have hsome : (t.symbols.find? fun e => e.kind = k ∧ e.lexeme = x).isSome = true :=
      List.find?_isSome.mpr ⟨e, he, decide_eq_true (Symbol.key_eq_iff.mp hkey)⟩
    obtain ⟨d, hd⟩ := Option.isSome_iff_exists.mp hsome
    have hfits : d.kind = k ∧ d.lexeme = x := by simpa using List.find?_some hd
    have hdkey : d.key = (k, some x) := Symbol.key_eq_iff.mpr hfits
    rw [hd, ← hdkey, ← h.eq_group (List.mem_of_find?_eq_some hd)]
  · next hout =>
    apply List.find?_eq_none.mpr
    intro e he hkey
    have hekey : e.key = (k, some x) := Symbol.key_eq_iff.mpr (of_decide_eq_true hkey)
    exact hout (h.mem_keys_iff.mp (List.mem_map.mpr ⟨e, he, hekey⟩))

end Tabulates

theorem tabulates_rebuilt {log : List Token} {s : Session} (h : Tabulates log s.table)
    (ts : List Token) : Tabulates (rebuilt log ts) (s.build ts).2.table := by
  rw [rebuilt, Session.build]
  split
  · next hall =>
    obtain ⟨t, ht⟩ := exists_ofTokens hall
    rw [ht]
    exact tabulates_ofTokens ht
  · next hsome =>
    have hspoiled : ∃ a ∈ ts, a.isEnd = false ∧ a.lexeme = none := by
      by_contra hno
      apply hsome
      intro a ha
      by_contra hnot
      simp only [not_or, Bool.not_eq_true, Option.isSome_eq_false_iff, Option.isNone_iff_eq_none]
        at hnot
      exact hno ⟨a, ha, hnot⟩
    rw [ofTokens_noLexeme hspoiled]
    exact h

/-- One call changes the table as it changes the log. -/
theorem tabulates_step {log : List Token} {s : Session} (h : Tabulates log s.table) (c : Call) :
    Tabulates (c.log log) (s.step c).2.table := by
  cases c with
  | add a =>
    rw [Call.log, Session.step]
    split
    · next hok =>
      obtain ⟨t, ht⟩ := exists_add s.table hok.1 hok.2
      rw [ht]
      exact tabulates_add h ht
    · next hno =>
      have hrefused : ∃ r, s.table.add a = .error r := by
        cases hend : a.isEnd with
        | true => exact ⟨_, add_endMarker s.table hend⟩
        | false =>
          have hx : a.lexeme = none := by simpa [hend] using hno
          exact ⟨_, add_noLexeme s.table hend hx⟩
      obtain ⟨r, hr⟩ := hrefused
      rw [hr]
      exact h
  | build ts => exact tabulates_rebuilt h ts
  | read cs =>
    rw [Call.log, Session.step]
    cases Token.ofText cs with
    | ok ts => exact tabulates_rebuilt h ts
    | error e => exact h
  | lookup k x => exact h
  | symbolAt p => exact h
  | snapshot => exact h
  | revisit i => exact h

theorem tabulates_after (cs : List Call) : Tabulates (logOf cs) (Session.after cs).table := by
  -- from the right: the last call meets the table of all those before it
  induction cs using List.reverseRecOn with
  | nil => exact .empty
  | append_singleton cs c ih =>
    rw [logOf, List.foldl_append, Session.after_append]
    exact tabulates_step ih c

theorem isPrefix_shots_build (s : Session) (ts : List Token) :
    s.shots <+: (s.build ts).2.shots := by
  rw [Session.build]
  split <;> exact List.prefix_refl _

/-- No call changes a snapshot or takes one away. -/
theorem isPrefix_shots_step (s : Session) (c : Call) : s.shots <+: (s.step c).2.shots := by
  cases c with
  | add a =>
    rw [Session.step]
    split <;> exact List.prefix_refl _
  | build ts => exact isPrefix_shots_build s ts
  | read cs =>
    rw [Session.step]
    split
    · exact isPrefix_shots_build s _
    · exact List.prefix_refl _
  | lookup k x => exact List.prefix_refl _
  | symbolAt p => exact List.prefix_refl _
  | snapshot => exact List.prefix_append _ _
  | revisit i => exact List.prefix_refl _

theorem isPrefix_shots_afterFrom (s : Session) (cs : List Call) :
    s.shots <+: (s.afterFrom cs).shots := by
  induction cs generalizing s with
  | nil => exact List.prefix_refl _
  | cons c cs ih => exact (isPrefix_shots_step s c).trans (ih _)

/-- A snapshot shows what the table was when it was taken, whatever was called since. -/
theorem revisit_after (cs ds : List Call) :
    ((Session.after (cs ++ .snapshot :: ds)).step (.revisit (Session.after cs).shots.length)).1 =
      .shown (some (Session.after cs).table.symbols) := by
  have hkept : (Session.after cs).shots ++ [(Session.after cs).table.symbols] <+:
      (Session.after (cs ++ .snapshot :: ds)).shots := by
    rw [Session.after_append]
    exact isPrefix_shots_afterFrom ((Session.after cs).step .snapshot).2 ds
  obtain ⟨more, hmore⟩ := hkept
  rw [Session.step, ← hmore, List.append_assoc, List.getElem?_append_right (Nat.le_refl _),
    Nat.sub_self]
  rfl

/-- What a session is, and what it answers, is told by the log of its table. A call that is
refused changes nothing. -/
structure Reflects (log : List Token) (s : Session) : Prop where
  symbols : s.table.symbols = groups log
  size : s.table.size = (log.map Token.key).eraseDups.length
  tally : s.table.tally = ⟨log.length, (log.map Token.kind).eraseDups.map fun k =>
    (k.name, (log.countP fun a => a.kind = k : Nat))⟩
  add_done : ∀ a, a.isEnd = false → a.lexeme.isSome = true → (s.step (.add a)).1 = .done
  add_endMarker : ∀ a, a.isEnd = true → s.step (.add a) = (.refused .endMarker, s)
  add_noLexeme : ∀ a, a.isEnd = false → a.lexeme = none →
    s.step (.add a) = (.refused .noLexeme, s)
  build_done : ∀ ts, (∀ a ∈ ts, a.isEnd = true ∨ a.lexeme.isSome = true) →
    (s.step (.build ts)).1 = .done
  build_noLexeme : ∀ ts, (∃ a ∈ ts, a.isEnd = false ∧ a.lexeme = none) →
    s.step (.build ts) = (.refused .noLexeme, s)
  read_ok : ∀ cs ts, Token.ofText cs = .ok ts → s.step (.read cs) = s.step (.build ts)
  read_error : ∀ cs e, Token.ofText cs = .error e → s.step (.read cs) = (.unreadable e, s)
  lookup : ∀ k x, s.step (.lookup k x) = (.symbol
    (if ∃ a ∈ log, a.key = (k, some x) then some (group log (k, some x)) else none), s)
  symbolAt : ∀ p, s.step (.symbolAt p) =
    (.symbol ((groups log).find? fun e => p ∈ e.occurrences), s)

theorem reflects_of_tabulates {log : List Token} {s : Session} (h : Tabulates log s.table) :
    Reflects log s := by
  constructor
  case symbols => exact h.symbols_eq
  case size => exact h.size_eq
  case tally => exact h.tally_eq
  case add_done =>
    intro a hlive hx
    obtain ⟨t, ht⟩ := exists_add s.table hlive hx
    rw [Session.step, ht]
  case add_endMarker =>
    intro a hend
    rw [Session.step, SymbolTable.add_endMarker s.table hend]
  case add_noLexeme =>
    intro a hlive hx
    rw [Session.step, SymbolTable.add_noLexeme s.table hlive hx]
  case build_done =>
    intro ts hall
    obtain ⟨t, ht⟩ := exists_ofTokens hall
    rw [Session.step, Session.build, ht]
  case build_noLexeme =>
    intro ts hspoiled
    rw [Session.step, Session.build, ofTokens_noLexeme hspoiled]
  case read_ok =>
    intro cs ts hts
    rw [Session.step, Session.step, hts]
  case read_error =>
    intro cs e he
    rw [Session.step, he]
  case lookup =>
    intro k x
    rw [Session.step, h.lookup_eq]
  case symbolAt =>
    intro p
    rw [Session.step, SymbolTable.symbolAt, h.symbols_eq]

/-- After any calls the table is the log of the tokens it accepted, grouped and counted, and a
snapshot taken then shows these groups after any calls more. -/
theorem reflects_log (cs : List Call) : Reflects (logOf cs) (Session.after cs) ∧
    ∃ i, ((Session.after cs).step .snapshot).1 = .taken i ∧ ∀ ds,
      ((Session.after (cs ++ .snapshot :: ds)).step (.revisit i)).1 =
        .shown (some (groups (logOf cs))) := by
  have htab := tabulates_after cs
  refine ⟨reflects_of_tabulates htab, (Session.after cs).shots.length, rfl, ?_⟩
  intro ds
  rw [revisit_after, htab.symbols_eq]

end ExprLine.SymbolTable
