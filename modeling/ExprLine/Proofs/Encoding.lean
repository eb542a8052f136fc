import ExprLine.Json.Reader
import ExprLine.Proofs.PrintedLexemes
import ExprLine.Record.Document
import Mathlib.Data.List.Forall2

namespace ExprLine

namespace Json

/-! ### Lexemes put together again -/

/-- The first item of a list is read like any other value. -/
theorem foldlM_itemOrClose (v : Json) (stack : List Frame) (rest : List Lexeme) :
    (v.lexemes ++ rest).foldlM State.step (.itemOrClose stack) =
      (v.lexemes ++ rest).foldlM State.step (.value (.list [] :: stack)) := by
  cases v with
  | null | bool _ | int _ | str _ => rfl
  | arr vs => cases vs <;> rfl
  | obj ms => cases ms <;> rfl

mutual

/-- The lexemes of a value bring it to the innermost open frame, whatever comes after them. -/
theorem foldlM_lexemes : ∀ (v : Json) (stack : List Frame) (rest : List Lexeme),
    (v.lexemes ++ rest).foldlM State.step (.value stack) =
      rest.foldlM State.step (State.accept v stack)
  | null, _, _ => rfl
  | bool _, _, _ => rfl
  | int _, _, _ => rfl
  | str _, _, _ => rfl
  | arr [], _, _ => rfl
  | arr (v :: vs), stack, rest => by
    have hsplit : lexemes (arr (v :: vs)) ++ rest =
        .openList :: (v.lexemes ++ (itemLexemes vs ++ .closeList :: rest)) := by
      simp [lexemes]
    have hvalue := foldlM_lexemes v (.list [] :: stack) (itemLexemes vs ++ .closeList :: rest)
    rw [← foldlM_itemOrClose] at hvalue
    rw [hsplit]
    exact hvalue.trans (foldlM_itemLexemes vs [v] stack rest)
  | obj [], _, _ => rfl
  | obj ((k, v) :: ms), stack, rest => by
    have hsplit : lexemes (obj ((k, v) :: ms)) ++ rest = .openObject :: .text k :: .colon ::
        (v.lexemes ++ (memberLexemes ms ++ .closeObject :: rest)) := by
      simp [lexemes]
    have hvalue := foldlM_lexemes v (.object [] k :: stack)
      (memberLexemes ms ++ .closeObject :: rest)
    rw [hsplit]
    exact hvalue.trans (foldlM_memberLexemes ms [(k, v)] k stack rest)

theorem foldlM_itemLexemes : ∀ (vs done : List Json) (stack : List Frame) (rest : List Lexeme),
    (itemLexemes vs ++ .closeList :: rest).foldlM State.step (.more (.list done) stack) =
      rest.foldlM State.step (State.accept (.arr (done.reverse ++ vs)) stack)
  | [], done, stack, rest => by
    rw [List.append_nil]
    rfl
  | v :: vs, done, stack, rest => by
    have hsplit : itemLexemes (v :: vs) ++ .closeList :: rest =
        .comma :: (v.lexemes ++ (itemLexemes vs ++ .closeList :: rest)) := by
      simp [itemLexemes]
    have hvalue := foldlM_lexemes v (.list done :: stack) (itemLexemes vs ++ .closeList :: rest)
    have hitems := foldlM_itemLexemes vs (v :: done) stack rest
    rw [List.reverse_cons, List.append_assoc, List.singleton_append] at hitems
    rw [hsplit]
    exact hvalue.trans hitems

theorem foldlM_memberLexemes : ∀ (ms done : Members) (key : String) (stack : List Frame)
    (rest : List Lexeme),
    (memberLexemes ms ++ .closeObject :: rest).foldlM State.step (.more (.object done key) stack) =
      rest.foldlM State.step (State.accept (.obj (done.reverse ++ ms)) stack)
  | [], done, key, stack, rest => by
    rw [List.append_nil]
    rfl
  | (k, v) :: ms, done, key, stack, rest => by
    have hsplit : memberLexemes ((k, v) :: ms) ++ .closeObject :: rest = .comma :: .text k ::
        .colon :: (v.lexemes ++ (memberLexemes ms ++ .closeObject :: rest)) := by
      simp [memberLexemes]
    have hvalue := foldlM_lexemes v (.object done k :: stack)
      (memberLexemes ms ++ .closeObject :: rest)
    have hmembers := foldlM_memberLexemes ms ((k, v) :: done) k stack rest
    rw [List.reverse_cons, List.append_assoc, List.singleton_append] at hmembers
    rw [hsplit]
    exact hvalue.trans hmembers

end

/-- A document is read as the value it was written for. -/
theorem read?_document (v : Json) : read? v.document = some v := by
  have h := foldlM_lexemes v [] []
  rw [List.append_nil] at h
  rw [read?, lexemes?_document, Option.bind_some, ofLexemes?, h]
  rfl

end Json

namespace Document

/-- Something that cannot be written is in the document, at whatever depth. -/
inductive HoldsUnwritable : Document → Prop where
  | here : HoldsUnwritable .unwritable
  | list {d ds} : d ∈ ds → HoldsUnwritable d → HoldsUnwritable (.list ds)
  | object {k d ms} : (k, d) ∈ ms → HoldsUnwritable d → HoldsUnwritable (.object ms)
  | constant {d} : HoldsUnwritable d → HoldsUnwritable (.constant d)
  | set {d ds} : d ∈ ds → HoldsUnwritable d → HoldsUnwritable (.set ds)

/-- The value a document stands for: a record for its wire form, a member of a closed set for what
its value stands for, a set for a list. Keys and items keep their order. -/
inductive Stands : Document → Json → Prop where
  | null : Stands .null .null
  | bool (b : Bool) : Stands (.bool b) (.bool b)
  | int (i : Int) : Stands (.int i) (.int i)
  | text (s : String) : Stands (.text s) (.str s)
  | list {ds vs} : List.Forall₂ Stands ds vs → Stands (.list ds) (.arr vs)
  | object {ms : List (String × Document)} {ns : Json.Members} :
      ms.map Prod.fst = ns.map Prod.fst →
      List.Forall₂ Stands (ms.map Prod.snd) (ns.map Prod.snd) → Stands (.object ms) (.obj ns)
  | record (r : Record) : Stands (.record r) r.toJson
  | fields (ms : Json.Members) : Stands (.fields ms) (.obj ms)
  | constant {d v} : Stands d v → Stands (.constant d) v
  | set {ds vs} : List.Forall₂ Stands ds vs → Stands (.set ds) (.arr vs)

mutual

theorem toJson?_eq_none : ∀ d : Document, d.toJson? = none ↔ d.HoldsUnwritable
  | null | bool _ | int _ | text _ | record _ | fields _ => by
    simp only [toJson?, reduceCtorEq, false_iff]
    exact fun h => nomatch h
  | list ds => by
    rw [toJson?, Option.map_eq_none_iff, toJsonAll?_eq_none ds]
    constructor
    · rintro ⟨d, hd, h⟩
      exact .list hd h
    · rintro (_ | ⟨hd, h⟩)
      exact ⟨_, hd, h⟩
  | object ms => by
    rw [toJson?, Option.map_eq_none_iff, toJsonMembers?_eq_none ms]
    constructor
    · rintro ⟨k, d, hd, h⟩
      exact .object hd h
    · rintro (_ | _ | ⟨hd, h⟩)
      exact ⟨_, _, hd, h⟩
  | constant d => by
    rw [toJson?, toJson?_eq_none d]
    constructor
    · exact .constant
    · intro h
      cases h with
      | constant h => exact h
  | set ds => by
    rw [toJson?, Option.map_eq_none_iff, toJsonAll?_eq_none ds]
    constructor
    · rintro ⟨d, hd, h⟩
      exact .set hd h
    · intro h
      cases h with
      | set hd h => exact ⟨_, hd, h⟩
  | unwritable => by simp [toJson?, HoldsUnwritable.here]

theorem toJsonAll?_eq_none : ∀ ds : List Document,
    toJsonAll? ds = none ↔ ∃ d ∈ ds, d.HoldsUnwritable
  | [] => by simp [toJsonAll?]
  | d :: ds => by
    have hd := toJson?_eq_none d
    have hds := toJsonAll?_eq_none ds
    rw [toJsonAll?, List.exists_mem_cons_iff, ← hd, ← hds]
    cases d.toJson? <;> simp

theorem toJsonMembers?_eq_none : ∀ ms : List (String × Document),
    toJsonMembers? ms = none ↔ ∃ k d, (k, d) ∈ ms ∧ d.HoldsUnwritable
  | [] => by simp [toJsonMembers?]
  | (k, d) :: ms => by
    have hd := toJson?_eq_none d
    have hms := toJsonMembers?_eq_none ms
    have hsplit : (∃ k' d', (k', d') ∈ (k, d) :: ms ∧ d'.HoldsUnwritable) ↔
        d.HoldsUnwritable ∨ ∃ k' d', (k', d') ∈ ms ∧ d'.HoldsUnwritable := by
      constructor
      · rintro ⟨k', d', hmem, h⟩
        rcases List.mem_cons.mp hmem with heq | hmem
        · exact .inl ((Prod.mk.inj heq).2 ▸ h)
        · exact .inr ⟨k', d', hmem, h⟩
      · rintro (h | ⟨k', d', hmem, h⟩)
        · exact ⟨k, d, .head ms, h⟩
        · exact ⟨k', d', .tail _ hmem, h⟩
    rw [toJsonMembers?, hsplit, ← hd, ← hms]
    cases d.toJson? <;> simp

end

mutual

theorem stands_iff : ∀ (d : Document) (v : Json), d.Stands v ↔ d.toJson? = some v
  | null, v | bool _, v | int _, v | text _, v | record _, v | fields _, v => by
    rw [toJson?, Option.some.injEq]
    constructor
    · intro h
      cases h
      rfl
    · rintro rfl
      constructor
  | list ds, v => by
    rw [toJson?, Option.map_eq_some_iff]
    constructor
    · intro h
      cases h with
      | list h => exact ⟨_, (forall₂_stands_iff ds _).mp h, rfl⟩
    · rintro ⟨vs, h, rfl⟩
      exact .list ((forall₂_stands_iff ds vs).mpr h)
  | object ms, v => by
    rw [toJson?, Option.map_eq_some_iff]
    constructor
    · intro h
      cases h with
      | object hkeys h => exact ⟨_, (forall₂_members_iff ms _).mp ⟨hkeys, h⟩, rfl⟩
    · rintro ⟨ns, h, rfl⟩
      obtain ⟨hkeys, h⟩ := (forall₂_members_iff ms ns).mpr h
      exact .object hkeys h
  | constant d, v => by
    rw [toJson?, ← stands_iff d]
    constructor
    · intro h
      cases h with
      | constant h => exact h
    · exact .constant
  | set ds, v => by
    rw [toJson?, Option.map_eq_some_iff]
    constructor
    · intro h
      cases h with
      | set h => exact ⟨_, (forall₂_stands_iff ds _).mp h, rfl⟩
    · rintro ⟨vs, h, rfl⟩
      exact .set ((forall₂_stands_iff ds vs).mpr h)
  | unwritable, v => by
    rw [toJson?]
    constructor <;> exact fun h => nomatch h

theorem forall₂_stands_iff : ∀ (ds : List Document) (vs : List Json),
    List.Forall₂ Stands ds vs ↔ toJsonAll? ds = some vs
  | [], vs => by
    rw [List.forall₂_nil_left_iff, toJsonAll?, Option.some.injEq, eq_comm]
  | d :: ds, [] => by
    rw [List.forall₂_nil_right_iff, toJsonAll?]
    cases d.toJson? <;> simp
  | d :: ds, v :: vs => by
    rw [List.forall₂_cons, stands_iff d, forall₂_stands_iff ds, toJsonAll?]
    cases d.toJson? <;> simp [and_comm]

theorem forall₂_members_iff : ∀ (ms : List (String × Document)) (ns : Json.Members),
    (ms.map Prod.fst = ns.map Prod.fst ∧
      List.Forall₂ Stands (ms.map Prod.snd) (ns.map Prod.snd)) ↔ toJsonMembers? ms = some ns
  | [], ns => by
    cases ns <;> simp [toJsonMembers?]
  | (k, d) :: ms, [] => by
    rw [toJsonMembers?]
    cases d.toJson? <;> simp
  | (k, d) :: ms, (k', v) :: ns => by
    have hms := forall₂_members_iff ms ns
    rw [List.map_cons, List.map_cons, List.cons.injEq, List.map_cons, List.map_cons,
      List.forall₂_cons, stands_iff d, toJsonMembers?]
    cases d.toJson? with
    | none => simp
    | some w =>
      simp only [Option.bind_some, Option.map_eq_some_iff, Option.some.injEq, List.cons.injEq,
        Prod.mk.injEq]
      constructor
      · rintro ⟨⟨hk, hkeys⟩, hv, hs⟩
        exact ⟨ns, hms.mp ⟨hkeys, hs⟩, ⟨hk, hv⟩, rfl⟩
      · rintro ⟨_, h, ⟨hk, hv⟩, rfl⟩
        obtain ⟨hkeys, hs⟩ := hms.mpr h
        exact ⟨⟨hk, hkeys⟩, hv, hs⟩

end

/-- A document has a text unless something in it cannot be written, and the text is read as the
value that the document stands for. -/
theorem read?_of_text (d : Document) :
    (d.toJson?.map Json.document = none ↔ d.HoldsUnwritable) ∧
    (¬ d.HoldsUnwritable → ∃ v, d.Stands v) ∧
    (∀ v, d.Stands v → ∃ text, d.toJson?.map Json.document = some text ∧
      Json.read? text = some v) := by
  refine ⟨?_, ?_, ?_⟩
  · rw [Option.map_eq_none_iff, toJson?_eq_none]
  · intro h
    obtain ⟨v, hv⟩ := Option.ne_none_iff_exists'.mp (mt (toJson?_eq_none d).mp h)
    exact ⟨v, (stands_iff d v).mpr hv⟩
  · intro v hv
    rw [stands_iff] at hv
    exact ⟨v.document, by rw [hv, Option.map_some], Json.read?_document v⟩

theorem read?_of_text_set :
    let d : Document := .object [("\"\n", .set [.record (.token ⟨.plus, none, -1⟩)]), ("", .list [])]
    ¬ d.HoldsUnwritable ∧ ∃ v, d.Stands v ∧
      ∃ text, d.toJson?.map Json.document = some text ∧ Json.read? text = some v := by
  intro d
  have hd : ¬ d.HoldsUnwritable := by
    rw [← (read?_of_text d).1]
    simp [d, toJson?, toJsonMembers?, toJsonAll?]
  obtain ⟨v, hv⟩ := (read?_of_text d).2.1 hd
  exact ⟨hd, v, hv, (read?_of_text d).2.2 v hv⟩

example : (toJson? (.object [("a", .set [.constant (.kind .plus)]), ("b", .list [])])).map
    Json.document = some "\x7b\n  \"a\": [\n    \"PLUS\"\n  ],\n  \"b\": []\n\x7d" := by
  decide

end Document
end ExprLine
