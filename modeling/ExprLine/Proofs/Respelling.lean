import ExprLine.Record.Document
import ExprLine.Record.Reader
import Mathlib.Data.List.Forall2
import Mathlib.Data.List.Pairwise

namespace ExprLine

open Checked

/-- The sorts of record. -/
inductive Model where
  | token | tree | symbol | tally | diagnostic | verdict | analysis
deriving DecidableEq, Repr

/-- Where field names stand in a datum. The keys of a dictionary are data and no field names. -/
inductive Shape where
  | data
  | model (m : Model)
  | list (each : Shape)
deriving DecidableEq, Repr

namespace Model

/-- The fields of a model, each with the shape of what it holds. -/
def fields : Model → List (FieldName × Shape)
  | token => [(.word "type", .data), (.word "value", .data), (.word "position", .data)]
  | tree =>
    [(.word "label", .data), (.word "value", .data), (.word "children", .list (.model .tree))]
  | symbol =>
    [(.word "token", .data), (.word "type", .data),
      (⟨"firstOccurrence", "first_occurrence"⟩, .data), (.word "occurrences", .data)]
  | tally => [(⟨"totalTokens", "total_tokens"⟩, .data), (⟨"tokensByType", "tokens_by_type"⟩, .data)]
  | diagnostic => [(.word "message", .data), (.word "position", .data), (.word "token", .data)]
  | verdict =>
    [(.word "success", .data), (⟨"parseTree", "parse_tree"⟩, .model .tree),
      (.word "errors", .list (.model .diagnostic))]
  | analysis =>
    [(.word "success", .data), (⟨"errorType", "error_type"⟩, .data), (.word "message", .data),
      (.word "tokens", .list (.model .token)),
      (⟨"symbolTable", "symbol_table"⟩, .list (.model .symbol)),
      (.word "statistics", .model .tally), (.word "errors", .list (.model .diagnostic)),
      (⟨"parseTree", "parse_tree"⟩, .model .tree)]

/-- Reads a datum as a record of one model. -/
def read : Model → Json → Checked Record
  | token, v => map .token (Token.ofJson v)
  | tree, v => map .tree (Tree.ofJson v)
  | symbol, v => map .symbol (Symbol.ofJson v)
  | tally, v => map .tally (Tally.ofJson v)
  | diagnostic, v => map .diagnostic (Diagnostic.ofJson v)
  | verdict, v => map .verdict (Verdict.ofJson v)
  | analysis, v => map .analysis (Analysis.ofJson v)

end Model

def Checked.FieldName.Spells (f : FieldName) (key : String) : Prop :=
  key = f.camel ∨ key = f.snake

mutual

/-- The second datum is the first one with some field names, at any depth, in their other
spelling. -/
inductive Respelled : Shape → Json → Json → Prop where
  | data (v : Json) : Respelled .data v v
  | null (s : Shape) : Respelled s .null .null
  | list {s vs ws} : RespelledItems s vs ws → Respelled (.list s) (.arr vs) (.arr ws)
  | model {m ms ns} : RespelledMembers m ms ns → Respelled (.model m) (.obj ms) (.obj ns)

inductive RespelledItems : Shape → List Json → List Json → Prop where
  | nil (s : Shape) : RespelledItems s [] []
  | cons {s v w vs ws} : Respelled s v w → RespelledItems s vs ws →
      RespelledItems s (v :: vs) (w :: ws)

/-- The members of an object, no field twice. -/
inductive RespelledMembers : Model → Json.Members → Json.Members → Prop where
  | nil (m : Model) : RespelledMembers m [] []
  | cons {m f s key v w ms ns} : (f, s) ∈ m.fields → f.find? ms = none → f.Spells key →
      Respelled s v w → RespelledMembers m ms ns →
      RespelledMembers m ((f.camel, v) :: ms) ((key, w) :: ns)

end

/-! ### Two fields of one model have no spelling in common -/

namespace Model

theorem pairwise_fields (m : Model) :
    m.fields.Pairwise fun p q => ∀ key, p.1.Spells key → ¬ q.1.Spells key := by
  cases m <;> simp [fields, FieldName.Spells, FieldName.word]

theorem eq_of_spells {m : Model} {f g : FieldName} {s t : Shape} {key : String}
    (hf : (f, s) ∈ m.fields) (hg : (g, t) ∈ m.fields) (h : f.Spells key) (h' : g.Spells key) :
    (f, s) = (g, t) := by
  by_contra hne
  have : Std.Symm fun p q : FieldName × Shape => ∀ key, p.1.Spells key → ¬ q.1.Spells key :=
    ⟨fun p q hpq key hq hp => hpq key hp hq⟩
  exact (pairwise_fields m).forall hf hg hne key h h'

theorem spells_iff {m : Model} {f g : FieldName} {s t : Shape} {key : String}
    (hf : (f, s) ∈ m.fields) (hg : (g, t) ∈ m.fields) (hkey : g.Spells key) :
    f.Spells g.camel ↔ f.Spells key := by
  constructor
  · intro h
    have heq := eq_of_spells hf hg h (Or.inl rfl)
    rw [(Prod.mk.inj heq).1]
    exact hkey
  · intro h
    have heq := eq_of_spells hf hg h hkey
    rw [(Prod.mk.inj heq).1]
    exact Or.inl rfl

end Model

/-! ### A field is found under its other spelling too -/

namespace Checked.FieldName

variable {γ : Type} {f : FieldName} {key : String} {ms : List (String × γ)}

theorem lookup_eq_none_iff_notMem : ms.lookup key = none ↔ key ∉ ms.map Prod.fst := by
  rw [List.lookup_eq_none_iff, List.mem_map]
  constructor
  · rintro h ⟨p, hp, rfl⟩
    exact bne_iff_ne.mp (h p hp) rfl
  · intro h p hp
    exact bne_iff_ne.mpr fun e => h ⟨p, hp, e.symm⟩

theorem find?_eq_none : f.find? ms = none ↔ ∀ key ∈ ms.map Prod.fst, ¬ f.Spells key := by
  have hspells : (∀ key ∈ ms.map Prod.fst, ¬ f.Spells key) ↔
      f.camel ∉ ms.map Prod.fst ∧ f.snake ∉ ms.map Prod.fst := by
    refine ⟨fun h => ⟨fun hk => h _ hk (Or.inl rfl), fun hk => h _ hk (Or.inr rfl)⟩, ?_⟩
    rintro ⟨hcamel, hsnake⟩ key hk (rfl | rfl)
    · exact hcamel hk
    · exact hsnake hk
  rw [hspells, ← lookup_eq_none_iff_notMem, ← lookup_eq_none_iff_notMem, find?]
  cases ms.lookup f.camel <;> simp

theorem find?_cons_of_not_spells (v : γ) (h : ¬ f.Spells key) :
    f.find? ((key, v) :: ms) = f.find? ms := by
  have hcamel : (f.camel == key) = false := beq_false_of_ne fun e => h (Or.inl e.symm)
  have hsnake : (f.snake == key) = false := beq_false_of_ne fun e => h (Or.inr e.symm)
  unfold find?
  rw [List.lookup_cons, hcamel, List.lookup_cons, hsnake]

/-- A field that is there once is found under the spelling it has. -/
theorem find?_cons_of_spells (v : γ) (h : f.Spells key) (hms : f.find? ms = none) :
    f.find? ((key, v) :: ms) = some (key, v) := by
  have hcamel : ms.lookup f.camel = none :=
    lookup_eq_none_iff_notMem.mpr fun hk => find?_eq_none.mp hms _ hk (Or.inl rfl)
  unfold find?
  by_cases hkey : key = f.camel
  · simp [hkey]
  · have hsnake : key = f.snake := h.resolve_left hkey
    have hne : (f.camel == key) = false := beq_false_of_ne (Ne.symm hkey)
    rw [List.lookup_cons, hne, hcamel, hsnake]
    simp

end Checked.FieldName

namespace RespelledMembers

variable {m : Model} {f : FieldName} {s : Shape}

/-- Other spellings neither add nor take away a field. -/
theorem find?_eq_none_iff (hf : (f, s) ∈ m.fields) {ms ns : Json.Members} :
    RespelledMembers m ms ns → (f.find? ms = none ↔ f.find? ns = none)
  | .nil _ => Iff.rfl
  | .cons hg _ hkey _ hs => by
    have hiff := Model.spells_iff hf hg hkey
    have ih := find?_eq_none_iff hf hs
    simp only [FieldName.find?_eq_none] at ih ⊢
    simp only [List.map_cons, List.forall_mem_cons, hiff, ih]

theorem exists_find? (hf : (f, s) ∈ m.fields) {ms ns : Json.Members} {key : String} {v : Json} :
    RespelledMembers m ms ns → f.find? ms = some (key, v) →
      ∃ key' w, f.find? ns = some (key', w) ∧ Respelled s v w
  | .nil _, h => by simp [FieldName.find?] at h
  | @cons _ g _ k v' w ms ns hg hnew hk hv hs, h => by
    by_cases hspells : f.Spells g.camel
    · obtain ⟨rfl, rfl⟩ := Prod.mk.inj (Model.eq_of_spells hf hg hspells (Or.inl rfl))
      rw [FieldName.find?_cons_of_spells v' (Or.inl rfl) hnew, Option.some.injEq,
        Prod.mk.injEq] at h
      obtain ⟨rfl, rfl⟩ := h
      have hns := (hs.find?_eq_none_iff hf).mp hnew
      exact ⟨k, w, FieldName.find?_cons_of_spells w hk hns, hv⟩
    · have hk' : ¬ f.Spells k := (Model.spells_iff hf hg hk).not.mp hspells
      rw [FieldName.find?_cons_of_not_spells v' hspells] at h
      rw [FieldName.find?_cons_of_not_spells w hk']
      exact exists_find? hf hs h

end RespelledMembers

/-! ### Readers to which the spelling is all one -/

namespace Checked

variable {α β : Type} {m : Model} {f : FieldName} {s : Shape}

/-- What is read once is read under every other spelling. -/
def Steady (s : Shape) (read : Json → Checked α) : Prop :=
  ∀ v w a, Respelled s v w → read v = .ok a → read w = .ok a

/-- The same for what is read from the members of an object. -/
def SteadyMembers (m : Model) (read : Json.Members → Checked α) : Prop :=
  ∀ ms ns a, RespelledMembers m ms ns → read ms = .ok a → read ns = .ok a

theorem SteadyMembers.map {read : Json.Members → Checked α} (h : SteadyMembers m read) (g : α → β) :
    SteadyMembers m fun ms => Checked.map g (read ms) := by
  intro ms ns b hs hb
  obtain ⟨a, ha, rfl⟩ := map_eq_ok.mp hb
  exact map_eq_ok.mpr ⟨a, h ms ns a hs ha, rfl⟩

theorem SteadyMembers.ap {read : Json.Members → Checked (α → β)} {read' : Json.Members → Checked α}
    (h : SteadyMembers m read) (h' : SteadyMembers m read') :
    SteadyMembers m fun ms => Checked.ap (read ms) (read' ms) := by
  intro ms ns b hs hb
  obtain ⟨g, a, hg, ha, rfl⟩ := ap_eq_ok.mp hb
  exact ap_eq_ok.mpr ⟨g, a, h ms ns g hs hg, h' ms ns a hs ha, rfl⟩

theorem Steady.required {read : Json → Checked α} (h : Steady s read) (hf : (f, s) ∈ m.fields) :
    SteadyMembers m (f.required read) := by
  intro ms ns a hs ha
  unfold FieldName.required at ha ⊢
  cases hfind : f.find? ms with
  | none => simp [hfind] at ha
  | some p =>
    obtain ⟨k, w, hw, hvw⟩ := hs.exists_find? hf hfind
    rw [hfind] at ha
    rw [hw]
    exact within_eq_ok.mpr (h p.2 w a hvw (within_eq_ok.mp ha))

theorem Steady.optional {read : Json → Checked α} (h : Steady s read) (hf : (f, s) ∈ m.fields)
    (default : α) : SteadyMembers m (f.optional default read) := by
  intro ms ns a hs ha
  unfold FieldName.optional at ha ⊢
  cases hfind : f.find? ms with
  | none =>
    rw [hfind] at ha
    rw [(hs.find?_eq_none_iff hf).mp hfind]
    exact ha
  | some p =>
    obtain ⟨k, w, hw, hvw⟩ := hs.exists_find? hf hfind
    rw [hfind] at ha
    rw [hw]
    exact within_eq_ok.mpr (h p.2 w a hvw (within_eq_ok.mp ha))

theorem SteadyMembers.record {read : Json.Members → Checked α} (h : SteadyMembers m read) :
    Steady (.model m) (record read) := by
  rintro v w a hvw ha
  cases hvw with
  | null => exact ha
  | model hs => exact h _ _ a hs ha

theorem steady_data (read : Json → Checked α) : Steady .data read := by
  rintro v w a hvw ha
  cases hvw <;> exact ha

theorem Steady.map {read : Json → Checked α} (h : Steady s read) (g : α → β) :
    Steady s fun v => Checked.map g (read v) := by
  intro v w b hvw hb
  obtain ⟨a, ha, rfl⟩ := map_eq_ok.mp hb
  exact map_eq_ok.mpr ⟨a, h v w a hvw ha, rfl⟩

theorem Steady.nullable {read : Json → Checked α} (h : Steady s read) :
    Steady s (nullable read) := by
  rintro v w a hvw ha
  cases hvw with
  | data => exact ha
  | null => exact ha
  | list hs => exact h.map some _ _ a (.list hs) ha
  | model hs => exact h.map some _ _ a (.model hs) ha

theorem Steady.items {read : Json → Checked α} (h : Steady s read) {vs ws : List Json} :
    RespelledItems s vs ws → ∀ {n : Nat} {as : List α}, items read n vs = .ok as →
      items read n ws = .ok as
  | .nil _, _, _, ha => ha
  | .cons hvw hs, _, _, ha => by
    obtain ⟨_, as, hhead, htail, rfl⟩ := ap_eq_ok.mp ha
    obtain ⟨a, hin, rfl⟩ := map_eq_ok.mp hhead
    have hw := h _ _ a hvw (within_eq_ok.mp hin)
    exact ap_eq_ok.mpr ⟨_, as, map_eq_ok.mpr ⟨a, within_eq_ok.mpr hw, rfl⟩, h.items hs htail, rfl⟩

theorem Steady.listOf {read : Json → Checked α} (h : Steady s read) :
    Steady (.list s) (listOf read) := by
  rintro v w as hvw ha
  cases hvw with
  | null => exact ha
  | list hs => exact h.items hs ha

end Checked

/-! ### Every model -/

open Checked

theorem Token.steady_ofJson : Steady (.model .token) Token.ofJson := by
  apply SteadyMembers.record
  refine .ap (.ap (.map ?_ _) ?_) ?_
  · exact (steady_data _).required (by simp [Model.fields])
  · exact (steady_data _).optional (by simp [Model.fields]) _
  · exact (steady_data _).required (by simp [Model.fields])

theorem Model.eq_of_spells_tree {f : FieldName} {s : Shape} {key : String}
    (hf : (f, s) ∈ Model.tree.fields) (hkey : f.Spells key) : key = f.camel := by
  have hword : f.snake = f.camel := by
    simp only [fields, List.mem_cons, List.not_mem_nil, or_false, Prod.mk.injEq] at hf
    rcases hf with ⟨rfl, -⟩ | ⟨rfl, -⟩ | ⟨rfl, -⟩ <;> rfl
  exact hkey.elim id fun h => h.trans hword

/-- The shapes within a tree. -/
def Shape.InTree : Shape → Prop
  | data => True
  | model m => m = .tree
  | list s => s.InTree

theorem Model.inTree_fields {f : FieldName} {s : Shape} (hf : (f, s) ∈ Model.tree.fields) :
    s.InTree := by
  simp only [fields, List.mem_cons, List.not_mem_nil, or_false, Prod.mk.injEq] at hf
  rcases hf with ⟨-, rfl⟩ | ⟨-, rfl⟩ | ⟨-, rfl⟩ <;> simp [Shape.InTree]

mutual

/-- A tree has fields of one word only, at every depth. -/
theorem Respelled.eq_of_inTree {s : Shape} {v w : Json} (hs : s.InTree) :
    Respelled s v w → v = w
  | .data _ => rfl
  | .null _ => rfl
  | .list (s := s) h => by
    have hs : s.InTree := hs
    rw [h.eq_of_inTree hs]
  | .model (m := m) h => by
    obtain rfl : m = .tree := hs
    rw [h.eq_of_tree]

theorem RespelledItems.eq_of_inTree {s : Shape} {vs ws : List Json} (hs : s.InTree) :
    RespelledItems s vs ws → vs = ws
  | .nil _ => rfl
  | .cons hv h => by rw [hv.eq_of_inTree hs, h.eq_of_inTree hs]

theorem RespelledMembers.eq_of_tree {ms ns : Json.Members} :
    RespelledMembers .tree ms ns → ms = ns
  | .nil _ => rfl
  | .cons hf _ hkey hv h => by
    rw [Model.eq_of_spells_tree hf hkey, hv.eq_of_inTree (Model.inTree_fields hf), h.eq_of_tree]

end

theorem Tree.steady_ofJson : Steady (.model .tree) Tree.ofJson := by
  intro v w t hvw ht
  have htree : (Shape.model .tree).InTree := rfl
  rw [← hvw.eq_of_inTree htree]
  exact ht

theorem Symbol.steady_ofJson : Steady (.model .symbol) Symbol.ofJson := by
  apply SteadyMembers.record
  refine .ap (.ap (.ap (.map ?_ _) ?_) ?_) ?_
  · exact (steady_data _).required (by simp [Model.fields])
  · exact (steady_data _).required (by simp [Model.fields])
  · exact (steady_data _).required (by simp [Model.fields])
  · exact (steady_data _).optional (by simp [Model.fields]) _

theorem Tally.steady_ofJson : Steady (.model .tally) Tally.ofJson := by
  apply SteadyMembers.record
  refine .ap (.map ?_ _) ?_
  · exact (steady_data _).required (by simp [Model.fields])
  · exact (steady_data _).optional (by simp [Model.fields]) _

theorem Diagnostic.steady_ofJson : Steady (.model .diagnostic) Diagnostic.ofJson := by
  apply SteadyMembers.record
  refine .ap (.ap (.map ?_ _) ?_) ?_
  · exact (steady_data _).required (by simp [Model.fields])
  · exact (steady_data _).optional (by simp [Model.fields]) _
  · exact (steady_data _).optional (by simp [Model.fields]) _

theorem Verdict.steady_ofJson : Steady (.model .verdict) Verdict.ofJson := by
  apply SteadyMembers.record
  refine .ap (.ap (.map ?_ _) ?_) ?_
  · exact (steady_data _).required (by simp [Model.fields])
  · exact Tree.steady_ofJson.nullable.optional (by simp [Model.fields]) _
  · exact Diagnostic.steady_ofJson.listOf.optional (by simp [Model.fields]) _

theorem Analysis.steady_ofJson : Steady (.model .analysis) Analysis.ofJson := by
  apply SteadyMembers.record
  refine .ap (.ap (.ap (.ap (.ap (.ap (.ap (.map ?_ _) ?_) ?_) ?_) ?_) ?_) ?_) ?_
  · exact (steady_data _).required (by simp [Model.fields])
  · exact (steady_data _).optional (by simp [Model.fields]) _
  · exact (steady_data _).required (by simp [Model.fields])
  · exact Token.steady_ofJson.listOf.optional (by simp [Model.fields]) _
  · exact Symbol.steady_ofJson.listOf.optional (by simp [Model.fields]) _
  · exact Tally.steady_ofJson.nullable.optional (by simp [Model.fields]) _
  · exact Diagnostic.steady_ofJson.listOf.nullable.optional (by simp [Model.fields]) _
  · exact Tree.steady_ofJson.nullable.optional (by simp [Model.fields]) _

/-- A datum that is read is read as the same record under every other spelling of its fields. -/
theorem Model.steady_read (m : Model) : Steady (.model m) m.read := by
  cases m with
  | token => exact Token.steady_ofJson.map _
  | tree => exact Tree.steady_ofJson.map _
  | symbol => exact Symbol.steady_ofJson.map _
  | tally => exact Tally.steady_ofJson.map _
  | diagnostic => exact Diagnostic.steady_ofJson.map _
  | verdict => exact Verdict.steady_ofJson.map _
  | analysis => exact Analysis.steady_ofJson.map _

end ExprLine
