import ExprLine.Proofs.Respelling

namespace ExprLine

open Checked

namespace Checked

variable {α : Type} {read : Json → Checked α} {write : α → Json}

theorem items_map (h : ∀ a, read (write a) = .ok a) (n : Nat) (as : List α) :
    items read n (as.map write) = .ok as := by
  induction as generalizing n with
  | nil => rfl
  | cons a as ih => simp [items, h, ih]

theorem listOf_map (h : ∀ a, read (write a) = .ok a) (as : List α) :
    listOf read (.arr (as.map write)) = .ok as :=
  items_map h 0 as

theorem dictOf_map (h : ∀ a, read (write a) = .ok a) (es : List (String × α)) :
    dictOf read (.obj (es.map fun e => (e.1, write e.2))) = .ok es := by
  rw [dictOf]
  induction es with
  | nil => rfl
  | cons e es ih => simp [entries, h, ih]

theorem nullable_optional (h : ∀ a, read (write a) = .ok a) (hnull : ∀ a, write a ≠ .null)
    (o : Option α) : nullable read (.optional (o.map write)) = .ok o := by
  cases o with
  | none => rfl
  | some a =>
    have hread : nullable read (write a) = Checked.map some (read (write a)) := by
      rw [nullable]
      exact hnull a
    exact hread.trans (by rw [h, map_ok])

@[simp] theorem string_str (x : String) : string (.str x) = .ok x := rfl

@[simp] theorem int_int (i : Int) : int (.int i) = .ok i := rfl

@[simp] theorem bool_bool (b : Bool) : bool (.bool b) = .ok b := rfl

@[simp] theorem kind_name (k : Kind) : named Kind.ofName? (.str k.name) = .ok k := by
  simp [named, Kind.ofName?_name]

@[simp] theorem errorType_name (e : ErrorType) : named ErrorType.ofName? (.str e.name) = .ok e := by
  simp [named, ErrorType.ofName?_name]

@[simp] theorem nullable_string_text (o : Option String) : nullable string (.text o) = .ok o := by
  cases o <;> rfl

@[simp] theorem nullable_int_number (o : Option Int) : nullable int (.number o) = .ok o := by
  cases o <;> rfl

end Checked

theorem Token.ofJson_toJson (t : Token) : Token.ofJson t.toJson = .ok t := by
  simp [ofJson, toJson, record, FieldName.required, FieldName.optional, FieldName.find?,
    FieldName.word, List.lookup_cons]

theorem Symbol.ofJson_toJson (e : Symbol) : Symbol.ofJson e.toJson = .ok e := by
  simp [ofJson, toJson, record, FieldName.required, FieldName.optional, FieldName.find?,
    FieldName.word, List.lookup_cons, listOf_map int_int]

theorem Tally.ofJson_toJson (t : Tally) : Tally.ofJson t.toJson = .ok t := by
  simp [ofJson, toJson, record, FieldName.required, FieldName.optional, FieldName.find?,
    List.lookup_cons, dictOf_map int_int]

theorem Diagnostic.ofJson_toJson (d : Diagnostic) : Diagnostic.ofJson d.toJson = .ok d := by
  simp [ofJson, toJson, record, FieldName.required, FieldName.optional, FieldName.find?,
    FieldName.word, List.lookup_cons]

/-! ### Trees -/

namespace Tree

mutual

theorem ofJson_toJson : ∀ t : Tree, ofJson t.toJson = .ok t
  | .node l v cs => by
    simp [ofJson, toJson, ofMembers, listsOf, listOfJson, FieldName.required, FieldName.optional,
      FieldName.find?, FieldName.word, List.lookup_cons, itemsOf_toJsonAll 0 cs]

theorem itemsOf_toJsonAll : ∀ (n : Nat) (ts : List Tree), itemsOf n (toJsonAll ts) = .ok ts
  | _, [] => rfl
  | n, t :: ts => by
    simp [itemsOf, toJsonAll, ofJson_toJson t, itemsOf_toJsonAll (n + 1) ts]

end

end Tree

theorem Tree.toJson_ne_null (t : Tree) : t.toJson ≠ .null := by
  cases t
  simp [toJson]

theorem Verdict.ofJson_toJson (v : Verdict) : Verdict.ofJson v.toJson = .ok v := by
  have htree := nullable_optional Tree.ofJson_toJson Tree.toJson_ne_null v.tree
  have herrors := listOf_map Diagnostic.ofJson_toJson v.errors
  simp [ofJson, toJson, record, FieldName.required, FieldName.optional, FieldName.find?,
    FieldName.word, List.lookup_cons, htree, herrors]

/-- No tally and no errors are read off fields that are not there, an empty list of errors off
one that is. -/
theorem Analysis.ofJson_toJson (a : Analysis) : Analysis.ofJson a.toJson = .ok a := by
  obtain ⟨success, errorType, message, tokens, symbols, tally, errors, tree⟩ := a
  have herrorType : nullable (named ErrorType.ofName?) (.text (errorType.map ErrorType.name)) =
      .ok errorType := by
    cases errorType with
    | none => rfl
    | some e => simp [Json.text, nullable]
  have htokens := listOf_map Token.ofJson_toJson tokens
  have hsymbols := listOf_map Symbol.ofJson_toJson symbols
  have htally := nullable_optional Tally.ofJson_toJson (by simp [Tally.toJson]) tally
  have herrors := nullable_optional (listOf_map Diagnostic.ofJson_toJson) (by simp) errors
  have htree := nullable_optional Tree.ofJson_toJson Tree.toJson_ne_null tree
  cases tally <;> cases errors
  all_goals
    simp only [Option.map_some, Option.map_none, Json.optional] at htally herrors
    simp [ofJson, toJson, record, FieldName.required, FieldName.optional, FieldName.find?,
      FieldName.word, List.lookup_cons, herrorType, htokens, hsymbols, htree, htally, herrors]

/-! ### The layout of wire forms -/

/-- A value is laid out as its shape says: the field names in it have their wire spelling. -/
def Laid (s : Shape) (v : Json) : Prop := Respelled s v v

theorem laid_data (v : Json) : Laid .data v := .data v

theorem laid_list {α : Type} {s : Shape} {write : α → Json} (h : ∀ a, Laid s (write a))
    (as : List α) : Laid (.list s) (.arr (as.map write)) := by
  have hitems : RespelledItems s (as.map write) (as.map write) := by
    induction as with
    | nil => exact .nil s
    | cons a as ih => exact .cons (h a) ih
  exact .list hitems

theorem laid_optional {α : Type} {s : Shape} {write : α → Json} (h : ∀ a, Laid s (write a))
    (o : Option α) : Laid s (.optional (o.map write)) := by
  cases o with
  | none => exact .null s
  | some a => exact h a

/-- Fields of a model in their order, some of them left out. -/
theorem laid_model {m : Model} {fs : List (FieldName × Shape)} (hfs : fs.Sublist m.fields)
    {vs : List Json} (hvs : List.Forall₂ (fun p v => Laid p.2 v) fs vs) :
    Laid (.model m) (.obj ((fs.zip vs).map fun e => (e.1.1.camel, e.2))) := by
  have hpairwise := m.pairwise_fields.sublist hfs
  apply Respelled.model
  induction hvs with
  | nil => exact .nil m
  | @cons p v fs vs hv hvs ih =>
    obtain ⟨hapart, hpairwise⟩ := List.pairwise_cons.mp hpairwise
    have hmem : p ∈ m.fields := hfs.subset List.mem_cons_self
    have hrest : fs.Sublist m.fields := (List.sublist_cons_self p fs).trans hfs
    have hnew : p.1.find? ((fs.zip vs).map fun e => (e.1.1.camel, e.2)) = none := by
      rw [FieldName.find?_eq_none, List.map_map]
      rintro key hkey hspells
      obtain ⟨e, he, rfl⟩ := List.mem_map.mp hkey
      exact hapart e.1 (List.of_mem_zip he).1 _ hspells (Or.inl rfl)
    exact .cons hmem hnew (Or.inl rfl) hv (ih hrest hpairwise)

theorem Token.laid_toJson (t : Token) : Laid (.model .token) t.toJson := by
  have hfields : List.Forall₂ (fun p v => Laid p.2 v) (Model.fields .token)
      [.str t.kind.name, .text t.lexeme, .int t.position] := by
    simp [Model.fields, laid_data]
  exact laid_model (.refl _) hfields

mutual

theorem Tree.laid_toJson : ∀ t : Tree, Laid (.model .tree) t.toJson
  | .node l v cs => by
    have hfields : List.Forall₂ (fun p v => Laid p.2 v) (Model.fields .tree)
        [.str l, .text v, .arr (Tree.toJsonAll cs)] := by
      simp [Model.fields, laid_data, Tree.laid_toJsonAll cs]
    rw [Tree.toJson]
    exact laid_model (.refl _) hfields

theorem Tree.laid_toJsonAll : ∀ ts : List Tree,
    Laid (.list (.model .tree)) (.arr (Tree.toJsonAll ts))
  | [] => .list (.nil _)
  | t :: ts => by
    cases Tree.laid_toJsonAll ts with
    | list hs => exact .list (.cons t.laid_toJson hs)

end

theorem Symbol.laid_toJson (e : Symbol) : Laid (.model .symbol) e.toJson := by
  have hfields : List.Forall₂ (fun p v => Laid p.2 v) (Model.fields .symbol)
      [.str e.lexeme, .str e.kind.name, .int e.first, .arr (e.occurrences.map .int)] := by
    simp [Model.fields, laid_data]
  exact laid_model (.refl _) hfields

theorem Tally.laid_toJson (t : Tally) : Laid (.model .tally) t.toJson := by
  have hfields : List.Forall₂ (fun p v => Laid p.2 v) (Model.fields .tally)
      [.int t.total, .obj (t.byKind.map fun p => (p.1, .int p.2))] := by
    simp [Model.fields, laid_data]
  exact laid_model (.refl _) hfields

theorem Diagnostic.laid_toJson (d : Diagnostic) : Laid (.model .diagnostic) d.toJson := by
  have hfields : List.Forall₂ (fun p v => Laid p.2 v) (Model.fields .diagnostic)
      [.str d.message, .number d.position, .text d.token] := by
    simp [Model.fields, laid_data]
  exact laid_model (.refl _) hfields

theorem Verdict.laid_toJson (v : Verdict) : Laid (.model .verdict) v.toJson := by
  have hfields : List.Forall₂ (fun p v => Laid p.2 v) (Model.fields .verdict)
      [.bool v.success, .optional (v.tree.map Tree.toJson),
        .arr (v.errors.map Diagnostic.toJson)] := by
    simp [Model.fields, laid_data, laid_optional Tree.laid_toJson,
      laid_list Diagnostic.laid_toJson]
  exact laid_model (.refl _) hfields

theorem Analysis.laid_toJson (a : Analysis) : Laid (.model .analysis) a.toJson := by
  obtain ⟨success, errorType, message, tokens, symbols, tally, errors, tree⟩ := a
  have htokens := laid_list Token.laid_toJson tokens
  have hsymbols := laid_list Symbol.laid_toJson symbols
  have htally (t : Tally) := t.laid_toJson
  have herrors (es : List Diagnostic) := laid_list Diagnostic.laid_toJson es
  have htree := laid_optional Tree.laid_toJson tree
  have hfields : List.Forall₂ (fun p v => Laid p.2 v) (Model.analysis.fields.take 5)
      [.bool success, .text (errorType.map ErrorType.name), .str message,
        .arr (tokens.map Token.toJson), .arr (symbols.map Symbol.toJson)] := by
    simp [Model.fields, laid_data, htokens, hsymbols]
  -- The two fields that may be left out stand together, before the last one.
  rcases tally with _ | t <;> rcases errors with _ | es
  · have hsub : ((Model.analysis.fields.eraseIdx 6).eraseIdx 5).Sublist Model.analysis.fields :=
      (List.eraseIdx_sublist ..).trans (List.eraseIdx_sublist ..)
    exact laid_model hsub (List.rel_append hfields (.cons htree .nil))
  · have hsub : (Model.analysis.fields.eraseIdx 5).Sublist Model.analysis.fields :=
      List.eraseIdx_sublist ..
    exact laid_model hsub (List.rel_append hfields (.cons (herrors es) (.cons htree .nil)))
  · have hsub : (Model.analysis.fields.eraseIdx 6).Sublist Model.analysis.fields :=
      List.eraseIdx_sublist ..
    exact laid_model hsub (List.rel_append hfields (.cons (htally t) (.cons htree .nil)))
  · exact laid_model (.refl Model.analysis.fields)
      (List.rel_append hfields (.cons (htally t) (.cons (herrors es) (.cons htree .nil))))

/-! ### Any record -/

namespace Record

def model : Record → Model
  | token _ => .token
  | tree _ => .tree
  | symbol _ => .symbol
  | tally _ => .tally
  | diagnostic _ => .diagnostic
  | verdict _ => .verdict
  | analysis _ => .analysis

theorem laid_toJson (x : Record) : Laid (.model x.model) x.toJson := by
  cases x with
  | token t => exact t.laid_toJson
  | tree t => exact t.laid_toJson
  | symbol e => exact e.laid_toJson
  | tally t => exact t.laid_toJson
  | diagnostic d => exact d.laid_toJson
  | verdict v => exact v.laid_toJson
  | analysis a => exact a.laid_toJson

theorem read_toJson (x : Record) : x.model.read x.toJson = .ok x := by
  cases x with
  | token t => exact map_eq_ok.mpr ⟨t, t.ofJson_toJson, rfl⟩
  | tree t => exact map_eq_ok.mpr ⟨t, t.ofJson_toJson, rfl⟩
  | symbol e => exact map_eq_ok.mpr ⟨e, e.ofJson_toJson, rfl⟩
  | tally t => exact map_eq_ok.mpr ⟨t, t.ofJson_toJson, rfl⟩
  | diagnostic d => exact map_eq_ok.mpr ⟨d, d.ofJson_toJson, rfl⟩
  | verdict v => exact map_eq_ok.mpr ⟨v, v.ofJson_toJson, rfl⟩
  | analysis a => exact map_eq_ok.mpr ⟨a, a.ofJson_toJson, rfl⟩

theorem model_of_read {m : Model} {v : Json} {x : Record} (h : m.read v = .ok x) : x.model = m := by
  cases m
  all_goals
    obtain ⟨r, -, rfl⟩ := map_eq_ok.mp h
    rfl

/-- A record is read off its wire form, whichever of its field names are in their other spelling,
and what is read off any datum is read off its own wire form again. -/
theorem read_of_respelled :
    (∀ x : Record, x.model.read x.toJson = .ok x ∧
      Respelled (.model x.model) x.toJson x.toJson) ∧
    (∀ (x : Record) (v : Json), Respelled (.model x.model) x.toJson v → x.model.read v = .ok x) ∧
    (∀ (m : Model) (v : Json) (x : Record), m.read v = .ok x →
      x.model = m ∧ m.read x.toJson = .ok x) := by
  refine ⟨fun x => ⟨x.read_toJson, x.laid_toJson⟩, ?_, ?_⟩
  · intro x v h
    exact x.model.steady_read _ _ _ h x.read_toJson
  · intro m v x h
    have hm := model_of_read h
    refine ⟨hm, ?_⟩
    rw [← hm]
    exact x.read_toJson

theorem read_of_respelled_snake :
    let x := Record.analysis ⟨true, none, "", [], [], some ⟨1, [("totalTokens", 1)]⟩, none, none⟩
    let v := Json.obj [("success", .bool true), ("error_type", .null), ("message", .str ""),
      ("tokens", .arr []), ("symbol_table", .arr []),
      ("statistics", .obj [("total_tokens", .int 1),
        ("tokens_by_type", .obj [("totalTokens", .int 1)])]), ("parse_tree", .null)]
    Respelled (.model x.model) x.toJson v ∧ x.model.read v = .ok x := by
  intro x v
  have htally : Respelled (.model .tally)
      (.obj [("totalTokens", .int 1), ("tokensByType", .obj [("totalTokens", .int 1)])])
      (.obj [("total_tokens", .int 1), ("tokens_by_type", .obj [("totalTokens", .int 1)])]) := by
    apply Respelled.model
    apply RespelledMembers.cons (f := ⟨"totalTokens", "total_tokens"⟩) (by simp [Model.fields]) rfl
      (.inr rfl) (.data _)
    apply RespelledMembers.cons (f := ⟨"tokensByType", "tokens_by_type"⟩) (by simp [Model.fields])
      rfl (.inr rfl) (.data _)
    exact .nil _
  have h : Respelled (.model x.model) x.toJson v := by
    apply Respelled.model
    apply RespelledMembers.cons (f := .word "success") (by simp [x, model, Model.fields]) rfl
      (.inl rfl) (.data _)
    apply RespelledMembers.cons (f := ⟨"errorType", "error_type"⟩)
      (by simp [x, model, Model.fields]) rfl (.inr rfl) (.data _)
    apply RespelledMembers.cons (f := .word "message") (by simp [x, model, Model.fields]) rfl
      (.inl rfl) (.data _)
    apply RespelledMembers.cons (f := .word "tokens") (by simp [x, model, Model.fields]) rfl
      (.inl rfl) (.list (.nil (.model .token)))
    apply RespelledMembers.cons (f := ⟨"symbolTable", "symbol_table"⟩)
      (by simp [x, model, Model.fields]) rfl (.inr rfl) (.list (.nil (.model .symbol)))
    apply RespelledMembers.cons (f := .word "statistics") (by simp [x, model, Model.fields]) rfl
      (.inl rfl) htally
    apply RespelledMembers.cons (f := ⟨"parseTree", "parse_tree"⟩)
      (by simp [x, model, Model.fields]) rfl (.inr rfl) (.null (.model .tree))
    exact .nil _
  exact ⟨h, read_of_respelled.2.1 x v h⟩

end Record
end ExprLine
