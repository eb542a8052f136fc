import ExprLine.Json.Basic

namespace ExprLine

/-- What is wrong with a piece of data. -/
inductive Flaw where
  | missing | model | list | dict | string | enum | intText | intSize | int | boolText | bool
deriving DecidableEq, Repr

def Flaw.name : Flaw → String
  | missing => "missing"
  | model => "model_type"
  | list => "list_type"
  | dict => "dict_type"
  | string => "string_type"
  | enum => "enum"
  | intText => "int_parsing"
  | intSize => "int_parsing_size"
  | int => "int_type"
  | boolText => "bool_parsing"
  | bool => "bool_type"

/-- A flaw and the keys and indexes that lead to it. -/
structure Issue where
  path : List String
  flaw : Flaw
deriving DecidableEq, Repr

def Issue.location (i : Issue) : String := ".".intercalate i.path

/-- A value read from data, or all issues the data has, in the order of the fields. -/
abbrev Checked (α : Type) := Except (List Issue) α

namespace Checked

variable {α β : Type}

def flaw (f : Flaw) : Checked α := .error [⟨[], f⟩]

/-- Puts a key or an index in front of every path. -/
def within (step : String) : Checked α → Checked α
  | .ok a => .ok a
  | .error is => .error (is.map fun i => { i with path := step :: i.path })

/-- Reads on after an issue, so that no later one is hidden. -/
def ap : Checked (α → β) → Checked α → Checked β
  | .ok f, .ok a => .ok (f a)
  | .ok _, .error is => .error is
  | .error is, .ok _ => .error is
  | .error is, .error js => .error (is ++ js)

def map (f : α → β) (c : Checked α) : Checked β := ap (.ok f) c

@[simp] theorem ap_ok (f : α → β) (a : α) : ap (.ok f) (.ok a) = .ok (f a) := rfl

@[simp] theorem within_ok (step : String) (a : α) : within step (.ok a) = .ok a := rfl

@[simp] theorem map_ok (f : α → β) (a : α) : map f (.ok a) = .ok (f a) := rfl

theorem ap_eq_ok {f : Checked (α → β)} {c : Checked α} {b : β} :
    ap f c = .ok b ↔ ∃ g a, f = .ok g ∧ c = .ok a ∧ g a = b := by
  cases f <;> cases c <;> simp [ap]

theorem map_eq_ok {g : α → β} {c : Checked α} {b : β} :
    map g c = .ok b ↔ ∃ a, c = .ok a ∧ g a = b := by
  simp [map, ap_eq_ok]

theorem within_eq_ok {step : String} {c : Checked α} {a : α} :
    within step c = .ok a ↔ c = .ok a := by
  cases c <;> simp [within]

/-- The members of a list, each under its index counted from `n`. -/
def items (read : Json → Checked α) : Nat → List Json → Checked (List α)
  | _, [] => .ok []
  | n, v :: vs => ap (map List.cons (within (toString n) (read v))) (items read (n + 1) vs)

def listOf (read : Json → Checked α) : Json → Checked (List α)
  | .arr vs => items read 0 vs
  | _ => flaw .list

def entries (read : Json → Checked α) : Json.Members → Checked (List (String × α))
  | [] => .ok []
  | (k, v) :: ms => ap (map (fun a as => (k, a) :: as) (within k (read v))) (entries read ms)

def dictOf (read : Json → Checked α) : Json → Checked (List (String × α))
  | .obj ms => entries read ms
  | _ => flaw .dict

def nullable (read : Json → Checked α) : Json → Checked (Option α)
  | .null => .ok none
  | v => map some (read v)

/-- The two spellings of a field: `camel` on the wire, `snake` accepted beside it. -/
structure FieldName where
  camel : String
  snake : String

/-- A field of one word has one spelling. -/
def FieldName.word (s : String) : FieldName := ⟨s, s⟩

/-- A field among the members, under the spelling it has there. The wire spelling wins. -/
def FieldName.find? {γ : Type} (f : FieldName) (ms : List (String × γ)) : Option (String × γ) :=
  match ms.lookup f.camel with
  | some v => some (f.camel, v)
  | none => (ms.lookup f.snake).map (f.snake, ·)

def FieldName.required {γ : Type} (f : FieldName) (read : γ → Checked α) (ms : List (String × γ)) : Checked α :=
  match f.find? ms with
  | none => .error [⟨[f.camel], .missing⟩]
  | some (k, v) => within k (read v)

/-- Only a missing field takes the default. -/
def FieldName.optional {γ : Type} (f : FieldName) (default : α) (read : γ → Checked α)
    (ms : List (String × γ)) : Checked α :=
  match f.find? ms with
  | none => .ok default
  | some (k, v) => within k (read v)

end Checked
end ExprLine
