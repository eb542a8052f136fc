import ExprLine.Record.Wire

namespace ExprLine

/-- Any record that has a wire form. -/
inductive Record where
  | token (t : Token)
  | tree (t : Tree)
  | symbol (s : Symbol)
  | tally (t : Tally)
  | diagnostic (d : Diagnostic)
  | verdict (v : Verdict)
  | analysis (a : Analysis)
deriving Repr

def Record.toJson : Record → Json
  | token t => t.toJson
  | tree t => t.toJson
  | symbol s => s.toJson
  | tally t => t.toJson
  | diagnostic d => d.toJson
  | verdict v => v.toJson
  | analysis a => a.toJson

/-- What may be put into an artifact: JSON with records, members of closed sets, sets and objects
that have fields but no wire form of their own. A member of a closed set is given by its value,
which may be anything, too. `unwritable` stands for anything else. -/
inductive Document where
  | null
  | bool (b : Bool)
  | int (i : Int)
  | text (s : String)
  | list (items : List Document)
  | object (members : List (String × Document))
  | record (r : Record)
  | fields (members : List (String × Json))
  | constant (value : Document)
  | set (items : List Document)
  | unwritable
deriving Repr

namespace Document

/-- The value of a fault code is its text with the slots open. -/
def faultCode (c : FaultCode) : Document := .text c.template

def kind (k : Kind) : Document := .text k.name

def errorType (e : ErrorType) : Document := .text e.name

mutual

/-- The JSON value of a document, unless something unwritable is in it. -/
def toJson? : Document → Option Json
  | null => some .null
  | bool b => some (.bool b)
  | int i => some (.int i)
  | text s => some (.str s)
  | list ds => (toJsonAll? ds).map .arr
  | object ms => (toJsonMembers? ms).map .obj
  | record r => some r.toJson
  | fields ms => some (.obj ms)
  | constant d => toJson? d
  | set ds => (toJsonAll? ds).map .arr
  | unwritable => none

def toJsonAll? : List Document → Option (List Json)
  | [] => some []
  | d :: ds => (toJson? d).bind fun v => (toJsonAll? ds).map (v :: ·)

def toJsonMembers? : List (String × Document) → Option Json.Members
  | [] => some []
  | (k, d) :: ms => (toJson? d).bind fun v => (toJsonMembers? ms).map ((k, v) :: ·)

end

end Document
end ExprLine
