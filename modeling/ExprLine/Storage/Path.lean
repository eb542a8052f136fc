import ExprLine.Text.Pieces

namespace ExprLine

/-- An absolute path: the names from the root down. -/
structure Path where
  names : List String
deriving DecidableEq, Repr

namespace Path

def text (p : Path) : String := "/" ++ "/".intercalate p.names

/-- The path as it is written when `asked` was asked for. Two slashes in front stay two; one, or
more than two, are one. -/
def textFor (asked : String) (p : Path) : String :=
  match asked.toList with
  | '/' :: '/' :: '/' :: _ => p.text
  | '/' :: '/' :: _ => "/" ++ p.text
  | _ => p.text

def parent (p : Path) : Path := ⟨p.names.dropLast⟩

/-- A name can take this many bytes. -/
def nameLimit : Nat := 255

/-- A written path must take fewer bytes. -/
def textLimit : Nat := 4096

/-- The last name takes too many bytes. -/
def endsTooLong (p : Path) : Bool :=
  match p.names.getLast? with
  | none => false
  | some n => nameLimit < n.utf8ByteSize

/-- No file has a NUL character in its path. -/
def hasNul (p : Path) : Bool := p.names.any fun n => n.toList.contains '\x00'

/-- The paths above `p`, the root first. -/
def ancestors (p : Path) : List Path :=
  (List.range p.names.length).map fun n => ⟨p.names.take n⟩

/-- Goes on from a folder by one name: nothing and a dot stay, two dots go up. -/
def step (names : List String) (n : String) : List String :=
  if n = "" ∨ n = "." then names
  else if n = ".." then names.dropLast
  else names ++ [n]

/-- The path a text names, seen from the folder `here`. Whether its folders exist is not asked. -/
def resolve (here : Path) (s : String) : Path :=
  let start := if s.toList.head? = some '/' then [] else here.names
  ⟨((Text.pieces '/' s.toList).map String.ofList).foldl step start⟩

/-- A file name without its extension. Dots in front belong to the name. -/
def stem (name : List Char) : List Char :=
  match name.reverse.dropWhile (· ≠ '.') with
  | [] => name
  | _ :: r => if r.any (· ≠ '.') then r.reverse else name

/-- The path without the extension of its last name. -/
def withoutExtension (p : Path) : Path :=
  match p.names.getLast? with
  | none => p
  | some n => ⟨p.names.dropLast ++ [String.ofList (stem n.toList)]⟩

end Path
end ExprLine
