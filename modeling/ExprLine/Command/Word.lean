import ExprLine.Command.Usage
import ExprLine.Text.Digit

namespace ExprLine.Command

/-- What a word of the command line is, seen alone. `short` tells a flag with one dash, and
`attached` is a value in the same word, after an equals sign or at once. -/
inductive Word where
  | value (s : String)
  | separator
  | flag (f : Flag) (short : Bool) (attached : Option String)
  | unknown (s : String)
deriving DecidableEq, Repr

/-- A dash and a number: digits, or a point with digits after it. One line feed may follow. -/
def isNegativeNumber (s : List Char) : Bool :=
  match s with
  | '-' :: r =>
    let r := if r.getLast? = some '\n' then r.dropLast else r
    let fraction := r.dropWhile Text.isDecimalDigit
    match fraction with
    | [] => !r.isEmpty
    | '.' :: ds => !ds.isEmpty && ds.all Text.isDecimalDigit
    | _ => false
  | _ => false

/-- A text before and after its first equals sign. -/
def splitEquals (s : List Char) : List Char × Option (List Char) :=
  match s.dropWhile (· ≠ '=') with
  | [] => (s, none)
  | _ :: r => (s.takeWhile (· ≠ '='), some r)

/-- The long spellings that a word abbreviates. -/
def abbreviated (head : List Char) : List (String × Flag) :=
  Flag.dictionary.filter fun (s, _) => head.isPrefixOf s.toList

/-- What a word is that starts with a dash and is no spelling as it stands. -/
def classifyDashed (s : String) (rest : List Char) : Except UsageFault Word :=
  let (head, tail) := splitEquals ('-' :: rest)
  let attached := tail.map String.ofList
  let short := rest.head? ≠ some '-'
  match tail, Flag.ofSpelling? (String.ofList head) with
  | some _, some f => .ok (.flag f short attached)
  | _, _ =>
    let candidates :=
      if short then
        ((Flag.ofSpelling? (String.ofList ('-' :: rest.take 1))).map fun f =>
          (String.ofList ('-' :: rest.take 1), f)).toList
      else abbreviated head
    match candidates with
    | [(_, f)] => .ok (.flag f short (if short then some (String.ofList (rest.drop 1)) else attached))
    | _ :: _ :: _ => .error (.ambiguous s (candidates.map (·.1)))
    | [] =>
      if isNegativeNumber ('-' :: rest) || ' ' ∈ rest then .ok (.value s) else .ok (.unknown s)

/-- What a word is that stands before any separator. -/
def classify (s : String) : Except UsageFault Word :=
  match s.toList with
  | '-' :: rest =>
    match Flag.ofSpelling? s with
    | some f => .ok (.flag f (rest.head? ≠ some '-') none)
    | none => if rest = [] then .ok (.value s) else classifyDashed s rest
  | _ => .ok (.value s)

/-- The words of a command line. After the first separator every word is a value. -/
def classifyAll : List String → Except UsageFault (List Word)
  | [] => .ok []
  | s :: ss =>
    if s = "--" then .ok (.separator :: ss.map .value)
    else
      match classify s with
      | .error f => .error f
      | .ok w => (classifyAll ss).map (w :: ·)

end ExprLine.Command
