import ExprLine.Analysis.Run
import ExprLine.Command.Word

namespace ExprLine.Command

/-- What a command line asks for. -/
structure Options where
  expression : Option String
  file : Option String
  output : Option String
  json : Bool
  stage : Option Stage
deriving DecidableEq, Repr

def Options.empty : Options := ⟨none, none, none, false, none⟩

/-- What a command line comes to: the help, or options. -/
inductive Reading where
  | help
  | options (o : Options)
deriving DecidableEq, Repr

/-- Options read so far, whether an expression may still come, and the words nobody wanted. -/
structure Progress where
  options : Options
  isOpen : Bool
  extras : List String
deriving DecidableEq, Repr

namespace Progress

def start : Progress := ⟨.empty, true, []⟩

/-- The first value is the expression. -/
def takeValue (p : Progress) (s : String) : Progress :=
  if p.isOpen then { p with options := { p.options with expression := some s }, isOpen := false }
  else { p with extras := p.extras ++ [s] }

/-- Gives a flag its value. A later value wins over an earlier one, and two dashes are no value:
they take an earlier one back. -/
def setFlag (p : Progress) (f : Flag) (s : String) : Except UsageFault Progress :=
  let value := if s = "--" then none else some s
  match f with
  | .file => .ok { p with options := { p.options with file := value } }
  | .output => .ok { p with options := { p.options with output := value } }
  | .stage =>
    match value.map Stage.ofKey? with
    | none => .ok { p with options := { p.options with stage := none } }
    | some none => .error (.badStage s)
    | some (some g) => .ok { p with options := { p.options with stage := some g } }
  | .help | .json => .ok p

def finish (p : Progress) : Except UsageFault Reading :=
  if p.extras.isEmpty then .ok (.options p.options) else .error (.unrecognized p.extras)

end Progress

/-- Checks the short flags written in one word after `-h`. Help is given at once if they can be
read, so they have no other effect. `valueNext` tells whether a value follows the word. -/
def cluster (valueNext : Bool) : List Char → Except UsageFault Reading
  | [] => .ok .help
  | c :: r =>
    match Flag.ofSpelling? (String.ofList ['-', c]) with
    | none => .error (.takesNoValue .help (String.ofList (c :: r)))
    | some f =>
      if f.takesValue then
        if r.isEmpty && !valueNext then .error (.lacksValue f) else .ok .help
      else cluster valueNext r

def startsWithValue : List Word → Bool
  | .value _ :: _ => true
  | _ => false

/-- Follows the words from left to right and stops at the first fault or at the help. One
separator goes with the expression; one that comes later is not wanted. -/
def follow : List Word → Progress → Except UsageFault Reading
  | [], p => p.finish
  | .value s :: .separator :: ws, p =>
    if p.isOpen then follow ws (p.takeValue s)
    else follow ws { p with extras := p.extras ++ [s, "--"] }
  | .value s :: ws, p => follow ws (p.takeValue s)
  | .separator :: ws, p =>
    if p.isOpen then follow ws p else follow ws { p with extras := p.extras ++ ["--"] }
  | .unknown s :: ws, p => follow ws { p with extras := p.extras ++ [s] }
  | .flag f short (some a) :: ws, p =>
    if f.takesValue then
      match p.setFlag f a with
      | .error e => .error e
      | .ok q => follow ws q
    else if short && a ≠ "" then cluster (startsWithValue ws) a.toList
    else .error (.takesNoValue f a)
  | .flag .help _ none :: _, _ => .ok .help
  | .flag .json _ none :: ws, p =>
    follow ws { p with options := { p.options with json := true } }
  | .flag f _ none :: .value s :: ws, p =>
    match p.setFlag f s with
    | .error e => .error e
    | .ok q => follow ws q
  | .flag f _ none :: _, _ => .error (.lacksValue f)

/-- Reads a command line. -/
def Reading.ofWords (arguments : List String) : Except UsageFault Reading :=
  match classifyAll arguments with
  | .error f => .error f
  | .ok ws => follow ws .start

end ExprLine.Command
