import ExprLine.Analysis.Artifact
import ExprLine.Command.Options
import ExprLine.Report.Basic
import ExprLine.Text.Stream

namespace ExprLine.Command

/-- A call of the program: its arguments, the bytes piped in (none at a terminal), the folder it
is called in, and the disk. -/
structure Invocation where
  arguments : List String
  piped : Option ByteArray
  here : Path
  disk : Disk

/-- How the program ends: with an exit status, or by a fault it does not handle. -/
inductive Ending where
  | exit (status : Nat)
  | fault (f : FileFault)
  | notText
deriving DecidableEq, Repr

/-- What a call leaves behind. Where `timed` holds, the time it took is printed last. -/
structure Outcome where
  ending : Ending
  printed : String
  timed : Bool
  stderr : String
  disk : Disk

/-- All that goes to the standard output of a call that took so many seconds. -/
def Outcome.stdout (o : Outcome) (seconds : String) : String :=
  o.printed ++
    if o.timed then
      "\n" ++ Report.paint .cyan ("--- Total Execution Time: " ++ seconds ++ " seconds ---") ++ "\n"
    else ""

/-- Where the expression comes from. -/
inductive Source where
  | argument (s : String)
  | file (name : String)
  | piped (bytes : ByteArray)

/-- A file name that is empty names no file. -/
def given (name : Option String) : Option String := name.filter (· ≠ "")

/-- The one source there is. A file is read even if something is piped in. -/
def Options.source (o : Options) (piped : Option ByteArray) : Except UsageFault Source :=
  match o.expression, given o.file, piped with
  | some _, some _, _ => .error .twoSources
  | some s, none, _ => .ok (.argument s)
  | none, some f, _ => .ok (.file f)
  | none, none, some b => .ok (.piped b)
  | none, none, none => .error .noSource

/-- The file name of a source. -/
def Source.fileName : Source → Option String
  | file f => some f
  | _ => none

/-- The text of a source. An argument is taken as it is. -/
def Source.text (src : Source) (here : Path) (d : Disk) : Except Ending (List Char) :=
  let decode (b : ByteArray) := match Text.ofBytes? b with
    | some s => .ok s
    | none => .error .notText
  match src with
  | argument s => .ok s.toList
  | piped b => decode b
  | file f =>
    match d.read (here.resolve f) with
    | .ok b => decode b
    | .error e => .error (.fault e)

/-- The JSON document of an analysis. -/
def document (a : Analysis) : String := a.toJson.document

/-- What is printed of an analysis before anything is written. -/
def answer (o : Options) (source : List Char) (a : Analysis) : String :=
  if o.json then document a ++ "\n"
  else (Report.text? source a).getD "" ++
    (match o.stage with
      | some g =>
        if a.success then
          "\n" ++ Report.paint .green
            ("--- Analysis to stage '" ++ g.key ++ " (" ++ g.title ++ ")' successful ---") ++ "\n"
        else ""
      | none => "")

/-- Writes the document to the output file, in folders made for it, which stay whatever comes of
the rest. Gives the disk, the fault if there was one, and what is printed about it. -/
def writeOutput (o : Options) (here : Path) (a : Analysis) (d : Disk) : Disk × Option FileFault × String :=
  match given o.output with
  | none => (d, none, "")
  | some name =>
    let p := here.resolve name
    match d.makeFolder p.parent with
    | .error f => (d.afterFolder p.parent, some f, "")
    | .ok d₁ =>
      match d₁.write p (document a).toUTF8 with
      | .error f => (d₁, some f, "")
      | .ok d₂ => (d₂, none, if o.json then "" else "Result written to " ++ p.textFor name ++ "\n")

/-- Only a file that is not found is handled: it is reported and the status is 1. -/
def handle (o : Options) : Ending → Ending × String
  | .fault .notFound =>
    (.exit 1,
      Report.paint .red ("ERROR: Input file '" ++ o.file.getD "None" ++ "' not found.") ++ "\n")
  | e => (e, "")

/-- Analyzes the text of a source and shows the result. -/
def present (i : Invocation) (o : Options) (src : Source) (text : List Char) : Outcome :=
  let stop := o.stage.map Stage.name
  let request : Request := ⟨some text, stop, some defaultLimit, stop.toList, src.fileName⟩
  let done := request.analyze (Disk.writeAt i.here) i.here i.disk
  let a := done.run.analysis
  let (disk, fault, written) := writeOutput o i.here a done.storage
  let (ending, complaint) := match fault with
    | none => (.exit (if a.success then 0 else 1), "")
    | some f => handle o (.fault f)
  ⟨ending, answer o text a ++ written, !o.json,
    String.join (done.notes.map (· ++ "\n")) ++ complaint, disk⟩

/-- The paths a call may read or write. -/
def Invocation.reach (i : Invocation) : List Path :=
  match Reading.ofWords i.arguments with
  | .ok (.options o) =>
    let file := given o.file
    let artifact := o.stage.map (Artifact.name (Artifact.base i.here file))
    (file.toList ++ artifact.toList ++ (given o.output).toList).map i.here.resolve
  | _ => []

/-- Whether a call reads what is piped in. -/
def Invocation.readsInput (i : Invocation) : Bool :=
  match Reading.ofWords i.arguments with
  | .ok (.options o) => o.expression.isNone && (given o.file).isNone
  | _ => false

/-- Runs the program. JSON is printed without the time, so that nothing follows it. -/
def Invocation.run (i : Invocation) : Outcome :=
  match Reading.ofWords i.arguments with
  | .error f => ⟨.exit 2, "", false, f.report, i.disk⟩
  | .ok .help => ⟨.exit 0, helpText, false, "", i.disk⟩
  | .ok (.options o) =>
    match o.source i.piped with
    | .error f => ⟨.exit 2, "", false, f.report, i.disk⟩
    | .ok src =>
      match src.text i.here i.disk with
      | .error e =>
        let (ending, complaint) := handle o e
        ⟨ending, "", !o.json, complaint, i.disk⟩
      | .ok text => present i o src text

end ExprLine.Command
