import ExprLine.Json.Printer
import ExprLine.Record.Wire
import ExprLine.Storage.Disk

namespace ExprLine

/-- What to analyze, how far, and which products to keep on disk. `file` is where the source
came from, if it came from a file. -/
structure Request where
  source : Option (List Char)
  stopAfter : Option String
  limit : Option Int
  keep : List String
  file : Option String

namespace Artifact

/-- What the names of the artifacts start with: the path of the file without its extension, so
that they stand beside it. -/
def base (here : Path) (file : Option String) : String :=
  match file with
  | none => "exa_output"
  | some f => if f = "" then "exa_output" else (here.resolve f).withoutExtension.textFor f

def name (base : String) (s : Stage) : String := base ++ "." ++ s.name ++ ".json"

/-- A product's file: the JSON document, in UTF-8. -/
def bytes (p : Product) : ByteArray := p.toJson.document.toUTF8

variable {σ : Type}

/-- What came of writing products: the storage, the notes, the products it got to, and whether
these are all. -/
structure Saved (σ : Type) where
  storage : σ
  notes : List String
  reached : List Product
  complete : Bool

/-- Writes a product and notes it. A fault of the storage is noted too, and nothing else comes of
it. A path that no file can have is no such fault: it breaks off. -/
def save (write : σ → String → ByteArray → Except FileFault σ) (base : String) (p : Product) (s : σ) :
    Saved σ :=
  let path := name base p.stage
  let note := "--- Saving artifact '" ++ p.stage.name ++ "' to " ++ path ++ " ---"
  match write s path (bytes p) with
  | .ok s' => ⟨s', [note], [p], true⟩
  | .error .unusablePath => ⟨s, [note], [p], false⟩
  | .error f =>
    ⟨s, [note, "Error: Could not save artifact '" ++ p.stage.name ++ "': " ++ f.message path], [p], true⟩

/-- Writes the products of the stages named in `keep`, in their own order and once each. -/
def saveAll (write : σ → String → ByteArray → Except FileFault σ) (base : String) (keep : List String) :
    List Product → σ → Saved σ
  | [], s => ⟨s, [], [], true⟩
  | p :: ps, s =>
    let one := if p.stage.name ∈ keep then save write base p s else ⟨s, [], [p], true⟩
    if one.complete then
      let more := saveAll write base keep ps one.storage
      ⟨more.storage, one.notes ++ more.notes, one.reached ++ more.reached, more.complete⟩
    else one

end Artifact

/-- A run, what became of the storage, and the notes on the artifacts. -/
structure Analyzed (σ : Type) where
  run : Run
  storage : σ
  notes : List String

/-- Analyzes and saves artifacts. Of the storage the run learns one thing only: that an artifact
has no possible path. Then it ends there, with an internal failure. -/
def Request.analyze {σ : Type} (write : σ → String → ByteArray → Except FileFault σ) (here : Path)
    (r : Request) (s : σ) : Analyzed σ :=
  let run := Analysis.run r.source r.stopAfter r.limit
  let saved := Artifact.saveAll write (Artifact.base here r.file) r.keep run.products s
  ⟨if saved.complete then run else ⟨Analysis.internalFailure, saved.reached⟩, saved.storage, saved.notes⟩

/-- Writes to a disk, at the path a text names. -/
def Disk.writeAt (here : Path) (d : Disk) (path : String) (b : ByteArray) : Except FileFault Disk :=
  d.write (here.resolve path) b

end ExprLine
