import ExprLine.Command.Session

namespace ExprLine.Main

/-- What is at a path now. A path that cannot be read is a folder or leads through a file, which
is then found above it. -/
def probe (p : Path) : IO (Option Entry) := do
  try
    return some (.file (← IO.FS.readBinFile p.text))
  catch
    | .noFileOrDirectory .. => return none
    | _ => return some .folder

/-- The part of the disk on the way to the given paths. -/
def snapshot (paths : List Path) : IO Disk := do
  let mut disk := Disk.empty
  for p in paths do
    for q in p.ancestors ++ [p] do
      if let some e ← probe q then
        disk := disk.put q e
  return disk

/-- Brings the real disk to the state of `new`. -/
def apply (old new : Disk) : IO Unit := do
  for (p, e) in new.entries do
    unless old.get? p = some e do
      match e with
      | .folder => IO.FS.createDirAll p.text
      | .file b => IO.FS.writeBinFile p.text b

/-- All bytes of a stream. -/
partial def readAll (stream : IO.FS.Stream) (soFar : ByteArray) : IO ByteArray := do
  let chunk ← stream.read 65536
  if chunk.isEmpty then return soFar else readAll stream (soFar ++ chunk)

/-- Nanoseconds as seconds with four decimals. -/
def seconds (nanos : Nat) : String :=
  let units := (nanos + 50000) / 100000
  toString (units / 10000) ++ "." ++ ((toString (10000 + units % 10000)).drop 1).toString

end ExprLine.Main

open ExprLine ExprLine.Command ExprLine.Main

def main (arguments : List String) : IO UInt32 := do
  let started ← IO.monoNanosNow
  let input ← IO.getStdin
  let here := Path.resolve ⟨[]⟩ (← IO.currentDir).toString
  let call : Invocation := ⟨arguments, none, here, .empty⟩
  let piped ←
    if ← input.isTty then pure none
    else if call.readsInput then some <$> readAll input .empty
    else pure (some .empty)
  let disk ← snapshot call.reach
  let outcome := { call with piped := piped, disk := disk }.run
  apply disk outcome.disk
  (← IO.getStderr).putStr outcome.stderr
  (← IO.getStdout).putStr (outcome.stdout (seconds ((← IO.monoNanosNow) - started)))
  match outcome.ending with
  | .exit status => return status.toUInt32
  | .fault f =>
    (← IO.getStderr).putStr (f.reason ++ "\n")
    return 1
  | .notText =>
    (← IO.getStderr).putStr "The input is not UTF-8.\n"
    return 1
