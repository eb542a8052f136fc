import ExprLine.Storage.Path
import ExprLine.Text.Quoted

namespace ExprLine

/-- Why a file cannot be read or written. -/
inductive FileFault where
  | notFound | alreadyThere | notFolder | isFolder | nameTooLong | unusablePath
  | other (number : Nat) (reason : String)
deriving DecidableEq, Repr

namespace FileFault

def number : FileFault → Nat
  | notFound => 2
  | alreadyThere => 17
  | notFolder => 20
  | isFolder => 21
  | nameTooLong => 36
  | unusablePath => 22
  | other n _ => n

def reason : FileFault → String
  | notFound => "No such file or directory"
  | alreadyThere => "File exists"
  | notFolder => "Not a directory"
  | isFolder => "Is a directory"
  | nameTooLong => "File name too long"
  | unusablePath => "Invalid argument"
  | other _ r => r

/-- The fault with the path as the caller gave it. -/
def message (f : FileFault) (path : String) : String :=
  "[Errno " ++ toString f.number ++ "] " ++ f.reason ++ ": " ++ Text.quoted path

end FileFault

/-- What is at a path. -/
inductive Entry where
  | folder
  | file (bytes : ByteArray)

instance : DecidableEq Entry
  | .folder, .folder => isTrue rfl
  | .folder, .file _ => isFalse Entry.noConfusion
  | .file _, .folder => isFalse Entry.noConfusion
  | .file a, .file b =>
    match ByteArray.decEq a b with
    | isTrue h => isTrue (congrArg Entry.file h)
    | isFalse h => isFalse fun he => h (Entry.file.inj he)

/-- The folders and files there are. The root is always a folder. There are no links, no folders
of the system's own that take no files, and no permissions: whoever made a folder can make a file
in it. -/
structure Disk where
  entries : List (Path × Entry)

namespace Disk

def empty : Disk := ⟨[]⟩

def get? (d : Disk) (p : Path) : Option Entry :=
  if p.names = [] then some .folder else d.entries.lookup p

/-- Puts an entry at `p` in the place of the one that is there. -/
def putIn (p : Path) (e : Entry) : List (Path × Entry) → List (Path × Entry)
  | [] => [(p, e)]
  | (q, f) :: es => if q = p then (p, e) :: es else (q, f) :: putIn p e es

def put (d : Disk) (p : Path) (e : Entry) : Disk := ⟨putIn p e d.entries⟩

/-- Why there is no way to `p`. The path itself is looked at first, then the names from the root
on: each must fit, and each but the last must be a folder. -/
def barrier? (d : Disk) (p : Path) : Option FileFault :=
  if p.hasNul then some .unusablePath
  else if Path.textLimit ≤ p.text.utf8ByteSize then some .nameTooLong
  else (p.ancestors ++ [p]).findSome? fun q =>
    if q.endsTooLong then some .nameTooLong
    else if q = p then none
    else match d.get? q with
      | none => some .notFound
      | some (.file _) => some .notFolder
      | some .folder => none

def read (d : Disk) (p : Path) : Except FileFault ByteArray :=
  match d.barrier? p with
  | some f => .error f
  | none =>
    match d.get? p with
    | none => .error .notFound
    | some .folder => .error .isFolder
    | some (.file b) => .ok b

/-- Replaces the file at `p`, or makes it in a folder that is there. -/
def write (d : Disk) (p : Path) (b : ByteArray) : Except FileFault Disk :=
  match d.barrier? p with
  | some f => .error f
  | none =>
    match d.get? p with
    | some .folder => .error .isFolder
    | _ => .ok (d.put p (.file b))

/-- Makes the folders that lack among `ps`, which go down one name at a time, up to the first that
cannot be made. Gives the disk then, and the fault if there was one. A file on the way is found by
the folder below it, which has no way to it. -/
def makeFolders : List Path → Disk → Disk × Option FileFault
  | [], d => (d, none)
  | p :: ps, d =>
    match d.get? p with
    | some .folder => makeFolders ps d
    | some (.file _) => if ps.isEmpty then (d, some .alreadyThere) else makeFolders ps d
    | none =>
      match d.barrier? p with
      | some f => (d, some f)
      | none => makeFolders ps (d.put p .folder)

/-- Makes the folder `p` and all above it; it may be there already. -/
def makeFolder (d : Disk) (p : Path) : Except FileFault Disk :=
  match makeFolders (p.ancestors ++ [p]) d with
  | (d', none) => .ok d'
  | (_, some f) => .error f

/-- The disk once `p` was to be made a folder. Where it could not be, those above it that were made
stay. -/
def afterFolder (d : Disk) (p : Path) : Disk := (makeFolders (p.ancestors ++ [p]) d).1

/-- The files of `d` that are new since `old` or hold other bytes. -/
def changes (old d : Disk) : List (Path × ByteArray) :=
  d.entries.filterMap fun (p, e) =>
    match e with
    | .folder => none
    | .file b => if old.get? p = some (.file b) then none else some (p, b)

theorem lookup_putIn_self (p : Path) (e : Entry) (es : List (Path × Entry)) :
    (putIn p e es).lookup p = some e := by
  induction es with
  | nil => simp [putIn]
  | cons x es ih =>
    obtain ⟨r, f⟩ := x
    by_cases h : r = p
    · simp [putIn, h]
    · have hp : (p == r) = false := by simpa using Ne.symm h
      simp [putIn, h, List.lookup_cons, hp, ih]

theorem lookup_putIn_ne {p q : Path} (h : q ≠ p) (e : Entry) (es : List (Path × Entry)) :
    (putIn p e es).lookup q = es.lookup q := by
  have hp : (q == p) = false := by simpa using h
  induction es with
  | nil => simp [putIn, List.lookup_cons, hp]
  | cons x es ih =>
    obtain ⟨r, f⟩ := x
    by_cases hr : r = p
    · simp [putIn, hr, List.lookup_cons, hp]
    · simp [putIn, hr, List.lookup_cons, ih]

end Disk
end ExprLine
