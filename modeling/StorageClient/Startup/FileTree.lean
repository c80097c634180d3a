import StorageClient.Startup.Disk
import StorageClient.Text.Utf8

/-!
A file system as a value: the files and directories below a working directory. Names that begin
with a slash lie in a tree of their own, which is empty but for the directory of temporary files and
the null device, and so do those that lead up from the working directory.
-/

namespace StorageClient

/-- Files with their bytes, and directories, by the parts of their names. The directories above an
entry are there as well. -/
structure FileTree where
  entries : List (List Text × Option (List UInt8)) := []

namespace FileTree

inductive Kind where
  | file (bytes : List UInt8)
  | directory

def root : Text := ['/']

def parent : Text := ['.', '.']

/-- Whether parts lead from the working directory straight up. -/
def isUpward (p : List Text) : Bool := p.all (· == parent)

def isFixed (p : List Text) : Bool :=
  isUpward p || [[], ["tmp".toList], ["dev".toList]].any fun ps => p == root :: ps

/-- What there is at a place. The null device is an empty file. -/
def kind? (fs : FileTree) (p : List Text) : Option Kind :=
  if isFixed p then some .directory
  else if p = [root, "dev".toList, "null".toList] then some (.file [])
  else match fs.entries.find? (·.1 == p) with
    | some (_, some bytes) => some (.file bytes)
    | some (_, none) => some .directory
    | none => if fs.entries.any fun e => p.isPrefixOf e.1 then some .directory else none

def parts (name : Text) : List Text :=
  let ps := (Text.pieces '/' name).filter (· ≠ [])
  if name.head? = some '/' then root :: ps else ps

/-- The parts of the directory above a name, last first. Points for the place itself do not count
as parts unless one begins the name. -/
def above (name : Text) : List Text :=
  let ps := parts name
  (ps.take 1 ++ (ps.drop 1).filter (· ≠ ['.'])).reverse.drop 1

/-- The bytes that a part of a name may have. -/
def maxPart : Nat := 255

def maxName : Nat := 4095

/-- Refuses names that no file can have. -/
def check (name : Text) : Except OsError Unit :=
  if '\x00' ∈ name then .error .nulInName
  else if maxName < Utf8.size name then .error .nameTooLong
  else .ok ()

/-- One part further. Nothing lies above the root. -/
def enter (p : List Text) (part : Text) : List Text :=
  if part = ['.'] then p
  else if part = parent ∧ !isUpward p then (if p = [root] then p else p.dropLast)
  else p ++ [part]

/-- Follows parts from a place. All but the last have to be directories. -/
def walk (fs : FileTree) (p : List Text) : List Text → Except OsError (List Text)
  | [] => .ok p
  | part :: ps =>
    match fs.kind? p with
    | some .directory =>
      if maxPart < Utf8.size part then .error .nameTooLong else walk fs (enter p part) ps
    | some (.file _) => .error .notADirectory
    | none => .error .noSuchFile

def place (fs : FileTree) (ps : List Text) : Except OsError (List Text) := fs.walk [] ps

def isDirectory (fs : FileTree) (ps : List Text) : Bool :=
  match (fs.place ps).toOption.bind fs.kind? with
  | some .directory => true
  | _ => false

def makeDir (fs : FileTree) (ps : List Text) : Except OsError FileTree := do
  let p ← fs.place ps
  if (fs.kind? p).isSome then throw .fileExists
  return { fs with entries := fs.entries ++ [(p, none)] }

def ensureDir (fs : FileTree) (ps : List Text) : Except OsError FileTree :=
  match fs.makeDir ps with
  | .ok fs => .ok fs
  | .error e => if fs.isDirectory ps then .ok fs else .error e

/-- Makes a directory and those above it that are missing, from the parts of its name and those
above it, last first. -/
def makeDirs (fs : FileTree) (ps : List Text) : List Text → Except OsError FileTree
  | [] => fs.ensureDir ps
  | part :: above =>
    match fs.makeDir ps with
    | .error .noSuchFile => do (← fs.makeDirs (part :: above).reverse above).ensureDir ps
    | _ => fs.ensureDir ps

/-- The bytes of a file. A name that ends in a slash is not that of a file. -/
def bytes (fs : FileTree) (name : Text) : Except OsError (List UInt8) := do
  if name = [] then throw .noSuchFile
  check name
  match fs.kind? (← fs.place (parts name)) with
  | some (.file bs) => if name.getLast? = some '/' then throw .notADirectory else return bs
  | some .directory => throw .isADirectory
  | none => throw .noSuchFile

def read (fs : FileTree) (name : Text) : Except ReadError Text :=
  match fs.bytes name with
  | .error e => .error (.os e)
  | .ok bs =>
    match Utf8.decode? bs with
    | some t => .ok t
    | none => .error .notText

/-- Opens a file to write at its end. It is made if there is nothing of its name. -/
def append (fs : FileTree) (name : Text) : Except OsError FileTree := do
  check name
  let p ← fs.place (parts name)
  match fs.kind? p with
  | some (.file _) => return fs
  | some .directory => throw .isADirectory
  | none => return { fs with entries := fs.entries ++ [(p, some [])] }

def keep (r : Except OsError FileTree) : StateM FileTree (Except OsError Unit) :=
  match r with
  | .ok fs => do
    set fs
    return .ok ()
  | .error e => return .error e

def disk : Disk (StateM FileTree) where
  read name := do return (← get).read name
  isFile name := do return ((← get).bytes name).isOk
  makeDirs name := do
    let fs ← get
    keep do
      check name
      fs.makeDirs (parts name) (above name)
  append name := do keep ((← get).append name)

end FileTree

end StorageClient
