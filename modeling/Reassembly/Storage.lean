import Reassembly.Attachment

/-!
Where regions live: pieces of anonymous memory, and files in a working folder with folders below it. A
file is known by the place that a path leads to, so two paths to one place share its bytes. A region's
bytes are lent out for the time that its lock is held.
-/

namespace Reassembly

/-- Memory, files and folders. A place is a path below the working folder, written without detours; a
folder is the list of its path's names. -/
structure Storage where
  memory : Array SparseBytes := #[]
  files : Std.ExtTreeMap String SparseBytes := ∅
  folders : List (List String) := []

abbrev Storing := Work Storage

inductive Spot where
  | folder
  | file (place : String)
  /-- A name that is free in a folder that is there. -/
  | vacant (place : String)
  /-- A file, written with a slash behind it as only a folder may be. -/
  | fileAsFolder
  /-- A folder on the way is missing, no file can have the name, or the path leaves the working
  folder. -/
  | nowhere
  deriving DecidableEq

namespace Storage

def maxNameLength : Nat := 255

def maxPathLength : Nat := 4095

/-- The longest file: a place in it is a signed word. -/
def maxFileLength : Nat := 0x7fffffffffffffff

def isName (name : String) : Bool :=
  name.utf8ByteSize ≤ maxNameLength && !name.toList.contains '\x00'

/-- Whether a name in a path leads to a folder that was there before: the same one, or the one
above. -/
def isDetour (name : String) : Bool := name == "" || name == "." || name == ".."

/-- Above the working folder nothing is known but that there are folders. -/
def above (names : List String) : Spot := if names.all isDetour then .folder else .nowhere

def follow (s : Storage) (folder : List String) : List String → Spot
  | [] => .folder
  | name :: rest =>
    if name = "" ∨ name = "." then follow s folder rest
    else if name = ".." then
      if folder.isEmpty then above rest else follow s folder.dropLast rest
    else
      let path := folder ++ [name]
      let place := "/".intercalate path
      if path ∈ s.folders then follow s path rest
      else if rest.isEmpty && isName name then
        if s.files.contains place then .file place else .vacant place
      else if rest.all (· == "") && s.files.contains place then .fileAsFolder
      else .nowhere

/-- What a path leads to. A path from the root does not lie below the working folder. -/
def locate (s : Storage) (path : String) : Spot :=
  let names := path.splitOn "/"
  if path = "" ∨ maxPathLength < path.utf8ByteSize then .nowhere
  else if path.startsWith "/" then above names
  else s.follow [] names

def folderOf (path : String) : String :=
  let isIdle (name : String) := name == "" || name == "."
  let inner := ((path.splitOn "/").reverse.dropWhile isIdle).drop 1
  match inner.dropWhile isIdle with
  | [] => if path.startsWith "/" then "/" else "."
  | names => "/".intercalate names.reverse

def fileBytes (s : Storage) (place : String) : SparseBytes := s.files.getD place (.zeros 0)

def setFile (s : Storage) (place : String) (bytes : SparseBytes) : Storage :=
  { s with files := s.files.insert place bytes }

def removeFile (s : Storage) (place : String) : Storage := { s with files := s.files.erase place }

def freePlace (s : Storage) (folder name : String) : Option String :=
  let path := folder ++ "/" ++ name
  match s.locate path with
  | .vacant place => some place
  | .nowhere => if s.files.contains path then none else some path
  | _ => none

def takeBytes (s : Storage) : Place → SparseBytes × Storage
  | .memory index =>
    (s.memory.getD index (.zeros 0), { s with memory := s.memory.setIfInBounds index (.zeros 0) })
  | .file _ place => (s.fileBytes place, s.setFile place (.zeros 0))

def putBytes (s : Storage) (bytes : SparseBytes) : Place → Storage
  | .memory index => { s with memory := s.memory.setIfInBounds index bytes }
  | .file _ place => s.setFile place bytes

/-- Lends a region's bytes to some work, and takes them back with all changes. -/
def lend {α : Type} (handle : RegionHandle) (work : Access α) : Storing α :=
  Work.onPart
    (fun s =>
      let (bytes, s) := s.takeBytes handle.place
      (⟨handle, bytes⟩, s))
    (fun region s => s.putBytes region.bytes handle.place) work

def lendWith {σ α : Type} (handle : σ → RegionHandle) (work : Work (σ × Region) α) :
    Work (σ × Storage) α :=
  Work.onPart
    (fun (other, s) =>
      let handle := handle other
      let (bytes, s) := s.takeBytes handle.place
      ((other, ⟨handle, bytes⟩), handle.place, s))
    (fun (other, region) (place, s) => (other, s.putBytes region.bytes place)) work

def newMemory (len : Nat) : Storing RegionHandle := fun s =>
  .ok ⟨len, .memory s.memory.size⟩ { s with memory := s.memory.push (.zeros len) }

/-- A region of zero bytes in the file at a place, which is made or emptied before its length is set. -/
def fillFile (shown place : String) (len : Nat) : Storing RegionHandle := fun s =>
  if len ≤ maxFileLength then .ok ⟨len, .file shown place⟩ (s.setFile place (.zeros len))
  else .error .io (s.setFile place (.zeros 0))

def createFile (path : String) (len : Nat) : Storing RegionHandle := fun s =>
  match s.locate path with
  | .file place | .vacant place => fillFile path place len s
  | _ => .error (.cannotOpen path) s

def openFile (path : String) : Storing RegionHandle := fun s =>
  match s.locate path with
  | .file place => .ok ⟨(s.fileBytes place).size, .file path place⟩ s
  | _ => .error (.cannotOpen path) s

def readText (path : String) : Storing String := fun s =>
  match s.locate path with
  | .file place =>
    match String.fromUTF8? (s.fileBytes place).toBytes with
    | some text => .ok text s
    | none => .error .io s
  | _ => .error .io s

def writeFile (s : Storage) (path : String) (data : ByteArray) : Storage :=
  match s.locate path with
  | .file place | .vacant place => s.setFile place (.ofBytes data)
  | _ => s

def setFileLength (s : Storage) (path : String) (len : Nat) : Storage :=
  match s.locate path with
  | .file place =>
    if len ≤ maxFileLength then s.setFile place ((s.fileBytes place).resize len) else s
  | _ => s

/-- Makes the folders along some names below a folder, as far as they can be names of folders and no
file is in the way. -/
def makeFolders (s : Storage) (folder : List String) : List String → Storage
  | [] => s
  | name :: rest =>
    let path := folder ++ [name]
    if name = ".." then
      if folder.isEmpty then s else makeFolders s folder.dropLast rest
    else if path ∈ s.folders then makeFolders s path rest
    else if !isName name || s.files.contains ("/".intercalate path) then s
    else makeFolders { s with folders := path :: s.folders } path rest

def makeFolder (s : Storage) (path : String) : Storage :=
  if maxPathLength < path.utf8ByteSize then s
  else s.makeFolders [] ((path.splitOn "/").filter fun name => name != "" && name != ".")

def names (s : Storage) : List String :=
  let files := s.files.keys.filter fun place => !place.toList.contains '/'
  let folders := s.folders.filterMap fun
    | [name] => some name
    | _ => none
  (files ++ folders).mergeSort fun a b => decide (a ≤ b)

end Storage

def Attachment.lending {α : Type} (work : Attached α) : Work (Attachment × Storage) α :=
  Storage.lendWith Attachment.handle work

end Reassembly
