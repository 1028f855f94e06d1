import Reassembly.Config.Document
import Reassembly.Storage

/-!
Making and opening stores. A store that is opened where there is none is formatted apart and published
under its path only when it is whole; a file that is there is attached to as it is, whatever the
configuration says about geometry. All that can be refused is refused before a file is touched, but for
a length that no file can have: a file is made or emptied before its length is set.
-/

namespace Reassembly

namespace Attachment

def inMemory (config : StoreConfig) : Storing Attachment := do
  let len ← requiredLength config
  let handle ← Storage.newMemory len
  Storage.lend handle (format config)

/-- Formats a store at the path of a configuration, or in memory. What the file held is lost. -/
def createStore (config : Config) : Storing Attachment := do
  config.validate
  let len ← requiredLength config.store
  let handle ← match config.regionPath with
    | some path => Storage.createFile path len
    | none => Storage.newMemory len
  Storage.lend handle (format config.store)

def draftPrefix : String := ".shmflow-"

def draftDigits : Nat := 6

def draftName (number : Nat) : String :=
  draftPrefix ++ String.ofList ((Nat.toDigits 16 number).leftpad draftDigits '0')

def draftNameLength : Nat := draftPrefix.utf8ByteSize + draftDigits

def hasRoomBeside (s : Storage) (path : String) : Bool :=
  let folder := Storage.folderOf path
  s.locate folder = .folder
    && folder.utf8ByteSize + 1 + draftNameLength ≤ Storage.maxPathLength

/-- A place for a draft beside a path: the first that is free, and not the path's own. -/
def draftPlace (s : Storage) (path : String) : Option String :=
  if hasRoomBeside s path then
    (List.range (s.files.size + s.folders.length + 2)).findSome? fun number =>
      (s.freePlace (Storage.folderOf path) (draftName number)).filter fun place =>
        s.locate path ≠ .vacant place
  else none

/-- Work with a draft, which is removed behind it, also after a fault. -/
def withDraft {α : Type} (draft : String) (work : Storing α) : Storing α := fun s =>
  match work (s.setFile draft (.zeros 0)) with
  | .ok a s => .ok a (s.removeFile draft)
  | .error fault s => .error fault (s.removeFile draft)

def formatDraft (config : StoreConfig) (draft : String) : Storing Attachment := do
  let len ← requiredLength config
  let handle ← Storage.fillFile draft draft len
  Storage.lend handle (format config)

/-- Publishes a draft by a link that replaces nothing. A name that is taken is left to whoever opens
it. -/
def link (draft : String) : Spot → Storing Unit
  | .vacant place => modify fun s => s.setFile place (s.fileBytes draft)
  | .fileAsFolder => return
  | _ => throw .io

/-- Makes sure that the path of a store leads to something: an empty store if nothing was there. The
store is formatted as a draft beside its path. So a missing folder comes to light first, then a geometry
that gives no store, then a path that no file can have. -/
def publish (config : StoreConfig) (path : String) : Storing Unit := do
  let s ← get
  match s.locate path with
  | .folder | .file _ => return
  | spot =>
    match draftPlace s path with
    | none => throw .io
    | some draft =>
      withDraft draft do
        discard <| formatDraft config draft
        link draft spot

/-- Attaches to the store at the path of a configuration, which is published first if nothing is
there. Without a path this makes a store in memory. -/
def openStore (config : Config) : Storing Attachment := do
  config.validate
  match config.regionPath with
  | none => createStore config
  | some path => do
    publish config.store path
    let handle ← Storage.openFile path
    Storage.lend handle (attach config.store)

end Attachment

def Config.load (path : String) : Storing Config := do
  let text ← Storage.readText path
  Config.ofText text

end Reassembly
