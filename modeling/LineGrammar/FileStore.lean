import LineGrammar.Fault
import LineGrammar.Path

/-!
Directories and files, and what a path finds among them.
-/

namespace LineGrammar

inductive Entry
  | directory
  | file (contents : List UInt8) (modified : Int)
  deriving DecidableEq, Repr

-- What is seen of a file at one moment: what came of reading it, and when it was last changed. A
-- file that is missing was never changed.
structure FileView where
  contents : Except ReadFault (List UInt8)
  modified : Option Int

structure FileStore where
  entries : List (Place × Entry)
  deriving DecidableEq, Repr

namespace FileStore

def empty : FileStore :=
  ⟨[]⟩

variable (store : FileStore)

def entryAt? (place : Place) : Option Entry :=
  if place.isBase then some .directory
  else (store.entries.find? (·.1 == place)).map (·.2)

def pathFault? (path : String) : Option ReadFault :=
  if path.toList.contains '\x00' then some .nameWithNul
  else if path.isEmpty then some .notFound
  else if Path.byteBound ≤ path.utf8ByteSize then some .nameTooLong
  else none

-- A directory knows no overlong names.
def enter (place : Place) (piece : List Char) : Except ReadFault Place :=
  match store.entryAt? place with
  | none            => .error .notFound
  | some (.file ..) => .error .notDirectory
  | some .directory =>
    if Path.maxNameBytes < (String.ofList piece).utf8ByteSize then .error .nameTooLong
    else .ok (place.step piece)

def resolve (path : String) : Except ReadFault Entry := do
  if let some fault := pathFault? path then throw fault
  let place ← (pathPieces path).foldlM store.enter (Place.start path)
  match store.entryAt? place with
  | none       => throw .notFound
  | some entry => return entry

def read (path : String) : Except ReadFault (List UInt8) := do
  match ← store.resolve path with
  | .directory       => throw .isDirectory
  | .file contents _ => return contents

def modified? (path : String) : Option Int :=
  match store.resolve path with
  | .ok (.file _ modified) => some modified
  | _                      => none

def view (path : String) : FileView :=
  ⟨store.read path, store.modified? path⟩

def put (place : Place) (entry : Entry) : FileStore :=
  ⟨(place, entry) :: store.entries.filter (·.1 != place)⟩

-- Makes a directory at each place that the pieces pass, as far as nothing is there. One that is
-- left again by two dots is made as well, since otherwise the way would lead through nothing.
def makeDirectories (store : FileStore) (place : Place) : List (List Char) → FileStore
  | [] => store
  | piece :: rest =>
    let next := place.step piece
    let made := if (store.entryAt? next).isSome then store else store.put next .directory
    made.makeDirectories next rest

def makeDirectory (path : String) : FileStore :=
  store.makeDirectories (Place.start path) (pathPieces path)

def write (path : String) (contents : List UInt8) (modified : Int) : FileStore :=
  (store.makeDirectories (Place.start path) (pathPieces path).dropLast).put (Place.ofPath path)
    (.file contents modified)

def remove (path : String) : FileStore :=
  ⟨store.entries.filter (·.1 != Place.ofPath path)⟩

end FileStore
end LineGrammar
