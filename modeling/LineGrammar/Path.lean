/-!
Paths of files: as they are written, by their components, and by the place that they lead to.
-/

namespace LineGrammar

def pathPieces (path : String) : List (List Char) :=
  path.toList.splitOn '/'

def isAbsolute (path : String) : Bool :=
  path.toList.head? == some '/'

structure Path where
  absolute : Bool
  components : List (List Char)
  deriving DecidableEq, Repr

namespace Path

def here : List Char :=
  ['.']

def above : List Char :=
  ['.', '.']

-- A dot says nothing, except at the start of a relative path, where it tells `./g` from `g`.
def ofString (path : String) : Path :=
  let pieces := pathPieces path
  let named := pieces.filter fun piece => !piece.isEmpty && piece != here
  if isAbsolute path then ⟨true, named⟩
  else ⟨false, if pieces.head? == some here then here :: named else named⟩

-- The system takes paths of fewer bytes than this, since a NUL byte follows the last one.
def byteBound : Nat :=
  4096

def maxNameBytes : Nat :=
  255

end Path

-- A place by the names that lead to it from the working directory. Two dots stand only at the
-- front, where each is one directory further up. A place reached from the root has the root there.
abbrev Place := List (List Char)

namespace Place

-- No name has a slash, so this is none.
def root : List Char :=
  ['/']

def start (path : String) : Place :=
  if isAbsolute path then [root] else []

def isBase (place : Place) : Bool :=
  place.all fun name => name == Path.above || name == root

-- Empty pieces and single dots stay, two dots go up. There is nothing above the root.
def step (place : Place) (piece : List Char) : Place :=
  if piece.isEmpty || piece == Path.here then place
  else if piece == Path.above then
    if place == [root] then place
    else if place.isBase then place ++ [piece]
    else place.dropLast
  else place ++ [piece]

def ofPath (path : String) : Place :=
  (pathPieces path).foldl step (start path)

end Place
end LineGrammar
