import QueueWatch.Text.Blank

/-!
# Paths

A path is text: steps between slashes, taken from the root one after the other. A step is a name, or
it stays where it is, or it leads back to the directory above. Places in the tree of directories are
known by the names that lead to them. `Place.along` says where steps lead, and `Place.way` which
places are passed; whether there is anything at these places is up to a disk.

A path that does not begin with a slash is taken from the root as well.
-/

namespace QueueWatch

/-- The path of a name below a directory. A name that begins with a slash stands for itself. -/
def joinPath (directory name : String) : String :=
  if name.toList.head? = some '/' then name
  else if directory = "" ∨ directory.toList.getLast? = some '/' then directory ++ name
  else directory ++ "/" ++ name

/-- The bytes that a name may have. -/
def maxNameLength : Nat := 255

/-- The bytes that a path may have. -/
def maxPathLength : Nat := 4095

/-- The steps of a path. A slash at the start, at the end or beside another one adds an empty step.
-/
def pathSteps (path : String) : List String :=
  (Text.pieces '/' path.toList).map String.ofList

/-- A place in the tree of directories: the names that lead to it from the root. -/
abbrev Place := List String

namespace Place

/-- Where a step leads. An empty step and a dot stay, two dots lead to the directory above, and
above the root is the root. -/
def step (here : Place) (name : String) : Place :=
  if name = "" ∨ name = "." then here
  else if name = ".." then here.dropLast
  else here ++ [name]

/-- Where steps lead from a place. -/
def along (here : Place) (steps : List String) : Place :=
  steps.foldl step here

/-- The places where the steps are taken, from the given one on. -/
def way (here : Place) : List String → List Place
  | [] => []
  | name :: rest => here :: (here.step name).way rest

def ofPath (path : String) : Place :=
  along [] (pathSteps path)

end Place

end QueueWatch
