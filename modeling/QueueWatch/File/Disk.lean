import QueueWatch.File.Path
import Std.Data.ExtTreeMap

/-!
# Files

The tables are files, and what a reader of a file sees depends on more than its contents: a name can
be given to another file or taken away while a file is open, some files report a size that is not
that of their contents, directories can be opened and not read, and pipes cannot be rewound. A disk
keeps files apart from their names. A file that has lost its name stays as long as someone holds it.

`Disk.locate` finds the file that a path leads to. Every step of the path has to be taken in a
directory, and the first one that cannot be taken says why. If all can be taken, the file is the one
at the place where the steps lead (`Disk.walk`).
-/

namespace QueueWatch

/-- Why the operating system refuses something. -/
inductive OsError where
  | notFound
  | permissionDenied
  | notDirectory
  | isDirectory
  | illegalSeek
  | nameTooLong
  deriving DecidableEq, Repr

def OsError.message : OsError → String
  | .notFound => "No such file or directory (os error 2)"
  | .permissionDenied => "Permission denied (os error 13)"
  | .notDirectory => "Not a directory (os error 20)"
  | .isDirectory => "Is a directory (os error 21)"
  | .illegalSeek => "Illegal seek (os error 29)"
  | .nameTooLong => "File name too long (os error 36)"

/-- A file, whatever its names are. -/
abbrev FileId := Nat

/-- What a file is. -/
inductive FileBody where
  /-- Contents that can be read again and again, and the size that the file reports. -/
  | stored (contents : List UInt8) (reported : Nat)
  /-- A directory, and the size that it reports. -/
  | directory (reported : Nat)
  /-- Contents that can be read once. -/
  | pipe (contents : List UInt8)
  deriving DecidableEq, Repr

/-- What a file is once no path leads to it any more. A directory has no size then. -/
def FileBody.unlinked : FileBody → FileBody
  | .directory _ => .directory 0
  | body => body

/-- Files, and the places where they are. -/
structure Disk where
  places : Std.ExtTreeMap Place FileId
  bodies : Std.ExtTreeMap FileId FileBody
  /-- The files from this one on do not exist yet. -/
  fresh : FileId

namespace Disk

/-- The size that a directory reports. -/
def directorySize : Nat := 4096

def body? (d : Disk) (file : FileId) : Option FileBody :=
  d.bodies[file]?

def at? (d : Disk) (place : Place) : Option FileBody :=
  d.places[place]?.bind d.body?

/-- Puts a new file at a place, which then holds no other one. -/
def put (d : Disk) (place : Place) (body : FileBody) : Disk where
  places := d.places.insert place d.fresh
  bodies := d.bodies.insert d.fresh body
  fresh := d.fresh + 1

/-- The disk on which there is nothing but the root. -/
def empty : Disk :=
  put ⟨∅, ∅, 0⟩ [] (.directory directorySize)

/-- Takes steps from a place. Each has to be taken in a directory, and no name may be too long. -/
def walk (d : Disk) (here : Place) : List String → Except OsError Place
  | [] => .ok here
  | name :: rest =>
      match d.at? here with
      | none => .error .notFound
      | some (.directory _) =>
          if maxNameLength < name.utf8ByteSize then .error .nameTooLong
          else d.walk (here.step name) rest
      | some (.stored _ _) | some (.pipe _) => .error .notDirectory

/-- The file that a path leads to. -/
def locate (d : Disk) (path : String) : Except OsError FileId :=
  if path = "" then .error .notFound
  else if maxPathLength < path.utf8ByteSize then .error .nameTooLong
  else
    match d.walk [] (pathSteps path) with
    | .error e => .error e
    | .ok place =>
        match d.places[place]? with
        | some file => .ok file
        | none => .error .notFound

/-- Makes a directory of a place where nothing is. -/
def ensureDirectory (d : Disk) (place : Place) : Disk :=
  if place ∈ d.places then d else d.put place (.directory directorySize)

/-- A new file under a path, which no longer leads to any other file. Directories that are missing
on the way to it are made. -/
def create (d : Disk) (path : String) (body : FileBody) : Disk :=
  ((Place.way [] (pathSteps path)).foldl ensureDirectory d).put (Place.ofPath path) body

/-- Changes the contents of the file that a path leads to, or creates it. Whoever holds the file
sees the change. -/
def change (d : Disk) (path : String) (contents : List UInt8 → List UInt8) : Disk :=
  match d.locate path with
  | .error .notFound => d.create path (.stored (contents []) (contents []).length)
  | .error _ => d
  | .ok file =>
      match d.body? file with
      | some (.stored old _) =>
          let new := contents old
          { d with bodies := d.bodies.insert file (.stored new new.length) }
      | _ => d

/-- Writes a file in place. -/
def write (d : Disk) (path : String) (contents : List UInt8) : Disk :=
  d.change path fun _ => contents

/-- Adds to the end of a file. -/
def append (d : Disk) (path : String) (contents : List UInt8) : Disk :=
  d.change path (· ++ contents)

/-- Puts a new file in the place of the one that a path leads to. -/
def replace (d : Disk) (path : String) (contents : List UInt8) : Disk :=
  d.create path (.stored contents contents.length)

/-- Takes away the file that a path leads to. -/
def remove (d : Disk) (path : String) : Disk :=
  match d.locate path with
  | .error _ => d
  | .ok file =>
      { d with
        places := d.places.erase (Place.ofPath path)
        bodies := d.bodies.modify file FileBody.unlinked }

def makeDirectory (d : Disk) (path : String) : Disk :=
  d.create path (.directory directorySize)

def makePipe (d : Disk) (path : String) (contents : List UInt8) : Disk :=
  d.create path (.pipe contents)

end Disk

end QueueWatch
