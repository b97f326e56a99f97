import QueueWatch.File.Disk
import QueueWatch.Number.Column
import Std.Data.ExtTreeSet

/-!
# The sockets of a process

A process finds its own sockets in a directory with one symbolic link for each open descriptor.
The link of a socket points to `socket:[inode]`. Scanning the directory adds the inodes of all
such links to the inodes that are known; other links and other entries say nothing and do no harm.
A listing that breaks off ends the scan, and what it has come across before stays known.
-/

namespace QueueWatch

abbrev InodeSet := Std.ExtTreeSet UInt64

/-- Why the descriptors of the process are not known. -/
structure ScanError where
  directory : String
  cause : OsError
  deriving DecidableEq, Repr

def ScanError.message (e : ScanError) : String :=
  "failed to list file descriptors in `" ++ e.directory ++ "`: " ++ e.cause.message

/-- The directory with the descriptors of the process itself. -/
def ownDescriptors : String := "/proc/self/fd"

/-- An entry of a directory of descriptors. -/
inductive DescriptorEntry where
  | link (target : List UInt8)
  /-- It is no link, or it is gone since the directory was listed. -/
  | other
  deriving DecidableEq, Repr

/-- What listing a directory brings: why it cannot be opened, or its entries one after the other.
In the place of an entry may stand why it cannot be had. -/
abbrev Listing := Except OsError (List (Except OsError DescriptorEntry))

/-- The bytes `socket:[`, with which the link of a socket begins. -/
def socketLabel : List UInt8 :=
  [115, 111, 99, 107, 101, 116, 58, 91]

/-- The inode of the socket that a link points to. -/
def socketInode? (target : List UInt8) : Option UInt64 :=
  if socketLabel.isPrefixOf target ∧ (target.drop socketLabel.length).getLast? = some 93 then
    (decodeDecimal (target.drop socketLabel.length).dropLast).toOption
  else none

/-- The inode of the socket that a directory entry stands for. -/
def DescriptorEntry.inode? : DescriptorEntry → Option UInt64
  | .link target => socketInode? target
  | .other => none

/-- Adds the inodes of the sockets among the entries to the known ones, until an entry cannot be
had. -/
def addSocketInodes (directory : String) (known : InodeSet) :
    List (Except OsError DescriptorEntry) → InodeSet × Option ScanError
  | [] => (known, none)
  | .error cause :: _ => (known, some ⟨directory, cause⟩)
  | .ok entry :: rest =>
      match entry.inode? with
      | some inode => addSocketInodes directory (known.insert inode) rest
      | none => addSocketInodes directory known rest

/-- Adds the inodes of the sockets in a directory to the known ones, and tells why the scan failed
if it did. -/
def scanDescriptors (directory : String) (known : InodeSet) :
    Listing → InodeSet × Option ScanError
  | .ok entries => addSocketInodes directory known entries
  | .error cause => (known, some ⟨directory, cause⟩)

end QueueWatch
