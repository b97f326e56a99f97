import QueueWatch.Ownership.Descriptors

/-!
# Keeping to the own sockets

An ownership filter lets updates pass only if they are about sockets of the process itself. It
learns which sockets these are from scans of the open descriptors. An inode once found is owned
for good. An inode that is not known triggers a scan; if the scan does not find it, it is
remembered as foreign, so that it does not trigger another one. At most `maxForeign` inodes are
remembered like that: before the memory would exceed this, it is cleared. After a scan that fails
nothing is remembered.
-/

namespace QueueWatch

/-- The outcome of a scan: the inodes of the sockets that the process has open. -/
abbrev Scan := Except ScanError InodeSet

/-- What a scan does: the inodes that it adds to the known ones, and why it failed if it did. A scan
that breaks off has added what it came across before. -/
structure ScanOutcome where
  found : InodeSet
  failure : Option ScanError

/-- A scan that either adds all inodes or fails and adds none. -/
def ScanOutcome.ofScan : Scan → ScanOutcome
  | .ok found => ⟨found, none⟩
  | .error e => ⟨∅, some e⟩

/-- What a filter knows of inodes. -/
structure OwnershipFilter where
  owned : InodeSet
  foreign : InodeSet

/-- What a filter did with an update. -/
structure Verdict where
  passes : Bool
  /-- Whether the update triggered a scan. -/
  scanned : Bool
  /-- Why the scan failed, if it did. -/
  failure : Option ScanError
  deriving DecidableEq, Repr

/-- The bound on the inodes that are remembered as foreign. -/
def maxForeign : Nat := 4096

/-- The warning about an update that was dropped because the scan failed. -/
def ScanError.warning (e : ScanError) (inode : UInt64) : String :=
  "dropping statistics for socket inode " ++ toString inode.toNat ++ ": " ++ e.message

namespace OwnershipFilter

def empty : OwnershipFilter :=
  ⟨∅, ∅⟩

/-- Adds an inode to the foreign ones. -/
def remember (f : OwnershipFilter) (inode : UInt64) : OwnershipFilter :=
  let foreign := if maxForeign ≤ f.foreign.size then ∅ else f.foreign
  { f with foreign := foreign.insert inode }

/-- Judges an update about an inode, where a scan made now would do `outcome`. -/
def judgeOutcome (f : OwnershipFilter) (outcome : ScanOutcome) (inode : UInt64) :
    OwnershipFilter × Verdict :=
  if inode ∈ f.owned then (f, ⟨true, false, none⟩)
  else if inode ∈ f.foreign then (f, ⟨false, false, none⟩)
  else
    let f := { f with owned := f.owned ∪ outcome.found }
    match outcome.failure with
    | some e => (f, ⟨false, true, some e⟩)
    | none =>
        if inode ∈ f.owned then (f, ⟨true, true, none⟩)
        else (f.remember inode, ⟨false, true, none⟩)

/-- Judges an update about an inode, where a scan made now would have the outcome `scan`. -/
def judge (f : OwnershipFilter) (scan : Scan) (inode : UInt64) : OwnershipFilter × Verdict :=
  f.judgeOutcome (.ofScan scan) inode

/-- After a scan that fails nothing is remembered. -/
theorem judge_of_failure {f : OwnershipFilter} {inode : UInt64} (howned : inode ∉ f.owned)
    (hforeign : inode ∉ f.foreign) (e : ScanError) :
    f.judge (.error e) inode = (f, ⟨false, true, some e⟩) := by
  have hnothing : f.owned ∪ ∅ = f.owned :=
    Std.ExtTreeSet.ext_mem fun x => by simp [Std.ExtTreeSet.mem_union_iff]
  simp [judge, judgeOutcome, ScanOutcome.ofScan, howned, hforeign, hnothing]

end OwnershipFilter

end QueueWatch
