import Mathlib.Data.List.Basic
import QueueWatch.Ownership.Descriptors
import QueueWatch.Proofs.Number.Decimal

/-!
# What a scan finds

A link is that of a socket if its target is the label, digits and a closing bracket, and nothing
else, and the digits stand for an inode (`IsSocketLink`). This says which links are read
(`socketInode?_eq_some_iff`), whatever bytes the other links have.

A scan goes through the entries in the order of the listing, which is any. All it leaves behind is a
set, so the order does not show, nor does an entry that is listed twice (`withSockets_congr`). A
listing is a row of entries, and behind them it may break off (`exists_entries`); the set is the
same in both cases, and what is added to it does not depend on what is in it already
(`scanDescriptors_eq_union`).
-/

namespace QueueWatch

/-! ## The link of a socket -/

example : socketLabel = "socket:[".toUTF8.toList := by
  decide +kernel

/-- The target of the link of a socket, by the inode of the socket. -/
def IsSocketLink (target : List UInt8) (inode : UInt64) : Prop :=
  ∃ digits, target = socketLabel ++ digits ++ [93] ∧ digits ≠ [] ∧ (∀ b ∈ digits, IsDigit b) ∧
    decimalValue digits = inode.toNat

theorem toOption_decodeDecimal_eq_some_iff {bytes : List UInt8} {n : UInt64} :
    (decodeDecimal bytes).toOption = some n ↔
      bytes ≠ [] ∧ (∀ b ∈ bytes, IsDigit b) ∧ decimalValue bytes = n.toNat := by
  have hread : (decodeDecimal bytes).toOption = some n ↔ decodeDecimal bytes = .ok n := by
    cases decodeDecimal bytes <;> simp [Except.toOption]
  exact hread.trans decodeDecimal_eq_iff

theorem socketInode?_eq_some_iff {target : List UInt8} {inode : UInt64} :
    socketInode? target = some inode ↔ IsSocketLink target inode := by
  constructor
  · intro h
    unfold socketInode? at h
    split at h
    · next hmarks =>
        obtain ⟨rest, rfl⟩ := List.isPrefixOf_iff_prefix.1 hmarks.1
        rw [List.drop_left] at h hmarks
        refine ⟨rest.dropLast, ?_, toOption_decodeDecimal_eq_some_iff.1 h⟩
        rw [List.append_assoc, List.dropLast_append_getLast? 93 hmarks.2]
    · cases h
  · rintro ⟨digits, rfl, hdigits⟩
    have hmarks : socketLabel.isPrefixOf (socketLabel ++ digits ++ [93]) ∧
        ((socketLabel ++ digits ++ [93]).drop socketLabel.length).getLast? = some 93 := by
      rw [List.isPrefixOf_iff_prefix, List.append_assoc, List.drop_left]
      exact ⟨List.prefix_append _ _, List.getLast?_concat⟩
    rw [socketInode?, if_pos hmarks, List.append_assoc, List.drop_left, List.dropLast_concat]
    exact toOption_decodeDecimal_eq_some_iff.2 hdigits

theorem DescriptorEntry.inode?_eq_some_iff {entry : DescriptorEntry} {inode : UInt64} :
    entry.inode? = some inode ↔ ∃ target, entry = .link target ∧ IsSocketLink target inode := by
  cases entry with
  | link target => simp [DescriptorEntry.inode?, socketInode?_eq_some_iff]
  | other => simp [DescriptorEntry.inode?]

/-! ## The scan -/

/-- The known inodes and those of the sockets among entries. -/
def withSockets (known : InodeSet) (entries : List DescriptorEntry) : InodeSet :=
  known.insertMany (entries.filterMap DescriptorEntry.inode?)

theorem mem_withSockets_iff {known : InodeSet} {entries : List DescriptorEntry} {inode : UInt64} :
    inode ∈ withSockets known entries ↔
      inode ∈ known ∨ ∃ target, .link target ∈ entries ∧ IsSocketLink target inode := by
  rw [withSockets, Std.ExtTreeSet.mem_insertMany_list, List.contains_iff_mem, List.mem_filterMap]
  refine or_congr_right ⟨?_, ?_⟩
  · rintro ⟨entry, hentry, hinode⟩
    obtain ⟨target, rfl, hlink⟩ := DescriptorEntry.inode?_eq_some_iff.1 hinode
    exact ⟨target, hentry, hlink⟩
  · rintro ⟨target, hentry, hlink⟩
    exact ⟨_, hentry, DescriptorEntry.inode?_eq_some_iff.2 ⟨target, rfl, hlink⟩⟩

/-- Only the links matter, and not how often and in which order they are listed. -/
theorem withSockets_congr {entries entries' : List DescriptorEntry} (known : InodeSet)
    (h : ∀ target, .link target ∈ entries' ↔ .link target ∈ entries) :
    withSockets known entries' = withSockets known entries := by
  refine Std.ExtTreeSet.ext_mem fun inode => ?_
  simp only [mem_withSockets_iff, h]

theorem withSockets_eq_union (known : InodeSet) (entries : List DescriptorEntry) :
    withSockets known entries = known ∪ withSockets ∅ entries := by
  refine Std.ExtTreeSet.ext_mem fun inode => ?_
  simp [mem_withSockets_iff, Std.ExtTreeSet.mem_union_iff]

/-- Entries are taken one after the other, and the scan goes on with the rest of the listing. -/
theorem addSocketInodes_append (directory : String) (known : InodeSet)
    (entries : List DescriptorEntry) (rest : List (Except OsError DescriptorEntry)) :
    addSocketInodes directory known (entries.map .ok ++ rest) =
      addSocketInodes directory (withSockets known entries) rest := by
  induction entries generalizing known with
  | nil => rfl
  | cons entry entries ih =>
      rw [List.map_cons, List.cons_append, addSocketInodes, withSockets]
      cases hinode : entry.inode? with
      | none =>
          rw [List.filterMap_cons_none hinode]
          exact ih known
      | some inode =>
          rw [List.filterMap_cons_some hinode, Std.ExtTreeSet.insertMany_cons]
          exact ih (known.insert inode)

theorem scanDescriptors_ok (directory : String) (known : InodeSet)
    (entries : List DescriptorEntry) :
    scanDescriptors directory known (.ok (entries.map .ok)) =
      (withSockets known entries, none) := by
  have happend := addSocketInodes_append directory known entries []
  rw [List.append_nil] at happend
  exact happend

theorem scanDescriptors_broken (directory : String) (known : InodeSet)
    (entries : List DescriptorEntry) (cause : OsError)
    (rest : List (Except OsError DescriptorEntry)) :
    scanDescriptors directory known (.ok (entries.map .ok ++ .error cause :: rest)) =
      (withSockets known entries, some ⟨directory, cause⟩) :=
  addSocketInodes_append directory known entries (.error cause :: rest)

/-- A listing has all entries, or breaks off behind some. -/
theorem exists_entries (listed : List (Except OsError DescriptorEntry)) :
    ∃ entries : List DescriptorEntry, listed = entries.map .ok ∨
      ∃ cause rest, listed = entries.map .ok ++ .error cause :: rest := by
  induction listed with
  | nil => exact ⟨[], .inl rfl⟩
  | cons first listed ih =>
      cases first with
      | error cause => exact ⟨[], .inr ⟨cause, listed, rfl⟩⟩
      | ok entry =>
          obtain ⟨entries, rfl | ⟨cause, rest, rfl⟩⟩ := ih
          · exact ⟨entry :: entries, .inl rfl⟩
          · exact ⟨entry :: entries, .inr ⟨cause, rest, rfl⟩⟩

/-- What a scan adds, and whether it fails, does not depend on what is known. -/
theorem scanDescriptors_eq_union (directory : String) (known : InodeSet) (listing : Listing) :
    scanDescriptors directory known listing =
      (known ∪ (scanDescriptors directory ∅ listing).1,
        (scanDescriptors directory ∅ listing).2) := by
  cases listing with
  | error cause =>
      have hnothing : known = known ∪ ∅ :=
        Std.ExtTreeSet.ext_mem fun inode => by simp [Std.ExtTreeSet.mem_union_iff]
      rw [scanDescriptors, scanDescriptors, ← hnothing]
  | ok listed =>
      obtain ⟨entries, rfl | ⟨cause, rest, rfl⟩⟩ := exists_entries listed
      · rw [scanDescriptors_ok, scanDescriptors_ok, withSockets_eq_union]
      · rw [scanDescriptors_broken, scanDescriptors_broken, withSockets_eq_union]

/-- Scanning a directory does not fail because of an entry. Afterwards the known inodes are those
from before and the ones that a link of a socket names, and nothing else; so only the links matter,
in whatever order and however often they are listed. If the listing breaks off, the entries before
count; if the directory cannot be opened, nothing is added. -/
theorem scan_finds_socketLinks (directory : String) (known : InodeSet) :
    (∀ entries : List DescriptorEntry, ∃ found,
      scanDescriptors directory known (.ok (entries.map .ok)) = (found, none) ∧
      (∀ inode, inode ∈ found ↔
        inode ∈ known ∨ ∃ target, .link target ∈ entries ∧ IsSocketLink target inode) ∧
      (∀ entries' : List DescriptorEntry,
        (∀ target, .link target ∈ entries' ↔ .link target ∈ entries) →
          scanDescriptors directory known (.ok (entries'.map .ok)) = (found, none)) ∧
      ∀ cause rest,
        scanDescriptors directory known (.ok (entries.map .ok ++ .error cause :: rest)) =
          (found, some ⟨directory, cause⟩)) ∧
    (∀ cause, scanDescriptors directory known (.error cause) = (known, some ⟨directory, cause⟩)) ∧
    ∀ listing, scanDescriptors directory known listing =
      (known ∪ (scanDescriptors directory ∅ listing).1,
        (scanDescriptors directory ∅ listing).2) := by
  refine ⟨fun entries => ⟨withSockets known entries, scanDescriptors_ok directory known entries,
    fun _ => mem_withSockets_iff, ?_, scanDescriptors_broken directory known entries⟩,
    fun _ => rfl, scanDescriptors_eq_union directory known⟩
  intro entries' hlinks
  rw [scanDescriptors_ok, withSockets_congr known hlinks]

/-- A directory with the links of two sockets, one of them with zeros before its inode, and with
entries that are no links of sockets: another kind of link, a sign, no digits, a byte behind the
bracket, an inode that does not fit, and a file. -/
def mixedEntries : List DescriptorEntry :=
  [.link "socket:[0042]".toUTF8.toList, .link "pipe:[17]".toUTF8.toList,
    .link "socket:[-1]".toUTF8.toList, .link "socket:[]".toUTF8.toList, .other,
    .link "socket:[8]x".toUTF8.toList, .link "socket:[18446744073709551616]".toUTF8.toList,
    .link "socket:[7]".toUTF8.toList]

/-- The same entries in the other order, and all of them listed twice. -/
theorem scan_finds_socketLinks_mixed :
    let scan entries := scanDescriptors ownDescriptors (.ofList [(5 : UInt64)]) (.ok entries)
    (scan (mixedEntries.map .ok)).1.toList = [5, 7, 42] ∧
      scan ((mixedEntries ++ mixedEntries.reverse).map .ok) = scan (mixedEntries.map .ok) := by
  intro scan
  obtain ⟨found, hscan, -, hsame, -⟩ :=
    (scan_finds_socketLinks ownDescriptors (.ofList [(5 : UInt64)])).1 mixedEntries
  refine ⟨by decide +kernel, ?_⟩
  exact (hsame (mixedEntries ++ mixedEntries.reverse) (by simp)).trans hscan.symm

end QueueWatch
