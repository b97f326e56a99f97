import Mathlib.Algebra.Ring.Nat
import QueueWatch.Proofs.File.Reader
import QueueWatch.Proofs.Number.Doubling

/-!
# The buffer of a loader

A read may bring fewer bytes than there is room for. `Reader.loadBy` loads a file with reads that
bring as few bytes as they like, and lists them. However short they are, the file is read to its
end: no read is given an empty room, so that one which brings nothing is at the end of the file
(`ReadsToEnd`). Nor does it show in the buffer, which is doubled when it is full, and in the end has
been doubled as often as it takes to have more room than the file has bytes, and no more often
(`Reader.loadLoopBy_spec`). If the bytes fill it exactly, it is doubled once more.

A buffer keeps its size between loads, and what earlier loads have left in it is not read again
(`Loader.loads_read_whole_files`).
-/

namespace QueueWatch

/-! ## Reads -/

/-- A read: the room that it is given, how many bytes the file still has then, and how many of them
the read brings. -/
structure ReadCall where
  room : Nat
  left : Nat
  count : Nat

/-- Reads that bring all that a file still has, and then nothing. -/
structure ReadsToEnd (left : Nat) (calls : List ReadCall) : Prop where
  room_pos : ∀ call ∈ calls, 0 < call.room
  count_eq_zero_iff : ∀ call ∈ calls, call.count = 0 ↔ call.left = 0
  counts : ∃ counts, calls.map ReadCall.count = counts ++ [0] ∧ counts.sum = left

theorem readsToEnd_singleton {room : Nat} (hroom : 0 < room) : ReadsToEnd 0 [⟨room, 0, 0⟩] where
  room_pos := List.forall_mem_singleton.2 hroom
  count_eq_zero_iff := List.forall_mem_singleton.2 Iff.rfl
  counts := ⟨[], rfl, rfl⟩

theorem ReadsToEnd.cons {room left count : Nat} {calls : List ReadCall} (hroom : 0 < room)
    (hcount : 0 < count) (hleft : count ≤ left) (h : ReadsToEnd (left - count) calls) :
    ReadsToEnd left (⟨room, left, count⟩ :: calls) where
  room_pos := List.forall_mem_cons.2 ⟨hroom, h.room_pos⟩
  count_eq_zero_iff := by
    refine List.forall_mem_cons.2 ⟨?_, h.count_eq_zero_iff⟩
    dsimp only
    omega
  counts := by
    rcases h.counts with ⟨counts, hcalls, hsum⟩
    refine ⟨count :: counts, by rw [List.map_cons, hcalls, List.cons_append], ?_⟩
    rw [List.sum_cons, hsum]
    exact Nat.add_sub_cancel' hleft

/-- What is read of a file, and the size that it reports, if it can be read. -/
def Disk.source? (d : Disk) (file : FileId) : Option (List UInt8 × Nat) :=
  match d.body? file with
  | some (.stored contents reported) => some (contents, reported)
  | some (.pipe contents) => some (contents, 0)
  | _ => none

namespace Reader

/-- Loads as `loadLoop` does, with reads that need not fill their room: the one at an offset brings
at most `most offset + 1` bytes. No two reads that bring something have the same offset, so each can
be as short as it likes. -/
def loadLoopBy (most : Nat → Nat) (reported : Nat) (contents buffer : List UInt8)
    (len offset : Nat) : (List UInt8 × Nat × Nat) × List ReadCall :=
  let buffer := room reported buffer len
  let free := buffer.length - len
  let bytes := nextBytes contents offset (min free (most offset + 1))
  let call : ReadCall := ⟨free, contents.length - offset, bytes.length⟩
  if bytes = [] then ((buffer, len, offset), [call])
  else
    let (loaded, calls) := loadLoopBy most reported contents (overwrite buffer len bytes)
      (len + bytes.length) (offset + bytes.length)
    (loaded, call :: calls)
termination_by contents.length - offset
decreasing_by exact left_lt_of_nextBytes_ne_nil ‹_›

/-- Reads a file as a whole, and lists the reads. -/
def loadFromBy (most : Nat → Nat) (r : Reader) (h : Handle) (reported : Nat)
    (contents : List UInt8) : (Reader × List UInt8) × List ReadCall :=
  let ((buffer, len, offset), calls) :=
    loadLoopBy most reported contents (enlarge r.buffer reported) 0 h.offset
  (({ r with buffer, handle := some { h with offset } }, buffer.take len), calls)

def loadBy (most : Nat → Nat) (r : Reader) (d : Disk) :
    (Reader × Except LoadError (List UInt8)) × List ReadCall :=
  match r.rewound d with
  | .error _ => (r.load d, [])
  | .ok h =>
      match d.source? h.file with
      | none => (r.load d, [])
      | some (contents, reported) =>
          let ((r, bytes), calls) := loadFromBy most r h reported contents
          ((r, .ok bytes), calls)

section

variable {reported : Nat} {contents buffer : List UInt8} {len offset k m : Nat}

/-- A full buffer is doubled, which is one doubling more. -/
theorem exists_fewestDoublings_of_room (hreported : reported ≤ buffer.length)
    (hm : len ≤ m) (h : FewestDoublings (m < ·) (room reported buffer len).length k) :
    ∃ k', FewestDoublings (m < ·) buffer.length k' ∧
      (room reported buffer len).length * 2 ^ k = buffer.length * 2 ^ k' := by
  unfold room at h ⊢
  split at h
  · next hfull =>
      have hdouble : (enlarge buffer (max (buffer.length * 2) reported)).length =
          buffer.length * 2 := by
        rw [length_enlarge]
        omega
      rw [hdouble] at h
      rw [if_pos hfull, hdouble]
      refine ⟨k + 1, h.succ (by omega), ?_⟩
      rw [Nat.pow_succ', Nat.mul_assoc]
  · next hroom =>
      rw [if_neg hroom]
      exact ⟨k, h, rfl⟩

theorem length_le_length_room (reported : Nat) (buffer : List UInt8) (len : Nat) :
    buffer.length ≤ (room reported buffer len).length := by
  unfold room
  split
  · rw [length_enlarge]
    exact Nat.le_max_left ..
  · exact Nat.le_refl _

/-- Whatever the reads are, the bytes behind the first `len` ones are those that the file still has,
the buffer is doubled as often as it takes to hold them and have room left, and the reads go to the
end of the file. -/
theorem loadLoopBy_spec (most : Nat → Nat) (reported : Nat) (contents buffer : List UInt8)
    (len offset : Nat) (hbuffer : 0 < buffer.length) (hlen : len ≤ buffer.length)
    (hreported : reported ≤ buffer.length) (hoffset : offset ≤ contents.length) :
    let out := loadLoopBy most reported contents buffer len offset
    out.1.1.take out.1.2.1 = buffer.take len ++ contents.drop offset ∧
      (∃ k, FewestDoublings (len + (contents.length - offset) < ·) buffer.length k ∧
        out.1.1.length = buffer.length * 2 ^ k) ∧
      ReadsToEnd (contents.length - offset) out.2 := by
  fun_induction loadLoopBy most reported contents buffer len offset with
  | case1 buffer len offset grown free bytes call h =>
      have hlt : len < grown.length := lt_length_room reported hbuffer hlen
      have hfree : 0 < free := Nat.sub_pos_of_lt hlt
      have hend : contents.drop offset = [] :=
        (nextBytes_eq_nil_iff.1 h).resolve_right (by omega)
      have hleft : contents.length - offset = 0 := by
        rw [← List.length_drop, hend, List.length_nil]
      have hcall : call = ⟨free, 0, 0⟩ := by
        simp only [call, h, hleft, List.length_nil]
      rw [hend, hleft, hcall, List.append_nil]
      refine ⟨take_room reported hlen, ?_, readsToEnd_singleton hfree⟩
      rcases exists_fewestDoublings_of_room hreported (Nat.le_refl len) (.zero hlt) with
        ⟨k, hk, hlength⟩
      rw [Nat.pow_zero, Nat.mul_one] at hlength
      exact ⟨k, hk, hlength⟩
  | case2 buffer len offset grown free bytes call h loaded calls hrest ih =>
      have hlt : len < grown.length := lt_length_room reported hbuffer hlen
      have hfree : free = grown.length - len := rfl
      have hpos : 0 < bytes.length := List.length_pos_iff.2 h
      have hbytes : bytes.length ≤ free :=
        Nat.le_trans length_nextBytes_le (Nat.min_le_left ..)
      have hleft : bytes.length ≤ contents.length - offset := by
        rw [← List.length_drop]
        exact List.length_take_le' ..
      have hlength : (overwrite grown len bytes).length = grown.length :=
        length_overwrite (by omega)
      have hgrown : buffer.length ≤ grown.length := length_le_length_room ..
      rw [hrest, hlength] at ih
      rcases ih (by omega) (by omega) (by omega) (by omega) with ⟨htake, ⟨k, hk, hcapacity⟩, hreads⟩
      have hrestlength : len + bytes.length + (contents.length - (offset + bytes.length)) =
          len + (contents.length - offset) := by omega
      rw [hrestlength] at hk
      refine ⟨?_, ?_, ?_⟩
      · rw [htake, take_overwrite bytes (Nat.le_of_lt hlt), take_room reported hlen,
          List.append_assoc, drop_add_length_nextBytes]
        exact congrArg (buffer.take len ++ ·) (List.take_append_drop ..)
      · rcases exists_fewestDoublings_of_room hreported (by omega) hk with ⟨k', hk', hlength'⟩
        exact ⟨k', hk', hcapacity.trans hlength'⟩
      · refine .cons (by omega) hpos hleft ?_
        rwa [← Nat.sub_sub] at hreads

/-- A read that may bring more bytes than the file has is not cut short. -/
theorem nextBytes_min (contents : List UInt8) (offset room : Nat) :
    nextBytes contents offset (min room (contents.length + 1)) =
      nextBytes contents offset room := by
  rw [nextBytes, nextBytes, List.take_eq_take_iff, List.length_drop]
  omega

/-- To load a file is to read as much as there is room for. -/
theorem loadLoop_eq_loadLoopBy (reported : Nat) (contents buffer : List UInt8) (len offset : Nat) :
    loadLoop reported contents buffer len offset =
      (loadLoopBy (fun _ => contents.length) reported contents buffer len offset).1 := by
  fun_induction loadLoop reported contents buffer len offset with
  | case1 buffer len offset grown bytes h =>
      rw [loadLoopBy, nextBytes_min, if_pos h]
  | case2 buffer len offset grown bytes h ih =>
      rw [loadLoopBy, nextBytes_min, if_neg h, ih]

end

end Reader

namespace Loader

variable {l : Loader} {d : Disk}

/-- A loader that reads contents as a whole doubles its buffer as often as it takes. -/
theorem capacity_fillFrom (l : Loader) (reported : Nat) (contents : List UInt8) :
    ∃ k, FewestDoublings (contents.length < ·) (max l.capacity reported) k ∧
      (l.fillFrom reported contents).1.capacity = max l.capacity reported * 2 ^ k := by
  obtain ⟨buffer, hlength⟩ : ∃ buffer : List UInt8, buffer.length = max l.capacity reported :=
    ⟨List.replicate _ 0, List.length_replicate⟩
  have hpos : 0 < buffer.length := hlength ▸ (l.growTo reported).capacity_pos
  have hreported : reported ≤ buffer.length := hlength ▸ Nat.le_max_right ..
  have hloop := Reader.loadLoop_eq reported contents buffer 0 0 hpos (Nat.zero_le _)
  rcases (Reader.loadLoopBy_spec (fun _ => contents.length) reported contents buffer 0 0 hpos
    (Nat.zero_le _) hreported (Nat.zero_le _)).2.1 with ⟨k, hk, hcapacity⟩
  rw [Reader.loadLoop_eq_loadLoopBy, hcapacity, hlength, List.take_zero, List.drop_zero] at hloop
  rw [Nat.zero_add, Nat.sub_zero, hlength] at hk
  exact ⟨k, hk, (congrArg Prod.fst hloop).symm⟩

theorem capacity_le_fillFrom (l : Loader) (reported : Nat) (contents : List UInt8) :
    l.capacity ≤ (l.fillFrom reported contents).1.capacity :=
  Nat.le_trans (Nat.le_max_left ..) (le_fill ..)

theorem load_of_source? {file : FileId} {contents : List UInt8} {reported : Nat}
    (hfile : l.fileOn d = .ok file) (hsource : d.source? file = some (contents, reported)) :
    l.load d =
      (({ l with file := some file }.fillFrom reported contents).1, .ok contents) := by
  have hcontents := snd_fillFrom { l with file := some file } reported contents
  unfold load
  rw [rewind_eq, hfile]
  simp only [Except.map]
  unfold Disk.source? at hsource
  split at hsource
  · next hbody =>
      cases hsource
      rw [hbody]
      exact congrArg _ (congrArg _ hcontents)
  · next hbody =>
      cases hsource
      rw [hbody]
      exact congrArg _ (congrArg _ hcontents)
  · cases hsource

/-- No load makes the buffer smaller, whatever becomes of it. -/
theorem capacity_le_load (l : Loader) (d : Disk) : l.capacity ≤ (l.load d).1.capacity := by
  unfold load
  rw [rewind_eq]
  cases l.fileOn d with
  | error e => exact Nat.le_refl _
  | ok file =>
      simp only [Except.map]
      cases d.body? file with
      | none => exact Nat.le_refl _
      | some body =>
          cases body with
          | stored contents reported => exact capacity_le_fillFrom { l with file := some file } ..
          | pipe contents => exact capacity_le_fillFrom { l with file := some file } ..
          | directory reported => exact Nat.le_max_left ..

end Loader

namespace Reader

variable {r : Reader} {l : Loader}

/-- A file that is read as a whole from its start, by reads of any kind. -/
theorem Implements.loadFromBy (h : r.Implements l) (most : Nat → Nat) (file : FileId)
    (reported : Nat) (contents : List UInt8) :
    let out := Reader.loadFromBy most r ⟨file, 0⟩ reported contents
    out.1.1.Implements ({ l with file := some file }.fillFrom reported contents).1 ∧
      out.1.2 = contents ∧ ReadsToEnd contents.length out.2 := by
  have hlength : (enlarge r.buffer reported).length = max l.capacity reported := by
    rw [length_enlarge, h.length_eq]
  have hpos : 0 < (enlarge r.buffer reported).length := hlength ▸ (l.growTo reported).capacity_pos
  have hreported : reported ≤ (enlarge r.buffer reported).length := hlength ▸ Nat.le_max_right ..
  rcases loadLoopBy_spec most reported contents (enlarge r.buffer reported) 0 0 hpos
    (Nat.zero_le _) hreported (Nat.zero_le _) with ⟨hbytes, ⟨k, hk, hcapacity⟩, hreads⟩
  rw [Nat.zero_add, hlength] at hk
  rcases Loader.capacity_fillFrom { l with file := some file } reported contents with
    ⟨k', hk', hcapacity'⟩
  refine ⟨⟨h.path_eq, ?_, rfl⟩, hbytes, hreads⟩
  rw [hcapacity', ← hk.unique hk', ← hlength]
  exact hcapacity

/-- However short the reads are, a reader loads what the loader does. -/
theorem Implements.loadBy (h : r.Implements l) (most : Nat → Nat) (d : Disk) :
    (Reader.loadBy most r d).1.1.Implements (l.load d).1 ∧
      (Reader.loadBy most r d).1.2 = (l.load d).2 ∧
      ∀ file contents reported, l.fileOn d = .ok file →
        d.source? file = some (contents, reported) →
          ReadsToEnd contents.length (Reader.loadBy most r d).2 := by
  unfold Reader.loadBy
  rw [h.rewound]
  cases hfile : l.fileOn d with
  | error e => exact ⟨(h.load d).1, (h.load d).2, nofun⟩
  | ok file =>
      simp only [Except.map]
      cases hsource : d.source? file with
      | none =>
          refine ⟨(h.load d).1, (h.load d).2, ?_⟩
          intro file' contents reported hfile' hsource'
          cases hfile'
          rw [hsource] at hsource'
          cases hsource'
      | some source =>
          rcases source with ⟨contents, reported⟩
          rcases h.loadFromBy most file reported contents with ⟨himplements, hbytes, hreads⟩
          rw [Loader.load_of_source? hfile hsource]
          refine ⟨himplements, congrArg Except.ok hbytes, ?_⟩
          intro file' contents' reported' hfile' hsource'
          cases hfile'
          rw [hsource] at hsource'
          cases hsource'
          exact hreads

end Reader

/-! ## Loads -/

/-- The loader after loads from one disk after the other. -/
def Loader.afterLoads (l : Loader) (disks : List Disk) : Loader :=
  disks.foldl (fun l d => (l.load d).1) l

/-- The reader after loads from one disk after the other, each with reads of its own kind. -/
def Reader.afterLoads (r : Reader) (loads : List (Disk × (Nat → Nat))) : Reader :=
  loads.foldl (fun r load => (Reader.loadBy load.2 r load.1).1.1) r

theorem Reader.Implements.afterLoads {r : Reader} {l : Loader} (h : r.Implements l)
    (loads : List (Disk × (Nat → Nat))) :
    (r.afterLoads loads).Implements (l.afterLoads (loads.map Prod.fst)) := by
  induction loads generalizing r l with
  | nil => exact h
  | cons load loads ih => exact ih (h.loadBy load.2 load.1).1

theorem Loader.capacity_le_afterLoads (l : Loader) (disks : List Disk) :
    l.capacity ≤ (l.afterLoads disks).capacity := by
  induction disks generalizing l with
  | nil => exact Nat.le_refl _
  | cons d disks ih => exact Nat.le_trans (l.capacity_le_load d) (ih (l.load d).1)

/-- After any loads, of any contents and by reads of any kind, a reader and a loader still do the
same, and no later load makes the buffer smaller. To load a file gives all of its contents and
nothing else; the buffer has grown to the size that the file reports, and then by the fewest
doublings that leave room behind the contents; and the reads go to the end of the file. -/
theorem Loader.loads_read_whole_files (path : String) (capacity : Nat)
    (past : List (Disk × (Nat → Nat))) (d : Disk) (most : Nat → Nat) :
    let l := (Loader.new path capacity).afterLoads (past.map Prod.fst)
    let r := (Reader.new path capacity).afterLoads past
    let out := Reader.loadBy most r d
    r.Implements l ∧
      (∀ later, l.capacity ≤ (l.afterLoads later).capacity) ∧
      out.1.1.Implements (l.load d).1 ∧ out.1.2 = (l.load d).2 ∧
      ∀ file contents reported, l.fileOn d = .ok file →
        d.source? file = some (contents, reported) →
          (l.load d).2 = .ok contents ∧
          (∃ k, FewestDoublings (contents.length < ·) (max l.capacity reported) k ∧
            (l.load d).1.capacity = max l.capacity reported * 2 ^ k) ∧
          ReadsToEnd contents.length out.2 := by
  intro l r out
  have himplements : r.Implements l := (Reader.implements_new path capacity).afterLoads past
  rcases himplements.loadBy most d with ⟨hnext, hresult, hreads⟩
  refine ⟨himplements, l.capacity_le_afterLoads, hnext, hresult, ?_⟩
  intro file contents reported hfile hsource
  refine ⟨?_, ?_, hreads file contents reported hfile hsource⟩
  · rw [load_of_source? hfile hsource]
  · rw [load_of_source? hfile hsource]
    exact capacity_fillFrom { l with file := some file } reported contents

/-- A file that reports no size, like those that the kernel makes up. -/
def Disk.eightBytes : Disk :=
  Disk.empty.create "/f" (.stored [1, 2, 3, 4, 5, 6, 7, 8] 0)

/-- Eight bytes fill a buffer of two bytes that has been doubled twice, so it is doubled once more.
Two bytes that are loaded afterwards, one by one, leave it as it is. -/
theorem Loader.loads_read_whole_files_exact :
    let l := (Loader.new "/f" 2).afterLoads [.eightBytes]
    let r := (Reader.new "/f" 2).afterLoads [(.eightBytes, fun _ => 2)]
    let d := Disk.eightBytes.write "/f" [9, 10]
    l.capacity = 16 ∧ r.buffer.length = 16 ∧
      (l.load d).2 = .ok [9, 10] ∧ (l.load d).1.capacity = 16 ∧
      (Reader.loadBy (fun _ => 0) r d).1.2 = .ok [9, 10] ∧
      ReadsToEnd 2 (Reader.loadBy (fun _ => 0) r d).2 := by
  intro l r d
  have hcapacity : l.capacity = 16 := by decide +kernel
  have hfile : l.fileOn d = .ok 1 := by decide +kernel
  have hsource : d.source? 1 = some ([9, 10], 2) := by decide +kernel
  rcases Loader.loads_read_whole_files "/f" 2 [(.eightBytes, fun _ => 2)] d (fun _ => 0) with
    ⟨himplements, -, -, hresult, hfound⟩
  rcases hfound 1 [9, 10] 2 hfile hsource with ⟨hload, ⟨k, hk, hgrown⟩, hreads⟩
  have hmax : max l.capacity 2 = 16 := by rw [hcapacity]; rfl
  change FewestDoublings (2 < ·) (max l.capacity 2) k at hk
  rw [hmax] at hk
  have hnone : k = 0 := hk.eq_zero (by decide)
  have hkept : (l.load d).1.capacity = 16 := by
    refine hgrown.trans ?_
    rw [hnone, Nat.pow_zero, Nat.mul_one]
    exact hmax
  exact ⟨hcapacity, himplements.length_eq.trans hcapacity, hload, hkept, hresult.trans hload,
    hreads⟩

end QueueWatch
