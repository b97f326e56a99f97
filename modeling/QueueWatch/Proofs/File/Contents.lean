import QueueWatch.File.Loader

/-!
# What a loader reads

A loader that streams its file hands on, chunk by chunk, what it would load as a whole, up to the
first read that fails (`Loader.chunksFrom_spec`, `Loader.streamBy_eq`). What that is depends on the
path and on the file that is open, but not on the size of the buffer (`Loader.SameFile.load`). The
file that is open after a call is the one that was open before, or else the one that the path leads
to (`Loader.file_opened`).
-/

namespace QueueWatch

namespace Loader

variable {l l' : Loader} {d : Disk} {file : FileId}

/-! ## Chunks -/

/-- The chunks are what comes before the place where the reads stop. There a read fails, or nothing
is left. -/
theorem chunksFrom_spec (plan : ReadPlan) {size : Nat} (hsize : 0 < size) (rest : List UInt8)
    (offset : Nat) :
    let out := chunksFrom plan size rest offset
    ∃ left, rest = out.1.flatten ++ left ∧ out.2 = plan.failure (offset + out.1.flatten.length) ∧
      (out.2 = none → left = []) := by
  fun_induction chunksFrom plan size rest offset with
  | case1 rest offset cause hfailure => exact ⟨rest, rfl, hfailure.symm, nofun⟩
  | case2 rest offset hfailure room h =>
      have hend : rest = [] := h.resolve_right (Nat.ne_of_gt (plan.room_pos hsize offset))
      exact ⟨rest, rfl, hfailure.symm, fun _ => hend⟩
  | case3 rest offset hfailure room h chunk chunks failure hrest ih =>
      rw [hrest] at ih
      rcases ih with ⟨left, hleft, hstop, hend⟩
      refine ⟨left, ?_, ?_, hend⟩
      · rw [List.flatten_cons, List.append_assoc, ← hleft]
        exact (List.take_append_drop ..).symm
      · rw [List.flatten_cons, List.length_append, ← Nat.add_assoc]
        exact hstop

/-- Reads that do not fail bring everything. -/
theorem chunksFrom_of_no_failure {plan : ReadPlan} (hplan : ∀ offset, plan.failure offset = none)
    {size : Nat} (hsize : 0 < size) (rest : List UInt8) (offset : Nat) :
    (chunksFrom plan size rest offset).1.flatten = rest ∧
      (chunksFrom plan size rest offset).2 = none := by
  rcases chunksFrom_spec plan hsize rest offset with ⟨left, hleft, hfailure, hend⟩
  rw [hplan] at hfailure
  rw [hend hfailure, List.append_nil] at hleft
  exact ⟨hleft.symm, hfailure⟩

theorem chunksFrom_full {size : Nat} (hsize : 0 < size) (rest : List UInt8) (offset : Nat) :
    (chunksFrom .full size rest offset).1.flatten = rest ∧
      (chunksFrom .full size rest offset).2 = none :=
  chunksFrom_of_no_failure (fun _ => rfl) hsize rest offset

theorem chunksFrom_full_nil (size offset : Nat) : chunksFrom .full size [] offset = ([], none) := by
  rw [chunksFrom]
  exact if_pos (.inl rfl)

/-- No chunk is empty, and none is larger than the buffer. -/
theorem length_of_mem_chunksFrom {plan : ReadPlan} {size : Nat} {rest chunk : List UInt8}
    {offset : Nat} (h : chunk ∈ (chunksFrom plan size rest offset).1) :
    0 < chunk.length ∧ chunk.length ≤ size := by
  fun_induction chunksFrom plan size rest offset with
  | case1 => exact absurd h List.not_mem_nil
  | case2 => exact absurd h List.not_mem_nil
  | case3 rest offset hfailure room hroom first chunks failure hrest ih =>
      rw [hrest] at ih
      rcases List.mem_cons.1 h with rfl | h
      · rcases not_or.1 hroom with ⟨hne, hpos⟩
        rw [List.length_take]
        exact ⟨Nat.lt_min.2 ⟨Nat.pos_of_ne_zero hpos, List.length_pos_iff.2 hne⟩,
          Nat.le_trans (Nat.min_le_left ..) (plan.room_le size offset)⟩
      · exact ih h

/-- Chunks of reads that fill the buffer are as large as it, but for the last one. -/
theorem length_of_mem_dropLast_chunksFrom {size : Nat} {rest chunk : List UInt8} {offset : Nat}
    (h : chunk ∈ (chunksFrom .full size rest offset).1.dropLast) : chunk.length = size := by
  fun_induction chunksFrom .full size rest offset with
  | case1 => exact absurd h List.not_mem_nil
  | case2 => exact absurd h List.not_mem_nil
  | case3 rest offset hfailure room hroom first chunks failure hrest ih =>
      rw [hrest] at ih
      cases hchunks : chunks with
      | nil =>
          rw [hchunks] at h
          exact absurd h List.not_mem_nil
      | cons next others =>
          rw [hchunks, List.dropLast_cons_cons, ← hchunks] at h
          rcases List.mem_cons.1 h with rfl | h
          · -- Something is left for the next chunk, so this one has filled its room.
            have hleft : rest.drop size ≠ [] := by
              intro hnil
              change chunksFrom .full size (rest.drop size) _ = _ at hrest
              rw [hnil, chunksFrom_full_nil, hchunks] at hrest
              cases hrest
            exact List.length_take_of_le
              (Nat.le_of_lt (Nat.lt_of_not_le fun hle => hleft (List.drop_of_length_le hle)))
          · exact ih h

/-! ## What a loader reads -/

theorem snd_fillFrom (l : Loader) (reported : Nat) (contents : List UInt8) :
    (l.fillFrom reported contents).2 = contents :=
  fill_snd reported (l.growTo reported).capacity_pos [] contents (Nat.zero_le _)

/-- The file that a loader reads, if it can be read from the start. -/
def fileOn (l : Loader) (d : Disk) : Except LoadError FileId :=
  (l.rewind d).map Prod.snd

theorem fileOn_of_none (h : l.file = none) : l.fileOn d = d.openFile l.path := by
  rw [fileOn, rewind, h]
  cases d.openFile l.path <;> rfl

/-- A file that is open is found again, unless it cannot be rewound. -/
theorem fileOn_of_some (h : l.file = some file)
    (hpipe : ∀ bytes, d.body? file ≠ some (.pipe bytes)) : l.fileOn d = .ok file := by
  rw [fileOn, rewind, h]
  dsimp only
  split
  · next bytes hbody => exact absurd hbody (hpipe bytes)
  · rfl

/-- To rewind a file changes nothing of its loader but that the file is open then. -/
theorem rewind_eq (l : Loader) (d : Disk) :
    l.rewind d = (l.fileOn d).map fun file => ({ l with file := some file }, file) := by
  unfold fileOn rewind
  split
  · cases d.openFile l.path <;> rfl
  · next file hfile =>
      split
      · rfl
      · simp only [Except.map, ← hfile]

/-- What an open file holds, if it can be read. -/
def contents (path : String) (d : Disk) (file : FileId) : Except LoadError (List UInt8) :=
  match d.body? file with
  | some (.stored contents _) | some (.pipe contents) => .ok contents
  | some (.directory _) => .error (.reading path .isDirectory)
  | none => .error (.reading path .notFound)

theorem snd_load (l : Loader) (d : Disk) :
    (l.load d).2 = (l.fileOn d).bind (contents l.path d) := by
  unfold load
  rw [rewind_eq]
  cases l.fileOn d with
  | error e => rfl
  | ok file =>
      simp only [Except.map, Except.bind, contents]
      cases d.body? file with
      | none => rfl
      | some body =>
          cases body with
          | stored bytes reported => exact congrArg Except.ok (snd_fillFrom _ reported bytes)
          | directory reported => rfl
          | pipe bytes => exact congrArg Except.ok (snd_fillFrom _ 0 bytes)

/-- The loader once it has tried to open its file. -/
def opened (l : Loader) (d : Disk) : Loader :=
  match l.fileOn d with
  | .error _ => l
  | .ok file => { l with file := some file }

theorem path_opened (l : Loader) (d : Disk) : (l.opened d).path = l.path := by
  unfold opened
  cases l.fileOn d <;> rfl

theorem capacity_opened (l : Loader) (d : Disk) : (l.opened d).capacity = l.capacity := by
  unfold opened
  cases l.fileOn d <;> rfl

/-- The file of a loader that has been called: the one that it held, or the one that it found. -/
theorem file_opened (l : Loader) (d : Disk) :
    (l.opened d).file = l.file.or (d.locate l.path).toOption := by
  unfold opened
  cases hfile : l.file with
  | none =>
      rw [fileOn_of_none hfile, Disk.openFile]
      cases d.locate l.path with
      | error cause => exact hfile
      | ok file => rfl
  | some file =>
      by_cases hpipe : ∃ bytes, d.body? file = some (.pipe bytes)
      · rcases hpipe with ⟨bytes, hbody⟩
        have herror : l.fileOn d = .error (.reading l.path .illegalSeek) := by
          simp [fileOn, rewind, hfile, hbody, Except.map]
        rw [herror]
        exact hfile
      · rw [fileOn_of_some hfile fun bytes hbody => hpipe ⟨bytes, hbody⟩]
        rfl

/-- What a stream hands on of what would be loaded as a whole. -/
def streamed (plan : ReadPlan) (size : Nat) (path : String) :
    Except LoadError (List UInt8) → Streamed
  | .error e => ⟨[], some e⟩
  | .ok contents =>
      let out := chunksFrom plan size contents 0
      ⟨out.1, out.2.map (.reading path)⟩

theorem streamBy_eq (plan : ReadPlan) (l : Loader) (d : Disk) :
    l.streamBy plan d = (l.opened d, streamed plan l.capacity l.path (l.load d).2) := by
  rw [snd_load]
  unfold streamBy opened
  rw [rewind_eq]
  cases l.fileOn d with
  | error e => rfl
  | ok file =>
      simp only [Except.map, Except.bind, contents]
      cases d.body? file with
      | none => rfl
      | some body => cases body <;> rfl

/-- A file that is streamed by full reads fails in the same way as if it is loaded as a whole. -/
theorem stream_eq (l : Loader) (d : Disk) :
    l.stream d =
      (l.opened d,
        (l.load d).2.map fun contents => (chunksFrom .full l.capacity contents 0).1) := by
  unfold stream
  rw [streamBy_eq]
  cases (l.load d).2 with
  | error e => rfl
  | ok contents =>
      simp only [streamed, (chunksFrom_full l.capacity_pos contents 0).2]
      rfl

theorem fst_stream (l : Loader) (d : Disk) : (l.stream d).1 = l.opened d := by
  rw [stream_eq]

/-- Two loaders of one file, which may have buffers of different sizes. -/
structure SameFile (l l' : Loader) : Prop where
  path_eq : l.path = l'.path
  file_eq : l.file = l'.file

theorem SameFile.fileOn (h : l.SameFile l') (d : Disk) : l.fileOn d = l'.fileOn d := by
  unfold Loader.fileOn Loader.rewind
  rw [h.path_eq, h.file_eq]
  cases l'.file with
  | none => cases d.openFile l'.path <;> rfl
  | some file =>
      dsimp only
      split <;> rfl

theorem SameFile.load (h : l.SameFile l') (d : Disk) : (l.load d).2 = (l'.load d).2 := by
  rw [snd_load, snd_load, h.fileOn d, h.path_eq]

theorem SameFile.opened (h : l.SameFile l') (d : Disk) : (l.opened d).SameFile (l'.opened d) := by
  unfold Loader.opened
  rw [h.fileOn d]
  cases l'.fileOn d with
  | error e => exact h
  | ok file => exact ⟨h.path_eq, rfl⟩

theorem sameFile_load (l : Loader) (d : Disk) : (l.load d).1.SameFile (l.opened d) := by
  unfold load opened
  rw [rewind_eq]
  cases l.fileOn d with
  | error e => exact ⟨rfl, rfl⟩
  | ok file =>
      simp only [Except.map]
      cases d.body? file with
      | none => exact ⟨rfl, rfl⟩
      | some body => cases body <;> exact ⟨rfl, rfl⟩

end Loader

end QueueWatch
