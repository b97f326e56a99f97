import QueueWatch.File.Disk

/-!
# Loading files

A loader reads one file over and over. It opens the file when it is first used and keeps it open;
each later use rewinds it, so that it sees what the file holds then, whatever has happened to the
path. A loader that could not open its file tries again the next time.

`Loader.load` reads the whole file into the buffer of the loader. The size that a file reports is
only a hint, so the loader reads until nothing comes any more, and it doubles the buffer whenever
it is full. `Loader.streamBy` reads in chunks of at most the size of the buffer, which does not
grow. How large the chunks are depends on the reads, which may bring less than there is room for,
and a read may fail after chunks that have been handed on (`ReadPlan`). `Loader.stream` is the case
of reads that do neither.
-/

namespace QueueWatch

/-- Why a file was not read. -/
inductive LoadError where
  | opening (path : String) (cause : OsError)
  | reading (path : String) (cause : OsError)
  deriving DecidableEq, Repr

def LoadError.message : LoadError → String
  | .opening path cause => "failed to open file `" ++ path ++ "`: " ++ cause.message
  | .reading path cause => "failed to read file `" ++ path ++ "`: " ++ cause.message

/-- A file that is read over and over, by the path that it has when it is opened. -/
structure Loader where
  path : String
  capacity : Nat
  capacity_pos : 0 < capacity
  /-- The file, once it is open. -/
  file : Option FileId

/-- Opens the file that a path leads to. -/
def Disk.openFile (d : Disk) (path : String) : Except LoadError FileId :=
  match d.locate path with
  | .ok file => .ok file
  | .error cause => .error (.opening path cause)

/-- How the reads of a file go. A read may bring fewer bytes than there is room for, though not none
while the file goes on, and it may fail. No two reads that bring something have the same offset, so
each of them can go in its own way. -/
structure ReadPlan where
  /-- A read at the offset brings at most one byte more than this, if it is kept short. -/
  most : Nat → Option Nat
  /-- Why a read at the offset fails, if it does. -/
  failure : Nat → Option OsError

namespace ReadPlan

/-- Reads that fill their room and do not fail. -/
def full : ReadPlan :=
  ⟨fun _ => none, fun _ => none⟩

/-- How much of its room a read at an offset uses at most. -/
def room (plan : ReadPlan) (size offset : Nat) : Nat :=
  match plan.most offset with
  | none => size
  | some most => min size (most + 1)

theorem room_le (plan : ReadPlan) (size offset : Nat) : plan.room size offset ≤ size := by
  unfold room
  split
  · exact Nat.le_refl _
  · exact Nat.min_le_left ..

theorem room_pos (plan : ReadPlan) {size : Nat} (h : 0 < size) (offset : Nat) :
    0 < plan.room size offset := by
  unfold room
  split
  · exact h
  · exact Nat.lt_min.2 ⟨h, Nat.succ_pos _⟩

end ReadPlan

/-- What a stream hands on: chunks, and then the error that ends it, unless the file ends it. -/
structure Streamed where
  chunks : List (List UInt8)
  error : Option LoadError
  deriving DecidableEq, Repr

namespace Loader

/-- A loader with a buffer of the given size, but of at least one byte. -/
def new (path : String) (capacity : Nat) : Loader :=
  ⟨path, max 1 capacity, by omega, none⟩

/-- The buffer after it was read into from the start until nothing came any more: its size, and the
bytes read. `filled` has been read already, `rest` is what the file still holds. -/
def fill (reported capacity : Nat) (filled rest : List UInt8) : Nat × List UInt8 :=
  let capacity :=
    if filled.length = capacity then max (capacity * 2) reported else capacity
  let room := capacity - filled.length
  if rest = [] ∨ room = 0 then (capacity, filled)
  else fill reported capacity (filled ++ rest.take room) (rest.drop room)
termination_by rest.length
decreasing_by
  rename_i h
  have := List.length_pos_iff.2 (not_or.1 h).1
  have := (not_or.1 h).2
  simp only [List.length_drop]
  omega

theorem le_fill (reported capacity : Nat) (filled rest : List UInt8) :
    capacity ≤ (fill reported capacity filled rest).1 := by
  fun_induction fill reported capacity filled rest with
  | case1 capacity filled rest grown room h =>
      show capacity ≤ grown
      grind
  | case2 capacity filled rest grown room h ih =>
      have : capacity ≤ grown := by grind
      omega

/-- The buffer ends up with what was read before and all that the file still holds. -/
theorem fill_snd (reported : Nat) {capacity : Nat} (hc : 0 < capacity) (filled rest : List UInt8)
    (hle : filled.length ≤ capacity) : (fill reported capacity filled rest).2 = filled ++ rest := by
  fun_induction fill reported capacity filled rest with
  | case1 capacity filled rest grown room h =>
      have hroom : room ≠ 0 := by grind
      rw [h.resolve_right hroom, List.append_nil]
  | case2 capacity filled rest grown room h ih =>
      rw [ih (by grind) (by grind), List.append_assoc, List.take_append_drop]

/-- Prepares for reading from the start: opens the file, or rewinds it if it is open. -/
def rewind (l : Loader) (d : Disk) : Except LoadError (Loader × FileId) :=
  match l.file with
  | none => (d.openFile l.path).map fun file => ({ l with file := some file }, file)
  | some file =>
      match d.body? file with
      | some (.pipe _) => .error (.reading l.path .illegalSeek)
      | _ => .ok (l, file)

/-- The loader with a buffer that has grown to hold what the file reports. -/
def growTo (l : Loader) (reported : Nat) : Loader :=
  { l with
    capacity := max l.capacity reported
    capacity_pos := Nat.lt_of_lt_of_le l.capacity_pos (Nat.le_max_left ..) }

/-- The loader after it has read contents as a whole, and these contents. -/
def fillFrom (l : Loader) (reported : Nat) (contents : List UInt8) : Loader × List UInt8 :=
  let l := l.growTo reported
  let filled := fill reported l.capacity [] contents
  ({ l with
     capacity := filled.1
     capacity_pos := Nat.lt_of_lt_of_le l.capacity_pos (le_fill ..) },
   filled.2)

def load (l : Loader) (d : Disk) : Loader × Except LoadError (List UInt8) :=
  match l.rewind d with
  | .error e => (l, .error e)
  | .ok (l, file) =>
      match d.body? file with
      | some (.stored contents reported) =>
          let (l, bytes) := l.fillFrom reported contents
          (l, .ok bytes)
      | some (.pipe contents) =>
          let (l, bytes) := l.fillFrom 0 contents
          (l, .ok bytes)
      | some (.directory reported) => (l.growTo reported, .error (.reading l.path .isDirectory))
      | none => (l, .error (.reading l.path .notFound))

/-- The chunks that reads bring of what a file holds from an offset on, up to its end or to a read
that fails, and why that one fails. -/
def chunksFrom (plan : ReadPlan) (size : Nat) (rest : List UInt8) (offset : Nat) :
    List (List UInt8) × Option OsError :=
  match plan.failure offset with
  | some cause => ([], some cause)
  | none =>
      let room := plan.room size offset
      if rest = [] ∨ room = 0 then ([], none)
      else
        let chunk := rest.take room
        let (chunks, failure) := chunksFrom plan size (rest.drop room) (offset + chunk.length)
        (chunk :: chunks, failure)
termination_by rest.length
decreasing_by
  rename_i h
  have := List.length_pos_iff.2 (not_or.1 h).1
  have := (not_or.1 h).2
  simp only [List.length_drop]
  omega

/-- Reads the file in chunks, by reads that go as planned. -/
def streamBy (plan : ReadPlan) (l : Loader) (d : Disk) : Loader × Streamed :=
  match l.rewind d with
  | .error e => (l, ⟨[], some e⟩)
  | .ok (l, file) =>
      match d.body? file with
      | some (.stored contents _) | some (.pipe contents) =>
          let (chunks, failure) := chunksFrom plan l.capacity contents 0
          (l, ⟨chunks, failure.map (.reading l.path)⟩)
      | some (.directory _) => (l, ⟨[], some (.reading l.path .isDirectory)⟩)
      | none => (l, ⟨[], some (.reading l.path .notFound)⟩)

/-- Reads the file in chunks that fill the buffer, but for the last one. -/
def stream (l : Loader) (d : Disk) : Loader × Except LoadError (List (List UInt8)) :=
  let (l, streamed) := l.streamBy .full d
  match streamed.error with
  | none => (l, .ok streamed.chunks)
  | some e => (l, .error e)

end Loader

end QueueWatch
