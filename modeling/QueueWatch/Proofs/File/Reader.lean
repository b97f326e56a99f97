import QueueWatch.Proofs.File.Contents
import QueueWatch.Proofs.Token.Bytewise

/-!
# Reading a file through a buffer

What a loader reads is what its file holds, but a loader works with a buffer whose bytes are those
of earlier reads, and with a file that is open at the place where the last read ended. A `Reader`
has both. It rewinds its file, and then each read puts next bytes into the buffer, until one brings
nothing. To load, it reads behind what it has read so far, and makes the buffer larger when it is
full; to stream, it reads into the same room over and over and hands each chunk on before it reads
the next one. It stops where a read fails, or the one who takes the chunks.

Neither the bytes that were left in the buffer nor the place where the file was left show:
whatever they are, a reader does what the loader does that has the same file and a buffer of the
same size (`Reader.Implements.load`, `Reader.Implements.streamBy`).
-/

namespace QueueWatch

/-! ## Buffers -/

/-- A buffer after bytes were written into it from an index on. -/
def overwrite (buffer : List UInt8) (start : Nat) (bytes : List UInt8) : List UInt8 :=
  buffer.take start ++ bytes ++ buffer.drop (start + bytes.length)

/-- A buffer of at least the given size, with zeros in the new room. -/
def enlarge (buffer : List UInt8) (size : Nat) : List UInt8 :=
  buffer ++ List.replicate (size - buffer.length) 0

/-- What a read brings that finds some room, from an offset on. -/
def nextBytes (contents : List UInt8) (offset room : Nat) : List UInt8 :=
  (contents.drop offset).take room

section

variable {buffer bytes contents : List UInt8} {start offset room size n : Nat}

theorem length_overwrite (h : start + bytes.length ≤ buffer.length) :
    (overwrite buffer start bytes).length = buffer.length := by
  simp only [overwrite, List.length_append, List.length_take, List.length_drop]
  omega

/-- What was written stands behind what was there before its place. -/
theorem take_overwrite (bytes : List UInt8) (h : start ≤ buffer.length) :
    (overwrite buffer start bytes).take (start + bytes.length) = buffer.take start ++ bytes := by
  have hlength : (buffer.take start ++ bytes).length = start + bytes.length := by
    rw [List.length_append, List.length_take, Nat.min_eq_left h]
  rw [overwrite, ← hlength, List.take_left]

/-- What was written at the start of a buffer is what is there then. -/
theorem take_overwrite_zero : (overwrite buffer 0 bytes).take bytes.length = bytes := by
  simpa using take_overwrite bytes (Nat.zero_le buffer.length)

theorem length_nextBytes_le : (nextBytes contents offset room).length ≤ room :=
  List.length_take_le ..

/-- A read brings nothing only at the end of the file, or without room. -/
theorem nextBytes_eq_nil_iff :
    nextBytes contents offset room = [] ↔ contents.drop offset = [] ∨ room = 0 := by
  rw [nextBytes, List.take_eq_nil_iff, or_comm]

/-- After a read, what is still to come is what is beyond the room. -/
theorem drop_add_length_nextBytes :
    contents.drop (offset + (nextBytes contents offset room).length) =
      (contents.drop offset).drop room := by
  rw [nextBytes, ← List.drop_drop, List.length_take]
  by_cases h : room ≤ (contents.drop offset).length
  · rw [Nat.min_eq_left h]
  · rw [Nat.min_eq_right (by omega), List.drop_length, List.drop_of_length_le (by omega)]

/-- A read that brings something gets closer to the end of the file. -/
theorem left_lt_of_nextBytes_ne_nil (h : nextBytes contents offset room ≠ []) :
    contents.length - (offset + (nextBytes contents offset room).length) <
      contents.length - offset := by
  have hpos := List.length_pos_iff.2 h
  have hdrop : contents.drop offset ≠ [] := fun hnil => h (nextBytes_eq_nil_iff.2 (.inl hnil))
  have hlt := List.length_pos_iff.2 hdrop
  rw [List.length_drop] at hlt
  omega

/-- A read into the buffer from its start. -/
theorem length_overwrite_nextBytes (h : room ≤ buffer.length) :
    (overwrite buffer 0 (nextBytes contents offset room)).length = buffer.length := by
  refine length_overwrite ?_
  rw [Nat.zero_add]
  exact Nat.le_trans length_nextBytes_le h

@[simp] theorem length_enlarge (buffer : List UInt8) (size : Nat) :
    (enlarge buffer size).length = max buffer.length size := by
  simp only [enlarge, List.length_append, List.length_replicate]
  omega

theorem take_enlarge (h : n ≤ buffer.length) : (enlarge buffer size).take n = buffer.take n :=
  List.take_append_of_le_length h

end

namespace Reader

variable {ε τ : Type}

/-- The buffer in which the next bytes are read. It is made larger if all of it has been read. -/
def room (reported : Nat) (buffer : List UInt8) (len : Nat) : List UInt8 :=
  if len = buffer.length then enlarge buffer (max (buffer.length * 2) reported) else buffer

/-- Reads behind the first `len` bytes of the buffer until nothing comes any more: the buffer, how
many bytes of it have been read, and where the file is left. -/
def loadLoop (reported : Nat) (contents buffer : List UInt8) (len offset : Nat) :
    List UInt8 × Nat × Nat :=
  let buffer := room reported buffer len
  let bytes := nextBytes contents offset (buffer.length - len)
  if bytes = [] then (buffer, len, offset)
  else
    loadLoop reported contents (overwrite buffer len bytes) (len + bytes.length)
      (offset + bytes.length)
termination_by contents.length - offset
decreasing_by exact left_lt_of_nextBytes_ne_nil ‹_›

/-- Reads over what is in the buffer until nothing comes any more, or until a read fails or the one
who takes the chunks: the buffer, where the file is left, and what came of it. -/
def streamLoopBy (plan : ReadPlan) (fail : OsError → ε) (onChunk : List UInt8 → EStateM ε τ Unit)
    (contents buffer : List UInt8) (offset : Nat) (t : τ) :
    (List UInt8 × Nat) × EStateM.Result ε τ Unit :=
  match plan.failure offset with
  | some cause => ((buffer, offset), .error (fail cause) t)
  | none =>
      let bytes := nextBytes contents offset (plan.room buffer.length offset)
      if bytes = [] then ((buffer, offset), .ok () t)
      else
        let buffer := overwrite buffer 0 bytes
        match onChunk (buffer.take bytes.length) t with
        | .error e t => ((buffer, offset + bytes.length), .error e t)
        | .ok _ t => streamLoopBy plan fail onChunk contents buffer (offset + bytes.length) t
termination_by contents.length - offset
decreasing_by exact left_lt_of_nextBytes_ne_nil ‹_›

section

variable {buffer : List UInt8} {len : Nat}

theorem take_room (reported : Nat) (h : len ≤ buffer.length) :
    (room reported buffer len).take len = buffer.take len := by
  unfold room
  split
  · exact take_enlarge h
  · rfl

theorem length_room (reported : Nat) (h : len ≤ buffer.length) :
    (room reported buffer len).length =
      if (buffer.take len).length = buffer.length then max (buffer.length * 2) reported
      else buffer.length := by
  rw [room, List.length_take, Nat.min_eq_left h]
  split
  · rw [length_enlarge]
    omega
  · rfl

/-- There is room for another byte. -/
theorem lt_length_room (reported : Nat) (hbuffer : 0 < buffer.length) (h : len ≤ buffer.length) :
    len < (room reported buffer len).length := by
  unfold room
  split
  · rw [length_enlarge]
    omega
  · omega

end

/-- What is in the buffer from `len` on does not show in what is loaded. -/
theorem loadLoop_eq (reported : Nat) (contents buffer : List UInt8) (len offset : Nat)
    (hbuffer : 0 < buffer.length) (hlen : len ≤ buffer.length) :
    ((loadLoop reported contents buffer len offset).1.length,
      (loadLoop reported contents buffer len offset).1.take
        (loadLoop reported contents buffer len offset).2.1) =
      Loader.fill reported buffer.length (buffer.take len) (contents.drop offset) := by
  fun_induction loadLoop reported contents buffer len offset with
  | case1 buffer len offset grown bytes h =>
      rw [Loader.fill, ← length_room reported hlen, List.length_take, Nat.min_eq_left hlen,
        if_pos (nextBytes_eq_nil_iff.1 h)]
      exact congrArg (Prod.mk _) (take_room reported hlen)
  | case2 buffer len offset grown bytes h ih =>
      have hlt : len < grown.length := lt_length_room reported hbuffer hlen
      have hbytes : bytes.length ≤ grown.length - len := length_nextBytes_le
      have hlength : (overwrite grown len bytes).length = grown.length :=
        length_overwrite (by omega)
      rw [ih (by omega) (by omega), hlength, take_overwrite bytes (Nat.le_of_lt hlt),
        take_room reported hlen, drop_add_length_nextBytes]
      -- One turn of the loop is one of `Loader.fill`, which has what was read as a list of its own.
      symm
      rw [Loader.fill, ← length_room reported hlen, List.length_take, Nat.min_eq_left hlen,
        if_neg (mt nextBytes_eq_nil_iff.2 h)]
      rfl

/-- Hands on chunks one after the other, and fails in the end if the stream of them did. -/
def handOn (onChunk : List UInt8 → EStateM ε τ Unit) (chunks : List (List UInt8))
    (error : Option ε) : EStateM ε τ Unit := do
  forM chunks onChunk
  match error with
  | none => pure ()
  | some e => throw e

theorem handOn_cons (onChunk : List UInt8 → EStateM ε τ Unit) (chunk : List UInt8)
    (chunks : List (List UInt8)) (error : Option ε) (t : τ) :
    handOn onChunk (chunk :: chunks) error t =
      match onChunk chunk t with
      | .error e t => .error e t
      | .ok _ t => handOn onChunk chunks error t := by
  unfold handOn
  rw [List.forM_cons, bind_assoc, Assembler.bind_apply]
  cases onChunk chunk t <;> rfl

theorem handOn_none (onChunk : List UInt8 → EStateM ε τ Unit) (chunks : List (List UInt8)) :
    handOn onChunk chunks none = forM chunks onChunk :=
  bind_pure_unit

/-- What is in the buffer does not show in what is streamed, nor does it show that a chunk is handed
on before the next one is read. -/
theorem streamLoopBy_eq (plan : ReadPlan) (fail : OsError → ε)
    (onChunk : List UInt8 → EStateM ε τ Unit) (contents buffer : List UInt8) (offset : Nat)
    (t : τ) :
    let out := Loader.chunksFrom plan buffer.length (contents.drop offset) offset
    (streamLoopBy plan fail onChunk contents buffer offset t).1.1.length = buffer.length ∧
      (streamLoopBy plan fail onChunk contents buffer offset t).2 =
        handOn onChunk out.1 (out.2.map fail) t := by
  fun_induction streamLoopBy plan fail onChunk contents buffer offset t with
  | case1 buffer offset t cause hfailure =>
      rw [Loader.chunksFrom, hfailure]
      exact ⟨rfl, rfl⟩
  | case2 buffer offset t hfailure bytes h =>
      rw [Loader.chunksFrom, hfailure]
      dsimp only
      rw [if_pos (nextBytes_eq_nil_iff.1 h)]
      exact ⟨rfl, rfl⟩
  | case3 buffer offset t hfailure bytes h filled e t' hchunk =>
      rw [take_overwrite_zero] at hchunk
      rw [Loader.chunksFrom, hfailure]
      dsimp only
      rw [if_neg (mt nextBytes_eq_nil_iff.2 h), handOn_cons, ← nextBytes, hchunk]
      exact ⟨length_overwrite_nextBytes (plan.room_le ..), rfl⟩
  | case4 buffer offset t hfailure bytes h filled u t' hchunk ih =>
      have hfilled : filled.length = buffer.length :=
        length_overwrite_nextBytes (plan.room_le ..)
      rw [hfilled, drop_add_length_nextBytes] at ih
      rw [take_overwrite_zero] at hchunk
      rw [Loader.chunksFrom, hfailure]
      dsimp only
      rw [if_neg (mt nextBytes_eq_nil_iff.2 h), handOn_cons, ← nextBytes, hchunk]
      exact ih

end Reader

/-! ## Readers -/

/-- A file that is open, and where the next read goes on. -/
structure Handle where
  file : FileId
  offset : Nat

/-- A loader at work. -/
structure Reader where
  path : String
  /-- The room for what is read. It holds what earlier reads left there. -/
  buffer : List UInt8
  handle : Option Handle

namespace Reader

variable {ε τ : Type}

/-- A reader with a buffer of the given size, but of at least one byte. -/
def new (path : String) (capacity : Nat) : Reader :=
  ⟨path, List.replicate (max 1 capacity) 0, none⟩

/-- The file, at its start: it is opened, or rewound if it is open. -/
def rewound (r : Reader) (d : Disk) : Except LoadError Handle :=
  match r.handle with
  | none => (d.openFile r.path).map (⟨·, 0⟩)
  | some h =>
      match d.body? h.file with
      | some (.pipe _) => .error (.reading r.path .illegalSeek)
      | _ => .ok { h with offset := 0 }

/-- Reads a file as a whole. -/
def loadFrom (r : Reader) (h : Handle) (reported : Nat) (contents : List UInt8) :
    Reader × List UInt8 :=
  let (buffer, len, offset) :=
    loadLoop reported contents (enlarge r.buffer reported) 0 h.offset
  ({ r with buffer, handle := some { h with offset } }, buffer.take len)

def load (r : Reader) (d : Disk) : Reader × Except LoadError (List UInt8) :=
  match r.rewound d with
  | .error e => (r, .error e)
  | .ok h =>
      match d.body? h.file with
      | some (.stored contents reported) =>
          let (r, bytes) := r.loadFrom h reported contents
          (r, .ok bytes)
      | some (.pipe contents) =>
          let (r, bytes) := r.loadFrom h 0 contents
          (r, .ok bytes)
      | some (.directory reported) =>
          ({ r with buffer := enlarge r.buffer reported, handle := some h },
            .error (.reading r.path .isDirectory))
      | none => ({ r with handle := some h }, .error (.reading r.path .notFound))

/-- Reads a file in chunks. -/
def streamFrom (plan : ReadPlan) (r : Reader) (h : Handle) (fail : LoadError → ε)
    (onChunk : List UInt8 → EStateM ε τ Unit) (contents : List UInt8) (t : τ) :
    Reader × EStateM.Result ε τ Unit :=
  let ((buffer, offset), result) :=
    streamLoopBy plan (fun cause => fail (.reading r.path cause)) onChunk contents r.buffer
      h.offset t
  ({ r with buffer, handle := some { h with offset } }, result)

/-- Hands on each chunk of a file as soon as it is read, by reads that go as planned. -/
def streamBy (plan : ReadPlan) (r : Reader) (d : Disk) (fail : LoadError → ε)
    (onChunk : List UInt8 → EStateM ε τ Unit) (t : τ) : Reader × EStateM.Result ε τ Unit :=
  match r.rewound d with
  | .error e => (r, .error (fail e) t)
  | .ok h =>
      match d.body? h.file with
      | some (.stored contents _) | some (.pipe contents) =>
          r.streamFrom plan h fail onChunk contents t
      | some (.directory _) =>
          ({ r with handle := some h }, .error (fail (.reading r.path .isDirectory)) t)
      | none => ({ r with handle := some h }, .error (fail (.reading r.path .notFound)) t)

/-- Hands on each chunk of a file as soon as it is read, where chunks fill the buffer but for the
last one. -/
def stream (r : Reader) (d : Disk) (fail : LoadError → ε) (onChunk : List UInt8 → EStateM ε τ Unit)
    (t : τ) : Reader × EStateM.Result ε τ Unit :=
  r.streamBy .full d fail onChunk t

/-- The file that is open. -/
def file (r : Reader) : Option FileId :=
  r.handle.map Handle.file

/-- A loader and a reader of the same file, with buffers of the same size. -/
structure Implements (r : Reader) (l : Loader) : Prop where
  path_eq : r.path = l.path
  length_eq : r.buffer.length = l.capacity
  file_eq : r.file = l.file

variable {r : Reader} {l : Loader}

theorem implements_new (path : String) (capacity : Nat) :
    (new path capacity).Implements (.new path capacity) :=
  ⟨rfl, List.length_replicate .., rfl⟩

theorem Implements.rewound (h : r.Implements l) (d : Disk) :
    r.rewound d = (l.fileOn d).map (⟨·, 0⟩) := by
  unfold Reader.rewound Loader.fileOn Loader.rewind
  rw [← h.file_eq, ← h.path_eq, file]
  cases r.handle with
  | none => cases d.openFile r.path <;> rfl
  | some handle =>
      simp only [Option.map_some]
      cases d.body? handle.file with
      | none => rfl
      | some body => cases body <;> rfl

/-- A file that is read as a whole from its start. -/
theorem Implements.loadFrom (h : r.Implements l) (file : FileId) (reported : Nat)
    (contents : List UInt8) :
    (r.loadFrom ⟨file, 0⟩ reported contents).1.Implements
        ({ l with file := some file }.fillFrom reported contents).1 ∧
      (r.loadFrom ⟨file, 0⟩ reported contents).2 =
        ({ l with file := some file }.fillFrom reported contents).2 := by
  have hpos : 0 < (enlarge r.buffer reported).length := by
    rw [length_enlarge, h.length_eq]
    exact Nat.lt_of_lt_of_le l.capacity_pos (Nat.le_max_left ..)
  have hloop := loadLoop_eq reported contents (enlarge r.buffer reported) 0 0 hpos (Nat.zero_le _)
  rw [List.take_zero, List.drop_zero, length_enlarge, h.length_eq] at hloop
  exact ⟨⟨h.path_eq, congrArg Prod.fst hloop, rfl⟩, congrArg Prod.snd hloop⟩

theorem Implements.opened (h : r.Implements l) (handle : Handle) :
    { r with handle := some handle }.Implements { l with file := some handle.file } :=
  ⟨h.path_eq, h.length_eq, rfl⟩

/-- Whatever earlier reads left, a reader loads what the loader does. -/
theorem Implements.load (h : r.Implements l) (d : Disk) :
    (r.load d).1.Implements (l.load d).1 ∧ (r.load d).2 = (l.load d).2 := by
  unfold Reader.load Loader.load
  rw [h.rewound, l.rewind_eq]
  cases l.fileOn d with
  | error e => exact ⟨h, rfl⟩
  | ok file =>
      simp only [Except.map]
      cases d.body? file with
      | none => exact ⟨h.opened ⟨file, 0⟩, by rw [h.path_eq]⟩
      | some body =>
          cases body with
          | stored contents reported =>
              rcases h.loadFrom file reported contents with ⟨himplements, hbytes⟩
              exact ⟨himplements, congrArg Except.ok hbytes⟩
          | pipe contents =>
              rcases h.loadFrom file 0 contents with ⟨himplements, hbytes⟩
              exact ⟨himplements, congrArg Except.ok hbytes⟩
          | directory reported =>
              refine ⟨⟨h.path_eq, ?_, rfl⟩, by rw [h.path_eq]⟩
              exact (length_enlarge ..).trans (by rw [h.length_eq]; rfl)

/-- A file that is read in chunks from its start. -/
theorem Implements.streamFrom (h : r.Implements l) (plan : ReadPlan) (file : FileId)
    (fail : LoadError → ε) (onChunk : List UInt8 → EStateM ε τ Unit) (contents : List UInt8)
    (t : τ) :
    let out := Loader.chunksFrom plan l.capacity contents 0
    (r.streamFrom plan ⟨file, 0⟩ fail onChunk contents t).1.Implements
        { l with file := some file } ∧
      (r.streamFrom plan ⟨file, 0⟩ fail onChunk contents t).2 =
        handOn onChunk out.1 ((out.2.map (.reading l.path)).map fail) t := by
  rcases streamLoopBy_eq plan (fun cause => fail (.reading r.path cause)) onChunk contents r.buffer
    0 t with ⟨hlength, hresult⟩
  rw [h.length_eq] at hresult
  refine ⟨⟨h.path_eq, hlength.trans h.length_eq, rfl⟩, ?_⟩
  rw [Option.map_map, ← h.path_eq]
  exact hresult

/-- Whatever earlier reads left, and however the reads go, a reader hands on what the loader
streams. -/
theorem Implements.streamBy (h : r.Implements l) (plan : ReadPlan) (d : Disk)
    (fail : LoadError → ε) (onChunk : List UInt8 → EStateM ε τ Unit) (t : τ) :
    (r.streamBy plan d fail onChunk t).1.Implements (l.streamBy plan d).1 ∧
      (r.streamBy plan d fail onChunk t).2 =
        handOn onChunk (l.streamBy plan d).2.chunks ((l.streamBy plan d).2.error.map fail) t := by
  unfold Reader.streamBy Loader.streamBy
  rw [h.rewound, l.rewind_eq]
  cases l.fileOn d with
  | error e => exact ⟨h, rfl⟩
  | ok file =>
      simp only [Except.map]
      cases d.body? file with
      | none => exact ⟨h.opened ⟨file, 0⟩, by rw [h.path_eq]; rfl⟩
      | some body =>
          cases body with
          | stored contents reported => exact h.streamFrom plan file fail onChunk contents t
          | pipe contents => exact h.streamFrom plan file fail onChunk contents t
          | directory reported => exact ⟨h.opened ⟨file, 0⟩, by rw [h.path_eq]; rfl⟩

theorem Implements.stream (h : r.Implements l) (d : Disk) (fail : LoadError → ε)
    (onChunk : List UInt8 → EStateM ε τ Unit) (t : τ) :
    (r.stream d fail onChunk t).1.Implements (l.stream d).1 ∧
      ∀ chunks, (l.stream d).2 = .ok chunks →
        (r.stream d fail onChunk t).2 = forM chunks onChunk t := by
  have hplan := h.streamBy .full d fail onChunk t
  rw [Loader.streamBy_eq] at hplan
  rw [Loader.stream_eq]
  refine ⟨hplan.1, fun chunks hchunks => ?_⟩
  cases hload : (l.load d).2 with
  | error e =>
      rw [hload] at hchunks
      cases hchunks
  | ok contents =>
      rw [hload] at hchunks hplan
      cases hchunks
      refine hplan.2.trans ?_
      rw [Loader.streamed, (Loader.chunksFrom_full l.capacity_pos contents 0).2]
      exact congrFun (handOn_none ..) t

end Reader

end QueueWatch
