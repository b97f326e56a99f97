import Mathlib.Data.List.Induction
import QueueWatch.Proofs.File.Changes
import QueueWatch.Proofs.File.Reader

/-!
# A file that is read over and over

Files are written, extended, replaced and removed while a loader reads one, and the calls of the
loader come in any order, with streams that are given up halfway among them. `firstFound` is the
file that the first call found that found any, and `contentsAfter` what becomes of the contents of a
file. A loader and a reader hold that file ever after, and each of their calls reads what it holds
at that time (`World.calls_read_firstFound`).
-/

namespace QueueWatch

theorem Loader.fileOn_of_contents? {l : Loader} {d : Disk} {file : FileId} {contents : List UInt8}
    (h : l.file.or (d.locate l.path).toOption = some file)
    (hcontents : d.contents? file = some contents) : l.fileOn d = .ok file := by
  cases hfile : l.file with
  | none =>
      rw [hfile, Option.none_or] at h
      rw [fileOn_of_none hfile, Disk.openFile]
      cases hlocate : d.locate l.path with
      | error cause => simp [hlocate, Except.toOption] at h
      | ok found =>
          rw [hlocate] at h
          rw [Option.some.inj h]
  | some held =>
      rw [hfile] at h
      cases h
      refine fileOn_of_some hfile fun bytes hpipe => ?_
      rw [Disk.contents?, hpipe] at hcontents
      cases hcontents

/-- What happens while a loader is used. -/
inductive Event : Type 1 where
  | change (c : FileChange)
  | load
  /-- A stream to one who takes chunks, and may fail at any of them. -/
  | stream {ε τ : Type} (fail : LoadError → ε) (onChunk : List UInt8 → EStateM ε τ Unit) (t : τ)

namespace Event

def on (d : Disk) : Event → Disk
  | change c => c.apply d
  | load => d
  | stream .. => d

/-- What becomes of the contents of a file. -/
def effect (d : Disk) (file : FileId) (old : List UInt8) : Event → List UInt8
  | change c => c.effect d file old
  | load => old
  | stream .. => old

def IsCall : Event → Prop
  | change _ => False
  | load => True
  | stream .. => True

/-- The file that a call finds at a path. -/
def finds (path : String) (d : Disk) : Event → Option FileId
  | change _ => none
  | load => (d.locate path).toOption
  | stream .. => (d.locate path).toOption

theorem IsCall.finds_eq {e : Event} (h : e.IsCall) (path : String) (d : Disk) :
    e.finds path d = (d.locate path).toOption := by
  cases e with
  | change => exact h.elim
  | load => rfl
  | stream => rfl

theorem IsCall.on_eq {e : Event} (h : e.IsCall) (d : Disk) : e.on d = d := by
  cases e with
  | change => exact h.elim
  | load => rfl
  | stream => rfl

end Event

/-- The file that the first call found that found any. -/
def firstFound (path : String) : Disk → List Event → Option FileId
  | _, [] => none
  | d, e :: rest => (e.finds path d).or (firstFound path (e.on d) rest)

/-- What becomes of the contents of a file, event by event. -/
def contentsAfter (file : FileId) : Disk → List UInt8 → List Event → List UInt8
  | _, old, [] => old
  | d, old, e :: rest => contentsAfter file (e.on d) (e.effect d file old) rest

theorem firstFound_append (path : String) (d : Disk) (past later : List Event) :
    firstFound path d (past ++ later) =
      (firstFound path d past).or (firstFound path (past.foldl Event.on d) later) := by
  induction past generalizing d with
  | nil => rfl
  | cons e past ih =>
      rw [List.cons_append, firstFound, ih, firstFound, List.foldl_cons, Option.or_assoc]

theorem firstFound_singleton (path : String) (d : Disk) (e : Event) :
    firstFound path d [e] = e.finds path d :=
  Option.or_none

/-- Which call it is that finds a file does not matter, nor what comes after it. -/
theorem firstFound_of_call {path : String} {d : Disk} {past : List Event} {file : FileId}
    (h : firstFound path d (past ++ [.load]) = some file) {call : Event} (hcall : call.IsCall)
    (later : List Event) : firstFound path d (past ++ call :: later) = some file := by
  rw [firstFound_append, firstFound_singleton] at h
  rw [firstFound_append, firstFound, ← Option.or_assoc, hcall.finds_eq]
  change Option.or (Option.or _ (Event.load.finds path _)) _ = _
  rw [h]
  rfl

/-- An event keeps every regular file, with the contents that it is to have. -/
theorem Event.alters_on {d : Disk} (h : d.Sound) (e : Event) :
    d.Alters (e.on d) fun file old => e.effect d file old := by
  cases e with
  | change c => exact c.alters_apply h
  | load => exact h.grows.alters fun _ _ _ => rfl
  | stream => exact h.grows.alters fun _ _ _ => rfl

theorem contents?_foldl {d : Disk} (h : d.Sound) {file : FileId} {old : List UInt8}
    (hold : d.contents? file = some old) (events : List Event) :
    (events.foldl Event.on d).contents? file = some (contentsAfter file d old events) := by
  induction events generalizing d old with
  | nil => exact hold
  | cons e events ih =>
      have halters := e.alters_on h
      exact ih halters.sound (halters.contents? file old hold)

/-- A disk, and a loader and a reader that are called at the same times. -/
structure World where
  disk : Disk
  loader : Loader
  reader : Reader

namespace World

def start (path : String) (capacity : Nat) (disk : Disk) : World :=
  ⟨disk, .new path capacity, .new path capacity⟩

def step (w : World) : Event → World
  | .change c => { w with disk := c.apply w.disk }
  | .load =>
      { w with loader := (w.loader.load w.disk).1, reader := (w.reader.load w.disk).1 }
  | .stream fail onChunk t =>
      { w with
        loader := (w.loader.stream w.disk).1
        reader := (w.reader.stream w.disk fail onChunk t).1 }

def after (w : World) (events : List Event) : World :=
  events.foldl step w

theorem after_append (w : World) (first second : List Event) :
    w.after (first ++ second) = (w.after first).after second :=
  List.foldl_append

/-- How a world has come about in which a path was read from the start. -/
structure Follows (path : String) (disk : Disk) (past : List Event) (w : World) : Prop where
  disk_eq : w.disk = past.foldl Event.on disk
  sound : w.disk.Sound
  alike : w.reader.Implements w.loader
  path_eq : w.loader.path = path
  file_eq : w.loader.file = firstFound path disk past

variable {path : String} {disk : Disk} {past : List Event} {w : World}

theorem follows_start (hdisk : disk.Sound) (path : String) (capacity : Nat) :
    (start path capacity disk).Follows path disk [] :=
  ⟨rfl, hdisk, Reader.implements_new path capacity, rfl, rfl⟩

/-- A call finds a file unless one is open. -/
theorem Follows.file_opened (h : w.Follows path disk past) :
    (w.loader.opened w.disk).file =
      (firstFound path disk past).or (w.disk.locate path).toOption := by
  rw [Loader.file_opened, h.file_eq, h.path_eq]

theorem Follows.step (h : w.Follows path disk past) (e : Event) :
    (w.step e).Follows path disk (past ++ [e]) := by
  have hdisk : (w.step e).disk = (past ++ [e]).foldl Event.on disk := by
    rw [List.foldl_concat, ← h.disk_eq]
    cases e <;> rfl
  have hsound : (w.step e).disk.Sound := by
    rw [hdisk, List.foldl_concat, ← h.disk_eq]
    exact (e.alters_on h.sound).sound
  have hfirst : firstFound path disk (past ++ [e]) =
      (firstFound path disk past).or (e.finds path w.disk) := by
    rw [firstFound_append, firstFound_singleton, ← h.disk_eq]
  cases e with
  | change c =>
      refine ⟨hdisk, hsound, h.alike, h.path_eq, ?_⟩
      rw [hfirst]
      exact h.file_eq.trans Option.or_none.symm
  | load =>
      have hsame := w.loader.sameFile_load w.disk
      refine ⟨hdisk, hsound, (h.alike.load w.disk).1, ?_, ?_⟩
      · exact (hsame.path_eq.trans (w.loader.path_opened w.disk)).trans h.path_eq
      · rw [hfirst]
        exact hsame.file_eq.trans h.file_opened
  | stream fail onChunk t =>
      have hfst := w.loader.fst_stream w.disk
      refine ⟨hdisk, hsound, (h.alike.stream w.disk fail onChunk t).1, ?_, ?_⟩
      · exact (congrArg Loader.path hfst).trans ((w.loader.path_opened w.disk).trans h.path_eq)
      · rw [hfirst]
        exact (congrArg Loader.file hfst).trans h.file_opened

theorem Follows.after (h : w.Follows path disk past) (later : List Event) :
    (w.after later).Follows path disk (past ++ later) := by
  induction later using List.reverseRecOn with
  | nil => rwa [List.append_nil]
  | append_singleton later e ih =>
      rw [after_append, ← List.append_assoc]
      exact ih.step e

/-- Calls find no file: they fail, and change nothing. -/
def FindsNothing (path : String) (w : World) : Prop :=
  w.loader.file = none ∧ w.reader.file = none ∧ ∃ cause, w.disk.locate path = .error cause ∧
    w.loader.load w.disk = (w.loader, .error (.opening path cause)) ∧
    w.reader.load w.disk = (w.reader, .error (.opening path cause)) ∧
    w.loader.stream w.disk = (w.loader, .error (.opening path cause)) ∧
    ∀ {ε τ : Type} (fail : LoadError → ε) (onChunk : List UInt8 → EStateM ε τ Unit) (t : τ),
      w.reader.stream w.disk fail onChunk t = (w.reader, .error (fail (.opening path cause)) t)

/-- Calls read what a file holds: to load gives it as a whole, and to stream hands it on in chunks.
These are as large as the buffer, but for the last one, which may be shorter. -/
structure Reads (file : FileId) (contents : List UInt8) (w : World) : Prop where
  contents?_eq : w.disk.contents? file = some contents
  load_loader : (w.loader.load w.disk).2 = .ok contents
  load_reader : (w.reader.load w.disk).2 = .ok contents
  stream : ∃ chunks, (w.loader.stream w.disk).2 = .ok chunks ∧
    (∀ {ε τ : Type} (fail : LoadError → ε) (onChunk : List UInt8 → EStateM ε τ Unit) (t : τ),
      (w.reader.stream w.disk fail onChunk t).2 = forM chunks onChunk t) ∧
    chunks.flatten = contents ∧
    (∀ chunk ∈ chunks, 0 < chunk.length ∧ chunk.length ≤ w.reader.buffer.length) ∧
    ∀ chunk ∈ chunks.dropLast, chunk.length = w.reader.buffer.length

theorem Follows.findsNothing (h : w.Follows path disk past)
    (hnone : firstFound path disk (past ++ [.load]) = none) : w.FindsNothing path := by
  rw [firstFound_append, firstFound_singleton, ← h.disk_eq, Option.or_eq_none_iff] at hnone
  rcases hnone with ⟨hnever, hnow⟩
  have hfile : w.loader.file = none := h.file_eq.trans hnever
  cases hlocate : w.disk.locate path with
  | ok file => simp [Event.finds, hlocate, Except.toOption] at hnow
  | error cause =>
      have hrewind : w.loader.fileOn w.disk = .error (.opening path cause) := by
        rw [Loader.fileOn_of_none hfile, h.path_eq, Disk.openFile, hlocate]
      have hrewound : w.reader.rewound w.disk = .error (.opening path cause) := by
        rw [h.alike.rewound, hrewind]
        rfl
      refine ⟨hfile, h.alike.file_eq.trans hfile, cause, hlocate, ?_, ?_, ?_,
        fun fail onChunk t => ?_⟩
      · rw [Loader.load, Loader.rewind_eq, hrewind]
        rfl
      · rw [Reader.load, hrewound]
      · rw [Loader.stream, Loader.streamBy, Loader.rewind_eq, hrewind]
        rfl
      · rw [Reader.stream, Reader.streamBy, hrewound]

theorem Follows.reads (h : w.Follows path disk past) {file : FileId} {contents : List UInt8}
    (hfound : firstFound path disk (past ++ [.load]) = some file)
    (hcontents : w.disk.contents? file = some contents) : w.Reads file contents := by
  have hfile : w.loader.fileOn w.disk = .ok file := by
    refine Loader.fileOn_of_contents? ?_ hcontents
    rw [h.file_eq, h.path_eq, ← hfound, firstFound_append, firstFound_singleton, ← h.disk_eq]
    rfl
  have hload : (w.loader.load w.disk).2 = .ok contents := by
    rcases Disk.contents?_eq_some_iff.1 hcontents with ⟨reported, hbody⟩
    rw [Loader.snd_load, hfile]
    change Loader.contents _ _ _ = _
    rw [Loader.contents, hbody]
  have hstream : (w.loader.stream w.disk).2 =
      .ok (Loader.chunksFrom .full w.loader.capacity contents 0).1 := by
    rw [Loader.stream_eq, hload]
    rfl
  have hpos : 0 < w.loader.capacity := w.loader.capacity_pos
  have hbuffer : w.reader.buffer.length = w.loader.capacity := h.alike.length_eq
  refine ⟨hcontents, hload, (h.alike.load w.disk).2.trans hload, _, hstream,
    fun fail onChunk t => (h.alike.stream w.disk fail onChunk t).2 _ hstream,
    (Loader.chunksFrom_full hpos contents 0).1, ?_, ?_⟩
  · rw [hbuffer]
    exact fun _ => Loader.length_of_mem_chunksFrom
  · rw [hbuffer]
    exact fun _ => Loader.length_of_mem_dropLast_chunksFrom

/-- Whatever was done to files and whatever calls there were, streams that were given up among them,
calls find nothing as long as none of them found a file. The first file that was found is held ever
after, whatever is at the path, and calls read what it holds when they are made. No stream changes
the size of the buffer. -/
theorem calls_read_firstFound (path : String) (capacity : Nat) (disk : Disk) (hdisk : disk.Sound)
    (past : List Event) (w : World) (hw : (start path capacity disk).after past = w) :
    w.reader.Implements w.loader ∧
      (w.loader.stream w.disk).1.capacity = w.loader.capacity ∧
      (∀ {ε τ : Type} (fail : LoadError → ε) (onChunk : List UInt8 → EStateM ε τ Unit) (t : τ),
        (w.reader.stream w.disk fail onChunk t).1.buffer.length = w.reader.buffer.length) ∧
      match firstFound path disk (past ++ [.load]) with
      | none => w.FindsNothing path
      | some file => ∀ contents, w.disk.contents? file = some contents →
          w.Reads file contents ∧
          ∀ call later, call.IsCall →
            (w.after (call :: later)).loader.file = some file ∧
            (w.after (call :: later)).reader.file = some file ∧
            (w.after (call :: later)).Reads file (contentsAfter file w.disk contents later) := by
  have h : w.Follows path disk past := hw ▸ (follows_start hdisk path capacity).after past
  have hcapacity : (w.loader.stream w.disk).1.capacity = w.loader.capacity := by
    rw [Loader.fst_stream, Loader.capacity_opened]
  refine ⟨h.alike, hcapacity, fun fail onChunk t => ?_, ?_⟩
  · rw [(h.alike.stream w.disk fail onChunk t).1.length_eq, hcapacity, h.alike.length_eq]
  cases hfound : firstFound path disk (past ++ [.load]) with
  | none => exact h.findsNothing hfound
  | some file =>
      refine fun contents hcontents => ⟨h.reads hfound hcontents, fun call later hcall => ?_⟩
      have hafter := h.after (call :: later)
      have hheld := hafter.file_eq.trans (firstFound_of_call hfound hcall later)
      refine ⟨hheld, hafter.alike.file_eq.trans hheld, hafter.reads ?_ ?_⟩
      · rw [List.append_assoc]
        exact firstFound_of_call hfound hcall (later ++ [.load])
      · rw [hafter.disk_eq, List.foldl_append, ← h.disk_eq, List.foldl_cons, hcall.on_eq]
        exact contents?_foldl h.sound hcontents later

/-- A call before there is a file, a stream that is given up, and a new file in the place of the one
that is open. -/
def replacedHistory : List Event :=
  [.load, .change (.write "/f" [97, 98, 99]),
    .stream (fun _ => ()) (fun _ t => .error () t) (),
    .change (.replace "/f" [120, 121])]

theorem calls_read_firstFound_replaced :
    ∃ w, (start "/f" 2 .empty).after replacedHistory = w ∧
      (w.reader.load w.disk).2 = .ok [97, 98, 99] ∧
      (w.loader.stream w.disk).2 = .ok [[97, 98], [99]] ∧
      (w.reader.stream w.disk (fun _ => ()) (fun chunk t => .ok () (t ++ [chunk])) []).2 =
        .ok () [[97, 98], [99]] := by
  have hfound : firstFound "/f" .empty (replacedHistory ++ [.load]) = some 1 := by
    decide +kernel
  have hcontents : ((start "/f" 2 .empty).after replacedHistory).disk.contents? 1 =
      some [97, 98, 99] := by
    decide +kernel
  have hpieces : (((start "/f" 2 .empty).after replacedHistory).loader.stream
      ((start "/f" 2 .empty).after replacedHistory).disk).2 = .ok [[97, 98], [99]] := by
    decide +kernel
  have h := (calls_read_firstFound "/f" 2 .empty Disk.sound_empty replacedHistory _ rfl).2.2.2
  rw [hfound] at h
  rcases h _ hcontents with ⟨hreads, -⟩
  rcases hreads.stream with ⟨chunks, hstream, hchunks, -⟩
  obtain rfl : [[97, 98], [99]] = chunks := Except.ok.inj (hpieces.symm.trans hstream)
  exact ⟨_, rfl, hreads.load_reader, hstream, (hchunks ..).trans rfl⟩

end World

end QueueWatch
