import QueueWatch.Monitor.Sockets
import QueueWatch.Proofs.File.Contents
import QueueWatch.Proofs.Monitor.Lifecycle
import QueueWatch.Proofs.Row.Reading
import QueueWatch.Proofs.Token.Unfinished

/-!
# A poll of a table that arrives in pieces

A monitor reads its table piece by piece and looks at each row as soon as its last byte is there.
What comes of it is what comes of a poll that has the rows of the whole table at hand, looks at them
in order and then ends or is given up (`plainPoll`). These rows are found by decoding the table at
once; a line that is too long ends it (`MonitorOptions.rowsOf`). If the table breaks off because a
read fails, they are the rows in the lines that ended before (`MonitorOptions.rowsRead`). Nothing
depends on what earlier polls left in the loader, the assembler and the decoder
(`SocketMonitor.SetUp`), or on the size of the pieces (`SocketMonitor.poll_eq_plainPoll`).
-/

namespace QueueWatch

/-! ## The lines of a table -/

/-- Whether a line of a table is longer than `limit`. -/
def HasLongLine (limit : Nat) (table : List UInt8) : Prop :=
  ∃ line ∈ table.splitOn 10, limit < line.length

instance (limit : Nat) (table : List UInt8) : Decidable (HasLongLine limit table) :=
  inferInstanceAs (Decidable (∃ line ∈ table.splitOn 10, limit < line.length))

/-- The lines of a table before the first that is longer than `limit`. -/
def beforeLongLine (limit : Nat) (table : List UInt8) : List UInt8 :=
  [10].intercalate ((table.splitOn 10).takeWhile fun line => line.length ≤ limit)

theorem tokens_beforeLongLine (limit : Nat) (table : List UInt8) :
    tokens 10 (beforeLongLine limit table) =
      (tokens 10 table).takeWhile fun line => line.length ≤ limit := by
  have hlines : ∀ line ∈ (table.splitOn 10).takeWhile (fun line => line.length ≤ limit),
      (10 : UInt8) ∉ line :=
    fun line hline => not_mem_of_mem_splitOn ((List.takeWhile_sublist _).subset hline)
  -- an empty line is never too long
  have hempty : (fun line : List UInt8 => !!line.isEmpty || decide (line.length ≤ limit)) =
      fun line => decide (line.length ≤ limit) := by
    funext line
    cases line <;> simp
  rw [beforeLongLine, tokens_intercalate hlines, tokens, List.takeWhile_filter, hempty]

theorem hasLongLine_iff {limit : Nat} {table : List UInt8} :
    HasLongLine limit table ↔ ∃ token ∈ tokens 10 table, limit < token.length := by
  constructor
  · intro hx
    rcases hx with ⟨line, hline, hlong⟩
    have hne : line ≠ [] := List.ne_nil_of_length_pos (Nat.lt_of_le_of_lt (Nat.zero_le _) hlong)
    exact ⟨line, List.mem_filter.2 ⟨hline, by simp [hne]⟩, hlong⟩
  · intro hx
    rcases hx with ⟨token, htoken, hlong⟩
    exact ⟨token, (List.mem_filter.1 htoken).1, hlong⟩

theorem length_le_of_not_hasLongLine {limit : Nat} {table : List UInt8}
    (h : ¬HasLongLine limit table) : ∀ token ∈ tokens 10 table, token.length ≤ limit :=
  fun token htoken => Nat.not_lt.1 fun hlong => h (hasLongLine_iff.2 ⟨token, htoken, hlong⟩)

/-- The lines of a table that have ended. -/
def endedLines (table : List UInt8) : List UInt8 :=
  [10].intercalate (table.splitOn 10).dropLast

theorem tokens_endedLines (table : List UInt8) :
    tokens 10 (endedLines table) = endedTokens 10 table :=
  tokens_intercalate fun _ hline =>
    not_mem_of_mem_splitOn ((List.dropLast_sublist _).subset hline)

/-! ## Rows from chunks -/

/-- A tracker that has looked at rows, in the state of a poll. -/
def Tracker.watched (w : Watchlist) (t : Tracker) (rows : List SocketRow) :
    SocketMonitor.Watching :=
  ((t.watch w rows).1, (t.watch w rows).2.toArray)

/-- The row handler of a poll looks at a row as the tracker does, and adds what the look says. -/
theorem SocketMonitor.watchRow_eq (w : Watchlist) (t : Tracker) (events : Array SocketEvent)
    (row : SocketRow) :
    watchRow w (t, events) row = ((t.look w row).1, events ++ (t.look w row).2) := rfl

/-- Rows that a poll takes one by one are watched in order. -/
theorem SocketMonitor.foldl_watchRow (w : Watchlist) (t : Tracker) (rows : List SocketRow) :
    rows.foldl (watchRow w) (t, #[]) = t.watched w rows := by
  suffices h : ∀ (t : Tracker) (events : Array SocketEvent),
      rows.foldl (watchRow w) (t, events) =
        ((t.watch w rows).1, events ++ (t.watch w rows).2) by
    rw [h, Tracker.watched]
    exact congrArg _ (Array.ext' Array.toList_appendList)
  induction rows with
  | nil => exact fun t events => congrArg (Prod.mk t) Array.appendList_nil.symm
  | cons row rows ih =>
      intro t events
      rw [List.foldl_cons, watchRow_eq, ih, Tracker.watch_cons]
      refine congrArg _ (Array.ext' ?_)
      simp only [Array.toList_appendList, List.append_assoc]

section

variable {limit : Nat} {a : Assembler} (d : RowDecoder SocketRow) (w : Watchlist) (t : Tracker)

/-- A table that is decoded at once shows its rows to the tracker. -/
theorem lift_decodeRows (table : List UInt8) :
    ∃ d', d'.format = d.format ∧
      Assembler.lift (RowDecoder.decodeRows (SocketMonitor.watchRow w) table) (a, d.reset, t, #[]) =
        ended ((RowDecoder.readRows d.format table).2.map .refused)
          (a, d', t.watched w (RowDecoder.readRows d.format table).1) := by
  rcases RowDecoder.decodeRows_eq (SocketMonitor.watchRow w) table d.reset (t, #[]) with
    ⟨d', hformat, hrun⟩
  change _ = ended (RowDecoder.readRows d.format table).2 _ at hrun
  refine ⟨d', hformat, ?_⟩
  rw [Assembler.lift_apply, hrun, ← SocketMonitor.foldl_watchRow]
  cases (RowDecoder.readRows d.format table).2 <;> rfl

/-- So do the tokens of a table, one after the other. -/
theorem lift_forM_tokens (table : List UInt8) :
    ∃ d', d'.format = d.format ∧
      Assembler.lift
          (forM (tokens 10 table) (RowDecoder.rowHandler (SocketMonitor.watchRow w)).token)
          (a, d.reset, t, #[]) =
        ended ((RowDecoder.readRows d.format table).2.map .refused)
          (a, d', t.watched w (RowDecoder.readRows d.format table).1) := by
  rcases lift_decodeRows (a := a) d w t table with ⟨d', hformat, hrun⟩
  refine ⟨d', hformat, Eq.trans ?_ hrun⟩
  rw [Assembler.lift_apply, Assembler.lift_apply, RowDecoder.decodeRows_eq_forM]
  rfl

/-- The chunks of a whole table show its rows, if no line is too long. -/
theorem consume_of_not_long (ha : a.Clear 10 limit) {chunks : List (List UInt8)}
    (h : ¬HasLongLine limit chunks.flatten) :
    ∃ d', d'.format = d.format ∧
      Assembler.consume (RowDecoder.rowHandler (SocketMonitor.watchRow w)) chunks
          (a, d.reset, t, #[]) =
        ended ((RowDecoder.readRows d.format chunks.flatten).2.map .refused)
          (a, d', t.watched w (RowDecoder.readRows d.format chunks.flatten).1) := by
  rcases lift_decodeRows (a := a) d w t chunks.flatten with ⟨d', hformat, hrun⟩
  refine ⟨d', hformat, Eq.trans ?_ hrun⟩
  exact Assembler.consume_of_le (RowDecoder.rowHandler (SocketMonitor.watchRow w))
    (length_le_of_not_hasLongLine h) a _ ha

/-- The chunks of a table that broke off show the rows in the lines that ended, if no line is too
long. The assembler keeps the bytes behind them. -/
theorem forM_feed_of_not_long (ha : a.Clear 10 limit) {chunks : List (List UInt8)}
    (h : ¬HasLongLine limit chunks.flatten) :
    let read := RowDecoder.readRows d.format (endedLines chunks.flatten)
    ∃ a' d', a'.Within 10 limit ∧ d'.format = d.format ∧
      forM chunks (Assembler.feed (RowDecoder.rowHandler (SocketMonitor.watchRow w)))
          (a, d.reset, t, #[]) =
        ended (read.2.map .refused) (a', d', t.watched w read.1) := by
  intro read
  have hfeed := Assembler.forM_feed_of_le (RowDecoder.rowHandler (SocketMonitor.watchRow w))
    (length_le_of_not_hasLongLine h) a (d.reset, t, #[]) ha
  rcases lift_forM_tokens (a := a) d w t (endedLines chunks.flatten) with ⟨d', hformat, hrun⟩
  rw [Assembler.bind_apply, ← tokens_endedLines, hrun] at hfeed
  cases hfault : read.2 with
  | some e =>
      refine ⟨a, d', ha.toWithin, hformat, hfeed.trans ?_⟩
      rw [show (RowDecoder.readRows d.format (endedLines chunks.flatten)).2 = some e from hfault]
      rfl
  | none =>
      rw [show (RowDecoder.readRows d.format (endedLines chunks.flatten)).2 = none from hfault]
        at hfeed
      rcases Assembler.exists_keep_of_le (ε := RowError)
        (length_unended_le (length_le_of_not_hasLongLine h)) ha (d', t.watched w read.1) with
        ⟨a', hwithin, hkeep⟩
      exact ⟨a', d', hwithin, hformat, hfeed.trans hkeep⟩

/-- With a line that is too long, the chunks of a table show the rows in the lines before the first
such line, whether the table broke off or not. -/
theorem watchStreamed_of_long (ha : a.Clear 10 limit) {streamed : Streamed}
    (h : HasLongLine limit streamed.chunks.flatten) :
    let read := RowDecoder.readRows d.format (beforeLongLine limit streamed.chunks.flatten)
    ∃ d', d'.format = d.format ∧
      SocketMonitor.watchStreamed w streamed (a, d.reset, t, #[]) =
        ended (some ((read.2.map .refused).getD (.tokenTooLong limit)))
          (a, d', t.watched w read.1) := by
  intro read
  have hlong := hasLongLine_iff.1 h
  have hrun : SocketMonitor.watchStreamed w streamed (a, d.reset, t, #[]) =
      (do
        Assembler.lift (forM
          ((tokens 10 streamed.chunks.flatten).takeWhile fun line => line.length ≤ limit)
          (RowDecoder.rowHandler (SocketMonitor.watchRow w)).token)
        throw (.tokenTooLong limit) : Assembler.Run RowError _ Unit) (a, d.reset, t, #[]) := by
    rcases streamed with ⟨chunks, _ | e⟩
    · exact Assembler.consume_of_lt _ hlong a _ ha
    · refine Eq.trans ?_ (Assembler.forM_feed_of_lt _ hlong a _ ha)
      exact congrFun bind_pure_unit _
  rcases lift_forM_tokens (a := a) d w t (beforeLongLine limit streamed.chunks.flatten) with
    ⟨d', hformat, hlift⟩
  refine ⟨d', hformat, hrun.trans ?_⟩
  rw [← tokens_beforeLongLine, Assembler.bind_apply, hlift]
  change _ = ended (some ((Option.map _ (RowDecoder.readRows d.format _).2).getD _)) _
  cases (RowDecoder.readRows d.format (beforeLongLine limit streamed.chunks.flatten)).2 <;> rfl

end

/-! ## A poll -/

namespace MonitorOptions

def tablePath (o : MonitorOptions) : String :=
  o.path.getD o.protocol.standardPath

/-- The events that a monitor tells. -/
def told (o : MonitorOptions) (events : List SocketEvent) : List SocketEvent :=
  if o.announces then events else events.filter fun e => !e.isLifecycle

/-- The rows that a monitor sees of a table with the given contents, and what keeps it from the rest
of them, if it does not see all. A line that is too long is at fault unless a row before it is. -/
def rowsOf (o : MonitorOptions) :
    Except LoadError (List UInt8) → List SocketRow × Option PollError
  | .error cause => ([], some (.load cause))
  | .ok table =>
      if HasLongLine o.maxRowLength table then
        let (rows, fault) :=
          RowDecoder.readRows o.protocol.format (beforeLongLine o.maxRowLength table)
        let cause := (fault.map .refused).getD (.tokenTooLong o.maxRowLength)
        (rows, some (.sockets o.tablePath cause))
      else
        let (rows, fault) := RowDecoder.readRows o.protocol.format table
        (rows, fault.map fun e => .sockets o.tablePath (.refused e))

/-- The rows that a monitor sees of a table of which it has read some bytes, and what keeps it from
the rest of them. A table that broke off was read as far as its lines ended, unless the line that
did not end is too long already. -/
def rowsRead (o : MonitorOptions) (bytes : List UInt8) :
    Option LoadError → List SocketRow × Option PollError
  | none => o.rowsOf (.ok bytes)
  | some cause =>
      if HasLongLine o.maxRowLength bytes then o.rowsOf (.ok bytes)
      else
        let (rows, fault) := RowDecoder.readRows o.protocol.format (endedLines bytes)
        (rows, some ((fault.map fun e => .sockets o.tablePath (.refused e)).getD (.load cause)))

variable {o : MonitorOptions} {bytes : List UInt8}

theorem rowsOf_of_long (h : HasLongLine o.maxRowLength bytes) :
    let read := RowDecoder.readRows o.protocol.format (beforeLongLine o.maxRowLength bytes)
    o.rowsOf (.ok bytes) =
      (read.1, some (.sockets o.tablePath
        ((read.2.map .refused).getD (.tokenTooLong o.maxRowLength)))) :=
  if_pos h

theorem rowsOf_of_not_long (h : ¬HasLongLine o.maxRowLength bytes) :
    let read := RowDecoder.readRows o.protocol.format bytes
    o.rowsOf (.ok bytes) = (read.1, read.2.map fun e => .sockets o.tablePath (.refused e)) :=
  if_neg h

@[simp]
theorem rowsRead_none (o : MonitorOptions) (bytes : List UInt8) :
    o.rowsRead bytes none = o.rowsOf (.ok bytes) := rfl

theorem rowsRead_of_long (h : HasLongLine o.maxRowLength bytes) (error : Option LoadError) :
    o.rowsRead bytes error = o.rowsOf (.ok bytes) := by
  cases error with
  | none => rfl
  | some cause => exact if_pos h

theorem rowsRead_of_not_long (h : ¬HasLongLine o.maxRowLength bytes) (cause : LoadError) :
    let read := RowDecoder.readRows o.protocol.format (endedLines bytes)
    o.rowsRead bytes (some cause) =
      (read.1,
        some ((read.2.map fun e => .sockets o.tablePath (.refused e)).getD (.load cause))) :=
  if_neg h

/-- If nothing is read of a table, that is all that is wrong. -/
theorem rowsRead_nil (o : MonitorOptions) (cause : LoadError) :
    o.rowsRead [] (some cause) = o.rowsOf (.error cause) := by
  have hshort : ¬HasLongLine o.maxRowLength [] := by
    rw [hasLongLine_iff]
    exact fun ⟨_, htoken, _⟩ => absurd htoken List.not_mem_nil
  rw [rowsRead_of_not_long hshort, rowsOf]
  rfl

end MonitorOptions

/-- A poll that is given its rows. It looks at them one after the other with one watchlist, and then
it ends if these were all, and is given up otherwise. -/
def plainPoll (o : MonitorOptions) (w : Watchlist) (t : Tracker) (rows : List SocketRow) :
    Option PollError → Tracker × PollReport
  | none =>
      let seen := t.watch w rows
      (seen.1.finishPoll.1, ⟨o.told (seen.2 ++ seen.1.finishPoll.2), none⟩)
  | some e =>
      let seen := t.watch w rows
      (seen.1.abandonPoll, ⟨o.told seen.2, some e⟩)

namespace SocketMonitor

/-- What a monitor has from its options, whatever polls it has made. The size of the pieces does not
count, and neither do the bytes and the columns that the last poll left. -/
structure SetUp (o : MonitorOptions) (m : SocketMonitor) : Prop where
  announces_eq : m.announces = o.announces
  path_eq : m.loader.path = o.tablePath
  delimiter_eq : m.assembler.delimiter = 10
  capacity_eq : m.assembler.capacity = o.maxRowLength
  format_eq : m.decoder.format = o.protocol.format

/-- What a poll makes of the tracker, and what it reports. -/
def outcome (polled : SocketMonitor × PollReport) : Tracker × PollReport :=
  (polled.1.tracker, polled.2)

variable {o : MonitorOptions} {m : SocketMonitor}

theorem setUp_ofOptions (o : MonitorOptions) : SetUp o (ofOptions o) :=
  ⟨rfl, rfl, rfl, rfl, rfl⟩

theorem SetUp.clear_reset (h : m.SetUp o) : m.assembler.reset.Clear 10 o.maxRowLength := by
  rw [← h.delimiter_eq, ← h.capacity_eq]
  exact Assembler.clear_reset m.assembler

theorem SetUp.conclude (h : m.SetUp o) (w : Watchlist) (t : Tracker) (rows : List SocketRow)
    (error : Option PollError) :
    (m.conclude (t.watched w rows) error).1.SetUp o ∧
      outcome (m.conclude (t.watched w rows) error) = plainPoll o w t rows error := by
  refine ⟨⟨h.announces_eq, h.path_eq, h.delimiter_eq, h.capacity_eq, h.format_eq⟩, ?_⟩
  unfold SocketMonitor.conclude plainPoll MonitorOptions.told Tracker.watched
  rw [h.announces_eq]
  cases error with
  | none => rfl
  | some e => simp [outcome]

/-- The monitor when a poll has opened its file and cleared what the last one left. -/
def ready (m : SocketMonitor) (d : Disk) : SocketMonitor :=
  { m with
    loader := m.loader.opened d, assembler := m.assembler.reset, decoder := m.decoder.reset }

theorem SetUp.ready (h : m.SetUp o) (d : Disk) : (m.ready d).SetUp o :=
  ⟨h.announces_eq, (Loader.path_opened m.loader d).trans h.path_eq, h.delimiter_eq, h.capacity_eq,
    h.format_eq⟩

/-- What a poll is told of its table: the bytes that were read, and why no more were. -/
def streamed (m : SocketMonitor) (plan : ReadPlan) (d : Disk) : Streamed :=
  (m.loader.streamBy plan d).2

theorem streamed_eq (m : SocketMonitor) (plan : ReadPlan) (d : Disk) :
    m.streamed plan d =
      Loader.streamed plan m.loader.capacity m.loader.path (m.loader.load d).2 := by
  rw [streamed, Loader.streamBy_eq]

/-- After what it was told of its table a monitor ends the poll as the rows say, or else as the
reads do. -/
theorem pollBy_of_ended {plan : ReadPlan} {d : Disk} {w : Watchlist}
    {cause : Option (FeedError RowError)} {a : Assembler} {decoder : RowDecoder SocketRow}
    {state : Watching}
    (hended : watchStreamed w (m.streamed plan d)
      (m.assembler.reset, m.decoder.reset, m.tracker, #[]) = ended cause (a, decoder, state)) :
    m.pollBy plan w d =
      { m.ready d with assembler := a, decoder }.conclude state
        ((cause.map (PollError.sockets m.loader.path)).or
          ((m.streamed plan d).error.map PollError.load)) := by
  have hloader : (m.loader.streamBy plan d).1 = m.loader.opened d := by
    rw [Loader.streamBy_eq]
  have hpath := Loader.path_opened m.loader d
  unfold pollBy
  unfold streamed at hended ⊢
  cases cause with
  | none =>
      simp only [hended, hloader, ended]
      rfl
  | some e =>
      simp only [hended, hloader, ended, hpath]
      rfl

theorem SetUp.pollBy_of_ended (h : m.SetUp o) {plan : ReadPlan} {d : Disk} {w : Watchlist}
    {rows : List SocketRow} {cause : Option (FeedError RowError)}
    (hended : ∃ a decoder, a.Within 10 o.maxRowLength ∧ decoder.format = o.protocol.format ∧
      watchStreamed w (m.streamed plan d) (m.assembler.reset, m.decoder.reset, m.tracker, #[]) =
        ended cause (a, decoder, m.tracker.watched w rows)) :
    (m.pollBy plan w d).1.SetUp o ∧
      outcome (m.pollBy plan w d) =
        plainPoll o w m.tracker rows
          ((cause.map (PollError.sockets o.tablePath)).or
            ((m.streamed plan d).error.map PollError.load)) := by
  rcases hended with ⟨a, decoder, hwithin, hformat, hrun⟩
  have hready := h.ready d
  have hset : SetUp o { m.ready d with assembler := a, decoder } :=
    ⟨hready.announces_eq, hready.path_eq, hwithin.delimiter_eq, hwithin.capacity_eq, hformat⟩
  rw [SocketMonitor.pollBy_of_ended hrun, h.path_eq]
  exact hset.conclude w m.tracker rows _

/-- One poll, by any reads: the monitor stays set up as it was, and what comes of the poll is what
comes of the rows in the bytes that were read. -/
theorem SetUp.pollBy (h : m.SetUp o) (plan : ReadPlan) (w : Watchlist) (d : Disk) :
    let read := o.rowsRead (m.streamed plan d).chunks.flatten (m.streamed plan d).error
    (m.pollBy plan w d).1.SetUp o ∧
      outcome (m.pollBy plan w d) = plainPoll o w m.tracker read.1 read.2 := by
  intro read
  have hclear := h.clear_reset
  have hformat := h.format_eq
  have hread : read = o.rowsRead (m.streamed plan d).chunks.flatten (m.streamed plan d).error := rfl
  by_cases hlong : HasLongLine o.maxRowLength (m.streamed plan d).chunks.flatten
  · rcases watchStreamed_of_long m.decoder w m.tracker hclear hlong with ⟨decoder, hkept, hrun⟩
    rw [hread, MonitorOptions.rowsRead_of_long hlong, MonitorOptions.rowsOf_of_long hlong,
      ← hformat]
    exact h.pollBy_of_ended ⟨_, decoder, hclear.toWithin, hkept.trans hformat, hrun⟩
  cases herror : (m.streamed plan d).error with
  | none =>
      rcases consume_of_not_long m.decoder w m.tracker hclear hlong with ⟨decoder, hkept, hrun⟩
      have hwatch : watchStreamed w (m.streamed plan d) =
          Assembler.consume (RowDecoder.rowHandler (watchRow w)) (m.streamed plan d).chunks := by
        rw [watchStreamed, herror]
        rfl
      rw [← hwatch] at hrun
      have hpoll := h.pollBy_of_ended ⟨_, decoder, hclear.toWithin, hkept.trans hformat, hrun⟩
      rw [herror, Option.map_none, Option.or_none, Option.map_map, hformat] at hpoll
      rw [hread, herror, MonitorOptions.rowsRead_none, MonitorOptions.rowsOf_of_not_long hlong]
      exact hpoll
  | some cause =>
      rcases forM_feed_of_not_long m.decoder w m.tracker hclear hlong with
        ⟨a, decoder, hwithin, hkept, hrun⟩
      have hwatch : watchStreamed w (m.streamed plan d) =
          forM (m.streamed plan d).chunks
            (Assembler.feed (RowDecoder.rowHandler (watchRow w))) := by
        rw [watchStreamed, herror]
        exact bind_pure_unit
      rw [← hwatch] at hrun
      have hpoll := h.pollBy_of_ended ⟨a, decoder, hwithin, hkept.trans hformat, hrun⟩
      rw [herror, Option.map_some, Option.or_some, Option.map_map, hformat] at hpoll
      rw [hread, herror, MonitorOptions.rowsRead_of_not_long hlong]
      exact hpoll

/-- One poll by full reads, whose table is read as a whole. -/
theorem SetUp.poll (h : m.SetUp o) (w : Watchlist) (d : Disk) :
    (m.poll w d).1.SetUp o ∧
      outcome (m.poll w d) =
        plainPoll o w m.tracker (o.rowsOf (m.loader.load d).2).1
          (o.rowsOf (m.loader.load d).2).2 := by
  have hpoll := h.pollBy .full w d
  rw [streamed_eq] at hpoll
  cases hload : (m.loader.load d).2 with
  | error cause =>
      rw [hload, Loader.streamed, List.flatten_nil, MonitorOptions.rowsRead_nil] at hpoll
      exact hpoll
  | ok table =>
      rcases Loader.chunksFrom_full m.loader.capacity_pos table 0 with ⟨hflat, hfailure⟩
      rw [hload, Loader.streamed] at hpoll
      dsimp only at hpoll
      rw [hflat, hfailure, Option.map_none, MonitorOptions.rowsRead_none] at hpoll
      exact hpoll

/-! ## Any run -/

/-- A monitor after polls, each with its watchlist and its disk. -/
def after (m : SocketMonitor) (polls : List (Watchlist × Disk)) : SocketMonitor :=
  polls.foldl (fun m p => (m.poll p.1 p.2).1) m

/-- What a monitor reports in polls, one after the other. -/
def reports (m : SocketMonitor) : List (Watchlist × Disk) → List PollReport
  | [] => []
  | p :: rest => (m.poll p.1 p.2).2 :: (m.poll p.1 p.2).1.reports rest

theorem SetUp.after (h : m.SetUp o) (polls : List (Watchlist × Disk)) :
    (m.after polls).SetUp o := by
  induction polls generalizing m with
  | nil => exact h
  | cons p rest ih => exact ih (h.poll p.1 p.2).1

/-- Monitors that know the same of the sockets and hold the same file. -/
structure Alike (m m' : SocketMonitor) : Prop where
  tracker_eq : m.tracker = m'.tracker
  sameFile : m.loader.SameFile m'.loader

variable {m' : SocketMonitor}

theorem loader_pollBy (plan : ReadPlan) (m : SocketMonitor) (w : Watchlist) (d : Disk) :
    (m.pollBy plan w d).1.loader = m.loader.opened d := by
  unfold pollBy
  rw [Loader.streamBy_eq]
  dsimp only
  split <;> rfl

theorem loader_poll (m : SocketMonitor) (w : Watchlist) (d : Disk) :
    (m.poll w d).1.loader = m.loader.opened d :=
  loader_pollBy .full m w d

theorem Alike.poll (h : m.Alike m') (hm : m.SetUp o) (hm' : m'.SetUp o) (w : Watchlist) (d : Disk) :
    (m.poll w d).1.Alike (m'.poll w d).1 ∧ (m.poll w d).2 = (m'.poll w d).2 := by
  have houtcome : outcome (m.poll w d) = outcome (m'.poll w d) := by
    rw [(hm.poll w d).2, (hm'.poll w d).2, h.tracker_eq, h.sameFile.load d]
  rcases Prod.mk.inj houtcome with ⟨htracker, hreport⟩
  refine ⟨⟨htracker, ?_⟩, hreport⟩
  rw [loader_poll, loader_poll]
  exact h.sameFile.opened d

theorem Alike.run (h : m.Alike m') (hm : m.SetUp o) (hm' : m'.SetUp o)
    (polls : List (Watchlist × Disk)) :
    m.reports polls = m'.reports polls ∧ (m.after polls).Alike (m'.after polls) := by
  induction polls generalizing m m' with
  | nil => exact ⟨rfl, h⟩
  | cons p rest ih =>
      rcases h.poll hm hm' p.1 p.2 with ⟨halike, hreport⟩
      rcases ih halike (hm.poll p.1 p.2).1 (hm'.poll p.1 p.2).1 with ⟨hreports, hafter⟩
      exact ⟨by rw [reports, reports, hreport, hreports], hafter⟩

/-- After any polls, failed ones included, a poll does what a poll does that is given the rows of
the table: it tells the same, fails in the same way and knows the same sockets afterwards. So the
size of the pieces in which the tables are read never shows. -/
theorem poll_eq_plainPoll (o : MonitorOptions) (past : List (Watchlist × Disk)) (w : Watchlist)
    (d : Disk) :
    let m := (ofOptions o).after past
    let read := o.rowsOf (m.loader.load d).2
    outcome (m.poll w d) = plainPoll o w m.tracker read.1 read.2 ∧
      ∀ chunkSize, (ofOptions { o with chunkSize }).reports past = (ofOptions o).reports past ∧
        ((ofOptions { o with chunkSize }).after past).tracker = m.tracker := by
  intro m read
  refine ⟨(((setUp_ofOptions o).after past).poll w d).2, ?_⟩
  intro chunkSize
  have halike : (ofOptions { o with chunkSize }).Alike (ofOptions o) := ⟨rfl, rfl, rfl⟩
  have hset : (ofOptions { o with chunkSize }).SetUp o := ⟨rfl, rfl, rfl, rfl, rfl⟩
  rcases halike.run hset (setUp_ofOptions o) past with ⟨hreports, hafter⟩
  exact ⟨hreports, hafter.tracker_eq⟩

end SocketMonitor

end QueueWatch
