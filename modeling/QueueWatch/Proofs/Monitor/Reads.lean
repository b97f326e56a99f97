import QueueWatch.Proofs.Monitor.Trace

/-!
# Polls by reads that are short or fail

The reads of a table may each bring less than there is room for, and one of them may fail after rows
have been looked at (`ReadPlan`). They bring the table from its start on, up to its end or to the
place where a read fails (`Loader.Brings`). A poll does what a poll does that is given the rows in
what they bring, whatever reads earlier polls made (`SocketMonitor.pollBy_eq_plainPoll`). If no read
fails, this is what a poll by full reads does, so that how much a read brings never shows
(`SocketMonitor.pollBy_eq_poll`).

So what a monitor tells by any reads is what a tracker tells in some polls, of which those are
abandoned whose reads or rows failed, and its trace is in order (`SocketMonitor.orderly_reads`).
-/

namespace QueueWatch

namespace Loader

/-- What reads bring of a table, and why they bring no more if there is more. -/
structure Brings (plan : ReadPlan) (path : String) (table bytes : List UInt8)
    (error : Option LoadError) : Prop where
  exists_left : ∃ left, table = bytes ++ left ∧ (error = none → left = [])
  error_eq : error = (plan.failure bytes.length).map (.reading path)

theorem brings_streamed (plan : ReadPlan) {size : Nat} (hsize : 0 < size) (path : String)
    (table : List UInt8) :
    let told := streamed plan size path (.ok table)
    Brings plan path table told.chunks.flatten told.error := by
  rcases chunksFrom_spec plan hsize table 0 with ⟨left, hleft, hfailure, hend⟩
  rw [Nat.zero_add] at hfailure
  exact ⟨⟨left, hleft, fun herror => hend (Option.map_eq_none_iff.1 herror)⟩,
    congrArg (Option.map (LoadError.reading path)) hfailure⟩

theorem Brings.eq_of_no_failure {plan : ReadPlan} {path : String} {table bytes : List UInt8}
    {error : Option LoadError} (h : Brings plan path table bytes error)
    (hplan : ∀ offset, plan.failure offset = none) : bytes = table ∧ error = none := by
  have herror : error = none := by
    rw [h.error_eq, hplan]
    rfl
  rcases h.exists_left with ⟨left, htable, hend⟩
  rw [hend herror, List.append_nil] at htable
  exact ⟨htable.symm, herror⟩

end Loader

namespace SocketMonitor

variable {o : MonitorOptions} {m : SocketMonitor}

/-- A monitor after polls, each with its reads, its watchlist and its disk. -/
def afterBy (m : SocketMonitor) (polls : List (ReadPlan × Watchlist × Disk)) : SocketMonitor :=
  polls.foldl (fun m p => (m.pollBy p.1 p.2.1 p.2.2).1) m

theorem SetUp.afterBy (h : m.SetUp o) (polls : List (ReadPlan × Watchlist × Disk)) :
    (m.afterBy polls).SetUp o := by
  induction polls generalizing m with
  | nil => exact h
  | cons p rest ih => exact ih (h.pollBy p.1 p.2.1 p.2.2).1

/-- A poll of a file that cannot be read from its start. -/
theorem SetUp.pollBy_of_load_error (h : m.SetUp o) (plan : ReadPlan) (w : Watchlist) {d : Disk}
    {cause : LoadError} (hload : (m.loader.load d).2 = .error cause) :
    outcome (m.pollBy plan w d) = plainPoll o w m.tracker [] (some (.load cause)) := by
  have hpoll := (h.pollBy plan w d).2
  rw [streamed_eq, hload, Loader.streamed, List.flatten_nil, MonitorOptions.rowsRead_nil] at hpoll
  exact hpoll

/-- A poll of a file that can be read from its start, though perhaps not to its end. -/
theorem SetUp.pollBy_of_load_ok (h : m.SetUp o) (plan : ReadPlan) (w : Watchlist) {d : Disk}
    {table : List UInt8} (hload : (m.loader.load d).2 = .ok table) :
    ∃ bytes error, Loader.Brings plan o.tablePath table bytes error ∧
      outcome (m.pollBy plan w d) =
        plainPoll o w m.tracker (o.rowsRead bytes error).1 (o.rowsRead bytes error).2 := by
  have hpoll := (h.pollBy plan w d).2
  have hbrings := Loader.brings_streamed plan m.loader.capacity_pos m.loader.path table
  rw [streamed_eq, hload] at hpoll
  rw [h.path_eq] at hbrings hpoll
  exact ⟨_, _, hbrings, hpoll⟩

/-- After any polls by any reads, a poll does what a poll does that is given the rows in what its
reads bring. If nothing can be read, it has no row. -/
theorem pollBy_eq_plainPoll (o : MonitorOptions) (past : List (ReadPlan × Watchlist × Disk))
    (plan : ReadPlan) (w : Watchlist) (d : Disk) :
    let m := (ofOptions o).afterBy past
    match (m.loader.load d).2 with
    | .error cause => outcome (m.pollBy plan w d) = plainPoll o w m.tracker [] (some (.load cause))
    | .ok table =>
        ∃ bytes error, Loader.Brings plan o.tablePath table bytes error ∧
          outcome (m.pollBy plan w d) =
            plainPoll o w m.tracker (o.rowsRead bytes error).1 (o.rowsRead bytes error).2 := by
  intro m
  have hset : m.SetUp o := (setUp_ofOptions o).afterBy past
  cases hload : (m.loader.load d).2 with
  | error cause => exact hset.pollBy_of_load_error plan w hload
  | ok table => exact hset.pollBy_of_load_ok plan w hload

/-- Reads that do not fail do not show, however little each of them brings. -/
theorem pollBy_eq_poll (o : MonitorOptions) (past : List (ReadPlan × Watchlist × Disk))
    {plan : ReadPlan} (hplan : ∀ offset, plan.failure offset = none) (w : Watchlist) (d : Disk) :
    let m := (ofOptions o).afterBy past
    outcome (m.pollBy plan w d) = outcome (m.poll w d) := by
  intro m
  have hset : m.SetUp o := (setUp_ofOptions o).afterBy past
  rw [(hset.poll w d).2]
  cases hload : (m.loader.load d).2 with
  | error cause => exact hset.pollBy_of_load_error plan w hload
  | ok table =>
      rcases hset.pollBy_of_load_ok plan w hload with ⟨bytes, error, hbrings, hpoll⟩
      rcases hbrings.eq_of_no_failure hplan with ⟨rfl, rfl⟩
      exact hpoll

/-! ## Traces -/

/-- What a monitor tells in polls by any reads, one after the other. -/
def eventsBy (m : SocketMonitor) : List (ReadPlan × Watchlist × Disk) → List SocketEvent
  | [] => []
  | p :: rest =>
      (m.pollBy p.1 p.2.1 p.2.2).2.events ++ (m.pollBy p.1 p.2.1 p.2.2).1.eventsBy rest

theorem afterBy_concat (m : SocketMonitor) (polls : List (ReadPlan × Watchlist × Disk))
    (p : ReadPlan × Watchlist × Disk) :
    m.afterBy (polls ++ [p]) = ((m.afterBy polls).pollBy p.1 p.2.1 p.2.2).1 := by
  rw [afterBy, List.foldl_append]
  rfl

theorem eventsBy_concat (m : SocketMonitor) (polls : List (ReadPlan × Watchlist × Disk))
    (p : ReadPlan × Watchlist × Disk) :
    m.eventsBy (polls ++ [p]) =
      m.eventsBy polls ++ ((m.afterBy polls).pollBy p.1 p.2.1 p.2.2).2.events := by
  induction polls generalizing m with
  | nil => exact List.append_nil _
  | cons first rest ih =>
      rw [List.cons_append, eventsBy, ih, eventsBy, List.append_assoc]
      rfl

/-- Polls by any reads whose watchlists are due to requests. -/
def requestedBy (polls : List (ReadPlan × List Request × Disk)) :
    List (ReadPlan × Watchlist × Disk) :=
  polls.map fun p => (p.1, .after p.2.1, p.2.2)

/-- A poll by any reads is one of the tracker, complete just if it has not failed. -/
theorem SetUp.pollBy_eq_run (h : m.SetUp o) (plan : ReadPlan) (requests : List Request) (d : Disk) :
    ∃ p : Poll, (m.pollBy plan (.after requests) d).1.tracker = (p.run m.tracker).1 ∧
      (m.pollBy plan (.after requests) d).2.events = o.told (p.run m.tracker).2 ∧
      p.complete = (m.pollBy plan (.after requests) d).2.error.isNone := by
  have houtcome := (h.pollBy plan (.after requests) d).2
  rw [plainPoll_eq_run] at houtcome
  rcases Prod.mk.inj houtcome with ⟨htracker, hreport⟩
  exact ⟨_, htracker, congrArg PollReport.events hreport,
    congrArg (fun report => report.error.isNone) hreport.symm⟩

/-- What a monitor knows and tells by any reads comes of some polls of a tracker. -/
theorem exists_polls_of_reads (o : MonitorOptions) (past : List (ReadPlan × List Request × Disk)) :
    ∃ polls : List Poll,
      ((ofOptions o).afterBy (requestedBy past)).tracker = Poll.trackerAfter polls ∧
        (ofOptions o).eventsBy (requestedBy past) = o.told (Poll.told polls) := by
  induction past using List.reverseRecOn with
  | nil => exact ⟨[], rfl, (ite_self []).symm⟩
  | append_singleton past p ih =>
      rcases ih with ⟨polls, htracker, htold⟩
      have hset := (setUp_ofOptions o).afterBy (requestedBy past)
      rcases hset.pollBy_eq_run p.1 p.2.1 p.2.2 with ⟨next, hnext, hevents, _⟩
      have hrequested : requestedBy (past ++ [p]) =
          requestedBy past ++ [(p.1, .after p.2.1, p.2.2)] := List.map_append
      rw [hrequested, afterBy_concat, eventsBy_concat]
      refine ⟨polls ++ [next], ?_, ?_⟩
      · rw [Poll.trackerAfter_concat, ← htracker]
        exact hnext
      · rw [hevents, htold, Poll.told_concat, told_append, htracker]

/-- The trace of a monitor by any reads is in order, and its size is the number of sockets that
stand open in the trace. -/
theorem orderly_reads (o : MonitorOptions) (past : List (ReadPlan × List Request × Disk)) :
    ∃ trace : Trace, (ofOptions o).eventsBy (requestedBy past) = o.told trace ∧ trace.Orderly ∧
      ((ofOptions o).afterBy (requestedBy past)).size = (Trace.openSockets trace).card := by
  rcases exists_polls_of_reads o past with ⟨polls, htracker, htold⟩
  have h := Poll.follows_trackerAfter polls
  refine ⟨Poll.told polls, htold, h.orderly, ?_⟩
  rw [size, htracker]
  exact h.size_eq

end SocketMonitor

end QueueWatch
