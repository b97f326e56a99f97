import QueueWatch.Proofs.Monitor.Updates
import QueueWatch.Proofs.Monitor.WholeTable

/-!
# Polling a table that has not changed

A second poll of the same rows with the same registrations announces nothing. It also reports
nothing if no socket has two rows with different values (`Steady`), and only then: a tracker keeps
the values in one row of a socket, so of two rows that differ each is taken for a change, in every
poll (`SocketMonitor.repeated_poll`). The kernel lists sockets without an owner with inode 0, so
that a table can have such rows; `SocketMonitor.not_silent_orphans` is one.
-/

namespace QueueWatch

/-- Whether the rows of each socket, as far as they match, have the same values. -/
def Steady (w : Watchlist) (rows : List SocketRow) : Prop :=
  ∀ r ∈ rows, ∀ r' ∈ rows, r.Matched w → r'.Matched w → r.name = r'.name → r.sample = r'.sample

instance (w : Watchlist) (rows : List SocketRow) : Decidable (Steady w rows) :=
  inferInstanceAs (Decidable (∀ r ∈ rows, ∀ r' ∈ rows, _))

namespace Tracker

variable {t : Tracker} {requests : List Request} {rows : List SocketRow}

/-- Whether every row that matches has the values that its socket had last. -/
def Settled (w : Watchlist) (t : Tracker) (rows : List SocketRow) : Prop :=
  ∀ row ∈ rows, row.Matched w → t.last? row.name = some row.sample

theorem settled_concat {w : Watchlist} {row : SocketRow} :
    t.Settled w (rows ++ [row]) ↔
      t.Settled w rows ∧ (row.Matched w → t.last? row.name = some row.sample) := by
  unfold Settled
  rw [List.forall_mem_append, List.forall_mem_singleton]

theorem Sampled.last?_watch_of_settled (h : t.Sampled) (hrows : t.Settled (.after requests) rows)
    (n : SocketName) : (t.watch (.after requests) rows).1.last? n = t.last? n := by
  induction rows using List.reverseRecOn with
  | nil => rfl
  | append_singleton rows row ih =>
      rcases settled_concat.1 hrows with ⟨hbefore, hrow⟩
      rw [watch_concat, ((h.watch requests rows).look requests row).2.1, ih hbefore]
      split
      · next hn => rw [← hn.2, hrow hn.1]
      · rfl

/-- Looks at rows say nothing just if the tracker is settled with them. -/
theorem Sampled.watch_eq_nil_iff (h : t.Sampled) (requests : List Request)
    (rows : List SocketRow) :
    (t.watch (.after requests) rows).2 = [] ↔ t.Settled (.after requests) rows := by
  induction rows using List.reverseRecOn with
  | nil =>
      rw [watch_nil]
      exact ⟨fun _ row hrow => absurd hrow List.not_mem_nil, fun _ => rfl⟩
  | append_singleton rows row ih =>
      rw [watch_concat, List.append_eq_nil_iff, ih, settled_concat]
      apply and_congr_right
      intro hbefore
      rw [((h.watch requests rows).look requests row).2.2, h.last?_watch_of_settled hbefore]
      by_cases hrow : row.Matched (.after requests)
      · rw [if_pos hrow, SocketRow.news_eq_nil_iff]
        exact ⟨fun hlast _ => hlast, fun hlast => hlast hrow⟩
      · rw [if_neg hrow]
        exact ⟨fun _ hmatched => absurd hmatched hrow, fun _ => rfl⟩

/-- The last values of a socket are those in one of its rows. -/
theorem Sampled.exists_row (h : t.Sampled) {n : SocketName}
    (hn : MatchedIn (.after requests) rows n) :
    ∃ row ∈ rows, row.Matched (.after requests) ∧ row.name = n ∧
      (t.watch (.after requests) rows).1.last? n = some row.sample := by
  induction rows using List.reverseRecOn with
  | nil => exact absurd hn (matchedIn_nil _ n)
  | append_singleton rows row ih =>
      rw [watch_concat]
      have hlast := ((h.watch requests rows).look requests row).2.1 n
      by_cases hrow : row.Matched (.after requests) ∧ row.name = n
      · rw [if_pos hrow] at hlast
        exact ⟨row, List.mem_append_right _ List.mem_cons_self, hrow.1, hrow.2, hlast⟩
      · rw [if_neg hrow] at hlast
        rcases ih ((matchedIn_concat.1 hn).resolve_right hrow) with ⟨r, hr, hmatched, hname, hr'⟩
        exact ⟨r, List.mem_append_left _ hr, hmatched, hname, hlast.trans hr'⟩

end Tracker

namespace Poll

variable {polls : List Poll} {p : Poll}

/-- After a complete poll the last values of a socket are those in one of its rows. -/
theorem exists_row_run (polls : List Poll) (hcomplete : p.complete) {n : SocketName}
    (hn : MatchedIn p.watchlist p.rows n) :
    ∃ row ∈ p.rows, row.Matched p.watchlist ∧ row.name = n ∧
      (p.run (trackerAfter polls)).1.last? n = some row.sample := by
  have hsampled := sampled_trackerAfter polls
  have hseen := (trackerAfter_valid_aged polls).1.seen p.requests p.rows
  rcases hsampled.exists_row hn with ⟨row, hrow, hmatched, hname, hlast⟩
  refine ⟨row, hrow, hmatched, hname, ?_⟩
  have hkept : .stopped n ∉
      ((trackerAfter polls).watch (.after p.requests) p.rows).1.finishPoll.2 := by
    rw [hseen.valid.stopped_mem_iff]
    exact hseen.not_unmarked hn
  rw [run_of_complete hcomplete]
  refine ((hsampled.watch p.requests p.rows).finishPoll.2.1 n).trans ?_
  rw [if_neg hkept]
  exact hlast

/-- A tracker that has just seen all rows is settled with them if they are steady. -/
theorem settled_run_iff (polls : List Poll) (hcomplete : p.complete) :
    (p.run (trackerAfter polls)).1.Settled p.watchlist p.rows ↔ Steady p.watchlist p.rows := by
  constructor
  · intro h r hr r' hr' hmatched hmatched' hname
    have hlast := h r hr hmatched
    rw [hname, h r' hr' hmatched'] at hlast
    exact (Option.some.inj hlast).symm
  · intro h r hr hmatched
    rcases exists_row_run polls hcomplete ⟨r, hr, hmatched, rfl⟩ with
      ⟨r', hr', hmatched', hname, hlast⟩
    rw [hlast, h r' hr' r hr hmatched' hmatched hname]

/-- A complete poll that is made a second time. It announces nothing, and reports nothing just if
the rows are steady. -/
theorem run_again (h : abandonedLast polls < 2 ^ 64 - 1) (hcomplete : p.complete) :
    (∀ e ∈ (p.run (p.run (trackerAfter polls)).1).2, e.isLifecycle = false) ∧
      ((p.run (p.run (trackerAfter polls)).1).2 = [] ↔ Steady p.watchlist p.rows) := by
  have htracks : ∀ n, (trackerAfter (polls ++ [p])).Tracks n ↔ MatchedIn p.watchlist p.rows n := by
    intro n
    rw [trackerAfter_concat, run_of_complete hcomplete]
    exact tracks_finishPoll_iff h rfl n
  have hnone : abandonedLast (polls ++ [p]) < 2 ^ 64 - 1 := by
    rw [abandonedLast_concat, if_pos hcomplete]
    decide
  have hseen := seen_watch (polls ++ [p]) p
  have hsampled := sampled_trackerAfter (polls ++ [p])
  have hsettled := settled_run_iff polls hcomplete
  rw [← trackerAfter_concat] at hsettled ⊢
  have hquiet : ∀ e ∈ (p.run (trackerAfter (polls ++ [p]))).2, e.isLifecycle = false := by
    intro e he
    cases e with
    | started n =>
        have hcount := count_started_run (polls ++ [p]) p n
        rw [if_neg fun hn => hn.2 ((htracks n).2 hn.1)] at hcount
        exact absurd he (List.count_eq_zero.1 hcount)
    | updated u => rfl
    | stopped n =>
        have hcount := count_stopped_run_of_complete hnone hcomplete n
        have hnow := hseen.tracks_iff n
        rw [htracks, or_self] at hnow
        rw [if_neg fun hn => hn.2 (hnow.1 hn.1)] at hcount
        exact absurd he (List.count_eq_zero.1 hcount)
  refine ⟨hquiet, ?_⟩
  have hend : ((trackerAfter (polls ++ [p])).watch p.watchlist p.rows).1.finishPoll.2 = [] := by
    apply List.eq_nil_iff_forall_not_mem.2
    intro e he
    rcases (hsampled.watch p.requests p.rows).finishPoll.2.2 e he with ⟨n, rfl⟩
    have hmem : .stopped n ∈ (p.run (trackerAfter (polls ++ [p]))).2 := by
      rw [run_of_complete hcomplete]
      exact List.mem_append_right _ he
    exact Bool.noConfusion (hquiet _ hmem)
  rw [run_of_complete hcomplete, hend, List.append_nil]
  exact (hsampled.watch_eq_nil_iff p.requests p.rows).trans hsettled

end Poll

/-! ## Monitors -/

namespace SocketMonitor

variable {o : MonitorOptions} {m : SocketMonitor}

/-- Polls whose watchlists are due to requests. -/
def requested (polls : List (List Request × Disk)) : List (Watchlist × Disk) :=
  polls.map fun p => (.after p.1, p.2)

/-- How many polls have failed since the last one that did not. -/
def failedLast (reports : List PollReport) : Nat :=
  (reports.reverse.takeWhile fun r => r.error.isSome).length

theorem failedLast_concat (reports : List PollReport) (r : PollReport) :
    failedLast (reports ++ [r]) = if r.error.isSome then failedLast reports + 1 else 0 := by
  unfold failedLast
  rw [List.reverse_append]
  cases h : r.error <;> simp [h]

theorem after_concat (m : SocketMonitor) (polls : List (Watchlist × Disk)) (p : Watchlist × Disk) :
    m.after (polls ++ [p]) = ((m.after polls).poll p.1 p.2).1 := by
  rw [after, List.foldl_append]
  rfl

theorem reports_concat (m : SocketMonitor) (polls : List (Watchlist × Disk))
    (p : Watchlist × Disk) :
    m.reports (polls ++ [p]) = m.reports polls ++ [((m.after polls).poll p.1 p.2).2] := by
  induction polls generalizing m with
  | nil => rfl
  | cons first rest ih =>
      rw [List.cons_append, reports, ih, reports, List.cons_append]
      rfl

theorem plainPoll_eq_run (o : MonitorOptions) (requests : List Request) (t : Tracker)
    (rows : List SocketRow) (error : Option PollError) :
    plainPoll o (.after requests) t rows error =
      ((Poll.run ⟨requests, rows, error.isNone⟩ t).1,
        ⟨o.told (Poll.run ⟨requests, rows, error.isNone⟩ t).2, error⟩) := by
  cases error <;> rfl

/-- The poll of a tracker that comes of the contents of a table. -/
def pollOf (o : MonitorOptions) (requests : List Request)
    (contents : Except LoadError (List UInt8)) : Poll where
  requests := requests
  rows := (o.rowsOf contents).1
  complete := (o.rowsOf contents).2.isNone

theorem SetUp.poll_eq_run (h : m.SetUp o) (requests : List Request) (d : Disk) :
    let p := pollOf o requests (m.loader.load d).2
    (m.poll (.after requests) d).1.tracker = (p.run m.tracker).1 ∧
      (m.poll (.after requests) d).2 =
        ⟨o.told (p.run m.tracker).2, (o.rowsOf (m.loader.load d).2).2⟩ := by
  intro p
  have houtcome := (h.poll (.after requests) d).2
  rw [plainPoll_eq_run] at houtcome
  exact Prod.mk.inj houtcome

theorem told_append (o : MonitorOptions) (events more : List SocketEvent) :
    o.told (events ++ more) = o.told events ++ o.told more := by
  unfold MonitorOptions.told
  split
  · rfl
  · exact List.filter_append ..

/-- What a monitor knows and tells comes of some polls of a tracker, of which those that failed were
abandoned. -/
theorem exists_polls_told (o : MonitorOptions) (past : List (List Request × Disk)) :
    ∃ polls : List Poll,
      ((ofOptions o).after (requested past)).tracker = Poll.trackerAfter polls ∧
        Poll.abandonedLast polls = failedLast ((ofOptions o).reports (requested past)) ∧
        ((ofOptions o).reports (requested past)).flatMap PollReport.events =
          o.told (Poll.told polls) := by
  induction past using List.reverseRecOn with
  | nil =>
      refine ⟨[], rfl, rfl, ?_⟩
      exact (ite_self []).symm
  | append_singleton past p ih =>
      rcases ih with ⟨polls, htracker, habandoned, htold⟩
      have hset := (setUp_ofOptions o).after (requested past)
      rcases hset.poll_eq_run p.1 p.2 with ⟨hnext, hreport⟩
      have hrequested : requested (past ++ [p]) = requested past ++ [(.after p.1, p.2)] :=
        List.map_append
      rw [hrequested, after_concat, reports_concat]
      refine ⟨polls ++ [pollOf o p.1 (((ofOptions o).after (requested past)).loader.load p.2).2],
        ?_, ?_, ?_⟩
      · rw [Poll.trackerAfter_concat, ← htracker]
        exact hnext
      · rw [Poll.abandonedLast_concat, failedLast_concat, hreport, habandoned, pollOf]
        cases (o.rowsOf _).2 <;> rfl
      · rw [List.flatMap_append, List.flatMap_singleton, hreport, htold, Poll.told_concat,
          told_append, htracker]

/-- The tracker of a monitor is that of some polls, of which those that failed were abandoned. -/
theorem exists_polls (o : MonitorOptions) (past : List (List Request × Disk)) :
    ∃ polls : List Poll,
      ((ofOptions o).after (requested past)).tracker = Poll.trackerAfter polls ∧
        Poll.abandonedLast polls = failedLast ((ofOptions o).reports (requested past)) := by
  rcases exists_polls_told o past with ⟨polls, htracker, habandoned, _⟩
  exact ⟨polls, htracker, habandoned⟩

theorem told_of_no_lifecycle {events : List SocketEvent}
    (h : ∀ e ∈ events, e.isLifecycle = false) : o.told events = events := by
  unfold MonitorOptions.told
  split
  · rfl
  · rw [List.filter_eq_self]
    intro e he
    rw [h e he]
    rfl

/-- Two polls of a table with the same contents and the same registrations, the first of which has
read it all. The second one succeeds as well and announces nothing. It reports nothing just if the
rows of each socket agree. -/
theorem repeated_poll (o : MonitorOptions) (past : List (List Request × Disk))
    (requests : List Request) (d d' : Disk) :
    let m := (ofOptions o).after (requested past)
    let first := m.poll (.after requests) d
    let second := first.1.poll (.after requests) d'
    failedLast ((ofOptions o).reports (requested past)) < 2 ^ 64 - 1 →
    first.2.error = none →
    (first.1.loader.load d').2 = (m.loader.load d).2 →
      second.2.error = none ∧ (∀ e ∈ second.2.events, e.isLifecycle = false) ∧
        (second.2.events = [] ↔ Steady (.after requests) (o.rowsOf (m.loader.load d).2).1) := by
  intro m first second hfailed hfirst hsame
  rcases exists_polls o past with ⟨polls, htracker, habandoned⟩
  rw [← habandoned] at hfailed
  have hset : m.SetUp o := (setUp_ofOptions o).after (requested past)
  rcases hset.poll_eq_run requests d with ⟨hnext, hreport⟩
  have hsecond := (hset.poll (.after requests) d).1.poll_eq_run requests d'
  have herror : (o.rowsOf (m.loader.load d).2).2 = none := by
    rw [← hfirst]
    exact (congrArg PollReport.error hreport).symm
  have hcomplete : (pollOf o requests (m.loader.load d).2).complete := by
    rw [pollOf, herror]
    rfl
  have hagain := Poll.run_again hfailed hcomplete
  rw [← htracker, ← hnext] at hagain
  have hreport' : second.2 =
      ⟨((pollOf o requests (m.loader.load d).2).run first.1.tracker).2, none⟩ := by
    have h := hsecond.2
    rw [hsame, told_of_no_lifecycle hagain.1, herror] at h
    exact h
  rw [hreport']
  exact ⟨rfl, hagain⟩

/-- A line about a connection that no process holds any more, with the given transmit queue. -/
def orphanLine (queue : String) : String :=
  "0: 0100007F:0050 - 4 " ++ queue ++ ":00000000 - - - - 0\n"

/-- A disk with a table of such connections. They all have the same endpoint, and inode 0. -/
def orphanDisk (queues : List String) : Disk :=
  Disk.empty.write Protocol.tcp.standardPath
    (Text.Utf8.encode (String.join (queues.map orphanLine)))

def orphanMonitor : SocketMonitor :=
  ofOptions { protocol := .tcp, announces := true }

/-- The first poll of these connections, with their endpoint registered. -/
def orphanPoll (queues : List String) : SocketMonitor × PollReport :=
  orphanMonitor.poll (.after [.register Poll.loopbackSpec]) (orphanDisk queues)

/-- What the second one reports. -/
def orphanAgain (queues : List String) : PollReport :=
  ((orphanPoll queues).1.poll (.after [.register Poll.loopbackSpec]) (orphanDisk queues)).2

theorem repeated_poll_orphans :
    (orphanPoll ["00000001", "00000001"]).2.error = none ∧
      (orphanAgain ["00000001", "00000001"]).events = [] := by
  have hfirst : (orphanPoll ["00000001", "00000001"]).2.error = none := by decide +kernel
  have hsame : ((orphanPoll ["00000001", "00000001"]).1.loader.load
      (orphanDisk ["00000001", "00000001"])).2 =
        (orphanMonitor.loader.load (orphanDisk ["00000001", "00000001"])).2 := by decide +kernel
  have hrepeated := repeated_poll { protocol := .tcp, announces := true } []
    [.register Poll.loopbackSpec] (orphanDisk ["00000001", "00000001"])
    (orphanDisk ["00000001", "00000001"]) (by decide) hfirst hsame
  exact ⟨hfirst, hrepeated.2.2.2 (by decide +kernel)⟩

/-- What such a line says. -/
def orphanRow (queue : UInt64) : SocketRow :=
  ⟨.ofEndpoint ⟨.ofOctets 127 0 0 1, 80⟩, queue, 0, 0, none⟩

/-- Two of them with different queues are both reported again in the second poll. -/
theorem not_silent_orphans :
    (orphanPoll ["00000001", "00000002"]).2.error = none ∧
      (orphanAgain ["00000001", "00000002"]).error = none ∧
      (orphanAgain ["00000001", "00000002"]).events =
        [.updated (orphanRow 1).update, .updated (orphanRow 2).update] := by
  decide +kernel

end SocketMonitor

end QueueWatch
