import QueueWatch.Proofs.Monitor.Repetition
import QueueWatch.Proofs.Watchlist.Threads

/-!
# Which address is reported

Every registration holds the endpoint of its own identifier. So a socket is matched with an endpoint
of its own address, by whichever of its identifiers; and since a tracker knows a socket by its
address, the endpoint that it keeps has that address as long as it tracks the socket. What is
announced or reported of a socket is therefore the address in its rows, whatever has been registered
or withdrawn in the meantime (`Poll.namesRow_of_mem_run`).

Registrations that only add up can be made in any order and by any threads, since the endpoint does
not depend on who made the registration (`addresses_are_bound`).
-/

namespace QueueWatch

/-- Whether a row is one of a poll, and belongs to a registration. -/
def Poll.Matches (p : Poll) (row : SocketRow) : Prop :=
  row ∈ p.rows ∧ row.Matched p.watchlist

/-- Whether an event of a poll names the socket in a row that belongs to a registration, with
the address, the port and the inode in that row. The row is one of the poll, from which the values
come too if they are reported; for a socket that has stopped it is one of a poll before. -/
def SocketEvent.NamesRow (past : List Poll) (p : Poll) : SocketEvent → Prop
  | .started n => ∃ row, p.Matches row ∧ n = row.name
  | .updated u => ∃ row, p.Matches row ∧ u = row.update
  | .stopped n => ∃ q ∈ past, ∃ row, q.Matches row ∧ n = row.name

namespace SocketRow

theorem mem_news {row : SocketRow} {last : Option Sample} {e : SocketEvent}
    (he : e ∈ row.news last) : e = .started row.name ∨ e = .updated row.update := by
  cases last with
  | none => simpa [news] using he
  | some last =>
      rw [news] at he
      split at he
      · cases he
      · exact Or.inr (List.mem_singleton.1 he)

end SocketRow

namespace Tracker

variable {t : Tracker}

/-- What is said of rows names one of them. -/
theorem Sampled.exists_row_of_mem_watch (h : t.Sampled) {requests : List Request}
    {rows : List SocketRow} {e : SocketEvent}
    (he : e ∈ (t.watch (.after requests) rows).2) :
    ∃ row ∈ rows, row.Matched (.after requests) ∧
      (e = .started row.name ∨ e = .updated row.update) := by
  induction rows using List.reverseRecOn with
  | nil => cases he
  | append_singleton rows row ih =>
      rw [watch_concat, List.mem_append] at he
      rcases he with he | he
      · rcases ih he with ⟨r, hr, hmatched, hsays⟩
        exact ⟨r, List.mem_append_left _ hr, hmatched, hsays⟩
      · rw [((h.watch requests rows).look requests row).2.2] at he
        split at he
        · next hmatched =>
            exact ⟨row, List.mem_append_right _ List.mem_cons_self, hmatched,
              SocketRow.mem_news he⟩
        · cases he

end Tracker

namespace Poll

/-- A socket that is tracked has been matched in one of the polls. -/
theorem exists_row_of_tracks (polls : List Poll) {n : SocketName}
    (h : (trackerAfter polls).Tracks n) : ∃ q ∈ polls, ∃ row, q.Matches row ∧ n = row.name := by
  induction polls using List.reverseRecOn with
  | nil =>
      rw [trackerAfter, List.foldl_nil, Tracker.Tracks, Tracker.find?_empty] at h
      cases h
  | append_singleton polls p ih =>
      have hseen := seen_watch polls p
      have hwatched : ((trackerAfter polls).watch p.watchlist p.rows).1.Tracks n := by
        rw [trackerAfter_concat] at h
        by_cases hcomplete : p.complete
        · rw [run_of_complete hcomplete, Tracker.tracks_iff] at h
          rcases h with ⟨s, hs⟩
          rw [hseen.valid.finishPoll.2, Option.filter_eq_some_iff] at hs
          exact Tracker.tracks_iff.2 ⟨s, hs.1⟩
        · rw [run_of_not_complete hcomplete] at h
          exact h
      rcases (hseen.tracks_iff n).1 hwatched with hbefore | hmatched
      · rcases ih hbefore with ⟨q, hq, hrow⟩
        exact ⟨q, List.mem_append_left _ hq, hrow⟩
      · rcases hmatched with ⟨row, hrow, hmatched, hname⟩
        exact ⟨p, List.mem_append_right _ List.mem_cons_self, row, ⟨hrow, hmatched⟩, hname.symm⟩

/-- What a poll tells names rows that it has matched, or sockets of polls before. -/
theorem namesRow_of_mem_run (polls : List Poll) (p : Poll) {e : SocketEvent}
    (he : e ∈ (p.run (trackerAfter polls)).2) : e.NamesRow polls p := by
  have hwatch : ∀ e ∈ ((trackerAfter polls).watch p.watchlist p.rows).2,
      e.NamesRow polls p := by
    intro e he
    rcases (sampled_trackerAfter polls).exists_row_of_mem_watch he with
      ⟨row, hrow, hmatched, rfl | rfl⟩
    · exact ⟨row, ⟨hrow, hmatched⟩, rfl⟩
    · exact ⟨row, ⟨hrow, hmatched⟩, rfl⟩
  by_cases hcomplete : p.complete
  · rw [run_of_complete hcomplete, List.mem_append] at he
    rcases he with he | he
    · exact hwatch e he
    · have hseen := seen_watch polls p
      have hsampled := (sampled_trackerAfter polls).watch p.requests p.rows
      rcases hsampled.finishPoll.2.2 e he with ⟨n, rfl⟩
      have hunmarked := (hseen.valid.stopped_mem_iff n).1 he
      have hnot : ¬MatchedIn p.watchlist p.rows n := fun hn => hseen.not_unmarked hn hunmarked
      rcases hunmarked with ⟨s, hs, _⟩
      rw [hseen.of_not_matchedIn n hnot] at hs
      exact exists_row_of_tracks polls (Tracker.tracks_iff.2 ⟨s, hs⟩)
  · rw [run_of_not_complete hcomplete] at he
    exact hwatch e he

end Poll

namespace SocketMonitor

/-- The polls that a monitor makes of its table. -/
def pollsOf (o : MonitorOptions) (m : SocketMonitor) : List (List Request × Disk) → List Poll
  | [] => []
  | (requests, d) :: rest =>
      pollOf o requests (m.loader.load d).2 :: pollsOf o (m.poll (.after requests) d).1 rest

theorem pollsOf_concat (o : MonitorOptions) (m : SocketMonitor)
    (past : List (List Request × Disk)) (p : List Request × Disk) :
    pollsOf o m (past ++ [p]) =
      pollsOf o m past ++ [pollOf o p.1 ((m.after (requested past)).loader.load p.2).2] := by
  induction past generalizing m with
  | nil => rfl
  | cons first past ih =>
      rw [List.cons_append, pollsOf, ih, pollsOf, List.cons_append]
      rfl

theorem tracker_after (o : MonitorOptions) (past : List (List Request × Disk)) :
    ((ofOptions o).after (requested past)).tracker =
      Poll.trackerAfter (pollsOf o (ofOptions o) past) := by
  induction past using List.reverseRecOn with
  | nil => rfl
  | append_singleton past p ih =>
      have hrequested : requested (past ++ [p]) = requested past ++ [(.after p.1, p.2)] :=
        List.map_append
      rw [hrequested, after_concat, pollsOf_concat, Poll.trackerAfter_concat, ← ih]
      exact (((setUp_ofOptions o).after (requested past)).poll_eq_run p.1 p.2).1

theorem mem_of_mem_told {o : MonitorOptions} {events : List SocketEvent} {e : SocketEvent}
    (he : e ∈ o.told events) : e ∈ events := by
  unfold MonitorOptions.told at he
  split at he
  · exact he
  · exact (List.mem_filter.1 he).1

/-- What a monitor reports names rows of its table. -/
theorem namesRow_of_mem_events (o : MonitorOptions) (past : List (List Request × Disk))
    (requests : List Request) (d : Disk) {e : SocketEvent} :
    let m := (ofOptions o).after (requested past)
    e ∈ (m.poll (.after requests) d).2.events →
      e.NamesRow (pollsOf o (ofOptions o) past) (pollOf o requests (m.loader.load d).2) := by
  intro m he
  rw [(((setUp_ofOptions o).after (requested past)).poll_eq_run requests d).2,
    tracker_after] at he
  exact Poll.namesRow_of_mem_run _ _ (mem_of_mem_told he)

end SocketMonitor

/-- After any requests every identifier is registered with its own endpoint. A request with a spec
for an IPv6 address is refused, and no other; if it is refused, it changes nothing. Registrations can
be made in any order, and threads can share them in any way and make them at any pace: when they have
finished, which they can at any time, the specs are registered. While threads make requests, the
watchlist is what some of these make of it. Replacing all registrations is registering on an empty
watchlist. And whatever has been registered during the polls so far, every event of the next one
names the socket in a row that was matched, with the address in that row; this holds for polls of a
tracker, and for those of a monitor with the rows of its table. -/
theorem addresses_are_bound (past : List Request) :
    let w := Watchlist.after past
    (∀ (id : SocketId) (e : Endpoint), w[id]? = some e → e = id.endpoint) ∧
    (∀ r, ((∃ e, w.reply r = .error e) ↔ ∃ spec ∈ r.specs, ∃ address, spec.host = .v6 address) ∧
      ((∃ e, w.reply r = .error e) → w.answer r = w)) ∧
    (∀ specs specs' : List SocketSpec, specs.Perm specs' →
      w.registerAll specs = w.registerAll specs') ∧
    (∀ (specs : List SocketSpec) (lists : List (List SocketSpec)) (schedule : List Nat),
      specs.Perm lists.flatten →
      let s := SharedWatchlist.start w (SharedWatchlist.tasksOf (SharedWatchlist.registrations lists))
      ((s.run schedule).Finished → (s.run schedule).cell.watchlist = w.registerAll specs) ∧
        ∃ more, (s.run (schedule ++ more)).Finished) ∧
    (∀ (requests : List (List Request)) (schedule : List Nat), ∃ made ⊆ requests.flatten,
      ((SharedWatchlist.start w (SharedWatchlist.tasksOf requests)).run schedule).cell.watchlist =
        .after (past ++ made)) ∧
    (∀ specs : List SocketSpec, (∀ spec ∈ specs, ∃ address, spec.host = .v4 address) →
      Watchlist.ofSpecs specs = .ok (.after (specs.map .register))) ∧
    (∀ (polls : List Poll) (p : Poll), ∀ e ∈ (p.run (Poll.trackerAfter polls)).2,
      e.NamesRow polls p) ∧
    (∀ (o : MonitorOptions) (polled : List (List Request × Disk)) (requests : List Request)
      (d : Disk),
      let m := (SocketMonitor.ofOptions o).after (SocketMonitor.requested polled)
      ∀ e ∈ (m.poll (.after requests) d).2.events,
        e.NamesRow (SocketMonitor.pollsOf o (.ofOptions o) polled)
          (SocketMonitor.pollOf o requests (m.loader.load d).2)) := by
  intro w
  refine ⟨?_, ?_, ?_, ?_, ?_, ?_, ?_, ?_⟩
  · intro id e he
    exact ((Watchlist.lists_after past id e).1 he).1
  · intro r
    refine ⟨Watchlist.exists_reply_error_iff, ?_⟩
    intro hx
    rcases hx with ⟨e, he⟩
    exact Watchlist.answer_of_reply_error he
  · intro specs specs' hperm
    exact Watchlist.registerAll_perm w hperm
  · intro specs lists schedule hperm s
    constructor
    · intro hfinished
      rw [Watchlist.registerAll_perm w hperm]
      exact SharedWatchlist.watchlist_of_finished hfinished
    · exact ⟨_, SharedWatchlist.finished_turns w _ schedule⟩
  · intro requests schedule
    exact SharedWatchlist.exists_requests past requests schedule
  · intro specs hv4
    apply Watchlist.ofSpecs_of_ok
    intro spec hspec
    rcases hv4 spec hspec with ⟨address, haddress⟩
    exact SocketSpec.exists_id_of_v4 haddress
  · intro polls p e he
    exact Poll.namesRow_of_mem_run polls p he
  · intro o polled requests d m e he
    exact SocketMonitor.namesRow_of_mem_events o polled requests d he

namespace Poll

/-- A spec for every port of the loopback address. -/
def loopbackHostSpec : SocketSpec :=
  { loopbackSpec with port := none }

/-- A spec that is refused. -/
def refusedSpec : SocketSpec :=
  ⟨.v6 ⟨.replicate 8 0⟩, some 80, none⟩

/-- A socket is matched by its address alone, and then that registration is replaced by one for its
port; when it is gone it is announced with the address in its row. Two threads register both specs
while one of them is refused another one, and it is as if all are registered by one thread. -/
theorem addresses_are_bound_replaced :
    let matched : Poll := ⟨[.register loopbackHostSpec], [loopbackRow], true⟩
    let replaced : Poll :=
      ⟨[.register loopbackHostSpec, .replaceAll [loopbackSpec]], [loopbackRow], true⟩
    let gone : Poll := ⟨[.register loopbackHostSpec, .replaceAll [loopbackSpec]], [], true⟩
    let lists := [[loopbackSpec], [refusedSpec, loopbackHostSpec]]
    .stopped loopbackRow.name ∈ (gone.run (trackerAfter [matched, replaced])).2 ∧
      (SocketEvent.stopped loopbackRow.name).NamesRow [matched, replaced] gone ∧
      SharedWatchlist.runAll ∅ (SharedWatchlist.tasksOf (SharedWatchlist.registrations lists)) =
        Watchlist.registerAll ∅ [loopbackHostSpec, refusedSpec, loopbackSpec] := by
  intro matched replaced gone lists
  rcases addresses_are_bound [] with ⟨_, _, _, hthreads, _, _, hevents, _⟩
  have hstopped :
      .stopped loopbackRow.name ∈ (gone.run (trackerAfter [matched, replaced])).2 := by
    decide +kernel
  have hperm : [loopbackHostSpec, refusedSpec, loopbackSpec].Perm lists.flatten := by
    decide
  have hnone : Watchlist.after [] = ∅ := rfl
  rw [hnone] at hthreads
  have hfinished := SharedWatchlist.finished_turns ∅
    (SharedWatchlist.tasksOf (SharedWatchlist.registrations lists)) []
  rw [List.nil_append] at hfinished
  exact ⟨hstopped, hevents [matched, replaced] gone _ hstopped,
    (hthreads _ lists _ hperm).1 hfinished⟩

end Poll

end QueueWatch
