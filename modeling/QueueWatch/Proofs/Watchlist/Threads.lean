import QueueWatch.Proofs.Watchlist.Progress
import QueueWatch.Proofs.Watchlist.Registration

/-!
# Requests of several threads

A request asks for a change of the shared watchlist, or for none if it is refused. What threads make
of the watchlist with their requests is what some order of these makes of it
(`SharedWatchlist.exists_requests`), so nothing is true of watchlists after requests that is not
true of them while threads make requests.

If the threads only register specs it does not even matter which thread registers which, and in
which order it does: when all have finished, the specs of all are registered
(`SharedWatchlist.watchlist_of_finished`).
-/

namespace QueueWatch

/-- The change that a request asks for, unless it is refused. -/
def Request.change? : Request → Option Change
  | .register spec => (Watchlist.entry spec).toOption.map .add
  | .unregister spec => spec.id.toOption.map .withdraw
  | .replaceAll specs => (Watchlist.ofSpecs specs).toOption.map .replace

theorem Request.change?_register_eq_some_iff {spec : SocketSpec} {change : Change} :
    (Request.register spec).change? = some change ↔
      ∃ id, spec.id = .ok id ∧ change = .add (id, id.endpoint) := by
  rw [change?, Watchlist.entry_eq_map]
  cases spec.id with
  | error e => simp [Except.map, Except.toOption]
  | ok id => simp [Except.map, Except.toOption, eq_comm]

namespace Watchlist

variable {r : Request} {change : Change}

theorem answer_of_change? (h : r.change? = some change) (w : Watchlist) :
    w.answer r = change.effect w := by
  cases r with
  | register spec =>
      rcases Request.change?_register_eq_some_iff.1 h with ⟨id, hid, rfl⟩
      exact answer_register_of_ok hid
  | unregister spec =>
      rw [Request.change?] at h
      rw [answer, unregister]
      cases hid : spec.id with
      | error e =>
          rw [hid] at h
          cases h
      | ok id =>
          rw [hid] at h
          cases h
          rfl
  | replaceAll specs =>
      rw [Request.change?] at h
      rw [answer]
      cases hnext : ofSpecs specs with
      | error e =>
          rw [hnext] at h
          cases h
      | ok next =>
          rw [hnext] at h
          cases h
          rfl

end Watchlist

namespace SharedWatchlist

variable {w : Watchlist} {tasks : List (List Change)} {schedule : List Nat}

/-- What threads have to do to make their requests. -/
def tasksOf (requests : List (List Request)) : List (List Change) :=
  requests.map fun rs => rs.filterMap Request.change?

theorem exists_task_iff {requests : List (List Request)} {change : Change} :
    (∃ task ∈ tasksOf requests, change ∈ task) ↔
      ∃ r ∈ requests.flatten, r.change? = some change := by
  constructor
  · intro hx
    rcases hx with ⟨task, htask, hchange⟩
    rcases List.mem_map.1 htask with ⟨rs, hrs, rfl⟩
    rcases List.mem_filterMap.1 hchange with ⟨r, hr, heq⟩
    exact ⟨r, List.mem_flatten.2 ⟨rs, hrs, hr⟩, heq⟩
  · intro hx
    rcases hx with ⟨r, hr, heq⟩
    rcases List.mem_flatten.1 hr with ⟨rs, hrs, hmem⟩
    exact ⟨_, List.mem_map.2 ⟨rs, hrs, rfl⟩, List.mem_filterMap.2 ⟨r, hmem, heq⟩⟩

/-! ## What is published -/

theorem thread_of_published? {s : SharedWatchlist} {thread : Nat} {p : Publication}
    (hp : s.published? thread = some p) : p.thread = thread ∧ thread < s.workers.length := by
  rw [published?] at hp
  cases ht : s.workers[thread]? with
  | none =>
      rw [ht] at hp
      cases hp
  | some t =>
      rw [ht] at hp
      refine ⟨?_, (List.getElem?_eq_some_iff.1 ht).1⟩
      dsimp only at hp
      split at hp
      · rcases Option.map_eq_some_iff.1 hp with ⟨change, _, rfl⟩
        rfl
      · cases hp

theorem lt_of_mem_publications {s : SharedWatchlist} {p : Publication}
    (hp : p ∈ s.publications schedule) : p.thread < s.workers.length := by
  induction schedule generalizing s with
  | nil => cases hp
  | cons thread rest ih =>
      rw [publications, List.mem_append, Option.mem_toList] at hp
      rcases hp with hp | hp
      · rcases thread_of_published? hp with ⟨hthread, hlt⟩
        rw [hthread]
        exact hlt
      · rw [← length_workers_step s thread]
        exact ih hp

/-- What is published is a change of a thread. -/
theorem exists_task_of_publication {p : Publication}
    (hp : p ∈ (start w tasks).publications schedule) : ∃ task ∈ tasks, p.change ∈ task := by
  have hlt := lt_of_mem_publications hp
  rw [start, List.length_map] at hlt
  have htask : tasks[p.thread]? = some tasks[p.thread] := List.getElem?_eq_getElem hlt
  have h := consistent_run w tasks schedule
  have hworker := List.getElem?_eq_getElem (h.length_eq ▸ hlt)
  have habides := h.abides p.thread _ _ hworker htask
  refine ⟨tasks[p.thread], List.getElem_mem hlt, ?_⟩
  rw [← habides.task_eq]
  apply List.mem_append_left
  exact List.mem_map_of_mem (List.mem_filter.2 ⟨hp, decide_eq_true rfl⟩)

/-- When threads have finished, all of their changes are published. -/
theorem exists_publication (h : ((start w tasks).run schedule).Finished) {task : List Change}
    (htask : task ∈ tasks) {change : Change} (hchange : change ∈ task) :
    ∃ p ∈ (start w tasks).publications schedule, p.change = change := by
  rcases List.mem_iff_getElem?.1 htask with ⟨thread, hthread⟩
  have hrun := consistent_run w tasks schedule
  have hlt : thread < ((start w tasks).run schedule).workers.length := by
    rw [hrun.length_eq]
    exact (List.getElem?_eq_some_iff.1 hthread).1
  have habides := hrun.abides thread _ task (List.getElem?_eq_getElem hlt) hthread
  rw [← habides.task_eq, h _ (List.getElem_mem hlt), List.append_nil] at hchange
  rcases List.mem_map.1 hchange with ⟨p, hp, heq⟩
  exact ⟨p, (List.mem_filter.1 hp).1, heq⟩

/-! ## What comes of it -/

theorem exists_requests_outcome {log : List Publication} {requests : List Request}
    (h : ∀ p ∈ log, ∃ r ∈ requests, r.change? = some p.change) (w : Watchlist) :
    ∃ made : List Request, made ⊆ requests ∧
      Publication.outcome w log = made.foldl Watchlist.answer w := by
  induction log generalizing w with
  | nil => exact ⟨[], List.nil_subset _, rfl⟩
  | cons p log ih =>
      rw [List.forall_mem_cons] at h
      rcases h.1 with ⟨r, hr, heq⟩
      rcases ih h.2 (p.change.effect w) with ⟨made, hmade, houtcome⟩
      refine ⟨r :: made, List.cons_subset.2 ⟨hr, hmade⟩, ?_⟩
      rw [List.foldl_cons, Watchlist.answer_of_change? heq]
      exact houtcome

/-- Whenever one looks while threads make requests, some of the requests have been made, one after
the other. -/
theorem exists_requests (past : List Request) (requests : List (List Request))
    (schedule : List Nat) :
    ∃ made : List Request, made ⊆ requests.flatten ∧
      ((start (.after past) (tasksOf requests)).run schedule).cell.watchlist =
        .after (past ++ made) := by
  have hrequest : ∀ p ∈ (start (.after past) (tasksOf requests)).publications schedule,
      ∃ r ∈ requests.flatten, r.change? = some p.change := by
    intro p hp
    exact exists_task_iff.1 (exists_task_of_publication hp)
  rcases exists_requests_outcome hrequest (.after past) with ⟨made, hmade, houtcome⟩
  refine ⟨made, hmade, ?_⟩
  rw [(consistent_run ..).watchlist_eq, houtcome, Watchlist.after, Watchlist.after,
    List.foldl_append]

/-- When threads have finished, what is published is what they have asked for. -/
theorem exists_publication_iff {requests : List (List Request)}
    (h : ((start w (tasksOf requests)).run schedule).Finished) {change : Change} :
    (∃ p ∈ (start w (tasksOf requests)).publications schedule, p.change = change) ↔
      ∃ r ∈ requests.flatten, r.change? = some change := by
  rw [← exists_task_iff]
  constructor
  · intro hx
    rcases hx with ⟨p, hp, rfl⟩
    exact exists_task_of_publication hp
  · intro hx
    rcases hx with ⟨task, htask, hchange⟩
    exact exists_publication h htask hchange

/-- The requests of threads that register specs. -/
def registrations (lists : List (List SocketSpec)) : List (List Request) :=
  lists.map fun specs => specs.map .register

theorem exists_registration_iff {lists : List (List SocketSpec)} {change : Change} :
    (∃ r ∈ (registrations lists).flatten, r.change? = some change) ↔
      ∃ id ∈ Watchlist.ids lists.flatten, change = .add (id, id.endpoint) := by
  have hflatten : (registrations lists).flatten = lists.flatten.map .register :=
    (List.map_flatten ..).symm
  rw [hflatten]
  constructor
  · intro hx
    rcases hx with ⟨r, hr, heq⟩
    rcases List.mem_map.1 hr with ⟨spec, hspec, rfl⟩
    rcases Request.change?_register_eq_some_iff.1 heq with ⟨id, hid, hadd⟩
    exact ⟨id, Watchlist.mem_ids.2 ⟨spec, hspec, hid⟩, hadd⟩
  · intro hx
    rcases hx with ⟨id, hid, hadd⟩
    rcases Watchlist.mem_ids.1 hid with ⟨spec, hspec, hspecid⟩
    exact ⟨.register spec, List.mem_map_of_mem hspec,
      Request.change?_register_eq_some_iff.2 ⟨id, hspecid, hadd⟩⟩

/-- When threads that register specs have finished, the specs of all threads are registered. -/
theorem watchlist_of_finished {lists : List (List SocketSpec)}
    (h : ((start w (tasksOf (registrations lists))).run schedule).Finished) :
    ((start w (tasksOf (registrations lists))).run schedule).cell.watchlist =
      w.registerAll lists.flatten := by
  have hpublished : ∀ change,
      (∃ p ∈ (start w (tasksOf (registrations lists))).publications schedule, p.change = change) ↔
        ∃ id ∈ Watchlist.ids lists.flatten, change = .add (id, id.endpoint) :=
    fun change => (exists_publication_iff h).trans exists_registration_iff
  apply Std.ExtTreeMap.ext_getElem?
  intro id
  rw [(consistent_run ..).watchlist_eq, Publication.getElem?_outcome,
    Watchlist.getElem?_registerAll]
  -- the last publication about an identifier is a registration, if there is one
  cases hlast : List.findSome? (fun p : Publication => p.change.verdict? id) _ with
  | none =>
      rw [List.findSome?_eq_none_iff] at hlast
      have hid : id ∉ Watchlist.ids lists.flatten := by
        intro hid
        rcases (hpublished _).2 ⟨id, hid, rfl⟩ with ⟨p, hp, heq⟩
        have hverdict := hlast p (List.mem_reverse.2 hp)
        rw [heq, Change.verdict?, if_pos rfl] at hverdict
        cases hverdict
      rw [if_neg hid, Option.getD_none]
  | some found =>
      rcases List.exists_of_findSome?_eq_some hlast with ⟨p, hp, hverdict⟩
      rcases (hpublished _).1 ⟨p, List.mem_reverse.1 hp, rfl⟩ with ⟨i, hi, hadd⟩
      rw [hadd, Change.verdict?, Option.ite_none_right_eq_some] at hverdict
      rcases hverdict with ⟨rfl, hfound⟩
      rw [if_pos hi, ← Option.some.inj hfound, Option.getD_some]

end SharedWatchlist

end QueueWatch
