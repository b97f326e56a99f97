import Mathlib.Data.List.Induction
import QueueWatch.Watchlist.Shared

/-!
# Changes to a shared watchlist take effect one after the other

Threads load the watchlist, compute the next one and put it into the cell unless someone else was
faster. A change is published in the step in which its thread is done with it; the publications of a
run, in the order of these steps, are its log (`SharedWatchlist.publications`). However the threads
take turns, the cell holds what the log makes of the first watchlist if its changes are made one
after the other, and every thread gets the answers of these (`SharedWatchlist.linearizable`).

The reason is the version of the cell: a thread that has loaded the version that is still there has
loaded the watchlist that is still there (`SharedWatchlist.Loaded`), so what it publishes is its
change of the present watchlist. If someone else was faster, it has only a watchlist that was there
at some time.
-/

namespace QueueWatch

/-- What a change makes of a watchlist that no one else changes. -/
def Change.effect (w : Watchlist) : Change → Watchlist
  | .add entry => w.insert entry.1 entry.2
  | .withdraw id => w.erase id
  | .replace next => next

/-- What whoever asks for a change of such a watchlist is told: that an identifier was not
registered before, or that it was. -/
def Change.answer (w : Watchlist) : Change → Bool
  | .add entry => !w.contains entry.1
  | .withdraw id => w.contains id
  | .replace _ => true

/-- What a change says about an identifier, if it is about it: the endpoint that is registered from
then on, if any. -/
def Change.verdict? (id : SocketId) : Change → Option (Option Endpoint)
  | .add entry => if entry.1 = id then some (some entry.2) else none
  | .withdraw id' => if id' = id then some none else none
  | .replace next => some next[id]?

/-- A change is about the identifiers with a verdict, and leaves the others alone. -/
theorem Change.getElem?_effect (change : Change) (w : Watchlist) (id : SocketId) :
    (change.effect w)[id]? = (change.verdict? id).getD w[id]? := by
  cases change with
  | add entry =>
      simp only [effect, verdict?, Std.ExtTreeMap.getElem?_insert, Std.compare_eq_iff_eq]
      split <;> rfl
  | withdraw id' =>
      simp only [effect, verdict?, Std.ExtTreeMap.getElem?_erase, Std.compare_eq_iff_eq]
      split <;> rfl
  | replace next => rfl

theorem Change.effect_of_keeps {change : Change} {w : Watchlist} (h : change.keeps w) :
    change.effect w = w := by
  cases change with
  | add entry => cases h
  | withdraw id =>
      apply Std.ExtTreeMap.ext_getElem?
      intro i
      have hid : w[id]? = none := Std.ExtTreeMap.getElem?_eq_none_of_contains_eq_false (by
        simpa [keeps] using h)
      rw [effect, Std.ExtTreeMap.getElem?_erase]
      split
      · next heq => rw [← Std.compare_eq_iff_eq.1 heq, hid]
      · rfl
  | replace next => cases h

/-- A change that has taken effect, and the thread that asked for it. -/
structure Publication where
  thread : Nat
  change : Change

namespace Publication

/-- What publications make of a watchlist, one after the other. -/
def outcome (w : Watchlist) (log : List Publication) : Watchlist :=
  log.foldl (fun w p => p.change.effect w) w

/-- What a thread is told while publications are made one after the other. -/
def answers (thread : Nat) (w : Watchlist) : List Publication → List Bool
  | [] => []
  | p :: rest =>
      (if p.thread = thread then [p.change.answer w] else []) ++
        answers thread (p.change.effect w) rest

/-- The changes of a thread. -/
def changes (thread : Nat) (log : List Publication) : List Change :=
  (log.filter fun p => p.thread = thread).map Publication.change

variable {w : Watchlist} {thread : Nat} {log : List Publication} {p : Publication}

theorem outcome_concat (w : Watchlist) (log : List Publication) (p : Publication) :
    outcome w (log ++ [p]) = p.change.effect (outcome w log) := by
  rw [outcome, List.foldl_append]
  rfl

theorem answers_concat (thread : Nat) (w : Watchlist) (log : List Publication) (p : Publication) :
    answers thread w (log ++ [p]) =
      answers thread w log ++
        if p.thread = thread then [p.change.answer (outcome w log)] else [] := by
  induction log generalizing w with
  | nil => exact List.append_nil _
  | cons q log ih => rw [List.cons_append, answers, ih, answers, List.append_assoc]; rfl

theorem changes_concat (thread : Nat) (log : List Publication) (p : Publication) :
    changes thread (log ++ [p]) =
      changes thread log ++ if p.thread = thread then [p.change] else [] := by
  rw [changes, List.filter_append, List.map_append]
  by_cases h : p.thread = thread <;> simp [h, changes]

/-- The last publication about an identifier decides whether, and for what, it is registered. -/
theorem getElem?_outcome (w : Watchlist) (log : List Publication) (id : SocketId) :
    (outcome w log)[id]? =
      (log.reverse.findSome? fun p => p.change.verdict? id).getD w[id]? := by
  induction log using List.reverseRecOn with
  | nil => rfl
  | append_singleton log p ih =>
      rw [outcome_concat, Change.getElem?_effect, ih, List.reverse_append, List.reverse_singleton,
        List.singleton_append, List.findSome?_cons]
      cases p.change.verdict? id <;> rfl

end Publication

namespace SharedWatchlist

variable {c c' : Cell} {t : Worker} {w : Watchlist} {log : List Publication}

/-- What a thread publishes with its next step: the change that it is done with then. -/
def published? (s : SharedWatchlist) (thread : Nat) : Option Publication :=
  match s.workers[thread]? with
  | none => none
  | some t =>
      if (stepWorker s.cell t).2.todo.length < t.todo.length then
        t.todo.head?.map (Publication.mk thread)
      else none

/-- The publications of a run, one after the other. -/
def publications (s : SharedWatchlist) : List Nat → List Publication
  | [] => []
  | thread :: rest => (s.published? thread).toList ++ (s.step thread).publications rest

theorem run_append (s : SharedWatchlist) (first rest : List Nat) :
    s.run (first ++ rest) = (s.run first).run rest :=
  List.foldl_append

theorem publications_append (s : SharedWatchlist) (first rest : List Nat) :
    s.publications (first ++ rest) = s.publications first ++ (s.run first).publications rest := by
  induction first generalizing s with
  | nil => rfl
  | cons thread first ih =>
      rw [List.cons_append, publications, ih, publications, List.append_assoc]
      rfl

theorem publications_singleton (s : SharedWatchlist) (thread : Nat) :
    s.publications [thread] = (s.published? thread).toList :=
  List.append_nil _

/-! ## One step of a thread -/

/-- What a thread has loaded is the watchlist in the cell if the version is the one in the cell, and
in any case one that was there after some of the publications. -/
structure Loaded (w : Watchlist) (c : Cell) (log : List Publication) (t : Worker) : Prop where
  version_le : ∀ version loaded, t.phase = .loaded version loaded → version ≤ c.version
  eq_of_version : ∀ loaded, t.phase = .loaded c.version loaded → loaded = c.watchlist
  exists_outcome : ∀ version loaded, t.phase = .loaded version loaded →
    ∃ earlier, earlier <+: log ∧ loaded = Publication.outcome w earlier

theorem loaded_of_idle (h : t.phase = .idle) : Loaded w c log t := by
  refine ⟨?_, ?_, ?_⟩ <;> intros <;> simp_all

theorem loaded_load (h : c.watchlist = Publication.outcome w log) :
    Loaded w c log { t with phase := .loaded c.version c.watchlist } := by
  refine ⟨?_, ?_, ?_⟩
  · intro version loaded hphase
    cases hphase
    exact Nat.le_refl _
  · intro loaded hphase
    cases hphase
    rfl
  · intro version loaded hphase
    cases hphase
    exact ⟨log, List.prefix_refl log, h⟩

/-- What another thread publishes does not disturb a thread. -/
theorem Loaded.publish (h : Loaded w c log t) (p : Publication)
    (hcell : c' = c ∨ c'.version = c.version + 1) : Loaded w c' (log ++ [p]) t := by
  have hexists : ∀ version loaded, t.phase = .loaded version loaded →
      ∃ earlier, earlier <+: log ++ [p] ∧ loaded = Publication.outcome w earlier := by
    intro version loaded hphase
    rcases h.exists_outcome version loaded hphase with ⟨earlier, hearlier, hloaded⟩
    exact ⟨earlier, hearlier.trans (List.prefix_append log [p]), hloaded⟩
  rcases hcell with rfl | hversion
  · exact ⟨h.version_le, h.eq_of_version, hexists⟩
  · refine ⟨?_, ?_, hexists⟩
    · intro version loaded hphase
      have hle := h.version_le version loaded hphase
      omega
    · intro loaded hphase
      have hle := h.version_le c'.version loaded hphase
      omega

/-- How a thread publishes a change: the cell gets another version, unless the change leaves the
watchlist as it is. -/
structure Publishes (c : Cell) (t : Worker) (change : Change) (rest : List Change)
    (next : Cell × Worker) : Prop where
  todo_eq : t.todo = change :: rest
  worker_eq : next.2 = { todo := rest, answers := t.answers ++ [change.answer c.watchlist] }
  watchlist_eq : next.1.watchlist = change.effect c.watchlist
  cell_eq : next.1 = c ∨ next.1.version = c.version + 1

theorem stepWorker_of_idle {change : Change} (h : ∀ next, change ≠ .replace next) (c : Cell)
    (rest : List Change) (answers : List Bool) :
    stepWorker c ⟨change :: rest, .idle, answers⟩ =
      (c, ⟨change :: rest, .loaded c.version c.watchlist, answers⟩) := by
  cases change with
  | add entry => rfl
  | withdraw id => rfl
  | replace next => exact absurd rfl (h next)

theorem stepWorker_of_loaded {change : Change} (h : ∀ next, change ≠ .replace next) (c : Cell)
    (rest : List Change) (version : Nat) (w : Watchlist) (answers : List Bool) :
    stepWorker c ⟨change :: rest, .loaded version w, answers⟩ =
      if version = c.version then
        (if change.keeps w then c else c.publish (change.effect w),
          ⟨rest, .idle, answers ++ [change.answer w]⟩)
      else (c, ⟨change :: rest, .loaded c.version c.watchlist, answers⟩) := by
  cases change with
  | add entry => rfl
  | withdraw id => rfl
  | replace next => exact absurd rfl (h next)

/-- A thread does nothing more, or loads the watchlist, or publishes its next change. -/
theorem Loaded.stepWorker_cases (h : Loaded w c log t) :
    stepWorker c t = (c, t) ∨
      stepWorker c t = (c, { t with phase := .loaded c.version c.watchlist }) ∨
      ∃ change rest, Publishes c t change rest (stepWorker c t) := by
  rcases t with ⟨todo, phase, answers⟩
  cases todo with
  | nil => exact Or.inl rfl
  | cons change rest =>
      right
      by_cases hreplace : ∃ next, change = .replace next
      · rcases hreplace with ⟨next, rfl⟩
        exact Or.inr ⟨.replace next, rest, rfl, rfl, rfl, Or.inr rfl⟩
      · rw [not_exists] at hreplace
        cases phase with
        | idle => exact Or.inl (stepWorker_of_idle hreplace c rest answers)
        | loaded version loaded =>
            rw [stepWorker_of_loaded hreplace]
            by_cases hversion : version = c.version
            · have hloaded : loaded = c.watchlist := h.eq_of_version loaded (hversion ▸ rfl)
              rw [if_pos hversion, hloaded]
              refine Or.inr ⟨change, rest, ?_⟩
              by_cases hkeeps : change.keeps c.watchlist
              · rw [if_pos hkeeps]
                exact ⟨rfl, rfl, (Change.effect_of_keeps hkeeps).symm, Or.inl rfl⟩
              · rw [if_neg hkeeps]
                exact ⟨rfl, rfl, rfl, Or.inr rfl⟩
            · rw [if_neg hversion]
              exact Or.inl rfl

/-! ## Runs -/

/-- A thread has published the first of its changes, has been told what their publication says, and
has still the others to do. -/
structure Abides (w : Watchlist) (log : List Publication) (thread : Nat) (task : List Change)
    (t : Worker) : Prop where
  task_eq : Publication.changes thread log ++ t.todo = task
  answers_eq : t.answers = Publication.answers thread w log

theorem Abides.publish_other {thread : Nat} {task : List Change}
    (h : Abides w log thread task t) {p : Publication} (hp : p.thread ≠ thread) :
    Abides w (log ++ [p]) thread task t := by
  refine ⟨?_, ?_⟩
  · rw [Publication.changes_concat, if_neg hp, List.append_nil]
    exact h.task_eq
  · rw [Publication.answers_concat, if_neg hp, List.append_nil]
    exact h.answers_eq

theorem Abides.publish {thread : Nat} {task : List Change} (h : Abides w log thread task t)
    (hc : c.watchlist = Publication.outcome w log) {change : Change} {rest : List Change}
    {next : Cell × Worker} (hnext : Publishes c t change rest next) :
    Abides w (log ++ [⟨thread, change⟩]) thread task next.2 := by
  rw [hnext.worker_eq]
  refine ⟨?_, ?_⟩
  · rw [Publication.changes_concat, if_pos rfl, List.append_assoc, List.singleton_append,
      ← hnext.todo_eq]
    exact h.task_eq
  · rw [Publication.answers_concat, if_pos rfl, ← h.answers_eq, ← hc]

/-- The threads and the cell are where the publications have brought them. -/
structure Consistent (w : Watchlist) (tasks : List (List Change)) (log : List Publication)
    (s : SharedWatchlist) : Prop where
  watchlist_eq : s.cell.watchlist = Publication.outcome w log
  length_eq : s.workers.length = tasks.length
  abides : ∀ (thread : Nat) (t : Worker) (task : List Change), s.workers[thread]? = some t →
    tasks[thread]? = some task → Abides w log thread task t
  loaded : ∀ t ∈ s.workers, Loaded w s.cell log t

variable {tasks : List (List Change)} {s : SharedWatchlist}

theorem consistent_start (w : Watchlist) (tasks : List (List Change)) :
    Consistent w tasks [] (start w tasks) := by
  refine ⟨rfl, List.length_map .., ?_, ?_⟩
  · intro thread t task ht htask
    rw [start, List.getElem?_map, htask] at ht
    cases ht
    exact ⟨rfl, rfl⟩
  · intro t ht
    rcases List.mem_map.1 ht with ⟨todo, _, rfl⟩
    exact loaded_of_idle rfl

/-- A step of one thread, where the others stay as they are. -/
theorem Consistent.set (h : Consistent w tasks log s) {thread : Nat} {log' : List Publication}
    (hwatchlist : c'.watchlist = Publication.outcome w log')
    (habides : ∀ task, tasks[thread]? = some task → Abides w log' thread task t)
    (hloaded : Loaded w c' log' t)
    (hothers : ∀ other t task, thread ≠ other → Abides w log other task t →
      Abides w log' other task t)
    (hkept : ∀ t, Loaded w s.cell log t → Loaded w c' log' t) :
    Consistent w tasks log' ⟨c', s.workers.set thread t⟩ := by
  refine ⟨hwatchlist, List.length_set.trans h.length_eq, ?_, ?_⟩
  · intro other t' task ht' htask
    by_cases hother : thread = other
    · rw [← hother] at ht' htask ⊢
      have hlt : thread < s.workers.length := by
        rw [h.length_eq]
        exact (List.getElem?_eq_some_iff.1 htask).1
      rw [List.getElem?_set_self hlt] at ht'
      cases ht'
      exact habides task htask
    · rw [List.getElem?_set_ne hother] at ht'
      exact hothers other t' task hother (h.abides other t' task ht' htask)
  · intro t' ht'
    rcases List.mem_or_eq_of_mem_set ht' with ht' | rfl
    · exact hkept t' (h.loaded t' ht')
    · exact hloaded

theorem Consistent.step (h : Consistent w tasks log s) (thread : Nat) :
    Consistent w tasks (log ++ (s.published? thread).toList) (s.step thread) := by
  cases ht : s.workers[thread]? with
  | none =>
      rw [published?, SharedWatchlist.step, ht]
      exact (List.append_nil log).symm ▸ h
  | some t =>
      have hloaded := h.loaded t (List.mem_of_getElem? ht)
      have hstep : s.step thread =
          ⟨(stepWorker s.cell t).1, s.workers.set thread (stepWorker s.cell t).2⟩ := by
        rw [SharedWatchlist.step, ht]
      have hpublished : s.published? thread =
          if (stepWorker s.cell t).2.todo.length < t.todo.length then
            t.todo.head?.map (Publication.mk thread) else none := by
        rw [published?, ht]
      rw [hstep, hpublished]
      rcases hloaded.stepWorker_cases with hidle | hload | ⟨change, rest, hnext⟩
      · rw [hidle, if_neg (Nat.lt_irrefl _), Option.toList_none, List.append_nil]
        exact h.set h.watchlist_eq (fun task htask => h.abides thread t task ht htask) hloaded
          (fun _ _ _ _ habides => habides) (fun _ hkept => hkept)
      · rw [hload, if_neg (Nat.lt_irrefl _), Option.toList_none, List.append_nil]
        apply h.set h.watchlist_eq _ (loaded_load h.watchlist_eq)
          (fun _ _ _ _ habides => habides) (fun _ hkept => hkept)
        intro task htask
        have habides := h.abides thread t task ht htask
        exact ⟨habides.task_eq, habides.answers_eq⟩
      · have hlt : (stepWorker s.cell t).2.todo.length < t.todo.length := by
          rw [hnext.worker_eq, hnext.todo_eq]
          exact Nat.lt_succ_self _
        rw [if_pos hlt, hnext.todo_eq, List.head?_cons, Option.map_some, Option.toList_some]
        apply h.set
        · rw [hnext.watchlist_eq, Publication.outcome_concat, h.watchlist_eq]
        · intro task htask
          exact (h.abides thread t task ht htask).publish h.watchlist_eq hnext
        · rw [hnext.worker_eq]
          exact loaded_of_idle rfl
        · intro other t' task hother habides
          exact habides.publish_other hother
        · intro t' hkept
          exact hkept.publish ⟨thread, change⟩ hnext.cell_eq

theorem consistent_run (w : Watchlist) (tasks : List (List Change)) (schedule : List Nat) :
    Consistent w tasks ((start w tasks).publications schedule) ((start w tasks).run schedule) := by
  induction schedule using List.reverseRecOn with
  | nil => exact consistent_start w tasks
  | append_singleton schedule thread ih =>
      rw [publications_append, run_append, publications_singleton]
      exact ih.step thread

/-- However threads take turns, the watchlist is what the publications of the run make of the first
one, made one after the other, and each thread is told what it would be told then. The last
publication about an identifier decides whether it is registered. Each thread has published the
first of its changes, each once and in its order, and has the others still to do. What anyone loads,
at whatever time, is what some of the publications, from the first one on, make of the watchlist;
and so is what a thread holds that has not published yet. -/
theorem linearizable (w : Watchlist) (tasks : List (List Change)) (schedule : List Nat) :
    let s := (start w tasks).run schedule
    let log := (start w tasks).publications schedule
    s.cell.watchlist = Publication.outcome w log ∧
    (∀ id : SocketId, s.cell.watchlist[id]? =
      (log.reverse.findSome? fun p => p.change.verdict? id).getD w[id]?) ∧
    (∀ (thread : Nat) (task : List Change), tasks[thread]? = some task →
      ∃ t, s.workers[thread]? = some t ∧ Publication.changes thread log ++ t.todo = task ∧
        t.answers = Publication.answers thread w log) ∧
    (∀ earlier, earlier <+: schedule → ∃ log', log' <+: log ∧
      ((start w tasks).run earlier).cell.watchlist = Publication.outcome w log') ∧
    (∀ t ∈ s.workers, ∀ version loaded, t.phase = .loaded version loaded →
      ∃ log', log' <+: log ∧ loaded = Publication.outcome w log') := by
  intro s log
  have h : Consistent w tasks log s := consistent_run w tasks schedule
  refine ⟨h.watchlist_eq, ?_, ?_, ?_, ?_⟩
  · intro id
    rw [h.watchlist_eq]
    exact Publication.getElem?_outcome w log id
  · intro thread task htask
    have hlt : thread < s.workers.length := by
      rw [h.length_eq]
      exact (List.getElem?_eq_some_iff.1 htask).1
    have ht : s.workers[thread]? = some s.workers[thread] := List.getElem?_eq_getElem hlt
    have habides := h.abides thread _ task ht htask
    exact ⟨s.workers[thread], ht, habides.task_eq, habides.answers_eq⟩
  · intro earlier hearlier
    rcases hearlier with ⟨rest, hschedule⟩
    refine ⟨(start w tasks).publications earlier, ?_, (consistent_run w tasks earlier).watchlist_eq⟩
    have hlog : log = _ := congrArg (start w tasks).publications hschedule.symm
    rw [hlog, publications_append]
    exact List.prefix_append ..
  · intro t ht version loaded hphase
    exact (h.loaded t ht).exists_outcome version loaded hphase

/-- An endpoint as it is registered. -/
def loopbackEntry : SocketId × Endpoint :=
  (.ofEndpoint ⟨.ofOctets 127 0 0 1, 80⟩, ⟨.ofOctets 127 0 0 1, 80⟩)

/-- One thread registers it, and another one replaces everything and then withdraws it. -/
def loopbackTasks : List (List Change) :=
  [[.add loopbackEntry], [.replace ∅, .withdraw loopbackEntry.1]]

/-- The replacement falls between the first load and the first attempt of the other thread, which
then tries again; so the registration comes after it, and the withdrawal finds it. -/
theorem linearizable_overtaken :
    let s := (start ∅ loopbackTasks).run [0, 1, 0, 0, 1, 1]
    loopbackTasks[1]? = some [.replace ∅, .withdraw loopbackEntry.1] ∧
      s.cell.watchlist[loopbackEntry.1]? = none ∧
      ∃ t, s.workers[1]? = some t ∧ t.answers = [true, true] := by
  intro s
  have h := linearizable ∅ loopbackTasks [0, 1, 0, 0, 1, 1]
  rcases h.2.2.1 1 [.replace ∅, .withdraw loopbackEntry.1] rfl with ⟨t, ht, _, hanswers⟩
  refine ⟨rfl, ?_, t, ht, ?_⟩
  · rw [h.2.1]
    decide +kernel
  · rw [hanswers]
    decide +kernel

end SharedWatchlist

end QueueWatch
