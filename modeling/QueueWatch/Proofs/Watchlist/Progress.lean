import Mathlib.Data.List.Induction
import QueueWatch.Proofs.Watchlist.Publication

/-!
# Threads come to an end

A thread that has loaded the version that is in the cell publishes its change with its next step;
otherwise it loads the present version. So a thread is kept from publishing only by the publications
of others, of which there are as many as there are changes to make. If all threads have a turn, and
then all have another one, a change is published unless none is left (`SharedWatchlist.left_rounds`).
So twice as many rounds as there are changes are enough for every thread to finish
(`SharedWatchlist.finished_of_rounds`), whatever the order of the threads in a round, and whatever
happened before.
-/

namespace QueueWatch

namespace SharedWatchlist

/-- Whether every thread has made all of its changes. -/
def Finished (s : SharedWatchlist) : Prop :=
  ∀ t ∈ s.workers, t.todo = []

/-- How many changes are still to be made. -/
def left (s : SharedWatchlist) : Nat :=
  (s.workers.flatMap Worker.todo).length

/-- Whether a thread has nothing to do, or has loaded what is in the cell. -/
def Ready (c : Cell) (t : Worker) : Prop :=
  t.todo = [] ∨ ∃ w, t.phase = .loaded c.version w

variable {s s' : SharedWatchlist} {stepped : List Nat}

/-- A thread has nothing to do, or is not ready and loads the watchlist, or is done with a change. -/
theorem stepWorker_cases (c : Cell) (t : Worker) :
    (t.todo = [] ∧ stepWorker c t = (c, t)) ∨
      (¬Ready c t ∧ stepWorker c t = (c, { t with phase := .loaded c.version c.watchlist })) ∨
      (stepWorker c t).2.todo.length < t.todo.length := by
  rcases t with ⟨todo, phase, answers⟩
  cases todo with
  | nil => exact Or.inl ⟨rfl, rfl⟩
  | cons change rest =>
      right
      by_cases hreplace : ∃ next, change = .replace next
      · rcases hreplace with ⟨next, rfl⟩
        exact Or.inr (Nat.lt_succ_self _)
      · rw [not_exists] at hreplace
        cases phase with
        | idle =>
            refine Or.inl ⟨?_, stepWorker_of_idle hreplace c rest answers⟩
            rintro (h | ⟨w, h⟩) <;> cases h
        | loaded version w =>
            rw [stepWorker_of_loaded hreplace]
            by_cases hversion : version = c.version
            · rw [if_pos hversion]
              exact Or.inr (Nat.lt_succ_self _)
            · rw [if_neg hversion]
              refine Or.inl ⟨?_, rfl⟩
              rintro (h | ⟨w', h⟩)
              · cases h
              · cases h
                exact hversion rfl

theorem length_todo_set {workers : List Worker} {i : Nat} {t : Worker} (h : workers[i]? = some t)
    (t' : Worker) :
    ((workers.set i t').flatMap Worker.todo).length + t.todo.length =
      (workers.flatMap Worker.todo).length + t'.todo.length := by
  induction workers generalizing i with
  | nil => cases h
  | cons first rest ih =>
      cases i with
      | zero =>
          cases h
          simp only [List.set_cons_zero, List.flatMap_cons, List.length_append]
          omega
      | succ i =>
          have hrest := ih h
          simp only [List.set_cons_succ, List.flatMap_cons, List.length_append]
          omega

theorem step_of_some {i : Nat} {t : Worker} (h : s.workers[i]? = some t) :
    s.step i = ⟨(stepWorker s.cell t).1, s.workers.set i (stepWorker s.cell t).2⟩ := by
  rw [step, h]

theorem step_of_none {i : Nat} (h : s.workers[i]? = none) : s.step i = s := by
  rw [step, h]

theorem length_workers_step (s : SharedWatchlist) (i : Nat) :
    (s.step i).workers.length = s.workers.length := by
  cases h : s.workers[i]? with
  | none => rw [step_of_none h]
  | some t => rw [step_of_some h, List.length_set]

theorem length_workers_run (s : SharedWatchlist) (schedule : List Nat) :
    (s.run schedule).workers.length = s.workers.length := by
  induction schedule generalizing s with
  | nil => rfl
  | cons i schedule ih => exact (ih (s.step i)).trans (length_workers_step s i)

theorem left_step_of_some {i : Nat} {t : Worker} (h : s.workers[i]? = some t) :
    (s.step i).left + t.todo.length = s.left + (stepWorker s.cell t).2.todo.length := by
  rw [step_of_some h]
  exact length_todo_set h (stepWorker s.cell t).2

theorem left_step_le (s : SharedWatchlist) (i : Nat) : (s.step i).left ≤ s.left := by
  cases h : s.workers[i]? with
  | none => exact Nat.le_of_eq (congrArg left (step_of_none h))
  | some t =>
      have hsum := left_step_of_some h
      rcases stepWorker_cases s.cell t with ⟨_, hstep⟩ | ⟨_, hstep⟩ | hlt
      · rw [hstep] at hsum
        exact Nat.le_of_eq (Nat.add_right_cancel hsum)
      · rw [hstep] at hsum
        exact Nat.le_of_eq (Nat.add_right_cancel hsum)
      · omega

theorem left_run_le (s : SharedWatchlist) (schedule : List Nat) : (s.run schedule).left ≤ s.left := by
  induction schedule generalizing s with
  | nil => exact Nat.le_refl _
  | cons i schedule ih => exact Nat.le_trans (ih (s.step i)) (left_step_le s i)

theorem left_eq_zero_iff : s.left = 0 ↔ s.Finished := by
  rw [left, List.length_eq_zero_iff, List.flatMap_eq_nil_iff]
  rfl

theorem Finished.run (h : s.Finished) (schedule : List Nat) : (s.run schedule).Finished := by
  rw [← left_eq_zero_iff, ← Nat.le_zero]
  calc (s.run schedule).left ≤ s.left := left_run_le s schedule
    _ = 0 := left_eq_zero_iff.2 h

/-! ## Rounds without a publication -/

/-- Steps of threads that publish nothing: the cell and what the threads have to do stay as they
are. A thread that has had a turn is ready, and had nothing to do if it was ready before. -/
structure Idles (s s' : SharedWatchlist) (stepped : List Nat) : Prop where
  cell_eq : s'.cell = s.cell
  exists_worker : ∀ i t', s'.workers[i]? = some t' → ∃ t, s.workers[i]? = some t ∧
    t'.todo = t.todo ∧ (Ready s.cell t → Ready s.cell t') ∧
    (i ∈ stepped → Ready s.cell t' ∧ (Ready s.cell t → t.todo = []))

theorem idles_refl (s : SharedWatchlist) : Idles s s [] :=
  ⟨rfl, fun _ t ht => ⟨t, ht, rfl, id, fun h => absurd h List.not_mem_nil⟩⟩

/-- A thread has a turn and is ready afterwards, but publishes nothing. -/
theorem Idles.set (h : Idles s s' stepped) {i : Nat} {t t' : Worker}
    (hi : s'.workers[i]? = some t) (htodo : t'.todo = t.todo) (hready : Ready s.cell t')
    (hnone : Ready s.cell t → t.todo = []) :
    Idles s ⟨s'.cell, s'.workers.set i t'⟩ (stepped ++ [i]) := by
  refine ⟨h.cell_eq, ?_⟩
  intro j t'' ht''
  by_cases hj : i = j
  · rw [← hj] at ht'' ⊢
    rw [List.getElem?_set_self (List.getElem?_eq_some_iff.1 hi).1] at ht''
    cases ht''
    rcases h.exists_worker i t hi with ⟨first, hfirst, hsame, hkept, _⟩
    refine ⟨first, hfirst, htodo.trans hsame, fun _ => hready, fun _ => ⟨hready, ?_⟩⟩
    intro hbefore
    rw [← hsame]
    exact hnone (hkept hbefore)
  · rw [List.getElem?_set_ne hj] at ht''
    rcases h.exists_worker j t'' ht'' with ⟨first, hfirst, hsame, hkept, hstepped⟩
    refine ⟨first, hfirst, hsame, hkept, ?_⟩
    intro hmem
    rcases List.mem_append.1 hmem with hmem | hmem
    · exact hstepped hmem
    · exact absurd (List.mem_singleton.1 hmem).symm hj

/-- After steps that have published nothing, a step publishes a change or nothing either. -/
theorem Idles.step (h : Idles s s' stepped) (i : Nat) :
    (s'.step i).left < s'.left ∨ Idles s (s'.step i) (stepped ++ [i]) := by
  cases hi : s'.workers[i]? with
  | none =>
      right
      rw [step_of_none hi]
      refine ⟨h.cell_eq, ?_⟩
      intro j t ht
      have hj : j ≠ i := by
        rintro rfl
        cases hi.symm.trans ht
      simpa [hj] using h.exists_worker j t ht
  | some t =>
      rcases stepWorker_cases s'.cell t with ⟨hnone, hstep⟩ | ⟨hunready, hstep⟩ | hlt
      · rw [step_of_some hi, hstep]
        exact Or.inr (h.set hi rfl (Or.inl hnone) fun _ => hnone)
      · have hready : Ready s.cell { t with phase := .loaded s'.cell.version s'.cell.watchlist } :=
          Or.inr ⟨s'.cell.watchlist, congrArg (Phase.loaded ·.version s'.cell.watchlist) h.cell_eq⟩
        rw [h.cell_eq] at hunready
        rw [step_of_some hi, hstep]
        exact Or.inr (h.set hi rfl hready fun hbefore => absurd hbefore hunready)
      · left
        have hsum := left_step_of_some hi
        omega

/-- Any steps publish a change or idle. -/
theorem left_run_lt_or_idles (s : SharedWatchlist) (schedule : List Nat) :
    (s.run schedule).left < s.left ∨ Idles s (s.run schedule) schedule := by
  induction schedule using List.reverseRecOn with
  | nil => exact Or.inr (idles_refl s)
  | append_singleton schedule i ih =>
      rw [run_append]
      rcases ih with hlt | hidles
      · exact Or.inl (Nat.lt_of_le_of_lt (left_step_le _ i) hlt)
      · rcases hidles.step i with hlt | hidles
        · exact Or.inl (Nat.lt_of_lt_of_le hlt (left_run_le s schedule))
        · exact Or.inr hidles

/-! ## Rounds in which every thread has a turn -/

/-- Whether every thread has a turn in a round. -/
def Fair (s : SharedWatchlist) (round : List Nat) : Prop :=
  ∀ i < s.workers.length, i ∈ round

theorem Fair.run {round : List Nat} (h : s.Fair round) (schedule : List Nat) :
    (s.run schedule).Fair round := by
  intro i hi
  rw [length_workers_run] at hi
  exact h i hi

/-- In two rounds a change is published, or the threads are done: what has idled in both was ready
in the second one. -/
theorem left_rounds {first second : List Nat} (hfirst : s.Fair first) (hsecond : s.Fair second) :
    (s.run (first ++ second)).left < s.left ∨ (s.run (first ++ second)).Finished := by
  rw [run_append]
  rcases left_run_lt_or_idles s first with hlt | hidles
  · exact Or.inl (Nat.lt_of_le_of_lt (left_run_le _ second) hlt)
  · rcases left_run_lt_or_idles (s.run first) second with hlt | hidles'
    · exact Or.inl (Nat.lt_of_lt_of_le hlt (left_run_le s first))
    · right
      intro t ht
      rcases List.mem_iff_getElem?.1 ht with ⟨i, hi⟩
      rcases hidles'.exists_worker i t hi with ⟨t', ht', htodo, _, hstepped⟩
      rcases hidles.exists_worker i t' ht' with ⟨t'', ht'', _, _, hready⟩
      have hlt : i < s.workers.length := (List.getElem?_eq_some_iff.1 ht'').1
      have hready' := (hready (hfirst i hlt)).1
      rw [← hidles.cell_eq] at hready'
      rw [htodo]
      exact (hstepped (hsecond i hlt)).2 hready'

/-- Twice as many rounds as there are changes to make are enough. -/
theorem finished_of_rounds {k : Nat} {rounds : List (List Nat)}
    (hfair : ∀ round ∈ rounds, s.Fair round) (hleft : s.left ≤ k) (hlength : 2 * k ≤ rounds.length) :
    (s.run rounds.flatten).Finished := by
  induction k generalizing s rounds with
  | zero => exact (left_eq_zero_iff.1 (Nat.le_zero.1 hleft)).run _
  | succ k ih =>
      rcases rounds with _ | ⟨first, _ | ⟨second, rest⟩⟩
      · cases hlength
      · rw [List.length_singleton] at hlength
        omega
      · rw [List.forall_mem_cons, List.forall_mem_cons] at hfair
        rcases hfair with ⟨hfirst, hsecond, hrest⟩
        rw [List.flatten_cons, List.flatten_cons, ← List.append_assoc, run_append]
        rcases left_rounds hfirst hsecond with hlt | hfinished
        · apply ih
          · exact fun round hround => (hrest round hround).run _
          · omega
          · simp only [List.length_cons] at hlength
            omega
        · exact hfinished.run _

theorem left_start (w : Watchlist) (tasks : List (List Change)) :
    (start w tasks).left = tasks.flatten.length := by
  rw [left, start, List.flatMap_map]
  exact congrArg List.length List.flatMap_id'

/-- Whatever threads have done before, when they take turns they finish. -/
theorem finished_turns (w : Watchlist) (tasks : List (List Change)) (schedule : List Nat) :
    ((start w tasks).run (schedule ++ turns tasks)).Finished := by
  rw [run_append]
  apply finished_of_rounds (k := tasks.flatten.length)
  · intro round hround i hi
    rw [List.eq_of_mem_replicate hround, List.mem_range]
    rw [length_workers_run, start, List.length_map] at hi
    exact hi
  · calc ((start w tasks).run schedule).left ≤ (start w tasks).left := left_run_le _ schedule
      _ = tasks.flatten.length := left_start w tasks
  · rw [List.length_replicate]
    exact Nat.le_succ _

end SharedWatchlist

end QueueWatch
