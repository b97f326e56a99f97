import Mathlib.Data.List.Chain
import QueueWatch.Proofs.Monitor.Samples
import QueueWatch.Proofs.Row.Reading

/-!
# Reports are changes

A run of polls is a row of moments (`Poll.history`): each is a look at a row or the end of a poll,
with what was said then. The life of a socket is what has happened since it was last announced as
started, up to its end (`since`). During a life the rows of the socket are reported that differ from
the row before, and the first one (`Poll.updates_are_changes`). So whoever listens to the reports
knows the values in the last row of every socket, and is never told the same values twice in a row.
-/

namespace QueueWatch

/-- A look at a row, or the end of a poll. -/
structure Moment where
  /-- The row, if it belongs to a registration. -/
  row : Option SocketRow
  /-- What was said. -/
  told : List SocketEvent

namespace Moment

variable {α : Type} {n : SocketName}

/-- What comes up in moments about a socket from its last start on, unless it has stopped since. -/
def since (n : SocketName) (collect : Moment → List α) (moments : List Moment) : List α :=
  moments.foldl
    (fun found m =>
      if .stopped n ∈ m.told then []
      else (if .started n ∈ m.told then [] else found) ++ collect m)
    []

/-- The row that was looked at, if it is about the socket. -/
def rowOf (n : SocketName) (m : Moment) : List SocketRow :=
  (m.row.filter (·.name = n)).toList

/-- The report of an event, if it is about the socket. -/
def updateOf? (n : SocketName) : SocketEvent → Option SocketUpdate
  | .updated u => if u.name = n then some u else none
  | .started _ | .stopped _ => none

def updatesOf (n : SocketName) (m : Moment) : List SocketUpdate :=
  m.told.filterMap (updateOf? n)

/-- The rows in the present life of a socket. -/
def life (n : SocketName) (moments : List Moment) : List SocketRow :=
  since n (rowOf n) moments

/-- The reports in the present life of a socket. -/
def updates (n : SocketName) (moments : List Moment) : List SocketUpdate :=
  since n (updatesOf n) moments

theorem since_of_stopped {collect : Moment → List α} {past : List Moment} {m : Moment}
    (h : .stopped n ∈ m.told) : since n collect (past ++ [m]) = [] := by
  rw [since, List.foldl_append, List.foldl_cons, List.foldl_nil, if_pos h]

theorem since_of_not_stopped {collect : Moment → List α} {past : List Moment} {m : Moment}
    (hstopped : .stopped n ∉ m.told) (hstarted : .started n ∈ m.told → since n collect past = []) :
    since n collect (past ++ [m]) = since n collect past ++ collect m := by
  have hstep : since n collect (past ++ [m]) =
      (if .started n ∈ m.told then [] else since n collect past) ++ collect m := by
    rw [since, List.foldl_append, List.foldl_cons, List.foldl_nil, if_neg hstopped, since]
  rw [hstep]
  split
  · next h => rw [hstarted h]
  · rfl

section

variable {told : List SocketEvent} (htold : ∀ e ∈ told, ∃ n, e = .stopped n)

include htold

/-- Where only stops are told, what has been collected of a socket is dropped if it is one of
them. -/
theorem since_stops {collect : Moment → List α} (hnone : collect ⟨none, told⟩ = [])
    (past : List Moment) :
    since n collect (past ++ [⟨none, told⟩]) =
      if .stopped n ∈ told then [] else since n collect past := by
  split
  · next hstopped => exact since_of_stopped hstopped
  · next hstopped =>
      rw [since_of_not_stopped hstopped, hnone, List.append_nil]
      intro hstarted
      rcases htold _ hstarted with ⟨n', hn'⟩
      cases hn'

theorem updatesOf_stops (n : SocketName) : updatesOf n ⟨none, told⟩ = [] := by
  rw [updatesOf, List.filterMap_eq_nil_iff]
  intro e he
  rcases htold e he with ⟨n', rfl⟩
  rfl

end

end Moment

namespace Tracker

variable {t t' : Tracker} {requests : List Request} {past : List Moment}

/-- The moment of a look at a row. -/
def moment (w : Watchlist) (t : Tracker) (row : SocketRow) : Moment where
  row := if row.Matched w then some row else none
  told := (t.look w row).2

/-- The moments of looks at rows, one after the other. -/
def moments (w : Watchlist) (t : Tracker) : List SocketRow → List Moment
  | [] => []
  | row :: rest => t.moment w row :: (t.look w row).1.moments w rest

theorem moments_concat (w : Watchlist) (t : Tracker) (rows : List SocketRow) (row : SocketRow) :
    t.moments w (rows ++ [row]) = t.moments w rows ++ [(watch w t rows).1.moment w row] := by
  induction rows generalizing t with
  | nil => rfl
  | cons first rows ih => rw [List.cons_append, moments, moments, ih, watch_cons, List.cons_append]

/-- The moments of looks say what the looks say. -/
theorem flatMap_told_moments (w : Watchlist) (t : Tracker) (rows : List SocketRow) :
    (t.moments w rows).flatMap Moment.told = (watch w t rows).2 := by
  induction rows generalizing t with
  | nil => rfl
  | cons row rows ih =>
      rw [moments, List.flatMap_cons, ih, watch_cons]
      rfl

/-! ## What a tracker knows of the past -/

/-- The tracker knows the values in the last row of every life, they are those that were reported
last, and no report repeats the one before. -/
structure InStep (t : Tracker) (past : List Moment) : Prop extends Sampled t where
  last_eq_life : ∀ n, t.last? n = (Moment.life n past).getLast?.map SocketRow.sample
  last_eq_updates : ∀ n, t.last? n = (Moment.updates n past).getLast?.map SocketUpdate.sample
  changing : ∀ n, (Moment.updates n past).IsChain fun u v => u.sample ≠ v.sample

theorem inStep_empty : InStep empty [] := by
  refine ⟨sampled_empty, ?_, ?_, ?_⟩
  · intro n
    rw [last?, find?_empty]
    rfl
  · intro n
    rw [last?, find?_empty]
    rfl
  · intro n
    exact List.isChain_nil

theorem InStep.life_eq_nil_iff (h : t.InStep past) (n : SocketName) :
    Moment.life n past = [] ↔ t.last? n = none := by
  rw [h.last_eq_life, Option.map_eq_none_iff, List.getLast?_eq_none_iff]

theorem InStep.updates_eq_nil_iff (h : t.InStep past) (n : SocketName) :
    Moment.updates n past = [] ↔ t.last? n = none := by
  rw [h.last_eq_updates, Option.map_eq_none_iff, List.getLast?_eq_none_iff]

/-! ## A look at a row -/

theorem filterMap_news (row : SocketRow) (last : Option Sample) (n : SocketName) :
    (row.news last).filterMap (Moment.updateOf? n) =
      if row.name = n ∧ last ≠ some row.sample then [row.update] else [] := by
  have hname : row.update.name = row.name := rfl
  cases last with
  | none =>
      by_cases hn : row.name = n <;>
        simp [SocketRow.news, List.filterMap_cons, Moment.updateOf?, hname, hn]
  | some last =>
      by_cases hlast : last = row.sample
      · simp [SocketRow.news, hlast]
      · by_cases hn : row.name = n <;>
          simp [SocketRow.news, Moment.updateOf?, hname, hn, hlast]

theorem InStep.told_moment (h : t.InStep past) (requests : List Request) (row : SocketRow) :
    (t.moment (.after requests) row).told =
      if row.Matched (.after requests) then row.news (t.last? row.name) else [] :=
  (h.look requests row).2.2

/-- Whatever is collected of a socket, a look at a row adds to it what comes up then: only a socket
about which nothing has come up can start. -/
theorem InStep.since_moment (h : t.InStep past) {α : Type} {collect : Moment → List α}
    {n : SocketName} (hnone : t.last? n = none → Moment.since n collect past = [])
    (requests : List Request) (row : SocketRow) :
    Moment.since n collect (past ++ [t.moment (.after requests) row]) =
      Moment.since n collect past ++ collect (t.moment (.after requests) row) := by
  apply Moment.since_of_not_stopped
  · rw [h.told_moment]
    split
    · exact row.stopped_not_mem_news _ n
    · exact List.not_mem_nil
  · rw [h.told_moment]
    split
    · intro hstarted
      rcases SocketRow.started_mem_news_iff.1 hstarted with ⟨rfl, hlast⟩
      exact hnone hlast
    · intro hstarted
      exact absurd hstarted List.not_mem_nil

theorem InStep.life_moment (h : t.InStep past) (requests : List Request) (row : SocketRow)
    (n : SocketName) :
    Moment.life n (past ++ [t.moment (.after requests) row]) =
      Moment.life n past ++
        if row.Matched (.after requests) ∧ row.name = n then [row] else [] := by
  rw [Moment.life, h.since_moment (h.life_eq_nil_iff n).2 requests row, Moment.rowOf, moment]
  congr 1
  by_cases hrow : row.Matched (.after requests)
  · by_cases hn : row.name = n <;> simp [hrow, hn]
  · simp [hrow]

theorem InStep.updates_moment (h : t.InStep past) (requests : List Request) (row : SocketRow)
    (n : SocketName) :
    Moment.updates n (past ++ [t.moment (.after requests) row]) =
      Moment.updates n past ++
        if row.Matched (.after requests) ∧ row.name = n ∧ t.last? n ≠ some row.sample then
          [row.update]
        else [] := by
  rw [Moment.updates, h.since_moment (h.updates_eq_nil_iff n).2 requests row, Moment.updatesOf,
    h.told_moment]
  congr 1
  by_cases hrow : row.Matched (.after requests)
  · rw [if_pos hrow, filterMap_news]
    by_cases hn : row.name = n
    · simp [hrow, hn]
    · simp [hn]
  · simp [hrow]

/-- A look at a row keeps the tracker in step with the past. -/
theorem InStep.look (h : t.InStep past) (requests : List Request) (row : SocketRow) :
    (t.look (.after requests) row).1.InStep (past ++ [t.moment (.after requests) row]) := by
  rcases h.toSampled.look requests row with ⟨hsampled, hlast, _⟩
  refine ⟨hsampled, ?_, ?_, ?_⟩
  · intro n
    rw [hlast, h.life_moment]
    by_cases hrow : row.Matched (.after requests) ∧ row.name = n
    · rw [if_pos hrow, if_pos hrow, List.getLast?_concat]
      rfl
    · rw [if_neg hrow, if_neg hrow, List.append_nil]
      exact h.last_eq_life n
  · intro n
    rw [hlast, h.updates_moment]
    by_cases hrow : row.Matched (.after requests) ∧ row.name = n
    · rw [if_pos hrow]
      by_cases hsame : t.last? n = some row.sample
      · rw [if_neg fun hn => hn.2.2 hsame, List.append_nil, ← hsame]
        exact h.last_eq_updates n
      · rw [if_pos ⟨hrow.1, hrow.2, hsame⟩, List.getLast?_concat]
        rfl
    · rw [if_neg hrow, if_neg fun hn => hrow ⟨hn.1, hn.2.1⟩, List.append_nil]
      exact h.last_eq_updates n
  · intro n
    rw [h.updates_moment]
    split
    · next hn =>
        apply (h.changing n).append (List.isChain_singleton _)
        intro u hu v hv heq
        cases hv
        apply hn.2.2
        rw [h.last_eq_updates, Option.mem_def.1 hu]
        exact congrArg some heq
    · rw [List.append_nil]
      exact h.changing n

theorem InStep.watch (h : t.InStep past) (requests : List Request) (rows : List SocketRow) :
    (t.watch (.after requests) rows).1.InStep (past ++ t.moments (.after requests) rows) := by
  induction rows using List.reverseRecOn with
  | nil =>
      rw [moments, List.append_nil]
      exact h
  | append_singleton rows row ih =>
      rw [watch_concat, moments_concat, ← List.append_assoc]
      exact ih.look requests row

/-! ## What a look at a row says -/

theorem InStep.tracks_iff_life (h : t.InStep past) (n : SocketName) :
    t.Tracks n ↔ Moment.life n past ≠ [] := by
  rw [h.tracks_iff, Ne, h.life_eq_nil_iff, Option.isSome_iff_ne_none]

/-- A row that matches is announced if no life of its socket is going on. -/
theorem InStep.count_started_look (h : t.InStep past) (requests : List Request) (row : SocketRow)
    (n : SocketName) :
    (t.look (.after requests) row).2.count (.started n) =
      if row.Matched (.after requests) ∧ row.name = n ∧ Moment.life n past = [] then 1 else 0 := by
  rw [(h.count_look requests row n).1]
  simp only [h.tracks_iff_life, ne_eq, not_not]

/-- It is reported if it is the first of that life, or differs from the row before. -/
theorem InStep.count_updated_look (h : t.InStep past) (requests : List Request) (row : SocketRow)
    (u : SocketUpdate) :
    (t.look (.after requests) row).2.count (.updated u) =
      if row.Matched (.after requests) ∧ u = row.update ∧
          ∀ previous ∈ (Moment.life row.name past).getLast?, previous.sample ≠ row.sample
        then 1 else 0 := by
  have hchanged : t.last? row.name ≠ some row.sample ↔
      ∀ previous ∈ (Moment.life row.name past).getLast?, previous.sample ≠ row.sample := by
    rw [h.last_eq_life]
    cases (Moment.life row.name past).getLast? with
    | none => simp
    | some previous => simp
  rw [(h.toSampled.look requests row).2.2]
  by_cases hrow : row.Matched (.after requests)
  · rw [if_pos hrow, SocketRow.count_updated_news]
    simp only [hchanged, hrow, true_and]
  · rw [if_neg hrow, if_neg fun hn => hrow hn.1]
    rfl

/-- Of a socket that is tracked the last report of its life has the values in the last row. -/
theorem InStep.exists_last (h : t.InStep past) {n : SocketName} (htracks : t.Tracks n) :
    ∃ row u, (Moment.life n past).getLast? = some row ∧
      (Moment.updates n past).getLast? = some u ∧ u.sample = row.sample := by
  rw [h.tracks_iff] at htracks
  rcases Option.isSome_iff_exists.1 htracks with ⟨last, hlast⟩
  have hrow := (h.last_eq_life n).symm.trans hlast
  have hupdate := (h.last_eq_updates n).symm.trans hlast
  rcases Option.map_eq_some_iff.1 hrow with ⟨row, hlife, hsample⟩
  rcases Option.map_eq_some_iff.1 hupdate with ⟨u, hupdates, husample⟩
  exact ⟨row, u, hlife, hupdates, husample.trans hsample.symm⟩

/-! ## The end of a poll -/

/-- The end of a poll keeps a tracker in step if it says only which sockets have stopped, and
forgets the last values of these. -/
theorem InStep.stop (h : t.InStep past) (hsampled : t'.Sampled) {told : List SocketEvent}
    (htold : ∀ e ∈ told, ∃ n, e = .stopped n)
    (hlast : ∀ n, t'.last? n = if .stopped n ∈ told then none else t.last? n) :
    t'.InStep (past ++ [⟨none, told⟩]) := by
  have hlife : ∀ n, Moment.life n (past ++ [⟨none, told⟩]) =
      if .stopped n ∈ told then [] else Moment.life n past :=
    fun n => Moment.since_stops htold rfl past
  have hupdates : ∀ n, Moment.updates n (past ++ [⟨none, told⟩]) =
      if .stopped n ∈ told then [] else Moment.updates n past :=
    fun n => Moment.since_stops htold (Moment.updatesOf_stops htold n) past
  refine ⟨hsampled, ?_, ?_, ?_⟩
  · intro n
    rw [hlast, hlife]
    split
    · rfl
    · exact h.last_eq_life n
  · intro n
    rw [hlast, hupdates]
    split
    · rfl
    · exact h.last_eq_updates n
  · intro n
    rw [hupdates]
    split
    · exact List.isChain_nil
    · exact h.changing n

theorem InStep.finishPoll (h : t.InStep past) :
    t.finishPoll.1.InStep (past ++ [⟨none, t.finishPoll.2⟩]) := by
  rcases h.toSampled.finishPoll with ⟨hsampled, hlast, htold⟩
  exact h.stop hsampled htold hlast

theorem InStep.abandonPoll (h : t.InStep past) : t.abandonPoll.InStep (past ++ [⟨none, []⟩]) := by
  apply h.stop h.toSampled.abandonPoll
  · intro e he
    exact absurd he List.not_mem_nil
  · intro n
    rw [if_neg List.not_mem_nil]
    rfl

end Tracker

namespace Poll

/-- The moments of a poll: the looks at its rows, and its end. -/
def moments (p : Poll) (t : Tracker) : List Moment :=
  t.moments p.watchlist p.rows ++
    [⟨none, if p.complete then (t.watch p.watchlist p.rows).1.finishPoll.2 else []⟩]

theorem told_moments (p : Poll) (t : Tracker) :
    (p.moments t).flatMap Moment.told = (p.run t).2 := by
  rw [moments, List.flatMap_append, Tracker.flatMap_told_moments, List.flatMap_singleton]
  by_cases hcomplete : p.complete
  · rw [if_pos hcomplete, run_of_complete hcomplete]
  · rw [if_neg hcomplete, run_of_not_complete hcomplete, List.append_nil]

/-- The moments of polls that follow on each other. -/
def historyFrom (t : Tracker) : List Poll → List Moment
  | [] => []
  | p :: rest => p.moments t ++ historyFrom (p.run t).1 rest

/-- The moments of polls by a new tracker. -/
def history (polls : List Poll) : List Moment :=
  historyFrom .empty polls

theorem historyFrom_concat (t : Tracker) (polls : List Poll) (p : Poll) :
    historyFrom t (polls ++ [p]) =
      historyFrom t polls ++ p.moments (polls.foldl (fun t p => (p.run t).1) t) := by
  induction polls generalizing t with
  | nil => exact List.append_nil _
  | cons first polls ih =>
      rw [List.cons_append, historyFrom, historyFrom, ih, List.append_assoc, List.foldl_cons]

/-- What polls by a new tracker tell, one after the other. -/
def told (polls : List Poll) : List SocketEvent :=
  (history polls).flatMap Moment.told

theorem told_concat (polls : List Poll) (p : Poll) :
    told (polls ++ [p]) = told polls ++ (p.run (trackerAfter polls)).2 := by
  rw [told, history, historyFrom_concat, List.flatMap_append, told_moments]
  rfl

theorem inStep_run {t : Tracker} {past : List Moment} (h : t.InStep past) (p : Poll) :
    (p.run t).1.InStep (past ++ p.moments t) := by
  have hwatch := h.watch p.requests p.rows
  rw [moments, ← List.append_assoc]
  by_cases hcomplete : p.complete
  · rw [run_of_complete hcomplete, if_pos hcomplete]
    exact hwatch.finishPoll
  · rw [run_of_not_complete hcomplete, if_neg hcomplete]
    exact hwatch.abandonPoll

theorem inStep_trackerAfter (polls : List Poll) : (trackerAfter polls).InStep (history polls) := by
  induction polls using List.reverseRecOn with
  | nil => exact Tracker.inStep_empty
  | append_singleton polls p ih =>
      rw [trackerAfter_concat, history, historyFrom_concat]
      exact inStep_run ih p

/-- What a row says, after any polls and any rows of the next one: it announces its socket if no
life of it is going on, and reports its values if it is the first row of the life or they differ
from those of the row before. At every moment the last report of a socket has the values of its last
row, and no report of a life repeats the one before. In the rows of a table the identifier, with
which they are reported, is that of the endpoint. -/
theorem updates_are_changes (polls : List Poll) (requests : List Request)
    (before : List SocketRow) (row : SocketRow) :
    let w := Watchlist.after requests
    let t := trackerAfter polls
    let now := (t.watch w before).1
    let past := history polls ++ t.moments w before
    (∀ n, (now.look w row).2.count (.started n) =
      if row.Matched w ∧ row.name = n ∧ Moment.life n past = [] then 1 else 0) ∧
    (∀ u, (now.look w row).2.count (.updated u) =
      if row.Matched w ∧ u = ⟨row.name, row.id, row.sample⟩ ∧
          ∀ previous ∈ (Moment.life row.name past).getLast?, previous.sample ≠ row.sample
        then 1 else 0) ∧
    (∀ n, now.Tracks n → ∃ last u, (Moment.life n past).getLast? = some last ∧
      (Moment.updates n past).getLast? = some u ∧ u.sample = last.sample) ∧
    (∀ n, (Moment.updates n past).IsChain fun u v => u.sample ≠ v.sample) ∧
    ∀ (protocol : Protocol) (table : List UInt8),
      ∀ r ∈ (RowDecoder.readRows protocol.format table).1,
        r.id = .ofEndpoint ⟨r.name.address, r.name.port⟩ := by
  intro w t now past
  have hstep : now.InStep past := (inStep_trackerAfter polls).watch requests before
  refine ⟨?_, ?_, ?_, hstep.changing, ?_⟩
  · exact hstep.count_started_look requests row
  · exact hstep.count_updated_look requests row
  · intro n htracks
    exact hstep.exists_last htracks
  · intro protocol table r hr
    have hplain : r.id.inode = 0 := (SocketRow.kept_plain protocol).forall_readRows table r hr
    apply SocketId.ext_fields
    · rw [SocketId.address_ofEndpoint]
      rfl
    · rw [SocketId.port_ofEndpoint]
      rfl
    · rw [SocketId.inode_ofEndpoint]
      exact hplain

end Poll

end QueueWatch
