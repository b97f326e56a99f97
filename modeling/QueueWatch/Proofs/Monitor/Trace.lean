import Mathlib.Data.Finset.Card
import QueueWatch.Proofs.Monitor.Repetition

/-!
# Traces of announcements and reports

The events of a run of polls, one after the other, are a trace. In it each socket is announced as
started and as stopped in turn, from a start on; it is reported at once when it starts, and only
until it stops (`Trace.Orderly`). The sockets that a tracker knows are those that stand open in the
trace: they have been announced as started, and not as stopped since. So their number is the size of
the tracker (`Trace.orderly_run`).

The invariant of the run is that tracking a socket and its standing open are the same
(`Tracker.Follows`). A look at a row opens the socket in the row if it is not tracked, and the end
of a poll closes sockets that are tracked, each once.
-/

namespace QueueWatch

/-- What has been told, from the first poll on. -/
abbrev Trace := List SocketEvent

namespace Trace

/-- The announcements of a socket. -/
def announcements (n : SocketName) (trace : Trace) : List SocketEvent :=
  trace.filter fun e => e = .started n ∨ e = .stopped n

/-- Whether a socket has been announced as started, and not as stopped since. -/
def Open (n : SocketName) (trace : Trace) : Prop :=
  (announcements n trace).getLast? = some (.started n)

instance (n : SocketName) (trace : Trace) : Decidable (Open n trace) :=
  inferInstanceAs (Decidable (_ = _))

/-- The name of a socket that is announced as started. -/
def started? : SocketEvent → Option SocketName
  | .started n => some n
  | .updated _ | .stopped _ => none

/-- The sockets that have been announced as started, and not as stopped since. -/
def openSockets (trace : Trace) : Finset SocketName :=
  {n ∈ (trace.filterMap started?).toFinset | Open n trace}

/-- Starts and stops of each socket take turns, from a start on; reports come after a start of their
socket with no stop in between; and the first one follows on the start. -/
structure Orderly (trace : Trace) : Prop where
  begins : ∀ n, ∀ e ∈ (announcements n trace).head?, e = .started n
  alternates : ∀ n, (announcements n trace).IsChain (· ≠ ·)
  open_of_updated : ∀ before u after, trace = before ++ .updated u :: after → Open u.name before
  updated_of_started : ∀ before n after, trace = before ++ .started n :: after →
    ∃ u rest, after = .updated u :: rest ∧ u.name = n

variable {trace news : Trace} {n m : SocketName}

theorem announcements_append (n : SocketName) (trace news : Trace) :
    announcements n (trace ++ news) = announcements n trace ++ announcements n news :=
  List.filter_append ..

theorem open_append_of_nil (h : announcements n news = []) :
    Open n (trace ++ news) ↔ Open n trace := by
  rw [Open, announcements_append, h, List.append_nil, Open]

theorem open_append_of_singleton {e : SocketEvent} (h : announcements n news = [e]) :
    Open n (trace ++ news) ↔ e = .started n := by
  rw [Open, announcements_append, h, List.getLast?_concat, Option.some.injEq]

theorem mem_openSockets : n ∈ openSockets trace ↔ Open n trace := by
  rw [openSockets, Finset.mem_filter, List.mem_toFinset, List.mem_filterMap]
  refine ⟨And.right, fun h => ⟨⟨.started n, ?_, rfl⟩, h⟩⟩
  exact (List.mem_filter.1 (List.mem_of_getLast? h)).1

theorem orderly_nil : Orderly [] := by
  refine ⟨?_, fun n => List.isChain_nil, ?_, ?_⟩
  · intro n e he
    cases he
  · intro before u after h
    cases (List.append_eq_nil_iff.1 h.symm).2
  · intro before n after h
    cases (List.append_eq_nil_iff.1 h.symm).2

/-- Where an event stands in two traces, one behind the other. -/
theorem append_eq_append_cons {trace news before after : Trace} {e : SocketEvent}
    (h : trace ++ news = before ++ e :: after) :
    (∃ rest, trace = before ++ e :: rest ∧ after = rest ++ news) ∨
      ∃ first, before = trace ++ first ∧ news = first ++ e :: after := by
  rcases List.append_eq_append_iff.1 h with ⟨first, hbefore, hnews⟩ | ⟨rest, htrace, hrest⟩
  · exact Or.inr ⟨first, hbefore, hnews⟩
  · cases rest with
    | nil =>
        rw [List.append_nil] at htrace
        exact Or.inr ⟨[], by rw [htrace, List.append_nil], hrest.symm⟩
    | cons e' rest =>
        cases hrest
        exact Or.inl ⟨rest, htrace, rfl⟩

/-- News that announce a socket at most once, as started if it does not stand open and as stopped if
it does, keep a trace in order. -/
theorem Orderly.append (h : Orderly trace)
    (hturns : ∀ n, announcements n news = [] ∨
      announcements n news = [.started n] ∧ ¬Open n trace ∨
      announcements n news = [.stopped n] ∧ Open n trace)
    (hupdated : ∀ before u after, news = before ++ .updated u :: after →
      Open u.name (trace ++ before))
    (hstarted : ∀ before n after, news = before ++ .started n :: after →
      ∃ u rest, after = .updated u :: rest ∧ u.name = n) :
    Orderly (trace ++ news) := by
  refine ⟨?_, ?_, ?_, ?_⟩
  · intro n e he
    rw [announcements_append, List.head?_append] at he
    rcases Option.or_eq_some_iff.1 he with he | ⟨hnone, he⟩
    · exact h.begins n e he
    · rcases hturns n with hturn | ⟨hturn, _⟩ | ⟨_, hopen⟩
      · rw [hturn] at he
        cases he
      · rw [hturn] at he
        exact (Option.some.inj he).symm
      · rw [Open, List.head?_eq_none_iff.1 hnone] at hopen
        cases hopen
  · intro n
    rw [announcements_append]
    rcases hturns n with hturn | ⟨hturn, hopen⟩ | ⟨hturn, hopen⟩
    · rw [hturn, List.append_nil]
      exact h.alternates n
    · rw [hturn]
      apply (h.alternates n).append (List.isChain_singleton _)
      intro e he e' he' heq
      cases he'
      rw [heq] at he
      exact hopen he
    · rw [hturn]
      apply (h.alternates n).append (List.isChain_singleton _)
      intro e he e' he' heq
      cases he'
      rw [Open, Option.mem_def.1 he, heq] at hopen
      cases hopen
  · intro before u after hsplit
    rcases append_eq_append_cons hsplit with ⟨rest, htrace, _⟩ | ⟨first, hbefore, hnews⟩
    · exact h.open_of_updated before u rest htrace
    · rw [hbefore]
      exact hupdated first u after hnews
  · intro before n after hsplit
    rcases append_eq_append_cons hsplit with ⟨rest, htrace, hafter⟩ | ⟨first, _, hnews⟩
    · rcases h.updated_of_started before n rest htrace with ⟨u, rest', hrest, hname⟩
      refine ⟨u, rest' ++ news, ?_, hname⟩
      rw [hafter, hrest, List.cons_append]
    · exact hstarted first n after hnews

/-- A start that is reported at once. -/
theorem Orderly.start (h : Orderly trace) {u : SocketUpdate} (hopen : ¬Open u.name trace) :
    Orderly (trace ++ [.started u.name, .updated u]) := by
  apply h.append
  · intro n
    by_cases hn : u.name = n
    · rw [hn] at hopen
      exact Or.inr (Or.inl ⟨by simp [announcements, hn], hopen⟩)
    · exact Or.inl (by simp [announcements, hn])
  · intro before u' after hsplit
    rcases List.cons_eq_append_iff.1 hsplit with ⟨_, hcons⟩ | ⟨before', rfl, hrest⟩
    · cases hcons
    · rcases List.cons_eq_append_iff.1 hrest with ⟨rfl, hcons⟩ | ⟨before'', _, hnil⟩
      · cases hcons
        exact (open_append_of_singleton (by simp [announcements])).2 rfl
      · cases (List.append_eq_nil_iff.1 hnil.symm).2
  · intro before n after hsplit
    rcases List.cons_eq_append_iff.1 hsplit with ⟨_, hcons⟩ | ⟨before', rfl, hrest⟩
    · cases hcons
      exact ⟨u, [], rfl, rfl⟩
    · rcases List.cons_eq_append_iff.1 hrest with ⟨_, hcons⟩ | ⟨before'', _, hnil⟩
      · cases hcons
      · cases (List.append_eq_nil_iff.1 hnil.symm).2

theorem open_append_start {u : SocketUpdate} :
    Open n (trace ++ [.started u.name, .updated u]) ↔ u.name = n ∨ Open n trace := by
  by_cases hn : u.name = n
  · rw [open_append_of_singleton (e := .started n) (by simp [announcements, hn])]
    exact ⟨fun _ => Or.inl hn, fun _ => rfl⟩
  · rw [open_append_of_nil (by simp [announcements, hn])]
    exact (or_iff_right hn).symm

theorem Orderly.update (h : Orderly trace) {u : SocketUpdate} (hopen : Open u.name trace) :
    Orderly (trace ++ [.updated u]) := by
  apply h.append
  · intro n
    exact Or.inl rfl
  · intro before u' after hsplit
    rcases List.cons_eq_append_iff.1 hsplit with ⟨rfl, hcons⟩ | ⟨before', _, hnil⟩
    · cases hcons
      rw [List.append_nil]
      exact hopen
    · cases (List.append_eq_nil_iff.1 hnil.symm).2
  · intro before n after hsplit
    rcases List.cons_eq_append_iff.1 hsplit with ⟨_, hcons⟩ | ⟨before', _, hnil⟩
    · cases hcons
    · cases (List.append_eq_nil_iff.1 hnil.symm).2

/-- Sockets that stop, each once. -/
theorem announcements_stops {names : List SocketName} (h : names.Nodup) (n : SocketName) :
    announcements n (names.map .stopped) = if n ∈ names then [.stopped n] else [] := by
  induction names with
  | nil => rfl
  | cons name names ih =>
      rcases List.nodup_cons.1 h with ⟨hname, hnames⟩
      have hrest := ih hnames
      rw [announcements] at hrest
      rw [announcements, List.map_cons, List.filter_cons, hrest]
      by_cases hn : name = n
      · rw [hn] at hname
        simp [hn, hname]
      · simp [hn, Ne.symm hn]

theorem Orderly.stop (h : Orderly trace) {names : List SocketName} (hnodup : names.Nodup)
    (hopen : ∀ n ∈ names, Open n trace) : Orderly (trace ++ names.map .stopped) := by
  apply h.append
  · intro n
    rw [announcements_stops hnodup]
    by_cases hn : n ∈ names
    · rw [if_pos hn]
      exact Or.inr (Or.inr ⟨rfl, hopen n hn⟩)
    · rw [if_neg hn]
      exact Or.inl rfl
  · intro before u after hsplit
    have hmem : .updated u ∈ names.map SocketEvent.stopped := by simp [hsplit]
    rcases List.mem_map.1 hmem with ⟨n, _, hn⟩
    cases hn
  · intro before n after hsplit
    have hmem : .started n ∈ names.map SocketEvent.stopped := by simp [hsplit]
    rcases List.mem_map.1 hmem with ⟨n', _, hn⟩
    cases hn

end Trace

namespace Tracker

variable {t : Tracker} {trace : Trace}

/-- The trace is in order, and the tracker knows the sockets that stand open in it. -/
structure Follows (t : Tracker) (trace : Trace) : Prop extends Sampled t where
  orderly : Trace.Orderly trace
  tracks_iff_open : ∀ n, t.Tracks n ↔ Trace.Open n trace

theorem follows_empty : Follows empty [] := by
  refine ⟨sampled_empty, Trace.orderly_nil, ?_⟩
  intro n
  rw [Tracks, find?_empty]
  constructor
  · intro htracks
    cases htracks
  · intro hopen
    cases hopen

/-- News about the socket in a row continue the trace. -/
theorem Follows.orderly_news (h : t.Follows trace) (row : SocketRow) :
    Trace.Orderly (trace ++ row.news (t.last? row.name)) := by
  have htracks := (h.tracks_iff row.name).symm.trans (h.tracks_iff_open row.name)
  cases hlast : t.last? row.name with
  | none =>
      rw [hlast] at htracks
      exact h.orderly.start (u := row.update) fun hopen => Bool.false_ne_true (htracks.2 hopen)
  | some last =>
      rw [hlast] at htracks
      by_cases hsame : last = row.sample
      · rw [SocketRow.news, if_pos hsame, List.append_nil]
        exact h.orderly
      · rw [SocketRow.news, if_neg hsame]
        exact h.orderly.update (u := row.update) (htracks.1 rfl)

theorem Follows.open_news (h : t.Follows trace) (row : SocketRow) (n : SocketName) :
    Trace.Open n (trace ++ row.news (t.last? row.name)) ↔
      row.name = n ∨ Trace.Open n trace := by
  have htracks := (h.tracks_iff row.name).symm.trans (h.tracks_iff_open row.name)
  cases hlast : t.last? row.name with
  | none => exact Trace.open_append_start (u := row.update)
  | some last =>
      rw [hlast] at htracks
      have hopen : row.name = n → Trace.Open n trace := fun hn => hn ▸ htracks.1 rfl
      rw [or_iff_right_of_imp hopen]
      apply Trace.open_append_of_nil
      by_cases hsame : last = row.sample <;> simp [SocketRow.news, Trace.announcements, hsame]

theorem Follows.look (h : t.Follows trace) (requests : List Request) (row : SocketRow) :
    (t.look (.after requests) row).1.Follows (trace ++ (t.look (.after requests) row).2) := by
  rcases h.toSampled.look requests row with ⟨hsampled, hlast, htold⟩
  by_cases hrow : row.Matched (.after requests)
  · rw [if_pos hrow] at htold
    rw [htold]
    refine ⟨hsampled, h.orderly_news row, ?_⟩
    intro n
    rw [h.open_news, hsampled.tracks_iff, hlast, ← h.tracks_iff_open, h.tracks_iff]
    by_cases hn : row.name = n
    · simp [hrow, hn]
    · simp [hn]
  · rw [look_of_not_matched hrow, List.append_nil]
    exact h

theorem Follows.watch (h : t.Follows trace) (requests : List Request) (rows : List SocketRow) :
    (t.watch (.after requests) rows).1.Follows
      (trace ++ (t.watch (.after requests) rows).2) := by
  induction rows using List.reverseRecOn with
  | nil =>
      rw [watch_nil, List.append_nil]
      exact h
  | append_singleton rows row ih =>
      rw [watch_concat, ← List.append_assoc]
      exact ih.look requests row

/-- The end of a poll closes the sockets that it forgets. -/
theorem Follows.finishPoll (h : t.Follows trace) :
    t.finishPoll.1.Follows (trace ++ t.finishPoll.2) := by
  rcases h.toSampled.finishPoll with ⟨hsampled, hlast, _⟩
  rcases h.stopped with ⟨names, htold, hnodup, hmem⟩
  have hopen : ∀ n ∈ names, Trace.Open n trace := by
    intro n hn
    rcases (hmem n).1 hn with ⟨s, hs, _⟩
    exact (h.tracks_iff_open n).1 (Tracker.tracks_iff.2 ⟨s, hs⟩)
  have hstopped : ∀ n, .stopped n ∈ t.finishPoll.2 ↔ n ∈ names := by
    intro n
    rw [htold]
    exact List.mem_map_of_injective fun a b hab => SocketEvent.stopped.inj hab
  refine ⟨hsampled, ?_, ?_⟩
  · rw [htold]
    exact h.orderly.stop hnodup hopen
  · intro n
    rw [hsampled.tracks_iff, hlast, htold]
    have hn' := Trace.announcements_stops hnodup n
    by_cases hn : n ∈ names
    · rw [if_pos hn] at hn'
      rw [← htold, if_pos ((hstopped n).2 hn), htold, Trace.open_append_of_singleton hn']
      exact ⟨(nomatch ·), (nomatch ·)⟩
    · rw [if_neg hn] at hn'
      rw [← htold, if_neg fun hs => hn ((hstopped n).1 hs), htold, Trace.open_append_of_nil hn',
        ← h.tracks_iff_open, h.tracks_iff]

theorem Follows.abandonPoll (h : t.Follows trace) : t.abandonPoll.Follows trace :=
  ⟨h.toSampled.abandonPoll, h.orderly, h.tracks_iff_open⟩

theorem Follows.size_eq (h : t.Follows trace) : t.size = (Trace.openSockets trace).card := by
  rcases h.exists_names with ⟨names, hnodup, hlength, hmem⟩
  rw [← hlength, ← List.toFinset_card_of_nodup hnodup]
  congr 1
  ext n
  rw [List.mem_toFinset, hmem, Trace.mem_openSockets]
  exact h.tracks_iff_open n

end Tracker

namespace Poll

theorem follows_trackerAfter (polls : List Poll) : (trackerAfter polls).Follows (told polls) := by
  induction polls using List.reverseRecOn with
  | nil => exact Tracker.follows_empty
  | append_singleton polls p ih =>
      have hwatch := ih.watch p.requests p.rows
      rw [trackerAfter_concat, told_concat]
      by_cases hcomplete : p.complete
      · rw [run_of_complete hcomplete, ← List.append_assoc]
        exact hwatch.finishPoll
      · rw [run_of_not_complete hcomplete]
        exact hwatch.abandonPoll

end Poll

/-- What a tracker tells over any polls, complete or abandoned, is a trace in order, and its size is
the number of sockets that stand open in the trace. The same holds of a monitor over any tables,
some of which it may fail to read; one that does not announce starts and stops leaves them out of
such a trace. -/
theorem Trace.orderly_run :
    (∀ polls : List Poll, Orderly (Poll.told polls) ∧
      (Poll.trackerAfter polls).size = (openSockets (Poll.told polls)).card) ∧
    ∀ (o : MonitorOptions) (past : List (List Request × Disk)),
      let monitor := SocketMonitor.ofOptions o
      let polls := SocketMonitor.requested past
      ∃ trace, (monitor.reports polls).flatMap PollReport.events = o.told trace ∧
        Orderly trace ∧ (monitor.after polls).size = (openSockets trace).card := by
  refine ⟨?_, ?_⟩
  · intro polls
    have h := Poll.follows_trackerAfter polls
    exact ⟨h.orderly, h.size_eq⟩
  · intro o past monitor polls
    rcases SocketMonitor.exists_polls_told o past with ⟨polls', htracker, _, htold⟩
    have h := Poll.follows_trackerAfter polls'
    refine ⟨Poll.told polls', htold, h.orderly, ?_⟩
    rw [SocketMonitor.size, htracker]
    exact h.size_eq

end QueueWatch
