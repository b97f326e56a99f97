import QueueWatch.Proofs.Monitor.Lifecycle

/-!
# The last values of a socket

Of every socket that it tracks a tracker knows the values that were seen last (`Sampled`). So what
it says of a row that matches depends on these alone: it announces and reports the socket if there
are none, and reports it if they are others (`Sampled.look`). The end of a poll forgets the values
of the sockets that it announces as stopped (`Sampled.finishPoll`).
-/

namespace QueueWatch

namespace SocketRow

/-- The report of the values in a row. -/
def update (row : SocketRow) : SocketUpdate :=
  ⟨row.name, row.id, row.sample⟩

/-- What there is to say of a row that matches, given the last values of its socket. -/
def news (row : SocketRow) : Option Sample → List SocketEvent
  | none => [.started row.name, .updated row.update]
  | some last => if last = row.sample then [] else [.updated row.update]

theorem news_eq_nil_iff {row : SocketRow} {last : Option Sample} :
    row.news last = [] ↔ last = some row.sample := by
  cases last with
  | none => simp [news]
  | some last => simp [news]

theorem stopped_not_mem_news (row : SocketRow) (last : Option Sample) (n : SocketName) :
    .stopped n ∉ row.news last := by
  cases last with
  | none => simp [news]
  | some last => by_cases hlast : last = row.sample <;> simp [news, hlast]

theorem started_mem_news_iff {row : SocketRow} {last : Option Sample} {n : SocketName} :
    .started n ∈ row.news last ↔ row.name = n ∧ last = none := by
  cases last with
  | none => simp [news, eq_comm]
  | some last => by_cases hlast : last = row.sample <;> simp [news, hlast]

theorem count_updated_news (row : SocketRow) (last : Option Sample) (u : SocketUpdate) :
    (row.news last).count (.updated u) =
      if u = row.update ∧ last ≠ some row.sample then 1 else 0 := by
  cases last with
  | none => by_cases hu : row.update = u <;> simp [news, hu, eq_comm (a := u)]
  | some last =>
      by_cases hlast : last = row.sample
      · simp [news, hlast]
      · by_cases hu : row.update = u <;> simp [news, hlast, hu, eq_comm (a := u)]

end SocketRow

namespace Tracker

variable {t : Tracker} {requests : List Request} {rows : List SocketRow}

/-- The last values that were seen of the socket with a name. -/
def last? (t : Tracker) (n : SocketName) : Option Sample :=
  (t.find? n).bind TrackedSocket.last

/-- A tracker in order that knows the last values of each of its sockets. -/
structure Sampled (t : Tracker) : Prop extends Valid t where
  isSome_last : ∀ n s, t.find? n = some s → s.last.isSome

theorem sampled_empty : Sampled empty := by
  refine ⟨valid_empty, ?_⟩
  intro n s hs
  rw [find?_empty] at hs
  cases hs

theorem Sampled.tracks_iff (h : t.Sampled) (n : SocketName) : t.Tracks n ↔ (t.last? n).isSome := by
  rw [Tracks, last?]
  cases hfind : t.find? n with
  | none => rfl
  | some s => simp [h.isSome_last n s hfind]

/-- What a look at a row says, and what is known of sockets afterwards. -/
theorem Sampled.look (h : t.Sampled) (requests : List Request) (row : SocketRow) :
    (t.look (.after requests) row).1.Sampled ∧
      (∀ n, (t.look (.after requests) row).1.last? n =
        if row.Matched (.after requests) ∧ row.name = n then some row.sample else t.last? n) ∧
      (t.look (.after requests) row).2 =
        if row.Matched (.after requests) then row.news (t.last? row.name) else [] := by
  by_cases hrow : row.Matched (.after requests)
  · rcases Option.isSome_iff_exists.1 hrow with ⟨endpoint, hendpoint⟩
    have haddress := (Watchlist.lists_after requests).address_of_match? hendpoint
    rcases h.observe haddress with ⟨hvalid, hfind⟩
    rw [Tracker.look, hendpoint, if_pos hrow]
    refine ⟨⟨hvalid, ?_⟩, ?_, ?_⟩
    · intro n s hs
      rw [hfind] at hs
      by_cases hname : row.name = n
      · rw [if_pos hname] at hs
        rw [← Option.some.inj hs]
        rfl
      · rw [if_neg hname] at hs
        exact h.isSome_last n s hs
    · intro n
      rw [last?, hfind]
      by_cases hname : row.name = n
      · rw [if_pos hname, if_pos ⟨hrow, hname⟩]
        rfl
      · rw [if_neg hname, if_neg fun hn => hname hn.2]
        rfl
    · rw [h.events_observe haddress]
      change _ ++ (if t.last? row.name = some row.sample then _ else _) = _
      cases hlast : t.last? row.name with
      | none =>
          have htracks : ¬t.Tracks row.name := by
            rw [h.tracks_iff, hlast]
            exact Bool.false_ne_true
          rw [if_neg htracks]
          rfl
      | some last =>
          have htracks : t.Tracks row.name := by
            rw [h.tracks_iff, hlast]
            rfl
          rw [if_pos htracks, List.nil_append, SocketRow.news]
          simp only [Option.some.injEq]
          rfl
  · rw [look_of_not_matched hrow, if_neg hrow]
    refine ⟨h, ?_, rfl⟩
    intro n
    rw [if_neg fun hn => hrow hn.1]

theorem Sampled.watch (h : t.Sampled) (requests : List Request) (rows : List SocketRow) :
    (t.watch (.after requests) rows).1.Sampled := by
  induction rows using List.reverseRecOn with
  | nil => exact h
  | append_singleton rows row ih =>
      rw [watch_concat]
      exact (ih.look requests row).1

theorem Valid.stopped_mem_iff (h : t.Valid) (n : SocketName) :
    .stopped n ∈ t.finishPoll.2 ↔ ∃ s, t.find? n = some s ∧ s.generation ≠ t.generation := by
  rcases h.count_finishPoll n with ⟨_, hone, hzero⟩
  rw [← List.count_pos_iff]
  constructor
  · intro hpos
    by_contra hn
    rw [hzero hn] at hpos
    exact Nat.lt_irrefl 0 hpos
  · intro hn
    rw [hone hn]
    exact Nat.zero_lt_one

/-- The end of a poll says only which sockets have stopped, and forgets these. -/
theorem Sampled.finishPoll (h : t.Sampled) :
    t.finishPoll.1.Sampled ∧
      (∀ n, t.finishPoll.1.last? n =
        if .stopped n ∈ t.finishPoll.2 then none else t.last? n) ∧
      ∀ e ∈ t.finishPoll.2, ∃ n, e = .stopped n := by
  rcases h.toValid.finishPoll with ⟨hvalid, hfind⟩
  rcases h.stopped with ⟨names, hevents, _, _⟩
  refine ⟨⟨hvalid, ?_⟩, ?_, ?_⟩
  · intro n s hs
    rw [hfind, Option.filter_eq_some_iff] at hs
    exact h.isSome_last n s hs.1
  · intro n
    have hstopped := h.stopped_mem_iff n
    rw [last?, hfind, last?]
    cases hknown : t.find? n with
    | none => simp
    | some s =>
        rw [hknown] at hstopped
        by_cases hmark : s.generation = t.generation
        · have hkept : .stopped n ∉ t.finishPoll.2 := by
            rw [hstopped]
            intro hx
            rcases hx with ⟨s', hs', hstale⟩
            cases hs'
            exact hstale hmark
          rw [if_neg hkept, Option.filter_some, if_pos (decide_eq_true hmark)]
        · rw [if_pos (hstopped.2 ⟨s, rfl, hmark⟩), Option.filter_some,
            if_neg fun heq => hmark (of_decide_eq_true heq)]
          rfl
  · intro e he
    rw [hevents] at he
    rcases List.mem_map.1 he with ⟨n, _, rfl⟩
    exact ⟨n, rfl⟩

theorem Sampled.abandonPoll (h : t.Sampled) : t.abandonPoll.Sampled :=
  ⟨h.toValid.abandonPoll, h.isSome_last⟩

end Tracker

namespace Poll

theorem sampled_trackerAfter (polls : List Poll) : (trackerAfter polls).Sampled := by
  induction polls using List.reverseRecOn with
  | nil => exact Tracker.sampled_empty
  | append_singleton polls p ih =>
      rw [trackerAfter_concat]
      by_cases hcomplete : p.complete
      · rw [run_of_complete hcomplete]
        exact (ih.watch p.requests p.rows).finishPoll.1
      · rw [run_of_not_complete hcomplete]
        exact (ih.watch p.requests p.rows).abandonPoll

end Poll

end QueueWatch
