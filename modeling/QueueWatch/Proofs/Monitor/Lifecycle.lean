import Mathlib.Data.List.Induction
import QueueWatch.Proofs.Monitor.Tracking
import QueueWatch.Proofs.Watchlist.Requests

/-!
# When sockets start and stop being watched

A poll announces a socket as started if it matches and was not tracked, and as stopped if it was
tracked and does not match any more (`Poll.lifecycle`). This rests on the marks: at the begin of a
poll no socket carries the mark of that poll, and during the poll exactly those do that have been
seen (`Seen`).

The marks are words and begin anew after `2 ^ 64` polls. A poll that is completed leaves no mark but
its own, and each one that is abandoned makes the marks older by one (`Aged`). So a mark could be
mistaken for a new one only after `2 ^ 64 - 1` abandoned polls in a row.
-/

namespace QueueWatch

/-- A poll: the requests that its watchlist is due to, the rows that it saw, and whether these were
all rows of the table. -/
structure Poll where
  requests : List Request
  rows : List SocketRow
  complete : Bool
  deriving DecidableEq, Repr

/-- Whether a row belongs to a registration. -/
def SocketRow.Matched (w : Watchlist) (row : SocketRow) : Prop :=
  (w.match? row.id row.inode).isSome

/-- Whether one of the rows is about the socket with a name and belongs to a registration. -/
def MatchedIn (w : Watchlist) (rows : List SocketRow) (n : SocketName) : Prop :=
  ∃ row ∈ rows, row.Matched w ∧ row.name = n

instance (w : Watchlist) (row : SocketRow) : Decidable (row.Matched w) :=
  inferInstanceAs (Decidable (_ = true))

instance (w : Watchlist) (rows : List SocketRow) (n : SocketName) :
    Decidable (MatchedIn w rows n) :=
  inferInstanceAs (Decidable (∃ row ∈ rows, row.Matched w ∧ row.name = n))

theorem matchedIn_nil (w : Watchlist) (n : SocketName) : ¬MatchedIn w [] n := by
  intro hx
  rcases hx with ⟨row, hrow, _⟩
  exact List.not_mem_nil hrow

theorem matchedIn_concat {w : Watchlist} {rows : List SocketRow} {row : SocketRow}
    {n : SocketName} :
    MatchedIn w (rows ++ [row]) n ↔ MatchedIn w rows n ∨ row.Matched w ∧ row.name = n := by
  unfold MatchedIn
  constructor
  · intro hx
    rcases hx with ⟨r, hr, hmatched⟩
    rcases List.mem_append.1 hr with hr | hr
    · exact Or.inl ⟨r, hr, hmatched⟩
    · rw [List.mem_singleton.1 hr] at hmatched
      exact Or.inr hmatched
  · intro hx
    rcases hx with ⟨r, hr, hmatched⟩ | hmatched
    · exact ⟨r, List.mem_append_left _ hr, hmatched⟩
    · exact ⟨row, List.mem_append_right _ List.mem_cons_self, hmatched⟩

namespace Tracker

variable {t : Tracker} {requests : List Request} {rows : List SocketRow}

/-- Looks at a row with a watchlist. -/
def look (w : Watchlist) (t : Tracker) (row : SocketRow) : Tracker × List SocketEvent :=
  t.observe (w.match? row.id row.inode) row

/-- Looks at rows in the given way, one after the other. -/
def lookAll (look : Tracker → SocketRow → Tracker × List SocketEvent) (t : Tracker) :
    List SocketRow → Tracker × List SocketEvent
  | [] => (t, [])
  | row :: rows =>
      let (t, told) := look t row
      let (t, rest) := t.lookAll look rows
      (t, told ++ rest)

theorem lookAll_cons (look : Tracker → SocketRow → Tracker × List SocketEvent) (t : Tracker)
    (row : SocketRow) (rows : List SocketRow) :
    t.lookAll look (row :: rows) =
      (((look t row).1.lookAll look rows).1,
        (look t row).2 ++ ((look t row).1.lookAll look rows).2) := rfl

theorem lookAll_concat (look : Tracker → SocketRow → Tracker × List SocketEvent) (t : Tracker)
    (rows : List SocketRow) (row : SocketRow) :
    t.lookAll look (rows ++ [row]) =
      ((look (t.lookAll look rows).1 row).1,
        (t.lookAll look rows).2 ++ (look (t.lookAll look rows).1 row).2) := by
  induction rows generalizing t with
  | nil => exact congrArg (Prod.mk _) (List.append_nil _)
  | cons first rows ih => rw [List.cons_append, lookAll_cons, ih, lookAll_cons, List.append_assoc]

/-- Looks at rows with a watchlist, one after the other. -/
def watch (w : Watchlist) (t : Tracker) (rows : List SocketRow) : Tracker × List SocketEvent :=
  t.lookAll (look w) rows

theorem watch_nil (w : Watchlist) (t : Tracker) : watch w t [] = (t, []) := rfl

theorem watch_cons (w : Watchlist) (t : Tracker) (row : SocketRow) (rows : List SocketRow) :
    watch w t (row :: rows) =
      ((watch w (t.look w row).1 rows).1,
        (t.look w row).2 ++ (watch w (t.look w row).1 rows).2) := rfl

theorem watch_concat (w : Watchlist) (t : Tracker) (rows : List SocketRow) (row : SocketRow) :
    watch w t (rows ++ [row]) =
      (((watch w t rows).1.look w row).1,
        (watch w t rows).2 ++ ((watch w t rows).1.look w row).2) :=
  lookAll_concat (look w) t rows row

/-- A row that does not match is passed over. -/
theorem look_of_not_matched {w : Watchlist} {row : SocketRow} (h : ¬row.Matched w) :
    t.look w row = (t, []) := by
  rw [look, Option.not_isSome_iff_eq_none.1 h, observe_none]

theorem Valid.look (h : t.Valid) {row : SocketRow}
    (hmatched : row.Matched (Watchlist.after requests)) :
    (t.look (.after requests) row).1.Valid ∧
      (t.look (.after requests) row).1.generation = t.generation ∧
      ∃ s, s.generation = t.generation ∧
        ∀ n, (t.look (.after requests) row).1.find? n =
          if row.name = n then some s else t.find? n := by
  rcases Option.isSome_iff_exists.1 hmatched with ⟨endpoint, hendpoint⟩
  have haddress := (Watchlist.lists_after requests).address_of_match? hendpoint
  rcases h.observe haddress with ⟨hvalid, hfind⟩
  rw [Tracker.look, hendpoint]
  exact ⟨hvalid, generation_observe .., t.known endpoint row, rfl, hfind⟩

/-! ## During a poll -/

/-- What a tracker has become after a look at rows: the sockets in rows that match carry the mark of
the poll, and of the others it knows what it knew before. -/
structure Seen (w : Watchlist) (t : Tracker) (rows : List SocketRow) (now : Tracker) : Prop where
  valid : now.Valid
  generation_eq : now.generation = t.generation
  of_matchedIn : ∀ n, MatchedIn w rows n → ∃ s, now.find? n = some s ∧ s.generation = t.generation
  of_not_matchedIn : ∀ n, ¬MatchedIn w rows n → now.find? n = t.find? n

theorem Valid.seen (h : t.Valid) (requests : List Request) (rows : List SocketRow) :
    Seen (.after requests) t rows (watch (.after requests) t rows).1 := by
  induction rows using List.reverseRecOn with
  | nil =>
      refine ⟨h, rfl, ?_, ?_⟩
      · intro n hn
        exact absurd hn (matchedIn_nil _ n)
      · intro n _
        rfl
  | append_singleton rows row ih =>
      rw [watch_concat]
      by_cases hrow : row.Matched (.after requests)
      · rcases ih.valid.look hrow with ⟨hvalid, hgeneration, s, hs, hfind⟩
        refine ⟨hvalid, hgeneration.trans ih.generation_eq, ?_, ?_⟩
        · intro n hn
          rw [hfind]
          by_cases hname : row.name = n
          · rw [if_pos hname]
            exact ⟨s, rfl, hs.trans ih.generation_eq⟩
          · rw [if_neg hname]
            rcases matchedIn_concat.1 hn with hn | hn
            · exact ih.of_matchedIn n hn
            · exact absurd hn.2 hname
        · intro n hn
          rw [matchedIn_concat, not_or] at hn
          rw [hfind, if_neg (fun hname => hn.2 ⟨hrow, hname⟩)]
          exact ih.of_not_matchedIn n hn.1
      · rw [look_of_not_matched hrow]
        have hsame : ∀ n, MatchedIn (.after requests) (rows ++ [row]) n ↔
            MatchedIn (.after requests) rows n := by
          intro n
          rw [matchedIn_concat]
          exact or_iff_left fun hn => hrow hn.1
        refine ⟨ih.valid, ih.generation_eq, ?_, ?_⟩
        · intro n hn
          exact ih.of_matchedIn n ((hsame n).1 hn)
        · intro n hn
          exact ih.of_not_matchedIn n fun hn' => hn ((hsame n).2 hn')

theorem Seen.tracks_iff {w : Watchlist} {now : Tracker} (h : Seen w t rows now) (n : SocketName) :
    now.Tracks n ↔ t.Tracks n ∨ MatchedIn w rows n := by
  by_cases hn : MatchedIn w rows n
  · rcases h.of_matchedIn n hn with ⟨s, hs, _⟩
    rw [Tracker.tracks_iff]
    exact ⟨fun _ => Or.inr hn, fun _ => ⟨s, hs⟩⟩
  · rw [Tracks, h.of_not_matchedIn n hn]
    exact (or_iff_left hn).symm

theorem Seen.not_unmarked {w : Watchlist} {now : Tracker} (h : Seen w t rows now) {n : SocketName}
    (hn : MatchedIn w rows n) : ¬∃ s, now.find? n = some s ∧ s.generation ≠ now.generation := by
  intro hx
  rcases hx with ⟨s, hs, hmark⟩
  rcases h.of_matchedIn n hn with ⟨s', hs', hmark'⟩
  cases hs.symm.trans hs'
  exact hmark (hmark'.trans h.generation_eq.symm)

/-! ## Announcements -/

/-- A look at a row announces its socket if it matches and is not tracked, and no other. -/
theorem Valid.count_look (h : t.Valid) (requests : List Request) (row : SocketRow)
    (n : SocketName) :
    (t.look (.after requests) row).2.count (.started n) =
        (if row.Matched (.after requests) ∧ row.name = n ∧ ¬t.Tracks n then 1 else 0) ∧
      (t.look (.after requests) row).2.count (.stopped n) = 0 := by
  by_cases hrow : row.Matched (.after requests)
  · rcases Option.isSome_iff_exists.1 hrow with ⟨endpoint, hendpoint⟩
    have haddress := (Watchlist.lists_after requests).address_of_match? hendpoint
    rw [Tracker.look, hendpoint, h.events_observe haddress, List.count_append, List.count_append]
    -- An update is neither of the two announcements, so it does not count, reported or not.
    have hupdate : ∀ event, event ≠ .updated ⟨row.name, row.id, row.sample⟩ →
        List.count event
          (if (t.find? row.name).bind TrackedSocket.last = some row.sample then []
            else [SocketEvent.updated ⟨row.name, row.id, row.sample⟩]) = 0 := by
      intro event hne
      split
      · rfl
      · exact List.count_eq_zero_of_not_mem (mt List.mem_singleton.1 hne)
    rw [hupdate _ SocketEvent.noConfusion, hupdate _ SocketEvent.noConfusion]
    by_cases hname : row.name = n
    · by_cases htracks : t.Tracks n
      · simp [hname, htracks]
      · simp [hrow, hname, htracks]
    · by_cases htracks : t.Tracks row.name
      · simp [hname, htracks]
      · simp [hname, htracks]
  · rw [look_of_not_matched hrow, if_neg fun hn => hrow hn.1]
    exact ⟨rfl, rfl⟩

theorem Valid.count_watch (h : t.Valid) (requests : List Request) (rows : List SocketRow)
    (n : SocketName) :
    (watch (.after requests) t rows).2.count (.started n) =
        (if MatchedIn (.after requests) rows n ∧ ¬t.Tracks n then 1 else 0) ∧
      (watch (.after requests) t rows).2.count (.stopped n) = 0 := by
  induction rows using List.reverseRecOn with
  | nil =>
      rw [watch_nil, if_neg fun hn => matchedIn_nil _ n hn.1]
      exact ⟨rfl, rfl⟩
  | append_singleton rows row ih =>
      have hseen := h.seen requests rows
      have hlook := hseen.valid.count_look requests row n
      rw [watch_concat, List.count_append, List.count_append, ih.1, ih.2, hlook.1, hlook.2]
      refine ⟨?_, rfl⟩
      by_cases htracks : t.Tracks n
      · simp [hseen.tracks_iff, htracks]
      · by_cases hn : MatchedIn (.after requests) rows n
        · simp [hseen.tracks_iff, matchedIn_concat, htracks, hn]
        · simp [hseen.tracks_iff, matchedIn_concat, htracks, hn]

/-- The end of a poll announces the sockets without its mark. -/
theorem Valid.count_finishPoll (h : t.Valid) (n : SocketName) :
    t.finishPoll.2.count (.started n) = 0 ∧
      ((∃ s, t.find? n = some s ∧ s.generation ≠ t.generation) →
        t.finishPoll.2.count (.stopped n) = 1) ∧
      ((¬∃ s, t.find? n = some s ∧ s.generation ≠ t.generation) →
        t.finishPoll.2.count (.stopped n) = 0) := by
  rcases h.stopped with ⟨names, hevents, hnodup, hmem⟩
  have hinj : Function.Injective SocketEvent.stopped := fun a b hab => SocketEvent.stopped.inj hab
  have hmem' : SocketEvent.stopped n ∈ names.map SocketEvent.stopped ↔
      ∃ s, t.find? n = some s ∧ s.generation ≠ t.generation :=
    (List.mem_map_of_injective hinj).trans (hmem n)
  rw [hevents, ← hmem']
  refine ⟨?_, ?_, ?_⟩
  · rw [List.count_eq_zero, List.mem_map]
    intro hx
    rcases hx with ⟨name, _, heq⟩
    cases heq
  · exact List.count_eq_one_of_mem (hnodup.map hinj)
  · exact List.count_eq_zero_of_not_mem

/-! ## From poll to poll -/

/-- Every mark is at least one poll old and, if the last `k` polls were abandoned, at most `k + 1`
polls. -/
def Aged (k : Nat) (t : Tracker) : Prop :=
  ∀ n s, t.find? n = some s →
    ∃ age, 1 ≤ age ∧ age ≤ k + 1 ∧ t.generation = s.generation + UInt64.ofNat age

/-- Marks that are not too old differ from that of the next poll. -/
theorem Aged.generation_ne {k : Nat} (h : t.Aged k) (hk : k < 2 ^ 64 - 1) {n : SocketName}
    {s : TrackedSocket} (hs : t.find? n = some s) : s.generation ≠ t.generation := by
  rcases h n s hs with ⟨age, hpos, hle, heq⟩
  intro hmark
  have hnat := congrArg UInt64.toNat heq
  rw [hmark, UInt64.toNat_add, UInt64.toNat_ofNat'] at hnat
  have hlt := t.generation.toNat_lt
  omega

theorem Seen.aged_finishPoll {w : Watchlist} {now : Tracker} (h : Seen w t rows now) :
    now.finishPoll.1.Aged 0 := by
  intro n s hs
  rw [h.valid.finishPoll.2, Option.filter_eq_some_iff] at hs
  have hmark : s.generation = now.generation := of_decide_eq_true hs.2
  refine ⟨1, Nat.le_refl 1, Nat.le_refl 1, ?_⟩
  rw [generation_finishPoll, hmark]
  rfl

theorem Seen.aged_abandonPoll {w : Watchlist} {now : Tracker} (h : Seen w t rows now) {k : Nat}
    (hk : t.Aged k) : now.abandonPoll.Aged (k + 1) := by
  intro n s hs
  have hnow : now.find? n = some s := hs
  have hgeneration : now.abandonPoll.generation = t.generation + 1 := by
    rw [← h.generation_eq]
    rfl
  by_cases hn : MatchedIn w rows n
  · rcases h.of_matchedIn n hn with ⟨s', hs', hmark⟩
    cases hnow.symm.trans hs'
    refine ⟨1, Nat.le_refl 1, Nat.le_add_left 1 (k + 1), ?_⟩
    rw [hgeneration, hmark]
    rfl
  · rw [h.of_not_matchedIn n hn] at hnow
    rcases hk n s hnow with ⟨age, hpos, hle, heq⟩
    refine ⟨age + 1, Nat.le_add_left 1 age, Nat.succ_le_succ hle, ?_⟩
    rw [hgeneration, heq, UInt64.ofNat_add, UInt64.add_assoc]
    rfl

end Tracker

namespace Poll

/-- The watchlist of a poll. -/
def watchlist (p : Poll) : Watchlist :=
  .after p.requests

/-- What a poll makes of a tracker, and what it tells. -/
def run (p : Poll) (t : Tracker) : Tracker × List SocketEvent :=
  let state := t.watch p.watchlist p.rows
  if p.complete then (state.1.finishPoll.1, state.2 ++ state.1.finishPoll.2)
  else (state.1.abandonPoll, state.2)

/-- The tracker after polls, one after the other. -/
def trackerAfter (polls : List Poll) : Tracker :=
  polls.foldl (fun t p => (p.run t).1) .empty

/-- How many polls have been abandoned since the last one that was completed. -/
def abandonedLast (polls : List Poll) : Nat :=
  (polls.reverse.takeWhile fun p => !p.complete).length

theorem trackerAfter_concat (polls : List Poll) (p : Poll) :
    trackerAfter (polls ++ [p]) = (p.run (trackerAfter polls)).1 := by
  rw [trackerAfter, List.foldl_append]
  rfl

theorem abandonedLast_concat (polls : List Poll) (p : Poll) :
    abandonedLast (polls ++ [p]) = if p.complete then 0 else abandonedLast polls + 1 := by
  unfold abandonedLast
  rw [List.reverse_append]
  cases h : p.complete <;> simp [h]

theorem run_of_complete {p : Poll} (h : p.complete) (t : Tracker) :
    p.run t = ((t.watch p.watchlist p.rows).1.finishPoll.1,
      (t.watch p.watchlist p.rows).2 ++ (t.watch p.watchlist p.rows).1.finishPoll.2) := by
  rw [run, if_pos h]

theorem run_of_not_complete {p : Poll} (h : ¬p.complete) (t : Tracker) :
    p.run t = ((t.watch p.watchlist p.rows).1.abandonPoll,
      (t.watch p.watchlist p.rows).2) := by
  rw [run, if_neg h]

/-- After any polls the tracker is in order, and its marks are as old as they may be. -/
theorem trackerAfter_valid_aged (polls : List Poll) :
    (trackerAfter polls).Valid ∧ (trackerAfter polls).Aged (abandonedLast polls) := by
  induction polls using List.reverseRecOn with
  | nil =>
      refine ⟨Tracker.valid_empty, ?_⟩
      intro n s hs
      rw [trackerAfter, List.foldl_nil, Tracker.find?_empty] at hs
      cases hs
  | append_singleton polls p ih =>
      have hseen := ih.1.seen p.requests p.rows
      rw [trackerAfter_concat, abandonedLast_concat]
      by_cases hcomplete : p.complete
      · rw [run_of_complete hcomplete, if_pos hcomplete]
        exact ⟨hseen.valid.finishPoll.1, hseen.aged_finishPoll⟩
      · rw [run_of_not_complete hcomplete, if_neg hcomplete]
        exact ⟨hseen.valid.abandonPoll, hseen.aged_abandonPoll ih.2⟩

theorem seen_watch (polls : List Poll) (p : Poll) :
    Tracker.Seen p.watchlist (trackerAfter polls) p.rows
      ((trackerAfter polls).watch p.watchlist p.rows).1 :=
  (trackerAfter_valid_aged polls).1.seen p.requests p.rows

/-- Of the sockets that are tracked at the end of a poll, those have an older mark that no row of it
matched. -/
theorem unmarked_iff {polls : List Poll} (h : abandonedLast polls < 2 ^ 64 - 1) {p : Poll}
    {now : Tracker} (hnow : ((trackerAfter polls).watch p.watchlist p.rows).1 = now)
    (n : SocketName) :
    (∃ s, now.find? n = some s ∧ s.generation ≠ now.generation) ↔
      now.Tracks n ∧ ¬MatchedIn p.watchlist p.rows n := by
  have hseen := seen_watch polls p
  rw [hnow] at hseen
  constructor
  · intro hx
    refine ⟨?_, fun hn => hseen.not_unmarked hn hx⟩
    rcases hx with ⟨s, hs, _⟩
    exact Tracker.tracks_iff.2 ⟨s, hs⟩
  · intro hx
    rcases hx with ⟨htracks, hn⟩
    rcases Tracker.tracks_iff.1 htracks with ⟨s, hs⟩
    have hbefore := (hseen.of_not_matchedIn n hn).symm.trans hs
    refine ⟨s, hs, ?_⟩
    rw [hseen.generation_eq]
    exact (trackerAfter_valid_aged polls).2.generation_ne h hbefore

theorem tracks_finishPoll_iff {polls : List Poll} (h : abandonedLast polls < 2 ^ 64 - 1) {p : Poll}
    {now : Tracker} (hnow : ((trackerAfter polls).watch p.watchlist p.rows).1 = now)
    (n : SocketName) : now.finishPoll.1.Tracks n ↔ MatchedIn p.watchlist p.rows n := by
  have hseen := seen_watch polls p
  have hunmarked := unmarked_iff h hnow n
  rw [hnow] at hseen
  rw [Tracker.tracks_iff, hseen.valid.finishPoll.2]
  constructor
  · intro hx
    rcases hx with ⟨s, hs⟩
    rcases Option.filter_eq_some_iff.1 hs with ⟨hs, hmark⟩
    by_contra hn
    rcases hunmarked.2 ⟨Tracker.tracks_iff.2 ⟨s, hs⟩, hn⟩ with ⟨s', hs', hmark'⟩
    cases hs.symm.trans hs'
    exact hmark' (of_decide_eq_true hmark)
  · intro hn
    rcases hseen.of_matchedIn n hn with ⟨s, hs, hmark⟩
    rw [← hseen.generation_eq] at hmark
    exact ⟨s, Option.filter_eq_some_iff.2 ⟨hs, decide_eq_true hmark⟩⟩

/-- A row announces its socket if it is the first of the poll that matches it. -/
theorem count_look_watch (polls : List Poll) (p : Poll) (before : List SocketRow) (row : SocketRow)
    (n : SocketName) :
    (((trackerAfter polls).watch p.watchlist before).1.look p.watchlist row).2.count (.started n) =
      if row.Matched p.watchlist ∧ row.name = n ∧ ¬(trackerAfter polls).Tracks n ∧
        ¬MatchedIn p.watchlist before n then 1 else 0 := by
  have hseen := (trackerAfter_valid_aged polls).1.seen p.requests before
  have hcount := (hseen.valid.count_look p.requests row n).1
  simp only [hseen.tracks_iff, not_or] at hcount
  exact hcount

theorem count_started_run (polls : List Poll) (p : Poll) (n : SocketName) :
    (p.run (trackerAfter polls)).2.count (.started n) =
      if MatchedIn p.watchlist p.rows n ∧ ¬(trackerAfter polls).Tracks n then 1 else 0 := by
  have hseen := seen_watch polls p
  have hcount := ((trackerAfter_valid_aged polls).1.count_watch p.requests p.rows n).1
  by_cases hcomplete : p.complete
  · rw [run_of_complete hcomplete, List.count_append, (hseen.valid.count_finishPoll n).1]
    exact hcount
  · rw [run_of_not_complete hcomplete]
    exact hcount

theorem count_stopped_run_of_complete {polls : List Poll} (h : abandonedLast polls < 2 ^ 64 - 1)
    {p : Poll} (hcomplete : p.complete) (n : SocketName) :
    (p.run (trackerAfter polls)).2.count (.stopped n) =
      if ((trackerAfter polls).watch p.watchlist p.rows).1.Tracks n ∧
        ¬MatchedIn p.watchlist p.rows n then 1 else 0 := by
  have hseen := seen_watch polls p
  have hwatch : ((trackerAfter polls).watch p.watchlist p.rows).2.count (.stopped n) = 0 :=
    ((trackerAfter_valid_aged polls).1.count_watch p.requests p.rows n).2
  rcases hseen.valid.count_finishPoll n with ⟨_, hone, hzero⟩
  rw [unmarked_iff h rfl] at hone hzero
  rw [run_of_complete hcomplete, List.count_append, hwatch, Nat.zero_add]
  split
  · next hstopped => exact hone hstopped
  · next hstopped => exact hzero hstopped

/-- What a poll says about which sockets are watched, after any polls of which fewer than
`2 ^ 64 - 1` at the end were abandoned. A socket is announced as started at the first row that
matches, if it was not tracked. At the end of a complete poll those are announced as stopped that
are tracked and that no row of the poll matched, and the others stay tracked. A poll that is
abandoned announces none as stopped, and forgets none. -/
theorem lifecycle (polls : List Poll) (h : abandonedLast polls < 2 ^ 64 - 1) (p : Poll) :
    let t := trackerAfter polls
    let w := p.watchlist
    (∀ before row rest, p.rows = before ++ row :: rest → ∀ n,
      ((t.watch w before).1.look w row).2.count (.started n) =
        if row.Matched w ∧ row.name = n ∧ ¬t.Tracks n ∧ ¬MatchedIn w before n then 1 else 0) ∧
    (∀ n, (p.run t).2.count (.started n) =
      if MatchedIn w p.rows n ∧ ¬t.Tracks n then 1 else 0) ∧
    (p.complete → ∀ n,
      (p.run t).2.count (.stopped n) =
        (if (t.watch w p.rows).1.Tracks n ∧ ¬MatchedIn w p.rows n then 1 else 0) ∧
      ((p.run t).1.Tracks n ↔ MatchedIn w p.rows n)) ∧
    (¬p.complete → ∀ n,
      (p.run t).2.count (.stopped n) = 0 ∧
      ((p.run t).1.Tracks n ↔ t.Tracks n ∨ MatchedIn w p.rows n)) := by
  refine ⟨?_, ?_, ?_, ?_⟩
  · intro before row rest _ n
    exact count_look_watch polls p before row n
  · exact count_started_run polls p
  · intro hcomplete n
    refine ⟨count_stopped_run_of_complete h hcomplete n, ?_⟩
    rw [run_of_complete hcomplete]
    exact tracks_finishPoll_iff h rfl n
  · intro hcomplete n
    rw [run_of_not_complete hcomplete]
    have hcount := (trackerAfter_valid_aged polls).1.count_watch p.requests p.rows n
    exact ⟨hcount.2, (seen_watch polls p).tracks_iff n⟩

/-- A spec for one port of the loopback address. -/
def loopbackSpec : SocketSpec :=
  ⟨.v4 (.ofOctets 127 0 0 1), some 80, none⟩

/-- A row that belongs to it. -/
def loopbackRow : SocketRow :=
  ⟨.ofEndpoint ⟨.ofOctets 127 0 0 1, 80⟩, 0, 4, 65543, none⟩

theorem lifecycle_loopback :
    let seen : Poll := ⟨[.register loopbackSpec], [loopbackRow, loopbackRow], true⟩
    let failed : Poll := ⟨[.register loopbackSpec], [], false⟩
    let gone : Poll := ⟨[.register loopbackSpec], [], true⟩
    abandonedLast [seen, failed] < 2 ^ 64 - 1 ∧
      (seen.run (trackerAfter [])).2.count (.started loopbackRow.name) = 1 ∧
      (gone.run (trackerAfter [seen, failed])).2.count (.stopped loopbackRow.name) = 1 := by
  intro seen failed gone
  have hmatched : MatchedIn seen.watchlist seen.rows loopbackRow.name :=
    ⟨loopbackRow, List.mem_cons_self, by decide +kernel, rfl⟩
  have hempty : ¬(trackerAfter []).Tracks loopbackRow.name := by
    rw [Tracker.Tracks, trackerAfter, List.foldl_nil, Tracker.find?_empty]
    exact Bool.false_ne_true
  have hnone : abandonedLast [] < 2 ^ 64 - 1 := by decide
  have hone : abandonedLast [seen, failed] < 2 ^ 64 - 1 := by decide
  have hseen : (trackerAfter [seen]).Tracks loopbackRow.name :=
    ((lifecycle [] hnone seen).2.2.1 rfl loopbackRow.name).2.2 hmatched
  have hfailed : (trackerAfter [seen, failed]).Tracks loopbackRow.name :=
    ((lifecycle [seen] hnone failed).2.2.2 Bool.false_ne_true loopbackRow.name).2.2 (Or.inl hseen)
  refine ⟨hone, ?_, ?_⟩
  · rw [(lifecycle [] hnone seen).2.1 loopbackRow.name, if_pos ⟨hmatched, hempty⟩]
  · rw [((lifecycle [seen, failed] hone gone).2.2.1 rfl loopbackRow.name).1,
      if_pos ⟨hfailed, matchedIn_nil _ _⟩]

end Poll

end QueueWatch
