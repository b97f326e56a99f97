import QueueWatch.Proofs.Ownership.Forwarding

/-!
# What an ownership filter does with polls

The updates that a poll reports stand among announcements, and all scans that they trigger have the
same outcome. A filter hands the announcements on where they stand, and deals with the updates as if
they arrived by themselves: over any polls it knows, passes, scans and warns what comes of all
updates one after the other (`OwnershipFilter.sift_polls_concat`). So the updates of a poll that
pass are those whose inodes a scan has found, in this poll or before
(`OwnershipFilter.passed_filterEvents_concat`). If all scans find the same inodes, these are the
updates about them (`OwnershipFilter.passed_filterEvents_of_constant`).
-/

namespace QueueWatch

/-- An event that reaches a filter in a poll. Announcements are nothing to judge. -/
def Arrival.ofEvent? (scan : Scan) : SocketEvent → Option Arrival
  | .updated update => some ⟨update, scan⟩
  | .started _ | .stopped _ => none

/-- The updates among events that reach a filter in a poll. -/
def Arrival.ofEvents (scan : Scan) (events : List SocketEvent) : List Arrival :=
  events.filterMap (ofEvent? scan)

/-- The updates in polls, each of which has its scan and its events. -/
def Arrival.ofPolls (polls : List (Scan × List SocketEvent)) : List Arrival :=
  polls.flatMap fun p => ofEvents p.1 p.2

/-- The same without the announcements that have passed. -/
def Filtered.withoutLifecycle (s : Filtered) : Filtered :=
  { s with passed := s.passed.filter fun e => !e.isLifecycle }

namespace OwnershipFilter

/-- A filter after polls. -/
def afterPolls (polls : List (Scan × List SocketEvent)) : OwnershipFilter :=
  polls.foldl (fun f p => (f.filterEvents p.1 p.2).filter) .empty

variable {scan : Scan}

theorem filterEvents_concat (f : OwnershipFilter) (scan : Scan) (events : List SocketEvent)
    (e : SocketEvent) :
    f.filterEvents scan (events ++ [e]) = (f.filterEvents scan events).take scan e := by
  rw [filterEvents, List.foldl_append]
  rfl

/-- An update is dealt with in the same way wherever it stands. -/
theorem withoutLifecycle_take_updated (s : Filtered) (u : SocketUpdate) :
    (s.take scan (.updated u)).withoutLifecycle = s.withoutLifecycle.take scan (.updated u) := by
  have hpassed : (s.take scan (.updated u)).withoutLifecycle.passed =
      (s.withoutLifecycle.take scan (.updated u)).passed := by
    by_cases hpasses : (s.filter.judge scan u.name.inode).2.passes <;>
      simp [Filtered.take, Filtered.withoutLifecycle, hpasses, SocketEvent.isLifecycle]
  exact congrArg (fun passed => { s.take scan (.updated u) with passed }) hpassed

theorem take_of_lifecycle (s : Filtered) {e : SocketEvent} (h : e.isLifecycle) :
    s.take scan e = { s with passed := s.passed ++ [e] } := by
  cases e with
  | updated u => cases h
  | started n => rfl
  | stopped n => rfl

theorem withoutLifecycle_take_of_lifecycle (s : Filtered) {e : SocketEvent}
    (h : e.isLifecycle) : (s.take scan e).withoutLifecycle = s.withoutLifecycle := by
  rw [take_of_lifecycle s h]
  simp [Filtered.withoutLifecycle, h]

/-- Announcements do not matter for the updates among them. -/
theorem withoutLifecycle_foldl_take (events : List SocketEvent) (s : Filtered) :
    (events.foldl (Filtered.take scan) s).withoutLifecycle =
      siftFrom s.withoutLifecycle (Arrival.ofEvents scan events) := by
  induction events generalizing s with
  | nil => rfl
  | cons e events ih =>
      rw [List.foldl_cons, ih]
      cases e with
      | updated u =>
          rw [withoutLifecycle_take_updated]
          rfl
      | started n =>
          rw [withoutLifecycle_take_of_lifecycle s rfl]
          rfl
      | stopped n =>
          rw [withoutLifecycle_take_of_lifecycle s rfl]
          rfl

theorem withoutLifecycle_filterEvents (f : OwnershipFilter) (scan : Scan)
    (events : List SocketEvent) :
    (f.filterEvents scan events).withoutLifecycle =
      siftFrom { filter := f } (Arrival.ofEvents scan events) :=
  withoutLifecycle_foldl_take events { filter := f }

/-- A filter keeps the order of the events, and lets every announcement pass. -/
theorem announcements_filterEvents (f : OwnershipFilter) (scan : Scan)
    (events : List SocketEvent) :
    (f.filterEvents scan events).passed.Sublist events ∧
      (f.filterEvents scan events).passed.filter SocketEvent.isLifecycle =
        events.filter SocketEvent.isLifecycle := by
  induction events using List.reverseRecOn with
  | nil => exact ⟨List.Sublist.refl [], rfl⟩
  | append_singleton events e ih =>
      rw [filterEvents_concat]
      cases e with
      | updated u =>
          simp only [Filtered.take]
          split
          · rw [List.filter_append, List.filter_append, ih.2]
            exact ⟨ih.1.append_right _, rfl⟩
          · rw [List.filter_append, ih.2]
            exact ⟨ih.1.trans (List.sublist_append_left _ _), (List.append_nil _).symm⟩
      | started n =>
          refine ⟨ih.1.append_right _, ?_⟩
          rw [List.filter_append, ← ih.2]
          exact List.filter_append ..
      | stopped n =>
          refine ⟨ih.1.append_right _, ?_⟩
          rw [List.filter_append, ← ih.2]
          exact List.filter_append ..

/-! ## Polls one after the other -/

theorem ofPolls_concat (past : List (Scan × List SocketEvent)) (scan : Scan)
    (events : List SocketEvent) :
    Arrival.ofPolls (past ++ [(scan, events)]) =
      Arrival.ofPolls past ++ Arrival.ofEvents scan events := by
  rw [Arrival.ofPolls, List.flatMap_append, List.flatMap_singleton]
  rfl

/-- What a filter knows after polls is what it knows after their updates. -/
theorem afterPolls_eq (polls : List (Scan × List SocketEvent)) :
    afterPolls polls = (sift (Arrival.ofPolls polls)).filter := by
  induction polls using List.reverseRecOn with
  | nil => rfl
  | append_singleton polls p ih =>
      have hlast : afterPolls (polls ++ [p]) =
          ((afterPolls polls).filterEvents p.1 p.2).filter := by
        rw [afterPolls, List.foldl_append]
        rfl
      have hfilter := congrArg Filtered.filter
        (withoutLifecycle_filterEvents (afterPolls polls) p.1 p.2)
      rw [hlast, ofPolls_concat, sift_append, ← ih]
      exact hfilter

/-- A poll adds to what has come of the updates before it what comes of its own updates, and its
announcements do not matter. -/
theorem sift_polls_concat (past : List (Scan × List SocketEvent)) (scan : Scan)
    (events : List SocketEvent) :
    sift (Arrival.ofPolls (past ++ [(scan, events)])) =
      (sift (Arrival.ofPolls past)).join
        ((afterPolls past).filterEvents scan events).withoutLifecycle := by
  rw [ofPolls_concat, sift_append, ← afterPolls_eq, withoutLifecycle_filterEvents]

/-- The next event of a poll, after any others and any polls. An announcement passes, and an update
passes just if a scan has found its inode. -/
theorem passed_filterEvents_concat (past : List (Scan × List SocketEvent)) (scan : Scan)
    (events : List SocketEvent) :
    let filtered := (afterPolls past).filterEvents scan
    let arrived := Arrival.ofPolls past ++ Arrival.ofEvents scan events
    (∀ e, e.isLifecycle → (filtered (events ++ [e])).passed = (filtered events).passed ++ [e]) ∧
    ∀ u : SocketUpdate,
      (Found (arrived ++ [⟨u, scan⟩]) u.name.inode →
        (filtered (events ++ [.updated u])).passed = (filtered events).passed ++ [.updated u]) ∧
      (¬Found (arrived ++ [⟨u, scan⟩]) u.name.inode →
        (filtered (events ++ [.updated u])).passed = (filtered events).passed) := by
  intro filtered arrived
  have hknown : (filtered events).filter = (sift arrived).filter := by
    have hpoll := congrArg Filtered.filter (sift_polls_concat past scan events)
    rw [ofPolls_concat] at hpoll
    exact hpoll.symm
  have hnext : ∀ e, filtered (events ++ [e]) = (filtered events).take scan e :=
    filterEvents_concat (afterPolls past) scan events
  refine ⟨?_, fun u => ?_⟩
  · intro e he
    rw [hnext, take_of_lifecycle _ he]
  · have hpasses := passes_iff_found arrived ⟨u, scan⟩
    rw [← hknown] at hpasses
    rw [hnext]
    exact ⟨fun hfound => if_pos (hpasses.2 hfound),
      fun hnever => if_neg fun h => hnever (hpasses.1 h)⟩

theorem scan_of_mem_ofEvents {events : List SocketEvent} {a : Arrival}
    (h : a ∈ Arrival.ofEvents scan events) : a.scan = scan := by
  rcases List.mem_filterMap.1 h with ⟨e, _, he⟩
  cases e with
  | updated u =>
      cases he
      rfl
  | started n => cases he
  | stopped n => cases he

theorem scan_of_mem_ofPolls {polls : List (Scan × List SocketEvent)}
    (hpolls : ∀ p ∈ polls, p.1 = scan) {a : Arrival} (h : a ∈ Arrival.ofPolls polls) :
    a.scan = scan := by
  rcases List.mem_flatMap.1 h with ⟨p, hp, ha⟩
  rw [scan_of_mem_ofEvents ha, hpolls p hp]

/-- Whether an event passes that is an announcement, or an update about one of the given inodes. -/
def passesFor (own : InodeSet) : SocketEvent → Bool
  | .updated u => u.name.inode ∈ own
  | .started _ | .stopped _ => true

/-- If all scans find the same inodes, the updates about these pass, and no others. -/
theorem passed_filterEvents_of_constant (own : InodeSet) (past : List (List SocketEvent))
    (events : List SocketEvent) :
    ((afterPolls (past.map fun events => (.ok own, events))).filterEvents (.ok own) events).passed =
      events.filter (passesFor own) := by
  have hpolls : ∀ p ∈ past.map fun events => ((.ok own : Scan), events), p.1 = .ok own := by
    intro p hp
    rcases List.mem_map.1 hp with ⟨_, _, rfl⟩
    rfl
  induction events using List.reverseRecOn with
  | nil => rfl
  | append_singleton events e ih =>
      rcases passed_filterEvents_concat (past.map fun events => (.ok own, events)) (.ok own) events
        with ⟨hlifecycle, hupdated⟩
      rw [List.filter_append, ← ih]
      cases e with
      | started n => exact hlifecycle _ rfl
      | stopped n => exact hlifecycle _ rfl
      | updated u =>
          have hscans : ∀ a ∈ Arrival.ofPolls (past.map fun events => (.ok own, events)) ++
              Arrival.ofEvents (.ok own) events, a.scan = .ok own := by
            intro a ha
            exact (List.mem_append.1 ha).elim (scan_of_mem_ofPolls hpolls) scan_of_mem_ofEvents
          have hfound : Found (_ ++ [⟨u, .ok own⟩]) u.name.inode ↔ u.name.inode ∈ own :=
            found_concat_iff_of_constant hscans rfl
          by_cases hown : u.name.inode ∈ own
          · rw [(hupdated u).1 (hfound.2 hown)]
            simp [passesFor, hown]
          · rw [(hupdated u).2 fun h => hown (hfound.1 h)]
            simp [passesFor, hown]

end OwnershipFilter

end QueueWatch
