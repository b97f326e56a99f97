import QueueWatch.Proofs.Monitor.Updates
import QueueWatch.Proofs.SlotTable.Values

/-!
# The order of identifiers does not show

A socket can be registered under several identifiers, and a watchlist gives the endpoint of the
first one that is registered. In which order they are tried decides which endpoint that is, and a
tracker keeps the endpoint for as long as it tracks the socket. But the endpoints that are
registered for a socket differ in their ports only, and of the endpoint that it keeps a tracker shows
the address. So trackers that try the identifiers in different orders tell the same, poll by poll
(`Poll.toldBy_eq_of_perm`).

The proof is a simulation: the trackers are equal when the ports that were asked for are forgotten
(`Tracker.forgetPorts`), and every operation of a tracker commutes with forgetting them.
-/

namespace QueueWatch

/-- An order in which the identifiers of a socket can be tried, given its identifier without inode,
and its inode. -/
abbrev TrialOrder := SocketId → UInt64 → List SocketId

/-- The endpoint with a port that stands for any. -/
def Endpoint.forgetPort (e : Endpoint) : Endpoint :=
  ⟨e.address, 0⟩

def TrackedSocket.forgetPort (s : TrackedSocket) : TrackedSocket :=
  { s with requested := s.requested.forgetPort }

namespace Watchlist

variable {w : Watchlist} {specs : List SocketSpec}

/-- Whichever order the identifiers of a socket are tried in, one of them is registered or none, and
the endpoint that is found has the address of the socket. -/
theorem Lists.forgetPort_firstOf? (h : w.Lists specs) {ids : List SocketId} {plain : SocketId}
    {inode : UInt64} (hids : ids.Perm (forms plain inode)) :
    (w.firstOf? ids).map Endpoint.forgetPort = (w.match? plain inode).map Endpoint.forgetPort := by
  have hnone : w.firstOf? ids = none ↔ w.match? plain inode = none := by
    rw [match?_eq_none_iff, firstOf?, List.findSome?_eq_none_iff]
    exact forall_congr' fun id => imp_congr_left hids.mem_iff
  cases hfirst : w.firstOf? ids with
  | none => rw [hnone.1 hfirst]
  | some e =>
      cases hmatch : w.match? plain inode with
      | none =>
          rw [hnone.2 hmatch] at hfirst
          cases hfirst
      | some e' =>
          rcases List.exists_of_findSome?_eq_some hfirst with ⟨id, hid, hfound⟩
          have haddress : e.address = plain.address := by
            rw [((h id e).1 hfound).1, ← (mem_forms_iff.1 (hids.mem_iff.1 hid)).1]
            rfl
          have haddress' := h.address_of_match? hmatch
          rw [Option.map_some, Option.map_some, Endpoint.forgetPort, Endpoint.forgetPort,
            haddress, haddress']

end Watchlist

namespace Tracker

/-- The tracker without the ports that were asked for. -/
def forgetPorts (t : Tracker) : Tracker :=
  { t with sockets := t.sockets.mapValues fun _ s => s.forgetPort }

theorem getKey?_forgetPorts (t : Tracker) (key : Key 16) :
    t.forgetPorts.sockets.getKey? key = (t.sockets.getKey? key).map TrackedSocket.forgetPort :=
  SlotTable.getKey?_mapValues ..

theorem enlist_forgetPorts (t : Tracker) (key : Key 16) (e : Endpoint) (row : SocketRow) :
    t.forgetPorts.enlist key e.forgetPort row =
      ((t.enlist key e row).1.forgetPorts, (t.enlist key e row).2) := by
  unfold enlist
  rw [getKey?_forgetPorts]
  cases t.sockets.getKey? key with
  | some s => rfl
  | none =>
      have hinsert := congrArg Prod.snd (SlotTable.insertKey_mapValues
        (fun _ s => s.forgetPort) t.sockets key (row.begin e t.generation))
      exact congrArg (fun sockets => (Tracker.mk sockets t.generation, _)) hinsert

theorem report_forgetPorts (t : Tracker) (key : Key 16) (row : SocketRow) :
    t.forgetPorts.report key row = ((t.report key row).1.forgetPorts, (t.report key row).2) := by
  unfold report
  rw [getKey?_forgetPorts]
  cases t.sockets.getKey? key with
  | none => rfl
  | some s =>
      have hmodify : t.forgetPorts.sockets.modifyKey key (·.see row.sample t.generation) =
          (t.sockets.modifyKey key (·.see row.sample t.generation)).mapValues
            fun _ s => s.forgetPort :=
        SlotTable.modifyKey_mapValues _ _ fun _ => rfl
      exact congrArg (fun sockets => (Tracker.mk sockets t.generation, _)) hmodify

/-- A look at a row does not depend on the ports that were asked for. -/
theorem observe_forgetPorts (t : Tracker) (requested : Option Endpoint) (row : SocketRow) :
    t.forgetPorts.observe (requested.map Endpoint.forgetPort) row =
      ((t.observe requested row).1.forgetPorts, (t.observe requested row).2) := by
  cases requested with
  | none => rfl
  | some e =>
      have hencode : t.forgetPorts.sockets.encode row.key = t.sockets.encode row.key := rfl
      simp only [observe, Option.map_some, hencode, enlist_forgetPorts, report_forgetPorts]

theorem stale_forgetPorts (t : Tracker) :
    t.forgetPorts.stale = t.stale.map (changeEntry fun _ s => s.forgetPort) := by
  have hentries : t.forgetPorts.sockets.entries =
      t.sockets.entries.map (changeEntry fun _ s => s.forgetPort) :=
    SlotTable.entries_mapValues ..
  rw [stale, stale, hentries, List.filter_map]
  rfl

theorem forget_forgetPorts (t : Tracker) (key : Key 16) :
    t.forgetPorts.forget key = ((t.forget key).1.forgetPorts, (t.forget key).2) := by
  have herase := SlotTable.eraseKey_mapValues (fun _ s => s.forgetPort) t.sockets key
  rw [forget_eq, forget_eq, show t.forgetPorts.sockets.eraseKey key = _ from herase,
    Option.map_map]
  rfl

theorem forgetAll_forgetPorts (t : Tracker) (keys : List (Key 16)) :
    t.forgetPorts.forgetAll keys = ((t.forgetAll keys).1.forgetPorts, (t.forgetAll keys).2) := by
  induction keys generalizing t with
  | nil => rfl
  | cons key keys ih => rw [forgetAll_cons, forget_forgetPorts, ih, forgetAll_cons]

theorem finishPoll_forgetPorts (t : Tracker) :
    t.forgetPorts.finishPoll = (t.finishPoll.1.forgetPorts, t.finishPoll.2) := by
  have hkeys : t.forgetPorts.stale.map Prod.fst = t.stale.map Prod.fst := by
    rw [stale_forgetPorts, List.map_map]
    rfl
  unfold finishPoll
  rw [hkeys, forgetAll_forgetPorts]
  rfl

/-! ## Orders -/

/-- Looks at a row with a watchlist, where identifiers are tried in an order. -/
def lookBy (order : TrialOrder) (w : Watchlist) (t : Tracker) (row : SocketRow) :
    Tracker × List SocketEvent :=
  t.observe (w.firstOf? (order row.id row.inode)) row

/-- Looks at rows with a watchlist, one after the other. -/
def watchBy (order : TrialOrder) (w : Watchlist) (t : Tracker) (rows : List SocketRow) :
    Tracker × List SocketEvent :=
  t.lookAll (lookBy order w) rows

variable {order : TrialOrder} {t t' : Tracker}

section

variable (horder : ∀ plain inode, (order plain inode).Perm (Watchlist.forms plain inode))
  (ht : t.forgetPorts = t'.forgetPorts) (requests : List Request)

include horder ht

/-- Trackers that differ in the ports that were asked for say the same about a row, whatever order
the one of them uses, and go on to differ in these ports only. -/
theorem lookBy_of_perm (row : SocketRow) :
    (t.lookBy order (.after requests) row).1.forgetPorts =
        (t'.look (.after requests) row).1.forgetPorts ∧
      (t.lookBy order (.after requests) row).2 = (t'.look (.after requests) row).2 := by
  have hfirst := (Watchlist.lists_after requests).forgetPort_firstOf? (horder row.id row.inode)
  have hlook := t.observe_forgetPorts
    ((Watchlist.after requests).firstOf? (order row.id row.inode)) row
  rw [hfirst, ht, observe_forgetPorts] at hlook
  exact Prod.mk.inj hlook.symm

theorem watchBy_of_perm (rows : List SocketRow) :
    (t.watchBy order (.after requests) rows).1.forgetPorts =
        (t'.watch (.after requests) rows).1.forgetPorts ∧
      (t.watchBy order (.after requests) rows).2 = (t'.watch (.after requests) rows).2 := by
  induction rows generalizing t t' with
  | nil => exact ⟨ht, rfl⟩
  | cons row rows ih =>
      rcases lookBy_of_perm horder ht requests row with ⟨hnext, htold⟩
      rcases ih hnext with ⟨hlast, hrest⟩
      exact ⟨hlast, congrArg₂ (· ++ ·) htold hrest⟩

end

end Tracker

namespace Poll

/-- What a poll makes of a tracker, and what it tells, where identifiers are tried in an order. -/
def runBy (order : TrialOrder) (p : Poll) (t : Tracker) : Tracker × List SocketEvent :=
  let state := t.watchBy order p.watchlist p.rows
  if p.complete then (state.1.finishPoll.1, state.2 ++ state.1.finishPoll.2)
  else (state.1.abandonPoll, state.2)

/-- What polls tell, one after the other, where identifiers are tried in an order. -/
def toldFrom (order : TrialOrder) (t : Tracker) : List Poll → List (List SocketEvent)
  | [] => []
  | p :: rest => (p.runBy order t).2 :: toldFrom order (p.runBy order t).1 rest

/-- What polls by a new tracker tell. -/
def toldBy (order : TrialOrder) (polls : List Poll) : List (List SocketEvent) :=
  toldFrom order .empty polls

variable {order : TrialOrder}

/-- With the forms of an identifier in the order of the watchlist, polls are what they are. -/
theorem runBy_forms (p : Poll) (t : Tracker) : p.runBy Watchlist.forms t = p.run t := rfl

theorem flatten_toldFrom_forms (t : Tracker) (polls : List Poll) :
    (toldFrom Watchlist.forms t polls).flatten = (historyFrom t polls).flatMap Moment.told := by
  induction polls generalizing t with
  | nil => rfl
  | cons p polls ih =>
      rw [toldFrom, historyFrom, List.flatten_cons, List.flatMap_append, ih, runBy_forms,
        told_moments]

section

variable (horder : ∀ plain inode, (order plain inode).Perm (Watchlist.forms plain inode))

include horder

theorem runBy_of_perm {t t' : Tracker} (ht : t.forgetPorts = t'.forgetPorts) (p : Poll) :
    (p.runBy order t).1.forgetPorts = (p.run t').1.forgetPorts ∧
      (p.runBy order t).2 = (p.run t').2 := by
  rcases Tracker.watchBy_of_perm horder ht p.requests p.rows with ⟨hwatch, htold⟩
  unfold runBy
  by_cases hcomplete : p.complete
  · have hfinish := Tracker.finishPoll_forgetPorts (t.watchBy order p.watchlist p.rows).1
    rw [watchlist, hwatch, Tracker.finishPoll_forgetPorts] at hfinish
    rcases Prod.mk.inj hfinish with ⟨hnext, hgone⟩
    rw [if_pos hcomplete, run_of_complete hcomplete]
    exact ⟨hnext.symm, congrArg₂ (· ++ ·) htold hgone.symm⟩
  · rw [if_neg hcomplete, run_of_not_complete hcomplete]
    exact ⟨congrArg Tracker.abandonPoll hwatch, htold⟩

theorem toldFrom_of_perm {t t' : Tracker} (ht : t.forgetPorts = t'.forgetPorts)
    (polls : List Poll) : toldFrom order t polls = toldFrom Watchlist.forms t' polls := by
  induction polls generalizing t t' with
  | nil => rfl
  | cons p polls ih =>
      rcases runBy_of_perm horder ht p with ⟨hnext, htold⟩
      rw [toldFrom, toldFrom, runBy_forms, htold, ih hnext]

/-- In whichever order a tracker tries the identifiers of a socket, every poll tells the same, event
by event, as if they are tried in the order of the watchlist, and this is what the polls of a tracker
tell. The polls are any polls with watchlists that come of requests, completed or not. -/
theorem toldBy_eq_of_perm (polls : List Poll) :
    toldBy order polls = toldBy Watchlist.forms polls ∧
      (toldBy Watchlist.forms polls).flatten = told polls :=
  ⟨toldFrom_of_perm horder rfl polls, flatten_toldFrom_forms .empty polls⟩

end

/-- The identifiers of a socket, the least particular one first. -/
def leastFirst : TrialOrder :=
  fun plain inode => (Watchlist.forms plain inode).reverse

/-- A poll that sees a socket while its address is registered, alone and with its port. -/
def twofoldPoll : Poll :=
  ⟨[.register loopbackSpec, .register { loopbackSpec with port := none }], [loopbackRow], true⟩

/-- A tracker that tries the least particular identifier first finds another endpoint for the
socket, and tells the same of it, then and when the socket is gone. -/
theorem toldBy_eq_of_perm_leastFirst :
    let w := twofoldPoll.watchlist
    let polls := [twofoldPoll, ⟨[], [], true⟩]
    w.firstOf? (leastFirst loopbackRow.id loopbackRow.inode) = some ⟨.ofOctets 127 0 0 1, 0⟩ ∧
    w.match? loopbackRow.id loopbackRow.inode = some ⟨.ofOctets 127 0 0 1, 80⟩ ∧
    toldBy leastFirst polls = toldBy Watchlist.forms polls := by
  intro w polls
  have horder : ∀ plain inode, (leastFirst plain inode).Perm (Watchlist.forms plain inode) :=
    fun plain inode => List.reverse_perm _
  exact ⟨by decide +kernel, by decide +kernel, (toldBy_eq_of_perm horder polls).1⟩

end Poll

end QueueWatch
