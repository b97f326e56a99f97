import QueueWatch.Proofs.Monitor.Instance
import QueueWatch.Proofs.SlotTable.Values

/-!
# What a tracker knows

A tracker is a finite map from names of sockets to what it knows of them (`find?`), because each
socket is stored under the key of its own name (`Valid`). A socket in a row that is stored first and
then looked up and changed is found again, so both together are one insertion (`Valid.observe_eq`).
Looking at a row changes what is known of the socket in the row and nothing else (`Valid.observe`).
At the end of a poll every socket that is removed is one that was listed, with what was listed of it
(`Valid.finishPoll_eq`), and the sockets are left that carry the mark of the poll
(`Valid.finishPoll`). How the slots are arranged, and rearranged while sockets are forgotten one by
one, does not show.
-/

namespace QueueWatch

namespace Tracker

variable {t : Tracker}

/-- What is known of the socket with a name. -/
def find? (t : Tracker) (n : SocketName) : Option TrackedSocket :=
  t.sockets.getKey? n.slotKey

/-- Whether a socket is tracked. -/
def Tracks (t : Tracker) (n : SocketName) : Prop :=
  (t.find? n).isSome

instance (t : Tracker) (n : SocketName) : Decidable (t.Tracks n) :=
  inferInstanceAs (Decidable (_ = true))

/-- Every socket is stored under the key of its name, and its identifier is that of its name. -/
structure Valid (t : Tracker) : Prop where
  wellFormed : t.sockets.WellFormed
  encoder_eq : t.sockets.encoder = InstanceKey.encode
  stored : ∀ key s, t.sockets.getKey? key = some s → key = s.name.slotKey ∧ s.id = s.name.id

theorem tracks_iff {n : SocketName} : t.Tracks n ↔ ∃ s, t.find? n = some s :=
  Option.isSome_iff_exists

theorem Valid.encode_key (h : t.Valid) (row : SocketRow) :
    t.sockets.encode row.key = row.name.slotKey := by
  rw [SlotTable.encode, h.encoder_eq]
  rfl

theorem Valid.name_eq (h : t.Valid) {n : SocketName} {s : TrackedSocket} (hs : t.find? n = some s) :
    s.name = n :=
  (SocketName.slotKey_inj.1 (h.stored n.slotKey s hs).1).symm

theorem valid_empty : Valid empty where
  wellFormed := SlotTable.wellFormed_withHasher ..
  encoder_eq := rfl
  stored key s hs := by
    rw [empty, SlotTable.empty, SlotTable.withCapacity, SlotTable.getKey?_withHasher] at hs
    cases hs

theorem find?_empty (n : SocketName) : empty.find? n = none :=
  SlotTable.getKey?_withHasher ..

theorem Valid.map_slotKey_names (h : t.Valid) {entries : List (Key 16 × TrackedSocket)}
    (hentries : entries ⊆ t.sockets.entries) :
    (entries.map fun entry => entry.2.name).map SocketName.slotKey = entries.map Prod.fst := by
  rw [List.map_map]
  refine List.map_congr_left fun entry hentry => ?_
  exact (h.stored entry.1 entry.2 (h.wellFormed.mem_entries.1 (hentries hentry))).1.symm

/-- A tracker is as large as there are sockets that it tracks. -/
theorem Valid.exists_names (h : t.Valid) :
    ∃ names : List SocketName, names.Nodup ∧ names.length = t.size ∧
      ∀ n, n ∈ names ↔ t.Tracks n := by
  have hkeys := h.map_slotKey_names (List.Subset.refl t.sockets.entries)
  refine ⟨t.sockets.entries.map fun entry => entry.2.name, ?_, ?_, ?_⟩
  · have hnodup := h.wellFormed.nodup_keys
    rw [← hkeys] at hnodup
    exact hnodup.of_map
  · rw [List.length_map]
    exact h.wellFormed.length_entries
  · intro n
    have hinj : Function.Injective SocketName.slotKey := fun a b => SocketName.slotKey_inj.1
    rw [← List.mem_map_of_injective hinj, hkeys, List.mem_map, tracks_iff]
    constructor
    · intro hx
      rcases hx with ⟨⟨key, s⟩, hentry, rfl⟩
      exact ⟨s, h.wellFormed.mem_entries.1 hentry⟩
    · intro hx
      rcases hx with ⟨s, hs⟩
      exact ⟨(n.slotKey, s), h.wellFormed.mem_entries.2 hs, rfl⟩

/-! ## Looking at a row -/

/-- What is known of the socket in a row while it is looked at, before its values are. -/
def enlisted (t : Tracker) (endpoint : Endpoint) (row : SocketRow) : TrackedSocket :=
  (t.find? row.name).getD (row.begin endpoint t.generation)

/-- What is known of a socket after a look at its row. -/
def known (t : Tracker) (endpoint : Endpoint) (row : SocketRow) : TrackedSocket :=
  (t.enlisted endpoint row).see row.sample t.generation

theorem observe_none (t : Tracker) (row : SocketRow) : t.observe none row = (t, []) := rfl

/-- The socket in a row is stored as it is known after the look, whether it was stored before or is
stored first without values. Its row is never lost in between. -/
theorem Valid.observe_eq (h : t.Valid) (endpoint : Endpoint) (row : SocketRow) :
    t.observe (some endpoint) row =
      ({ t with sockets := (t.sockets.insertKey row.name.slotKey (t.known endpoint row)).2 },
        (if t.Tracks row.name then [] else [.started ⟨endpoint.address, row.id.port, row.inode⟩]) ++
          if (t.enlisted endpoint row).last = some row.sample then []
          else
            [.updated
              { name :=
                  ⟨(t.enlisted endpoint row).requested.address, row.id.port,
                    (t.enlisted endpoint row).inode⟩
                id := row.id
                sample := row.sample }]) := by
  unfold Tracker.observe
  rw [h.encode_key]
  cases hfind : t.find? row.name with
  | some s =>
      have hget : t.sockets.getKey? row.name.slotKey = some s := hfind
      have htracks : t.Tracks row.name := tracks_iff.2 ⟨s, hfind⟩
      simp only [enlist, report, known, enlisted, hget, hfind, Option.getD_some, if_pos htracks,
        SlotTable.modifyKey_eq_insertKey hget]
  | none =>
      have hget : t.sockets.getKey? row.name.slotKey = none := hfind
      have htracks : ¬t.Tracks row.name := by
        rw [Tracks, hfind]
        exact Bool.false_ne_true
      obtain ⟨-, -, hfound⟩ := h.wellFormed.insertKey row.name.slotKey
        (row.begin endpoint t.generation)
      have hbegun := (hfound row.name.slotKey).trans (if_pos rfl)
      simp only [enlist, report, known, enlisted, hget, hfind, hbegun, Option.getD_none,
        if_neg htracks, h.wellFormed.modifyKey_insertKey hget]

theorem Valid.name_known (h : t.Valid) {endpoint : Endpoint} {row : SocketRow}
    (haddress : endpoint.address = row.id.address) :
    (t.known endpoint row).name = row.name ∧ (t.known endpoint row).id = row.name.id := by
  unfold known enlisted
  cases hfind : t.find? row.name with
  | none =>
      have hport : (row.begin endpoint t.generation).id.port = row.id.port :=
        SocketId.port_overlayInode row.id row.inode
      constructor
      · change SocketName.mk endpoint.address (row.begin endpoint t.generation).id.port row.inode =
          row.name
        rw [haddress, hport]
        rfl
      · rfl
  | some s =>
      have hname := h.name_eq hfind
      have hid := (h.stored row.name.slotKey s hfind).2
      rw [hname] at hid
      exact ⟨hname, hid⟩

/-- A look at a row that matched changes what is known of the socket in the row only. -/
theorem Valid.observe (h : t.Valid) {endpoint : Endpoint} {row : SocketRow}
    (haddress : endpoint.address = row.id.address) :
    (t.observe (some endpoint) row).1.Valid ∧
      ∀ n, (t.observe (some endpoint) row).1.find? n =
        if row.name = n then some (t.known endpoint row) else t.find? n := by
  rcases h.wellFormed.insertKey row.name.slotKey (t.known endpoint row) with ⟨_, hwell, hfound⟩
  have hknown := h.name_known haddress
  rw [h.observe_eq]
  constructor
  · refine ⟨hwell, ?_, ?_⟩
    · exact (SlotTable.encoder_insertKey ..).trans h.encoder_eq
    · intro key s hs
      rw [hfound] at hs
      by_cases hkey : row.name.slotKey = key
      · rw [if_pos hkey] at hs
        cases hs
        rw [hknown.1, hknown.2]
        exact ⟨hkey.symm, rfl⟩
      · rw [if_neg hkey] at hs
        exact h.stored key s hs
  · intro n
    have hn := hfound n.slotKey
    simp only [SocketName.slotKey_inj] at hn
    exact hn

/-- A look at a row that matched announces its socket if it was not tracked, and reports its values
unless they are the last ones that were seen. -/
theorem Valid.events_observe (h : t.Valid) {endpoint : Endpoint} {row : SocketRow}
    (haddress : endpoint.address = row.id.address) :
    (t.observe (some endpoint) row).2 =
      (if t.Tracks row.name then [] else [.started row.name]) ++
        if (t.find? row.name).bind TrackedSocket.last = some row.sample then []
        else [.updated ⟨row.name, row.id, row.sample⟩] := by
  rw [h.observe_eq]
  unfold enlisted
  rcases Option.eq_none_or_eq_some (t.find? row.name) with hfind | ⟨s, hfind⟩
  · simp only [hfind, Option.getD_none, Option.bind_none, SocketRow.begin, haddress]
    rfl
  · have hname := h.name_eq hfind
    have hrequested : s.requested.address = row.id.address := congrArg SocketName.address hname
    have hinode : s.inode = row.inode := congrArg SocketName.inode hname
    simp only [hfind, Option.getD_some, Option.bind_some, hrequested, hinode, haddress]
    rfl

/-! ## The end of a poll -/

theorem foldl_eraseKey {t : SlotTable InstanceKey 16 TrackedSocket} (h : t.WellFormed)
    (gone : List (Key 16 × TrackedSocket)) :
    let sockets := gone.foldl (fun sockets entry => (sockets.eraseKey entry.1).2) t
    sockets.WellFormed ∧ sockets.encoder = t.encoder ∧
      ∀ key, sockets.getKey? key = if key ∈ gone.map Prod.fst then none else t.getKey? key := by
  induction gone generalizing t with
  | nil => exact ⟨h, rfl, fun key => rfl⟩
  | cons entry gone ih =>
      rcases h.eraseKey entry.1 with ⟨_, hwell, hfound⟩
      rcases ih hwell with ⟨hwell', hencoder, hfound'⟩
      refine ⟨hwell', hencoder.trans (SlotTable.encoder_eraseKey ..), ?_⟩
      intro key
      rw [List.foldl_cons, hfound', hfound, List.map_cons]
      by_cases hgone : key ∈ gone.map Prod.fst
      · rw [if_pos hgone, if_pos (List.mem_cons_of_mem _ hgone)]
      · rw [if_neg hgone]
        by_cases hkey : entry.1 = key
        · rw [if_pos hkey, if_pos (List.mem_cons.2 (Or.inl hkey.symm))]
        · rw [if_neg hkey, if_neg]
          intro hmem
          rcases List.mem_cons.1 hmem with heq | hmem
          · exact hkey heq.symm
          · exact hgone hmem

theorem Valid.mem_stale (h : t.Valid) {key : Key 16} {s : TrackedSocket} :
    (key, s) ∈ t.stale ↔ t.sockets.getKey? key = some s ∧ s.generation ≠ t.generation := by
  rw [stale, List.mem_filter, h.wellFormed.mem_entries, decide_eq_true_eq]

theorem Valid.mem_stale_keys (h : t.Valid) {key : Key 16} :
    key ∈ t.stale.map Prod.fst ↔
      ∃ s, t.sockets.getKey? key = some s ∧ s.generation ≠ t.generation := by
  rw [List.mem_map]
  constructor
  · intro hx
    rcases hx with ⟨⟨k, s⟩, hmem, rfl⟩
    exact ⟨s, h.mem_stale.1 hmem⟩
  · intro hx
    rcases hx with ⟨s, hs⟩
    exact ⟨(key, s), h.mem_stale.2 hs, rfl⟩

theorem Valid.nodup_stale_keys (h : t.Valid) : (t.stale.map Prod.fst).Nodup :=
  h.wellFormed.nodup_keys.sublist (List.filter_sublist.map Prod.fst)

/-- Sockets that are stored under different keys are still there when it is their turn to be
removed. -/
theorem forgetAll_eq {gone : List (Key 16 × TrackedSocket)} (h : t.sockets.WellFormed)
    (hstored : ∀ entry ∈ gone, t.sockets.getKey? entry.1 = some entry.2)
    (hkeys : (gone.map Prod.fst).Nodup) :
    t.forgetAll (gone.map Prod.fst) =
      ({ t with
          sockets := gone.foldl (fun sockets entry => (sockets.eraseKey entry.1).2) t.sockets },
        gone.map fun entry => .stopped entry.2.name) := by
  induction gone generalizing t with
  | nil => rfl
  | cons entry gone ih =>
      rw [List.map_cons, List.nodup_cons] at hkeys
      rcases h.eraseKey entry.1 with ⟨hremoved, hwell, hfound⟩
      rw [hstored entry List.mem_cons_self] at hremoved
      have hrest : ∀ other ∈ gone,
          (t.forget entry.1).1.sockets.getKey? other.1 = some other.2 := by
        intro other hother
        have hne : entry.1 ≠ other.1 := fun heq =>
          hkeys.1 (heq ▸ List.mem_map_of_mem hother)
        exact ((hfound other.1).trans (if_neg hne)).trans
          (hstored other (List.mem_cons_of_mem _ hother))
      have hforgotten : (t.forget entry.1).2 = [.stopped entry.2.name] := by
        rw [forget_eq, hremoved]
        rfl
      rw [List.map_cons, forgetAll_cons, hforgotten, ih hwell hrest hkeys.2]
      rfl

/-- The sockets that are removed at the end of a poll are announced as they were listed. -/
theorem Valid.finishPoll_eq (h : t.Valid) :
    t.finishPoll =
      ({ sockets := t.stale.foldl (fun sockets entry => (sockets.eraseKey entry.1).2) t.sockets
         generation := t.generation + 1 },
        t.stale.map fun entry => .stopped entry.2.name) := by
  have hstored : ∀ entry ∈ t.stale, t.sockets.getKey? entry.1 = some entry.2 :=
    fun entry hentry => (h.mem_stale.1 hentry).1
  rw [Tracker.finishPoll, forgetAll_eq h.wellFormed hstored h.nodup_stale_keys]

/-- The end of a poll forgets the sockets without the mark of the poll. -/
theorem Valid.finishPoll (h : t.Valid) :
    t.finishPoll.1.Valid ∧
      ∀ n, t.finishPoll.1.find? n = (t.find? n).filter (·.generation = t.generation) := by
  rcases foldl_eraseKey h.wellFormed t.stale with ⟨hwell, hencoder, hfound⟩
  rw [h.finishPoll_eq]
  constructor
  · refine ⟨hwell, hencoder.trans h.encoder_eq, ?_⟩
    intro key s hs
    have hkept : t.sockets.getKey? key = some s := by
      have hs' := (hfound key).symm.trans hs
      by_cases hgone : key ∈ t.stale.map Prod.fst
      · rw [if_pos hgone] at hs'
        cases hs'
      · rwa [if_neg hgone] at hs'
    exact h.stored key s hkept
  · intro n
    rw [find?, hfound]
    change (if n.slotKey ∈ t.stale.map Prod.fst then none else t.find? n) = _
    cases hfind : t.find? n with
    | none =>
        rw [Option.filter_none]
        exact ite_self none
    | some s =>
        by_cases hmark : s.generation = t.generation
        · have hkept : n.slotKey ∉ t.stale.map Prod.fst := by
            rw [h.mem_stale_keys]
            intro hx
            rcases hx with ⟨s', hs', hstale⟩
            cases hfind.symm.trans hs'
            exact hstale hmark
          rw [if_neg hkept, Option.filter_some, if_pos (decide_eq_true hmark)]
        · have hgone : n.slotKey ∈ t.stale.map Prod.fst := h.mem_stale_keys.2 ⟨s, hfind, hmark⟩
          rw [if_pos hgone, Option.filter_some, if_neg (fun heq => hmark (of_decide_eq_true heq))]

/-- It announces each of them once, under its name. -/
theorem Valid.stopped (h : t.Valid) :
    ∃ names : List SocketName, t.finishPoll.2 = names.map .stopped ∧ names.Nodup ∧
      ∀ n, n ∈ names ↔ ∃ s, t.find? n = some s ∧ s.generation ≠ t.generation := by
  have hstale : t.stale ⊆ t.sockets.entries := List.filter_sublist.subset
  have hkeys := h.map_slotKey_names hstale
  have hnodup := h.nodup_stale_keys
  refine ⟨t.stale.map fun entry => entry.2.name, ?_, ?_, ?_⟩
  · rw [h.finishPoll_eq, List.map_map]
    rfl
  · rw [← hkeys] at hnodup
    exact hnodup.of_map
  · intro n
    have hinj : Function.Injective SocketName.slotKey := fun a b => SocketName.slotKey_inj.1
    have hgone : n.slotKey ∈ t.stale.map Prod.fst ↔ _ := h.mem_stale_keys
    rw [← hkeys, List.mem_map_of_injective hinj] at hgone
    exact hgone

theorem Valid.abandonPoll (h : t.Valid) : t.abandonPoll.Valid :=
  ⟨h.wellFormed, h.encoder_eq, h.stored⟩

end Tracker

end QueueWatch
