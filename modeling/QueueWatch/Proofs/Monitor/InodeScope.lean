import QueueWatch.Proofs.Monitor.Lifecycle

/-!
# Registrations for one inode

A spec with an inode is for the socket with that inode only. But it is registered under an
identifier, and of the inode the identifier holds the last 16 bits. So it also reaches the sockets
of its endpoint whose inodes end in the same bits, and if these bits are all zero, every socket of
the endpoint (`matched_iff_reaches`). The rows themselves are told apart by their whole inodes.

`ignored_iff` says when specs for other inodes do leave a row alone. `not_ignored_alias` is a row
that they do not leave alone.
-/

namespace QueueWatch

/-- Whether a spec is registered under one of the identifiers of the socket in a row. -/
def SocketSpec.Reaches (spec : SocketSpec) (row : SocketRow) : Prop :=
  spec.host = .v4 row.id.address ∧
    (spec.port.getD 0 = row.id.port ∨ spec.port.getD 0 = 0) ∧
    ((spec.inode.getD 0).toUInt16 = row.inode.toUInt16 ∨
      (spec.inode.getD 0).toUInt16 = row.id.inode)

theorem SocketSpec.reaches_iff {spec : SocketSpec} {row : SocketRow} :
    spec.Reaches row ↔ ∃ id ∈ Watchlist.forms row.id row.inode, spec.id = .ok id := by
  constructor
  · intro hx
    rcases hx with ⟨hhost, hport, hinode⟩
    refine ⟨_, ?_, SocketSpec.id_eq_ok_iff.2 ⟨row.id.address, hhost, rfl⟩⟩
    rw [Watchlist.mem_forms_iff, SocketId.address_pack, SocketId.port_pack, SocketId.inode_pack]
    exact ⟨rfl, hport, hinode⟩
  · intro hx
    rcases hx with ⟨id, hform, hid⟩
    rcases SocketSpec.id_eq_ok_iff.1 hid with ⟨address, hhost, rfl⟩
    rw [Watchlist.mem_forms_iff, SocketId.address_pack, SocketId.port_pack,
      SocketId.inode_pack] at hform
    rcases hform with ⟨rfl, hport, hinode⟩
    exact ⟨hhost, hport, hinode⟩

/-- After any requests a row matches if a registered spec reaches it. -/
theorem matched_iff_reaches (requests : List Request) (row : SocketRow) :
    row.Matched (.after requests) ↔
      ∃ spec ∈ Watchlist.registered requests, spec.Reaches row := by
  rw [SocketRow.Matched, (Watchlist.lists_after requests).isSome_match?_iff]
  constructor
  · intro hx
    rcases hx with ⟨spec, hspec, hid⟩
    exact ⟨spec, hspec, SocketSpec.reaches_iff.2 hid⟩
  · intro hx
    rcases hx with ⟨spec, hspec, hreaches⟩
    exact ⟨spec, hspec, SocketSpec.reaches_iff.1 hreaches⟩

/-- The specs that are registered for the address of a row are for one inode each, and for another
one than that of the row. -/
def ForOtherInodes (requests : List Request) (row : SocketRow) : Prop :=
  ∀ spec ∈ Watchlist.registered requests, spec.host = .v4 row.id.address →
    ∃ inode, spec.inode = some inode ∧ inode ≠ 0 ∧ inode ≠ row.inode

/-- A row is left alone: it matches no registration, no tracker that looks at it changes or says
anything, and no poll of a table with the row has its socket tracked or announced as started. The
other rows are such as have the same bits as the row where an identifier has those of the inode; in
the rows of a table they are zero. -/
structure Ignored (requests : List Request) (row : SocketRow) : Prop where
  match?_eq : (Watchlist.after requests).match? row.id row.inode = none
  look_eq : ∀ t : Tracker, t.look (.after requests) row = (t, [])
  not_tracked : ∀ (polls : List Poll) (p : Poll), Poll.abandonedLast polls < 2 ^ 64 - 1 →
    p.requests = requests → p.complete → (∀ r ∈ p.rows, r.id.inode = row.id.inode) →
      ¬(p.run (Poll.trackerAfter polls)).1.Tracks row.name ∧
        (p.run (Poll.trackerAfter polls)).2.count (.started row.name) = 0

theorem not_matchedIn {w : Watchlist} {row : SocketRow} (h : ¬row.Matched w)
    {rows : List SocketRow} (hrows : ∀ r ∈ rows, r.id.inode = row.id.inode) :
    ¬MatchedIn w rows row.name := by
  intro hx
  rcases hx with ⟨r, hr, hmatched, hname⟩
  have hid : r.id = row.id :=
    SocketId.ext_fields (congrArg SocketName.address hname) (congrArg SocketName.port hname)
      (hrows r hr)
  have hinode : r.inode = row.inode := congrArg SocketName.inode hname
  rw [SocketRow.Matched, hid, hinode] at hmatched
  exact h hmatched

theorem ignored_iff_not_matched (requests : List Request) (row : SocketRow) :
    Ignored requests row ↔ ¬row.Matched (.after requests) := by
  constructor
  · intro h hmatched
    rw [SocketRow.Matched, h.match?_eq] at hmatched
    cases hmatched
  · intro h
    refine ⟨Option.not_isSome_iff_eq_none.1 h, ?_, ?_⟩
    · intro t
      exact Tracker.look_of_not_matched h
    · intro polls p hpolls hrequests hcomplete hrows
      have hlifecycle : ¬MatchedIn p.watchlist p.rows row.name := by
        rw [Poll.watchlist, hrequests]
        exact not_matchedIn h hrows
      have hstarted := Poll.count_started_run polls p row.name
      rw [if_neg fun hn => hlifecycle hn.1] at hstarted
      refine ⟨?_, hstarted⟩
      rw [Poll.run_of_complete hcomplete, Poll.tracks_finishPoll_iff hpolls rfl]
      exact hlifecycle

/-- Specs for other inodes leave a row alone just if none of them is for an endpoint of the row and
for an inode that ends in the same 16 bits, or in the bits that stand for every inode. -/
theorem ignored_iff (requests : List Request) (row : SocketRow)
    (hother : ForOtherInodes requests row) :
    Ignored requests row ↔
      ∀ spec ∈ Watchlist.registered requests, ∀ inode, spec.inode = some inode →
        spec.host = .v4 row.id.address →
        (spec.port.getD 0 = row.id.port ∨ spec.port.getD 0 = 0) →
          inode.toUInt16 ≠ row.inode.toUInt16 ∧ inode.toUInt16 ≠ row.id.inode := by
  rw [ignored_iff_not_matched, matched_iff_reaches]
  constructor
  · intro h spec hspec inode hinode hhost hport
    rw [← not_or]
    intro hbits
    refine h ⟨spec, hspec, hhost, hport, ?_⟩
    rw [hinode]
    exact hbits
  · intro h hx
    rcases hx with ⟨spec, hspec, hhost, hport, hbits⟩
    rcases hother spec hspec hhost with ⟨inode, hinode, _⟩
    rw [hinode] at hbits
    rcases h spec hspec inode hinode hhost hport with ⟨hrow, hall⟩
    rcases hbits with hbits | hbits
    · exact hrow hbits
    · exact hall hbits

/-- A spec for the socket of an endpoint with a given inode. -/
def endpointSpec (inode : UInt64) : SocketSpec :=
  ⟨.v4 (.ofOctets 10 0 0 1), some 80, some inode⟩

/-- The row of a socket of the same endpoint. -/
def endpointRow (inode : UInt64) : SocketRow :=
  ⟨.ofEndpoint ⟨.ofOctets 10 0 0 1, 80⟩, 0, 0, inode, none⟩

theorem forOtherInodes_endpoint {wanted inode : UInt64} (hzero : wanted ≠ 0)
    (hne : wanted ≠ inode) :
    ForOtherInodes [.register (endpointSpec wanted)] (endpointRow inode) := by
  intro spec hspec _
  rw [List.mem_singleton.1 (hspec : spec ∈ [endpointSpec wanted])]
  exact ⟨wanted, rfl, hzero, hne⟩

theorem ignored_iff_endpoint :
    ForOtherInodes [.register (endpointSpec 8)] (endpointRow 7) ∧
      Ignored [.register (endpointSpec 8)] (endpointRow 7) := by
  have hother : ForOtherInodes [.register (endpointSpec 8)] (endpointRow 7) :=
    forOtherInodes_endpoint (by decide) (by decide)
  refine ⟨hother, (ignored_iff _ _ hother).2 ?_⟩
  intro spec hspec inode hinode _ _
  rw [List.mem_singleton.1 (hspec : spec ∈ [endpointSpec 8])] at hinode
  cases hinode
  decide

/-- The socket with inode 7 starts to be watched for a spec for inode 65543, which has the same last
16 bits. -/
theorem not_ignored_alias :
    ForOtherInodes [.register (endpointSpec 65543)] (endpointRow 7) ∧
      ¬Ignored [.register (endpointSpec 65543)] (endpointRow 7) ∧
      (Tracker.empty.look (.after [.register (endpointSpec 65543)]) (endpointRow 7)).2.count
        (.started ⟨.ofOctets 10 0 0 1, 80, 7⟩) = 1 := by
  have hmatched : (endpointRow 7).Matched (.after [.register (endpointSpec 65543)]) := by
    rw [matched_iff_reaches]
    exact ⟨endpointSpec 65543, List.mem_cons_self, rfl, Or.inl rfl, Or.inl rfl⟩
  have hempty : ¬Tracker.empty.Tracks ⟨.ofOctets 10 0 0 1, 80, 7⟩ := by
    rw [Tracker.Tracks, Tracker.find?_empty]
    exact Bool.false_ne_true
  refine ⟨forOtherInodes_endpoint (by decide) (by decide), ?_, ?_⟩
  · rw [ignored_iff_not_matched]
    exact not_not_intro hmatched
  · rw [(Tracker.valid_empty.count_look _ _ _).1]
    exact if_pos ⟨hmatched, rfl, hempty⟩

end QueueWatch
