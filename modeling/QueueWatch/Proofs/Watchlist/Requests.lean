import QueueWatch.Watchlist.Basic

/-!
# Requests to a watchlist

A watchlist changes when someone registers or withdraws a spec, or replaces all specs. A request
with an address that is no IPv4 address is refused and changes nothing.

Beside the watchlist runs the list of the specs that are registered (`registered`). The watchlist
holds the identifiers of these specs and no others, and each with the endpoint that it stands for
(`Lists`): a spec asks for the endpoint that its identifier holds, so it does not matter which one of
several specs with an identifier came last.
-/

namespace QueueWatch

/-- A request to change a watchlist. -/
inductive Request where
  | register (spec : SocketSpec)
  | unregister (spec : SocketSpec)
  | replaceAll (specs : List SocketSpec)
  deriving DecidableEq, Repr

namespace SocketSpec

theorem id_eq_ok_iff {spec : SocketSpec} {id : SocketId} :
    spec.id = .ok id ↔ ∃ address, spec.host = .v4 address ∧
      id = SocketId.pack address (spec.port.getD 0) ((spec.inode.getD 0).toUInt16) := by
  rcases spec with ⟨host, port, inode⟩
  cases host with
  | v6 address =>
      constructor
      · intro h
        cases h
      · intro hx
        rcases hx with ⟨_, h, _⟩
        cases h
  | v4 address =>
      cases inode <;>
        simp [SocketSpec.id, IpAddress.requireV4, SocketId.overlayInode, SocketId.ofEndpoint,
          bind, Except.bind, pure, Except.pure, eq_comm]

/-- A spec asks for the endpoint that its identifier holds. -/
theorem endpoint_eq {spec : SocketSpec} {id : SocketId} (h : spec.id = .ok id) :
    spec.endpoint = .ok id.endpoint := by
  rcases id_eq_ok_iff.1 h with ⟨address, hhost, rfl⟩
  simp [SocketSpec.endpoint, hhost, IpAddress.requireV4, SocketId.endpoint, bind, Except.bind,
    pure, Except.pure]

end SocketSpec

namespace Watchlist

theorem entry_eq_map (spec : SocketSpec) :
    entry spec = spec.id.map fun id => (id, id.endpoint) := by
  cases h : spec.id with
  | error e => simp [entry, h, bind, Except.bind, Except.map]
  | ok id =>
      simp [entry, h, SocketSpec.endpoint_eq h, bind, Except.bind, pure, Except.pure, Except.map]

/-- The watchlist after a request. -/
def answer (w : Watchlist) : Request → Watchlist
  | .register spec =>
      match w.register spec with
      | .ok (_, next) => next
      | .error _ => w
  | .unregister spec =>
      match w.unregister spec with
      | .ok (_, next) => next
      | .error _ => w
  | .replaceAll specs =>
      match ofSpecs specs with
      | .ok next => next
      | .error _ => w

/-- The registered specs after a request. A spec is withdrawn together with those that have the same
identifier. -/
def note (specs : List SocketSpec) : Request → List SocketSpec
  | .register spec =>
      match spec.id with
      | .ok _ => specs ++ [spec]
      | .error _ => specs
  | .unregister spec =>
      match spec.id with
      | .ok id => specs.filter fun other => other.id.toOption ≠ some id
      | .error _ => specs
  | .replaceAll next =>
      match ofSpecs next with
      | .ok _ => next
      | .error _ => specs

/-- The watchlist after requests, one after the other. -/
def after (requests : List Request) : Watchlist :=
  requests.foldl answer ∅

/-- The specs that are registered after requests. -/
def registered (requests : List Request) : List SocketSpec :=
  requests.foldl note []

/-- The watchlist holds the identifiers of the specs, each with its own endpoint. -/
def Lists (w : Watchlist) (specs : List SocketSpec) : Prop :=
  ∀ id e, w[id]? = some e ↔ e = id.endpoint ∧ ∃ spec ∈ specs, spec.id = .ok id

variable {w : Watchlist} {specs : List SocketSpec}

theorem lists_empty : Lists ∅ [] := by
  intro id e
  simp

theorem Lists.add (h : w.Lists specs) {spec : SocketSpec} {id : SocketId} (hid : spec.id = .ok id) :
    Lists (w.insert id id.endpoint) (specs ++ [spec]) := by
  intro i e
  rw [Std.ExtTreeMap.getElem?_insert]
  by_cases hi : id = i
  · rw [if_pos (Std.compare_eq_iff_eq.2 hi), ← hi, Option.some.injEq, eq_comm]
    have hmem : ∃ s ∈ specs ++ [spec], s.id = .ok id := ⟨spec, by simp, hid⟩
    exact ⟨fun he => ⟨he, hmem⟩, And.left⟩
  · have hspec : spec.id ≠ .ok i := by
      rw [hid]
      exact fun heq => hi (Except.ok.inj heq)
    rw [if_neg (fun heq => hi (Std.compare_eq_iff_eq.1 heq)), h i e]
    simp [hspec]

theorem Lists.withdraw (h : w.Lists specs) (id : SocketId) :
    Lists (w.erase id) (specs.filter fun other => other.id.toOption ≠ some id) := by
  intro i e
  rw [Std.ExtTreeMap.getElem?_erase]
  by_cases hi : id = i
  · rw [if_pos (Std.compare_eq_iff_eq.2 hi)]
    constructor
    · intro he
      cases he
    · intro hx
      rcases hx with ⟨_, spec, hspec, hid⟩
      rw [List.mem_filter, hid, hi] at hspec
      simp [Except.toOption] at hspec
  · rw [if_neg (fun heq => hi (Std.compare_eq_iff_eq.1 heq)), h i e]
    have hkept : ∀ spec : SocketSpec, spec.id = .ok i → spec.id.toOption ≠ some id := by
      intro spec hid
      rw [hid]
      exact fun heq => hi (Option.some.inj heq).symm
    constructor
    · intro hx
      rcases hx with ⟨he, spec, hspec, hid⟩
      exact ⟨he, spec, List.mem_filter.2 ⟨hspec, decide_eq_true (hkept spec hid)⟩, hid⟩
    · intro hx
      rcases hx with ⟨he, spec, hspec, hid⟩
      exact ⟨he, spec, (List.mem_filter.1 hspec).1, hid⟩

theorem register_of_id {spec : SocketSpec} {id : SocketId} (hid : spec.id = .ok id) :
    w.register spec = .ok (w.add (id, id.endpoint)) := by
  rw [register, entry_eq_map, hid]
  rfl

theorem register_of_error {spec : SocketSpec} {e : UnsupportedAddress} (he : spec.id = .error e) :
    w.register spec = .error e := by
  rw [register, entry_eq_map, he]
  rfl

theorem Lists.foldlM_register (h : w.Lists specs) {more : List SocketSpec} {next : Watchlist}
    (hnext : more.foldlM (fun w spec => (register w spec).map Prod.snd) w = .ok next) :
    next.Lists (specs ++ more) := by
  induction more generalizing w specs with
  | nil =>
      cases hnext
      rw [List.append_nil]
      exact h
  | cons spec more ih =>
      rw [List.foldlM_cons] at hnext
      cases hid : spec.id with
      | error e =>
          rw [register_of_error hid] at hnext
          cases hnext
      | ok id =>
          rw [register_of_id hid] at hnext
          rw [List.append_cons]
          exact ih (h.add hid) hnext

theorem lists_ofSpecs {next : Watchlist} (hnext : ofSpecs specs = .ok next) : next.Lists specs :=
  lists_empty.foldlM_register hnext

/-- A request keeps the watchlist and the registered specs in step. -/
theorem Lists.answer (h : w.Lists specs) (r : Request) : (w.answer r).Lists (note specs r) := by
  cases r with
  | register spec =>
      cases hid : spec.id with
      | error e => simpa [Watchlist.answer, note, register_of_error hid, hid] using h
      | ok id => simpa [Watchlist.answer, note, register_of_id hid, hid, Watchlist.add] using h.add hid
  | unregister spec =>
      cases hid : spec.id with
      | error e => simpa [Watchlist.answer, note, unregister, hid, Except.map] using h
      | ok id => simpa [Watchlist.answer, note, unregister, hid, Except.map, Watchlist.withdraw] using
          h.withdraw id
  | replaceAll next =>
      cases hnext : ofSpecs next with
      | error e => simpa [Watchlist.answer, note, hnext] using h
      | ok w' => simpa [Watchlist.answer, note, hnext] using lists_ofSpecs hnext

theorem Lists.foldl (h : w.Lists specs) (requests : List Request) :
    (requests.foldl Watchlist.answer w).Lists (requests.foldl note specs) := by
  induction requests generalizing w specs with
  | nil => exact h
  | cons r requests ih => exact ih (h.answer r)

/-- After any requests the watchlist holds what is registered. -/
theorem lists_after (requests : List Request) : (after requests).Lists (registered requests) :=
  lists_empty.foldl requests

/-! ## Matches -/

theorem match?_eq_some {plain : SocketId} {inode : UInt64} {e : Endpoint}
    (h : w.match? plain inode = some e) : ∃ id ∈ forms plain inode, w[id]? = some e :=
  List.exists_of_findSome?_eq_some h

theorem match?_eq_none_iff {plain : SocketId} {inode : UInt64} :
    w.match? plain inode = none ↔ ∀ id ∈ forms plain inode, w[id]? = none :=
  List.findSome?_eq_none_iff

/-- A socket can be registered by its address alone or with its port, and with the last bits of its
inode or without them. -/
theorem mem_forms_iff {plain id : SocketId} {inode : UInt64} :
    id ∈ forms plain inode ↔ id.address = plain.address ∧ (id.port = plain.port ∨ id.port = 0) ∧
      (id.inode = inode.toUInt16 ∨ id.inode = plain.inode) := by
  simp only [forms, List.mem_cons, List.not_mem_nil, or_false]
  constructor
  · rintro (rfl | rfl | rfl | rfl) <;> simp
  · intro hx
    rcases hx with ⟨haddress, hport | hport, hinode | hinode⟩
    · exact Or.inl (SocketId.ext_fields (by simp [haddress]) (by simp [hport]) (by simp [hinode]))
    · exact Or.inr (Or.inr (Or.inl (SocketId.ext_fields haddress hport hinode)))
    · exact Or.inr (Or.inl
        (SocketId.ext_fields (by simp [haddress]) (by simp [hport]) (by simp [hinode])))
    · exact Or.inr (Or.inr (Or.inr
        (SocketId.ext_fields (by simp [haddress]) (by simp [hport]) (by simp [hinode]))))

/-- A socket is matched if a registered spec has one of its identifiers. -/
theorem Lists.isSome_match?_iff (h : w.Lists specs) {plain : SocketId} {inode : UInt64} :
    (w.match? plain inode).isSome ↔
      ∃ spec ∈ specs, ∃ id ∈ forms plain inode, spec.id = .ok id := by
  rw [Option.isSome_iff_exists]
  constructor
  · intro hx
    rcases hx with ⟨e, he⟩
    rcases match?_eq_some he with ⟨id, hform, hfound⟩
    rcases ((h id e).1 hfound).2 with ⟨spec, hspec, hid⟩
    exact ⟨spec, hspec, id, hform, hid⟩
  · intro hx
    rcases hx with ⟨spec, hspec, id, hform, hid⟩
    have hfound : w[id]? = some id.endpoint := (h id id.endpoint).2 ⟨rfl, spec, hspec, hid⟩
    rw [← Option.isSome_iff_exists, ← Option.ne_none_iff_isSome]
    intro hnone
    rw [match?_eq_none_iff.1 hnone id hform] at hfound
    cases hfound

/-- A socket is matched with an endpoint of its own address. -/
theorem Lists.address_of_match? (h : w.Lists specs) {plain : SocketId} {inode : UInt64}
    {e : Endpoint} (he : w.match? plain inode = some e) : e.address = plain.address := by
  rcases match?_eq_some he with ⟨id, hid, hfound⟩
  rw [((h id e).1 hfound).1, ← (mem_forms_iff.1 hid).1]
  rfl

end Watchlist

end QueueWatch
