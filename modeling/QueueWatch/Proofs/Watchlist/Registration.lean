import QueueWatch.Proofs.Watchlist.Requests

/-!
# Registering many specs

A spec is registered under its identifier, with the endpoint that this identifier holds. So the
watchlist after several registrations depends on which identifiers they are for, and neither on
their order nor on how often each is made (`getElem?_registerAll`). A spec that has no identifier is
refused; among specs that are to replace all others one such spec is enough.
-/

namespace QueueWatch

namespace SocketSpec

variable {spec : SocketSpec}

theorem id_of_v6 {address : Ipv6} (h : spec.host = .v6 address) : spec.id = .error ⟨address⟩ := by
  rw [SocketSpec.id, h]
  rfl

theorem toOption_id_eq_some {id : SocketId} : spec.id.toOption = some id ↔ spec.id = .ok id := by
  cases spec.id <;> simp [Except.toOption]

theorem exists_id_of_v4 {address : Ipv4} (h : spec.host = .v4 address) : ∃ id, spec.id = .ok id :=
  ⟨_, id_eq_ok_iff.2 ⟨address, h, rfl⟩⟩

end SocketSpec

/-- The specs that a request names. -/
def Request.specs : Request → List SocketSpec
  | .register spec => [spec]
  | .unregister spec => [spec]
  | .replaceAll specs => specs

namespace Watchlist

/-- What whoever makes a request is told. -/
def reply (w : Watchlist) : Request → Except UnsupportedAddress Bool
  | .register spec => (w.register spec).map Prod.fst
  | .unregister spec => (w.unregister spec).map Prod.fst
  | .replaceAll specs => (ofSpecs specs).map fun _ => true

/-- The identifiers of specs, as far as they have one. -/
def ids (specs : List SocketSpec) : List SocketId :=
  specs.filterMap fun spec => spec.id.toOption

/-- The watchlist after specs have been registered, one after the other. -/
def registerAll (w : Watchlist) (specs : List SocketSpec) : Watchlist :=
  (specs.map Request.register).foldl answer w

variable {w : Watchlist} {spec : SocketSpec} {specs : List SocketSpec}

theorem mem_ids {id : SocketId} : id ∈ ids specs ↔ ∃ spec ∈ specs, spec.id = .ok id := by
  rw [ids, List.mem_filterMap]
  simp only [SocketSpec.toOption_id_eq_some]

theorem ids_cons_of_ok {id : SocketId} (hid : spec.id = .ok id) (specs : List SocketSpec) :
    ids (spec :: specs) = id :: ids specs := by
  rw [ids, List.filterMap_cons, hid]
  rfl

theorem ids_cons_of_error {e : UnsupportedAddress} (he : spec.id = .error e)
    (specs : List SocketSpec) : ids (spec :: specs) = ids specs := by
  rw [ids, List.filterMap_cons, he]
  rfl

theorem answer_register_of_ok {id : SocketId} (hid : spec.id = .ok id) :
    w.answer (.register spec) = w.insert id id.endpoint := by
  rw [answer, register_of_id hid]
  rfl

theorem answer_register_of_error {e : UnsupportedAddress} (he : spec.id = .error e) :
    w.answer (.register spec) = w := by
  rw [answer, register_of_error he]

theorem registerAll_cons (w : Watchlist) (spec : SocketSpec) (specs : List SocketSpec) :
    w.registerAll (spec :: specs) = (w.answer (.register spec)).registerAll specs := rfl

/-- After several registrations their identifiers are registered, each with its own endpoint, and
the others are what they were. -/
theorem getElem?_registerAll (w : Watchlist) (specs : List SocketSpec) (id : SocketId) :
    (w.registerAll specs)[id]? = if id ∈ ids specs then some id.endpoint else w[id]? := by
  induction specs generalizing w with
  | nil => rfl
  | cons spec specs ih =>
      rw [registerAll_cons, ih]
      cases hid : spec.id with
      | error e => rw [answer_register_of_error hid, ids_cons_of_error hid]
      | ok i =>
          rw [answer_register_of_ok hid, ids_cons_of_ok hid, Std.ExtTreeMap.getElem?_insert]
          simp only [List.mem_cons, Std.compare_eq_iff_eq]
          by_cases hmem : id ∈ ids specs
          · simp [hmem]
          · by_cases hi : i = id
            · simp [hi]
            · simp [hmem, hi, Ne.symm hi]

theorem registerAll_eq_of_mem_iff (w : Watchlist) {specs' : List SocketSpec}
    (h : ∀ id, id ∈ ids specs ↔ id ∈ ids specs') : w.registerAll specs = w.registerAll specs' := by
  apply Std.ExtTreeMap.ext_getElem?
  intro id
  rw [getElem?_registerAll, getElem?_registerAll]
  simp only [h id]

/-- Registrations can be made in any order. -/
theorem registerAll_perm (w : Watchlist) {specs' : List SocketSpec} (h : specs.Perm specs') :
    w.registerAll specs = w.registerAll specs' :=
  registerAll_eq_of_mem_iff w fun _ => (h.filterMap _).mem_iff

/-! ## Specs that are refused -/

/-- Replacing all registrations is registering on an empty watchlist, if none of the specs is
refused. -/
theorem ofSpecs_of_ok (h : ∀ spec ∈ specs, ∃ id, spec.id = .ok id) :
    ofSpecs specs = .ok (registerAll ∅ specs) := by
  unfold ofSpecs
  generalize (∅ : Watchlist) = w
  induction specs generalizing w with
  | nil => rfl
  | cons spec specs ih =>
      rcases h spec List.mem_cons_self with ⟨id, hid⟩
      rw [List.foldlM_cons, register_of_id hid, registerAll_cons, answer_register_of_ok hid]
      exact ih (fun spec hspec => h spec (List.mem_cons_of_mem _ hspec)) (w.insert id id.endpoint)

/-- If one of the specs is refused, nothing is replaced. -/
theorem ofSpecs_of_error {e : UnsupportedAddress} (hspec : spec ∈ specs)
    (he : spec.id = .error e) : ∃ e', ofSpecs specs = .error e' := by
  unfold ofSpecs
  generalize (∅ : Watchlist) = w
  induction specs generalizing w with
  | nil => cases hspec
  | cons first specs ih =>
      rw [List.foldlM_cons]
      cases hid : first.id with
      | error e' =>
          rw [register_of_error hid]
          exact ⟨e', rfl⟩
      | ok id =>
          rw [register_of_id hid]
          rcases List.mem_cons.1 hspec with rfl | hspec
          · cases hid.symm.trans he
          · exact ih hspec (w.insert id id.endpoint)

theorem exists_reply_of_id {r : Request} (h : ∀ spec ∈ r.specs, ∃ id, spec.id = .ok id) :
    ∃ answer, w.reply r = .ok answer := by
  cases r with
  | register spec =>
      rcases h spec List.mem_cons_self with ⟨id, hid⟩
      exact ⟨_, by rw [reply, register_of_id hid]; rfl⟩
  | unregister spec =>
      rcases h spec List.mem_cons_self with ⟨id, hid⟩
      exact ⟨_, by rw [reply, unregister, hid]; rfl⟩
  | replaceAll specs =>
      have hnext : ofSpecs specs = .ok (registerAll ∅ specs) := ofSpecs_of_ok h
      exact ⟨true, by rw [reply, hnext]; rfl⟩

theorem exists_reply_error_of_v6 {r : Request} (hspec : spec ∈ r.specs) {address : Ipv6}
    (hhost : spec.host = .v6 address) : ∃ e, w.reply r = .error e := by
  have he := SocketSpec.id_of_v6 hhost
  cases r with
  | register spec =>
      cases List.mem_singleton.1 hspec
      exact ⟨⟨address⟩, by rw [reply, register_of_error he]; rfl⟩
  | unregister spec =>
      cases List.mem_singleton.1 hspec
      exact ⟨⟨address⟩, by rw [reply, unregister, he]; rfl⟩
  | replaceAll specs =>
      have hnext : ∃ e, ofSpecs specs = .error e := ofSpecs_of_error hspec he
      rcases hnext with ⟨e, he⟩
      exact ⟨e, by rw [reply, he]; rfl⟩

/-- A request is refused if one of its specs is for an IPv6 address, and only then. -/
theorem exists_reply_error_iff {r : Request} :
    (∃ e, w.reply r = .error e) ↔ ∃ spec ∈ r.specs, ∃ address, spec.host = .v6 address := by
  constructor
  · intro hx
    rcases hx with ⟨e, he⟩
    by_cases hv6 : ∃ spec ∈ r.specs, ∃ address, spec.host = .v6 address
    · exact hv6
    · have hid : ∀ spec ∈ r.specs, ∃ id, spec.id = .ok id := by
        intro spec hspec
        cases hhost : spec.host with
        | v4 address => exact SocketSpec.exists_id_of_v4 hhost
        | v6 address => exact absurd ⟨spec, hspec, address, hhost⟩ hv6
      rcases exists_reply_of_id (w := w) hid with ⟨answer, hanswer⟩
      cases he.symm.trans hanswer
  · intro hx
    rcases hx with ⟨spec, hspec, address, hhost⟩
    exact exists_reply_error_of_v6 hspec hhost

/-- A request that is refused changes nothing. -/
theorem answer_of_reply_error {r : Request} {e : UnsupportedAddress} (h : w.reply r = .error e) :
    w.answer r = w := by
  cases r with
  | register spec =>
      rw [answer]
      cases hnext : w.register spec with
      | error e' => rfl
      | ok next =>
          rw [reply, hnext] at h
          cases h
  | unregister spec =>
      rw [answer]
      cases hnext : w.unregister spec with
      | error e' => rfl
      | ok next =>
          rw [reply, hnext] at h
          cases h
  | replaceAll specs =>
      rw [answer]
      cases hnext : ofSpecs specs with
      | error e' => rfl
      | ok next =>
          rw [reply, hnext] at h
          cases h

end Watchlist

end QueueWatch
