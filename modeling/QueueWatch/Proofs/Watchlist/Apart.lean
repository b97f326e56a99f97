import Mathlib.Data.Finset.Card
import Mathlib.Data.List.Induction
import QueueWatch.Proofs.Watchlist.Registration

/-!
# Which specs a watchlist tells apart

A watchlist knows a spec by its identifier, and of an inode the identifier holds the last 16 bits.
Two specs for the same host and port are therefore one to it if their inodes end in the same bits,
where a spec for every inode counts as one whose bits are zero (`SocketSpec.Akin`).

A watchlist that is asked about specs of which no two are akin answers like a set of specs: each
call is told whether its spec has been registered and not withdrawn since (`TellsApart`). Of two
specs that are akin the second one counts as registered when the first one is, and withdrawing
either withdraws both. So there is no other reason for a wrong answer (`tellsApart_iff`).
-/

namespace QueueWatch

namespace SocketSpec

/-- Whether a spec is for an IPv4 address, and neither its port nor its inode is the number that
stands for any. -/
structure Proper (spec : SocketSpec) : Prop where
  isV4 : ∃ address, spec.host = .v4 address
  port_ne : spec.port ≠ some 0
  inode_ne : spec.inode ≠ some 0

/-- Whether two specs are for the same host and port, and for inodes that end in the same 16 bits. A
spec for every inode counts as one for an inode that ends in zeros. -/
structure Akin (a b : SocketSpec) : Prop where
  host_eq : a.host = b.host
  port_eq : a.port = b.port
  bits_eq : (a.inode.getD 0).toUInt16 = (b.inode.getD 0).toUInt16

variable {a b : SocketSpec}

theorem getD_port_inj (ha : a.port ≠ some 0) (hb : b.port ≠ some 0) :
    a.port.getD 0 = b.port.getD 0 ↔ a.port = b.port := by
  cases hpa : a.port with
  | none =>
      cases hpb : b.port with
      | none => simp
      | some p =>
          rw [hpb] at hb
          simp only [Option.getD_none, Option.getD_some, reduceCtorEq, iff_false]
          exact fun h => hb (congrArg some h.symm)
  | some q =>
      rw [hpa] at ha
      cases hpb : b.port with
      | none =>
          simp only [Option.getD_none, Option.getD_some, reduceCtorEq, iff_false]
          exact fun h => ha (congrArg some h)
      | some p => simp

theorem Proper.exists_id (h : a.Proper) : ∃ id, a.id = .ok id := by
  rcases h.isV4 with ⟨address, haddress⟩
  exact exists_id_of_v4 haddress

/-- Proper specs share an identifier just if they are akin. -/
theorem Proper.id_eq_iff (ha : a.Proper) (hb : b.Proper) : a.id = b.id ↔ a.Akin b := by
  rcases ha.isV4 with ⟨address, haddress⟩
  rcases hb.isV4 with ⟨address', haddress'⟩
  rw [id_eq_ok_iff.2 ⟨address, haddress, rfl⟩, id_eq_ok_iff.2 ⟨address', haddress', rfl⟩]
  constructor
  · intro h
    have hid := Except.ok.inj h
    have hhost := congrArg SocketId.address hid
    have hport := congrArg SocketId.port hid
    have hbits := congrArg SocketId.inode hid
    rw [SocketId.address_pack, SocketId.address_pack] at hhost
    rw [SocketId.port_pack, SocketId.port_pack, getD_port_inj ha.port_ne hb.port_ne] at hport
    rw [SocketId.inode_pack, SocketId.inode_pack] at hbits
    exact ⟨by rw [haddress, haddress', hhost], hport, hbits⟩
  · intro h
    have hhost := h.host_eq
    rw [haddress, haddress'] at hhost
    rw [IpAddress.v4.inj hhost, h.port_eq, h.bits_eq]

end SocketSpec

namespace Request

/-- The specs that are registered after a request, where a set of specs is kept. -/
def want (wanted : Finset SocketSpec) : Request → Finset SocketSpec
  | .register spec => insert spec wanted
  | .unregister spec => wanted.erase spec
  | .replaceAll specs => specs.toFinset

/-- What whoever makes a request is told, where a set of specs is kept. -/
def expected (wanted : Finset SocketSpec) : Request → Bool
  | .register spec => spec ∉ wanted
  | .unregister spec => spec ∈ wanted
  | .replaceAll _ => true

end Request

namespace Watchlist

/-- The specs that have been registered by requests and not withdrawn since. -/
def wanted (requests : List Request) : Finset SocketSpec :=
  requests.foldl Request.want ∅

/-- Whether the identifier of a spec is registered. -/
def Registers (w : Watchlist) (spec : SocketSpec) : Prop :=
  ∃ id, spec.id = .ok id ∧ id ∈ w

/-- Whether requests name only specs from a set. -/
def About (S : Set SocketSpec) (requests : List Request) : Prop :=
  ∀ r ∈ requests, ∀ spec ∈ r.specs, spec ∈ S

/-- A watchlist that is asked about specs from a set keeps them as a set: it answers accordingly, it
is as large as the set, and it holds the specs of the set; so a request about one spec never
registers or withdraws another one. -/
structure TellsApart (S : Set SocketSpec) : Prop where
  reply_eq : ∀ requests r, About S (requests ++ [r]) →
    (after requests).reply r = .ok (r.expected (wanted requests))
  size_eq : ∀ requests, About S requests → (after requests).size = (wanted requests).card
  registers_iff : ∀ requests, About S requests → ∀ spec ∈ S,
    ((after requests).Registers spec ↔ spec ∈ wanted requests)

variable {w : Watchlist} {S : Set SocketSpec} {requests : List Request} {specs : List SocketSpec}

theorem about_concat {r : Request} :
    About S (requests ++ [r]) ↔ About S requests ∧ ∀ spec ∈ r.specs, spec ∈ S := by
  unfold About
  rw [List.forall_mem_append, List.forall_mem_singleton]

theorem registered_concat (requests : List Request) (r : Request) :
    registered (requests ++ [r]) = note (registered requests) r := by
  rw [registered, List.foldl_append]
  rfl

theorem wanted_concat (requests : List Request) (r : Request) :
    wanted (requests ++ [r]) = r.want (wanted requests) := by
  rw [wanted, List.foldl_append]
  rfl

theorem Lists.mem_iff (h : w.Lists specs) {id : SocketId} : id ∈ w ↔ id ∈ ids specs := by
  rw [Std.ExtTreeMap.mem_iff_isSome_getElem?, Option.isSome_iff_exists, mem_ids]
  constructor
  · intro hx
    rcases hx with ⟨e, he⟩
    exact ((h id e).1 he).2
  · intro hspec
    exact ⟨id.endpoint, (h id _).2 ⟨rfl, hspec⟩⟩

/-- A watchlist has as many entries as there are identifiers. -/
theorem Lists.size_eq (h : w.Lists specs) : w.size = (ids specs).toFinset.card := by
  rw [← Std.ExtTreeMap.length_keys, ← List.toFinset_card_of_nodup Std.ExtTreeMap.nodup_keys]
  congr 1
  ext id
  rw [List.mem_toFinset, List.mem_toFinset, Std.ExtTreeMap.mem_keys]
  exact h.mem_iff

/-! ## Specs with identifiers of their own -/

section

variable (hid : ∀ spec ∈ S, ∃ id, spec.id = .ok id)
  (hown : ∀ a ∈ S, ∀ b ∈ S, a.id = b.id → a = b)

include hid hown

/-- The registered specs, as they are kept with the watchlist, are then the set of specs that are
wanted: what is withdrawn together with a spec is this spec. -/
theorem mem_registered_iff (habout : About S requests) :
    (∀ spec ∈ registered requests, spec ∈ S) ∧
      ∀ spec, spec ∈ registered requests ↔ spec ∈ wanted requests := by
  induction requests using List.reverseRecOn with
  | nil => simp [registered, wanted]
  | append_singleton requests r ih =>
      rcases about_concat.1 habout with ⟨hbefore, hr⟩
      rcases ih hbefore with ⟨hsub, hiff⟩
      rw [registered_concat, wanted_concat]
      cases r with
      | register spec =>
          have hspec : spec ∈ S := hr spec List.mem_cons_self
          rcases hid spec hspec with ⟨id, hspecid⟩
          simp only [note, hspecid, Request.want, List.mem_append, List.mem_singleton,
            Finset.mem_insert]
          constructor
          · rintro other (hother | rfl)
            · exact hsub other hother
            · exact hspec
          · intro other
            rw [hiff, or_comm]
      | unregister spec =>
          have hspec : spec ∈ S := hr spec List.mem_cons_self
          rcases hid spec hspec with ⟨id, hspecid⟩
          have hsame : ∀ other ∈ S, other.id.toOption = some id ↔ other = spec := by
            intro other hother
            rw [SocketSpec.toOption_id_eq_some, ← hspecid]
            constructor
            · exact hown other hother spec hspec
            · exact congrArg SocketSpec.id
          simp only [note, hspecid, Request.want, List.mem_filter, decide_eq_true_eq,
            Finset.mem_erase]
          constructor
          · intro other hother
            exact hsub other hother.1
          · intro other
            rw [← hiff, and_comm]
            apply and_congr_left
            intro hother
            exact not_congr (hsame other (hsub other hother))
      | replaceAll specs =>
          have hspecs : ∀ spec ∈ specs, spec ∈ S := hr
          rw [note, ofSpecs_of_ok fun spec hspec => hid spec (hspecs spec hspec)]
          exact ⟨hspecs, fun other => List.mem_toFinset.symm⟩

theorem mem_after_iff (habout : About S requests) {spec : SocketSpec} (hspec : spec ∈ S)
    {id : SocketId} (hspecid : spec.id = .ok id) :
    id ∈ after requests ↔ spec ∈ wanted requests := by
  rcases mem_registered_iff hid hown habout with ⟨hsub, hiff⟩
  rw [(lists_after requests).mem_iff, mem_ids, ← hiff]
  constructor
  · intro hx
    rcases hx with ⟨other, hother, hotherid⟩
    have heq := hown other (hsub other hother) spec hspec (hotherid.trans hspecid.symm)
    rw [← heq]
    exact hother
  · intro hmem
    exact ⟨spec, hmem, hspecid⟩

theorem contains_after (habout : About S requests) {spec : SocketSpec} (hspec : spec ∈ S)
    {id : SocketId} (hspecid : spec.id = .ok id) :
    (after requests).contains id = decide (spec ∈ wanted requests) := by
  rw [Bool.eq_iff_iff, ← Std.ExtTreeMap.mem_iff_contains, decide_eq_true_eq]
  exact mem_after_iff hid hown habout hspec hspecid

theorem size_after (habout : About S requests) :
    (after requests).size = (wanted requests).card := by
  rcases mem_registered_iff hid hown habout with ⟨hsub, hiff⟩
  have hwanted : ∀ spec ∈ wanted requests, spec ∈ S :=
    fun spec hspec => hsub spec ((hiff spec).2 hspec)
  have hinj : Set.InjOn (fun spec : SocketSpec => spec.id.toOption) (wanted requests) := by
    intro a ha b hb heq
    rcases hid b (hwanted b hb) with ⟨id, hbid⟩
    have haid : a.id = .ok id :=
      SocketSpec.toOption_id_eq_some.1 (heq.trans (SocketSpec.toOption_id_eq_some.2 hbid))
    exact hown a (hwanted a ha) b (hwanted b hb) (haid.trans hbid.symm)
  rw [(lists_after requests).size_eq, ← Finset.card_image_of_injOn hinj,
    ← Finset.card_image_of_injective _ (Option.some_injective SocketId)]
  congr 1
  ext id?
  simp only [Finset.mem_image, List.mem_toFinset, mem_ids, hiff]
  constructor
  · rintro ⟨id, ⟨spec, hspec, hspecid⟩, rfl⟩
    exact ⟨spec, hspec, SocketSpec.toOption_id_eq_some.2 hspecid⟩
  · rintro ⟨spec, hspec, rfl⟩
    rcases hid spec (hwanted spec hspec) with ⟨id, hspecid⟩
    exact ⟨id, ⟨spec, hspec, hspecid⟩, (SocketSpec.toOption_id_eq_some.2 hspecid).symm⟩

theorem reply_after {r : Request} (habout : About S (requests ++ [r])) :
    (after requests).reply r = .ok (r.expected (wanted requests)) := by
  rcases about_concat.1 habout with ⟨hbefore, hr⟩
  cases r with
  | register spec =>
      have hspec : spec ∈ S := hr spec List.mem_cons_self
      rcases hid spec hspec with ⟨id, hspecid⟩
      have hcontains := contains_after hid hown hbefore hspec hspecid
      rw [reply, register_of_id hspecid]
      simp [Watchlist.add, Except.map, Request.expected, hcontains]
  | unregister spec =>
      have hspec : spec ∈ S := hr spec List.mem_cons_self
      rcases hid spec hspec with ⟨id, hspecid⟩
      have hcontains := contains_after hid hown hbefore hspec hspecid
      rw [reply, unregister, hspecid]
      simp [Watchlist.withdraw, Except.map, Request.expected, hcontains]
  | replaceAll specs =>
      have hspecs : ∀ spec ∈ specs, spec ∈ S := hr
      rw [reply, ofSpecs_of_ok fun spec hspec => hid spec (hspecs spec hspec)]
      rfl

theorem tellsApart : TellsApart S where
  reply_eq _ _ habout := reply_after hid hown habout
  size_eq _ habout := size_after hid hown habout
  registers_iff requests habout spec hspec := by
    rcases hid spec hspec with ⟨id, hspecid⟩
    rw [← mem_after_iff hid hown habout hspec hspecid]
    constructor
    · intro hx
      rcases hx with ⟨i, hi, hmem⟩
      rw [hspecid] at hi
      rw [Except.ok.inj hi]
      exact hmem
    · intro hmem
      exact ⟨id, hspecid, hmem⟩

end

/-! ## Specs that share an identifier -/

theorem mem_after_register {a : SocketSpec} {id : SocketId} (ha : a.id = .ok id) :
    id ∈ after [.register a] :=
  (lists_after [.register a]).mem_iff.2 (mem_ids.2 ⟨a, by simp [registered, note, ha], ha⟩)

section

variable {a b : SocketSpec} {id : SocketId} (ha : a.id = .ok id) (hb : b.id = .ok id)

include ha hb

/-- Registering a spec does not tell that only another one with its identifier was registered. -/
theorem reply_register_of_shared :
    (after [.register a]).reply (.register b) = .ok false := by
  have hmem := mem_after_register ha
  rw [reply, register_of_id hb]
  simp [Watchlist.add, Except.map, hmem]

theorem reply_unregister_of_shared :
    (after [.register a]).reply (.unregister b) = .ok true := by
  have hmem := mem_after_register ha
  rw [reply, unregister, hb]
  simp [Watchlist.withdraw, Except.map, hmem]

/-- Withdrawing a spec withdraws those with its identifier. -/
theorem not_registers_of_shared : ¬(after [.register a, .unregister b]).Registers a := by
  intro hx
  rcases hx with ⟨i, hi, hmem⟩
  rw [(lists_after _).mem_iff, mem_ids] at hmem
  rcases hmem with ⟨other, hother, _⟩
  simp [registered, note, ha, hb, Except.toOption] at hother

theorem size_of_shared : (after [.register a, .register b]).size = 1 := by
  have hids : ids [a, b] = [id, id] := by
    rw [ids_cons_of_ok ha, ids_cons_of_ok hb]
    rfl
  have hregistered : registered [.register a, .register b] = [a, b] := by
    simp [registered, note, ha, hb]
  rw [(lists_after _).size_eq, hregistered, hids]
  simp

theorem TellsApart.eq_of_shared (h : TellsApart S) (hmem : a ∈ S) (hmem' : b ∈ S) : a = b := by
  have habout : About S ([.register a] ++ [.register b]) := by
    simp [About, Request.specs, hmem, hmem']
  have hreply := h.reply_eq _ _ habout
  rw [reply_register_of_shared ha hb] at hreply
  by_contra hne
  simp [Request.expected, wanted, Request.want, Ne.symm hne] at hreply

end

/-- A watchlist tells specs apart just if no two of them are akin. Of two akin specs the second one
is taken for the first one: when the first one is registered, registering the second one is answered
as if it were registered too and adds nothing, and withdrawing the second one is granted and
withdraws the first one. -/
theorem tellsApart_iff (hproper : ∀ spec ∈ S, spec.Proper) :
    (TellsApart S ↔ ∀ a ∈ S, ∀ b ∈ S, a.Akin b → a = b) ∧
    ∀ a ∈ S, ∀ b ∈ S, a.Akin b →
      (after [.register a]).reply (.register b) = .ok false ∧
      (after [.register a, .register b]).size = 1 ∧
      (after [.register a]).reply (.unregister b) = .ok true ∧
      ¬(after [.register a, .unregister b]).Registers a := by
  have hshared : ∀ a ∈ S, ∀ b ∈ S, a.Akin b → ∃ id, a.id = .ok id ∧ b.id = .ok id := by
    intro a ha b hb hakin
    rcases (hproper a ha).exists_id with ⟨id, hid⟩
    exact ⟨id, hid, (((hproper a ha).id_eq_iff (hproper b hb)).2 hakin).symm.trans hid⟩
  constructor
  · constructor
    · intro htells a ha b hb hakin
      rcases hshared a ha b hb hakin with ⟨id, haid, hbid⟩
      exact htells.eq_of_shared haid hbid ha hb
    · intro hown
      apply tellsApart fun spec hspec => (hproper spec hspec).exists_id
      intro a ha b hb heq
      exact hown a ha b hb (((hproper a ha).id_eq_iff (hproper b hb)).1 heq)
  · intro a ha b hb hakin
    rcases hshared a ha b hb hakin with ⟨id, haid, hbid⟩
    exact ⟨reply_register_of_shared haid hbid, size_of_shared haid hbid,
      reply_unregister_of_shared haid hbid, not_registers_of_shared haid hbid⟩

/-- A spec for port 80 of 10.0.0.1. -/
def webSpec (inode : Option UInt64) : SocketSpec :=
  ⟨.v4 (.ofOctets 10 0 0 1), some 80, inode⟩

theorem proper_webSpec {inode : Option UInt64} (h : inode ≠ some 0) : (webSpec inode).Proper :=
  ⟨⟨_, rfl⟩, by simp [webSpec], h⟩

/-- The specs for port 80 and for the sockets there with inodes 7 and 8 are told apart. -/
theorem tellsApart_iff_webSpec :
    TellsApart {webSpec none, webSpec (some 7), webSpec (some 8)} := by
  apply (tellsApart_iff ?_).1.2
  · intro a ha b hb hakin
    have hbits := hakin.bits_eq
    rcases ha with rfl | rfl | rfl <;> rcases hb with rfl | rfl | rfl <;>
      first
        | rfl
        | exact absurd hbits (by decide)
  · intro spec hspec
    rcases hspec with rfl | rfl | rfl <;> exact proper_webSpec (by decide)

/-- The spec for inode 65536 is taken for the one for every inode. -/
theorem not_tellsApart_alias :
    (webSpec none).Proper ∧ (webSpec (some 65536)).Proper ∧
    ¬TellsApart {webSpec none, webSpec (some 65536)} ∧
    (after [.register (webSpec none)]).reply (.register (webSpec (some 65536))) = .ok false ∧
    (after [.register (webSpec none), .register (webSpec (some 65536))]).size = 1 ∧
    (after [.register (webSpec none)]).reply (.unregister (webSpec (some 65536))) = .ok true ∧
    ¬(after [.register (webSpec none), .unregister (webSpec (some 65536))]).Registers
      (webSpec none) := by
  have hany : (webSpec none).id = .ok (SocketId.pack (.ofOctets 10 0 0 1) 80 0) := rfl
  have hone : (webSpec (some 65536)).id = .ok (SocketId.pack (.ofOctets 10 0 0 1) 80 0) := rfl
  have hnot : ¬TellsApart {webSpec none, webSpec (some 65536)} := fun h =>
    absurd (h.eq_of_shared hany hone (Or.inl rfl) (Or.inr rfl)) (by decide)
  exact ⟨proper_webSpec (by decide), proper_webSpec (by decide), hnot,
    reply_register_of_shared hany hone, size_of_shared hany hone,
    reply_unregister_of_shared hany hone, not_registers_of_shared hany hone⟩

end Watchlist

end QueueWatch
