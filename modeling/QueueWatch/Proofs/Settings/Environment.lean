import QueueWatch.Proofs.Settings.Entries
import QueueWatch.Proofs.Watchlist.Apart

/-!
# What an environment says

An environment says what the settings are, each variable for itself (`Says`), or something is wrong
with it (`Blames`). The list of sockets is to blame before the interval, and in the list the first
entry that is no spec. `Settings.read` gives the settings that the environment says, or reports what
is to blame: `read_follows_environment`.

What is read as a spec has an address of version 4, so all sockets of settings that are read have an
identifier and can be registered.
-/

namespace QueueWatch

/-! ## Readings one after the other -/

section

variable {ε α β : Type} {f : α → Except ε β} {xs : List α}

/-- All readings succeed, or there is a first one that fails. -/
theorem exists_forall₂_or_exists_error (f : α → Except ε β) (xs : List α) :
    (∃ ys, List.Forall₂ (fun x y => f x = .ok y) xs ys) ∨
      ∃ before x after e, xs = before ++ x :: after ∧ (∀ x ∈ before, ∃ y, f x = .ok y) ∧
        f x = .error e := by
  induction xs with
  | nil => exact Or.inl ⟨[], .nil⟩
  | cons x xs ih =>
      cases hx : f x with
      | error e => exact Or.inr ⟨[], x, xs, e, rfl, List.forall_mem_nil _, hx⟩
      | ok y =>
          rcases ih with ⟨ys, hys⟩ | ⟨before, x', after, e, hxs, hbefore, he⟩
          · exact Or.inl ⟨y :: ys, .cons hx hys⟩
          · refine Or.inr ⟨x :: before, x', after, e, by rw [hxs]; rfl, ?_, he⟩
            exact List.forall_mem_cons.2 ⟨⟨y, hx⟩, hbefore⟩

theorem exists_of_forall₂ {R : α → β → Prop} {ys : List β} (h : List.Forall₂ R xs ys) :
    ∀ x ∈ xs, ∃ y, R x y := by
  induction h with
  | nil => exact List.forall_mem_nil _
  | cons hx _ ih => exact List.forall_mem_cons.2 ⟨⟨_, hx⟩, ih⟩

theorem mapM_of_forall₂ {ys : List β} (h : List.Forall₂ (fun x y => f x = .ok y) xs ys) :
    xs.mapM f = .ok ys := by
  induction h with
  | nil => rfl
  | cons hx _ ih =>
      rw [List.mapM_cons, hx, ih]
      rfl

theorem mapM_of_error {before after : List α} {x : α} {e : ε}
    (hbefore : ∀ x ∈ before, ∃ y, f x = .ok y) (he : f x = .error e) :
    (before ++ x :: after).mapM f = .error e := by
  induction before with
  | nil =>
      rw [List.nil_append, List.mapM_cons, he]
      rfl
  | cons x' before ih =>
      rw [List.forall_mem_cons] at hbefore
      rcases hbefore with ⟨⟨y, hy⟩, hbefore⟩
      rw [List.cons_append, List.mapM_cons, hy, ih hbefore]
      rfl

end

namespace Settings

open Text (AllBlank)

/-! ## The meaning of an environment -/

/-- Where the tables are. -/
inductive SaysProcNet : Option String → String → Prop
  | unset : SaysProcNet none "/proc/net"
  | blank {value} (hvalue : AllBlank value.toList) : SaysProcNet (some value) "/proc/net"
  | set {value path} (hvalue : IsPadded value.toList path) : SaysProcNet (some value) path

/-- Which sockets are watched: every entry is the spec of one. -/
inductive SaysSockets : Option String → List SocketSpec → Prop
  | unset : SaysSockets none []
  | set {value texts specs} (htexts : HasEntries value texts)
      (hspecs : List.Forall₂ (fun text spec => SocketSpec.parse text = .ok spec) texts specs) :
      SaysSockets (some value) specs

/-- A value is a number of milliseconds, with any blanks around it. -/
def IsInterval (value : String) (n : Nat) : Prop :=
  ∃ text, IsPadded value.toList text ∧ IsNumeral 64 text.toList n

/-- The time between two polls. -/
inductive SaysInterval : Option String → UInt64 → Prop
  | unset : SaysInterval none 1000
  | set {value ms} (hvalue : IsInterval value ms.toNat) (hpos : 0 < ms) :
      SaysInterval (some value) ms

variable (lookup : String → Option String)

structure Says (s : Settings) : Prop where
  procNet : SaysProcNet (lookup procNetVariable) s.procNet
  sockets : SaysSockets (lookup socketsVariable) s.sockets
  interval : SaysInterval (lookup intervalVariable) s.interval

/-- What is wrong with an environment. -/
inductive Blames : SettingsError → Prop
  | socket {value before text after cause} (hvalue : lookup socketsVariable = some value)
      (htexts : HasEntries value (before ++ text :: after))
      (hbefore : ∀ text ∈ before, ∃ spec, SocketSpec.parse text = .ok spec)
      (h : SocketSpec.parse text = .error cause) : Blames (.invalidSocket cause)
  | interval {specs value cause} (hsockets : SaysSockets (lookup socketsVariable) specs)
      (hvalue : lookup intervalVariable = some value)
      (h : parseUnsigned 64 (Text.trim value.toList) = .error cause) :
      Blames (.invalidInterval value cause)
  | zero {specs value} (hsockets : SaysSockets (lookup socketsVariable) specs)
      (hvalue : lookup intervalVariable = some value) (h : IsInterval value 0) :
      Blames .zeroInterval

/-! ## Reading the variables -/

theorem saysProcNet_iff {value? : Option String} {path : String} :
    SaysProcNet value? path ↔ readProcNet value? = path := by
  cases value? with
  | none =>
      constructor
      · intro h
        cases h
        rfl
      · rintro rfl
        exact .unset
  | some value =>
      rw [readProcNet]
      by_cases hblank : Text.trim value.toList = []
      · rw [if_pos hblank]
        constructor
        · intro h
          cases h with
          | blank _ => rfl
          | set hvalue => exact absurd hblank hvalue.trim_ne_nil
        · rintro rfl
          exact .blank (allBlank_iff.2 hblank)
      · rw [if_neg hblank]
        constructor
        · intro h
          cases h with
          | blank hvalue => exact absurd (allBlank_iff.1 hvalue) hblank
          | set hvalue => exact hvalue.ofList_trim
        · rintro rfl
          exact .set (isPadded_trim hblank)

theorem isInterval_iff {value : String} {n : Nat} :
    IsInterval value n ↔ parseUnsigned 64 (Text.trim value.toList) = .ok n := by
  rw [parseUnsigned_eq_ok_iff]
  constructor
  · rintro ⟨text, htext, hn⟩
    rw [(isPadded_iff.1 htext).1]
    exact hn
  · intro hn
    have hne : Text.trim value.toList ≠ [] := by
      intro hempty
      rw [← parseUnsigned_eq_ok_iff, hempty] at hn
      cases hn
    exact ⟨_, isPadded_trim hne, by rwa [String.toList_ofList]⟩

theorem SaysInterval.readInterval_eq {value? : Option String} {ms : UInt64}
    (h : SaysInterval value? ms) : readInterval value? = .ok ms := by
  cases h with
  | unset => rfl
  | set hvalue hpos =>
      have hne : ms.toNat ≠ 0 := Nat.ne_of_gt (UInt64.lt_iff_toNat_lt.1 hpos)
      rw [readInterval, isInterval_iff.1 hvalue]
      split
      · contradiction
      · next heq => exact absurd (Except.ok.inj heq) hne
      · next heq => rw [← Except.ok.inj heq, Nat.toUInt64_eq, UInt64.ofNat_toNat]

theorem saysInterval_of_pos {value : String} {n : Nat} (h : IsInterval value n) (hpos : 0 < n) :
    SaysInterval (some value) (UInt64.ofNat n) := by
  have hword : (UInt64.ofNat n).toNat = n :=
    UInt64.toNat_ofNat_of_lt' (parseUnsigned_lt (isInterval_iff.1 h))
  refine .set ?_ ?_
  · rw [hword]
    exact h
  · rw [UInt64.lt_iff_toNat_lt, hword]
    exact hpos

theorem exists_saysInterval_iff {value? : Option String} :
    (∃ ms, SaysInterval value? ms) ↔
      ∀ value, value? = some value → ∃ n, IsInterval value n ∧ 0 < n := by
  constructor
  · rintro ⟨ms, h⟩ value rfl
    cases h with
    | set hvalue hpos => exact ⟨ms.toNat, hvalue, UInt64.lt_iff_toNat_lt.1 hpos⟩
  · intro h
    cases value? with
    | none => exact ⟨1000, .unset⟩
    | some value =>
        rcases h value rfl with ⟨n, hn, hpos⟩
        exact ⟨_, saysInterval_of_pos hn hpos⟩

/-- What is said of one entry of the list of sockets. -/
def readEntry (text : String) : Except SettingsError SocketSpec :=
  (SocketSpec.parse text).mapError .invalidSocket

theorem readSockets_some {value : String} {texts : List String} (h : HasEntries value texts) :
    readSockets (some value) = texts.mapM readEntry := by
  rw [← hasEntries_iff.1 h, List.mapM_map, readSockets]
  refine congrArg (List.mapM · (entries value)) (funext fun entry => ?_)
  rw [Function.comp_apply, readEntry]
  cases SocketSpec.parse (String.ofList entry) <;> rfl

theorem readEntry_of_ok {text : String} {spec : SocketSpec} (h : SocketSpec.parse text = .ok spec) :
    readEntry text = .ok spec := by
  rw [readEntry, h]
  rfl

theorem readEntry_of_error {text : String} {cause : SpecError}
    (h : SocketSpec.parse text = .error cause) :
    readEntry text = .error (.invalidSocket cause) := by
  rw [readEntry, h]
  rfl

theorem SaysSockets.readSockets_eq {value? : Option String} {specs : List SocketSpec}
    (h : SaysSockets value? specs) : readSockets value? = .ok specs := by
  cases h with
  | unset => rfl
  | set htexts hspecs =>
      rw [readSockets_some htexts]
      exact mapM_of_forall₂ (hspecs.imp fun _ _ => readEntry_of_ok)

/-- Every entry is a spec, or there is a first one that is none. -/
theorem saysSockets_cases (value? : Option String) :
    (∃ specs, SaysSockets value? specs) ∨
      ∃ value before text after cause, value? = some value ∧
        HasEntries value (before ++ text :: after) ∧
        (∀ text ∈ before, ∃ spec, SocketSpec.parse text = .ok spec) ∧
        SocketSpec.parse text = .error cause := by
  cases value? with
  | none => exact Or.inl ⟨[], .unset⟩
  | some value =>
      have htexts : HasEntries value ((entries value).map String.ofList) := hasEntries_iff.2 rfl
      rcases exists_forall₂_or_exists_error SocketSpec.parse _ with
        ⟨specs, hspecs⟩ | ⟨before, text, after, cause, heq, hbefore, hcause⟩
      · exact Or.inl ⟨specs, .set htexts hspecs⟩
      · rw [heq] at htexts
        exact Or.inr ⟨value, before, text, after, cause, rfl, htexts, hbefore, hcause⟩

theorem exists_saysSockets_iff {value? : Option String} :
    (∃ specs, SaysSockets value? specs) ↔
      ∀ value texts, value? = some value → HasEntries value texts →
        ∀ text ∈ texts, ∃ spec, SocketSpec.parse text = .ok spec := by
  constructor
  · rintro ⟨specs, h⟩ value texts rfl htexts
    cases h with
    | set htexts' hspecs =>
        rw [← hasEntries_iff.1 htexts, hasEntries_iff.1 htexts']
        exact exists_of_forall₂ hspecs
  · intro h
    rcases saysSockets_cases value? with
      hsays | ⟨value, before, text, after, cause, hvalue, htexts, _, hcause⟩
    · exact hsays
    · have htext : text ∈ before ++ text :: after := List.mem_append_right _ List.mem_cons_self
      rcases h value _ hvalue htexts text htext with ⟨spec, hspec⟩
      cases hspec.symm.trans hcause

/-! ## Reading the environment -/

section

variable {lookup : String → Option String}

theorem Says.read_eq {s : Settings} (h : Says lookup s) : read lookup = .ok s := by
  rw [read, h.sockets.readSockets_eq, h.interval.readInterval_eq, saysProcNet_iff.1 h.procNet]
  rfl

theorem Blames.read_eq {e : SettingsError} (h : Blames lookup e) : read lookup = .error e := by
  cases h with
  | @socket value before text after cause hvalue htexts hbefore h =>
      have hread : ∀ text ∈ before, ∃ spec, readEntry text = .ok spec :=
        fun text htext => (hbefore text htext).imp fun _ => readEntry_of_ok
      rw [read, hvalue, readSockets_some htexts, mapM_of_error hread (readEntry_of_error h)]
      rfl
  | interval hsockets hvalue h =>
      rw [read, hsockets.readSockets_eq, hvalue, readInterval, h]
      rfl
  | zero hsockets hvalue h =>
      rw [read, hsockets.readSockets_eq, hvalue, readInterval, isInterval_iff.1 h]
      rfl

/-- An environment says what the settings are, or something is wrong with it. -/
theorem says_or_blames (lookup : String → Option String) :
    (∃ s, Says lookup s) ∨ ∃ e, Blames lookup e := by
  rcases saysSockets_cases (lookup socketsVariable) with
    ⟨specs, hspecs⟩ | ⟨value, before, text, after, cause, hvalue, htexts, hbefore, hcause⟩
  · by_cases hinterval : ∃ ms, SaysInterval (lookup intervalVariable) ms
    · rcases hinterval with ⟨ms, hms⟩
      exact Or.inl ⟨⟨_, specs, ms⟩, saysProcNet_iff.2 rfl, hspecs, hms⟩
    · right
      rw [exists_saysInterval_iff] at hinterval
      push Not at hinterval
      rcases hinterval with ⟨value, hvalue, hnone⟩
      cases hread : parseUnsigned 64 (Text.trim value.toList) with
      | error cause => exact ⟨_, .interval hspecs hvalue hread⟩
      | ok n =>
          have hn : IsInterval value n := isInterval_iff.2 hread
          rw [Nat.le_zero.1 (hnone n hn)] at hn
          exact ⟨_, .zero hspecs hvalue hn⟩
  · exact Or.inr ⟨_, .socket hvalue htexts hbefore hcause⟩

theorem read_eq_ok_iff {s : Settings} : read lookup = .ok s ↔ Says lookup s := by
  refine ⟨fun h => ?_, Says.read_eq⟩
  rcases says_or_blames lookup with ⟨s', hs'⟩ | ⟨e, he⟩
  · cases h.symm.trans hs'.read_eq
    exact hs'
  · cases h.symm.trans he.read_eq

theorem read_eq_error_iff {e : SettingsError} : read lookup = .error e ↔ Blames lookup e := by
  refine ⟨fun h => ?_, Blames.read_eq⟩
  rcases says_or_blames lookup with ⟨s, hs⟩ | ⟨e', he'⟩
  · cases h.symm.trans hs.read_eq
  · cases h.symm.trans he'.read_eq
    exact he'

theorem exists_read_eq_ok_iff :
    (∃ s, read lookup = .ok s) ↔
      (∃ specs, SaysSockets (lookup socketsVariable) specs) ∧
        ∃ ms, SaysInterval (lookup intervalVariable) ms := by
  simp only [read_eq_ok_iff]
  constructor
  · rintro ⟨s, hs⟩
    exact ⟨⟨s.sockets, hs.sockets⟩, s.interval, hs.interval⟩
  · rintro ⟨⟨specs, hspecs⟩, ms, hms⟩
    exact ⟨⟨_, specs, ms⟩, saysProcNet_iff.2 rfl, hspecs, hms⟩

/-- What is written in the list of sockets is what is watched. -/
theorem read_of_writes {specs : List SocketSpec} {pieces : List (List Char)} {value : String}
    {ms : UInt64} (hwrites : Writes specs pieces)
    (hjoined : value.toList = [','].intercalate pieces)
    (hvalue : lookup socketsVariable = some value)
    (hms : SaysInterval (lookup intervalVariable) ms) :
    ∃ s, read lookup = .ok s ∧ s.sockets = specs ∧ s.interval = ms := by
  have hsockets : SaysSockets (lookup socketsVariable) specs := by
    rw [hvalue]
    exact .set (hwrites.hasEntries hjoined) hwrites.parse
  exact ⟨⟨_, specs, ms⟩, Says.read_eq ⟨saysProcNet_iff.2 rfl, hsockets, hms⟩, rfl, rfl⟩

/-! ## Registering the sockets -/

/-- Sockets that an environment says have an identifier. -/
theorem SaysSockets.exists_id {value? : Option String} {specs : List SocketSpec}
    (h : SaysSockets value? specs) : ∀ spec ∈ specs, ∃ id, spec.id = .ok id := by
  cases h with
  | unset => exact List.forall_mem_nil _
  | set _ hspecs =>
      intro spec hspec
      rcases exists_of_forall₂ hspecs.flip spec hspec with ⟨text, hparse⟩
      rcases SocketSpec.parse_eq_ok_iff.1 hparse with ⟨p, _, hreads⟩
      rcases hreads.host with ⟨ip, hhost, _⟩
      exact SocketSpec.exists_id_of_v4 hhost

theorem exists_ofSpecs {s : Settings} (h : read lookup = .ok s) :
    ∃ w, Watchlist.ofSpecs s.sockets = .ok w ∧
      (∀ spec ∈ s.sockets, ∃ id ∈ w, spec.id = .ok id) ∧
      ∀ id ∈ w, ∃ spec ∈ s.sockets, spec.id = .ok id := by
  have hid := (read_eq_ok_iff.1 h).sockets.exists_id
  have hw := Watchlist.ofSpecs_of_ok hid
  have hmem : ∀ id, id ∈ Watchlist.registerAll ∅ s.sockets ↔ ∃ spec ∈ s.sockets, spec.id = .ok id :=
    fun id => (Watchlist.lists_ofSpecs hw).mem_iff.trans Watchlist.mem_ids
  refine ⟨_, hw, ?_, fun id => (hmem id).1⟩
  intro spec hspec
  rcases hid spec hspec with ⟨id, hspecid⟩
  exact ⟨id, (hmem id).2 ⟨spec, hspec, hspecid⟩, hspecid⟩

end

/-- Reading follows the environment. A list of sockets has its entries in one way. The settings are
what the environment says; there are settings exactly if every entry is a spec and an interval that
is set is a number above zero, and otherwise the error blames the first entry that is no spec, or
the interval if all entries are specs. Specs that are written in the list, with any blanks around
them and any blank pieces among them, are the sockets of the settings, in their order and as often
as they are written. The sockets of settings that are read can replace the registrations of a
watchlist, which then holds their identifiers and no others. -/
theorem read_follows_environment (lookup : String → Option String) :
    (∀ value, ∃! texts, HasEntries value texts) ∧
    (∀ s, read lookup = .ok s ↔ Says lookup s) ∧
    ((∃ s, read lookup = .ok s) ↔
      (∀ value texts, lookup socketsVariable = some value → HasEntries value texts →
        ∀ text ∈ texts, ∃ spec, SocketSpec.parse text = .ok spec) ∧
      ∀ value, lookup intervalVariable = some value → ∃ n, IsInterval value n ∧ 0 < n) ∧
    (∀ e, read lookup = .error e ↔ Blames lookup e) ∧
    (∀ specs pieces value ms, Writes specs pieces → value.toList = [','].intercalate pieces →
      lookup socketsVariable = some value → SaysInterval (lookup intervalVariable) ms →
      ∃ s, read lookup = .ok s ∧ s.sockets = specs ∧ s.interval = ms) ∧
    ∀ s, read lookup = .ok s → ∃ w, Watchlist.ofSpecs s.sockets = .ok w ∧
      (∀ spec ∈ s.sockets, ∃ id ∈ w, spec.id = .ok id) ∧
      ∀ id ∈ w, ∃ spec ∈ s.sockets, spec.id = .ok id := by
  refine ⟨fun value => ?_, fun _ => read_eq_ok_iff, ?_, fun _ => read_eq_error_iff,
    fun _ _ _ _ => read_of_writes, fun _ => exists_ofSpecs⟩
  · simp only [hasEntries_iff]
    exact existsUnique_eq'
  · rw [exists_read_eq_ok_iff, exists_saysSockets_iff, exists_saysInterval_iff]

/-- A list of sockets with blanks and a blank piece, and an environment with two faults. -/
theorem read_follows_environment_two_faults :
    let sockets : List SocketSpec := [⟨.v4 (.ofOctets 127 0 0 1), some 53, none⟩,
      ⟨.v4 (.ofOctets 0 0 0 0), none, none⟩, ⟨.v4 (.ofOctets 10 0 0 1), none, some 77⟩]
    let lookup : String → String → String → Option String := fun list interval name =>
      if name = socketsVariable then some list
      else if name = intervalVariable then some interval else none
    (∃ s, read (lookup "127.0.0.1:53, 0.0.0.0 ,,10.0.0.1#77" "250\n") = .ok s ∧
      s.sockets = sockets ∧ s.interval = 250 ∧
      ∃ w, Watchlist.ofSpecs s.sockets = .ok w ∧ ∀ spec ∈ s.sockets, ∃ id ∈ w, spec.id = .ok id) ∧
    Blames (lookup "127.0.0.1:53,localhost,#" "soon") (.invalidSocket ⟨"localhost", .host⟩) := by
  intro sockets lookup
  have hnone := Text.allBlank_nil
  have hspace : AllBlank [' '] := List.forall_mem_singleton.2 rfl
  constructor
  · have h := read_follows_environment (lookup "127.0.0.1:53, 0.0.0.0 ,,10.0.0.1#77" "250\n")
    have hwrites : Writes sockets _ :=
      .spec rfl hnone hnone (.spec rfl hspace hspace (.blank hnone (.spec rfl hnone hnone .nil)))
    have hinterval : SaysInterval (some "250\n") 250 :=
      .set (isInterval_iff.2 (by decide +kernel)) (by decide)
    rcases h.2.2.2.2.1 sockets _ _ 250 hwrites (by decide +kernel) rfl hinterval with
      ⟨s, hs, hsockets, hms⟩
    rcases h.2.2.2.2.2 s hs with ⟨w, hw, hregistered, _⟩
    exact ⟨s, hs, hsockets, hms, w, hw, hregistered⟩
  · have h := read_follows_environment (lookup "127.0.0.1:53,localhost,#" "soon")
    exact (h.2.2.2.1 _).1 (by decide +kernel)

end Settings

end QueueWatch
