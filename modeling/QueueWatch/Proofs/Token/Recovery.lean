import QueueWatch.Proofs.Token.Calls
import QueueWatch.Proofs.Token.Chunking

/-!
# An assembler after an error

Whatever an assembler was used for, the bytes that it holds are the start of a token: there are no
more of them than the capacity, and the delimiter is not among them (`Tidy`). A byte either shows to
nobody, or ends a token that is handed over, or is one too many (`take_cases`). In the last two
cases nothing is held afterwards, whatever the handler says to the token. So a chunk that fails
leaves nothing behind, and the assembler is a new one again (`Assembler.recovers_from_errors`).
-/

namespace QueueWatch

/-- A token as an assembler hands it over. -/
structure Fits (d : UInt8) (c : Nat) (t : List UInt8) : Prop where
  ne_nil : t ≠ []
  not_mem : d ∉ t
  length_le : t.length ≤ c

namespace Assembler

variable {ε σ : Type} {d : UInt8} {c : Nat}

/-- The bytes that are held are the start of a token. -/
structure Tidy (d : UInt8) (c : Nat) (a : Assembler) : Prop extends Within d c a where
  not_mem : d ∉ a.pending.toList

theorem Tidy.self {a : Assembler} (h : a.Tidy d c) : a.Tidy a.delimiter a.capacity := by
  refine ⟨h.toWithin.self, ?_⟩
  rw [h.delimiter_eq]
  exact h.not_mem

theorem tidy_new (d : UInt8) (c : Nat) : Tidy d c { delimiter := d, capacity := c } :=
  ⟨⟨rfl, rfl, Nat.zero_le c⟩, List.not_mem_nil⟩

theorem Tidy.fits {a : Assembler} (h : a.Tidy d c) (hpending : ¬ a.pending.isEmpty) :
    Fits d c a.pending.toList := by
  refine ⟨?_, h.not_mem, ?_⟩
  · simpa using hpending
  · rw [Array.length_toList]
    exact h.size_le

theorem Tidy.push {a : Assembler} (h : a.Tidy d c) (hroom : a.pending.size < a.capacity)
    {b : UInt8} (hb : b ≠ d) : ({ a with pending := a.pending.push b } : Assembler).Tidy d c := by
  refine ⟨h.toWithin.push hroom b, ?_⟩
  rw [Array.toList_push, List.mem_append, List.mem_singleton]
  intro hx
  rcases hx with hheld | hlast
  · exact h.not_mem hheld
  · exact hb hlast.symm

/-- What becomes of a byte does not depend on the handler: it shows to nobody, or it ends a token
that is handed over by an assembler that holds nothing any more, or it is one too many. -/
theorem take_cases {a : Assembler} (ha : a.Tidy d c) (b : UInt8) :
    (∃ a', Tidy d c a' ∧ ∀ {ε σ : Type} (handler : TokenHandler ε σ) (s : σ),
      take handler b (a, s) = .ok () (a', s)) ∨
    (∃ t, Fits d c t ∧ ∀ {ε σ : Type} (handler : TokenHandler ε σ) (s : σ),
      take handler b (a, s) = lift (handler.token t) ({ delimiter := d, capacity := c }, s)) ∨
    ∀ {ε σ : Type} (handler : TokenHandler ε σ) (s : σ),
      take handler b (a, s) =
        .error (.tokenTooLong c) ({ delimiter := d, capacity := c }, s) := by
  rcases a with ⟨d', c', pending⟩
  obtain rfl : d' = d := ha.delimiter_eq
  obtain rfl : c' = c := ha.capacity_eq
  by_cases hb : b = d'
  · by_cases hpending : pending.isEmpty
    · refine Or.inl ⟨_, ha, fun handler s => ?_⟩
      rw [take_apply, if_pos hb, flush_apply, if_pos hpending]
    · refine Or.inr (Or.inl ⟨pending.toList, ha.fits hpending, fun handler s => ?_⟩)
      rw [take_apply, if_pos hb, flush_apply, if_neg hpending]
      rfl
  · by_cases hroom : pending.size < c'
    · refine Or.inl ⟨_, ha.push hroom hb, fun handler s => ?_⟩
      rw [take_apply, if_neg hb, if_pos hroom]
    · refine Or.inr (Or.inr fun handler s => ?_)
      rw [take_apply, if_neg hb, if_neg hroom]
      rfl

/-! ## Any run -/

/-- After a success the bytes that are held are the start of a token; after a failure there are
none. -/
def LeavesTidy (d : UInt8) (c : Nat) : EStateM.Result (FeedError ε) (Assembler × σ) Unit → Prop
  | .ok _ (a, _) => Tidy d c a
  | .error _ (a, _) => a = { delimiter := d, capacity := c }

/-- Nothing is the start of a token, too. -/
theorem LeavesTidy.tidy {r : EStateM.Result (FeedError ε) (Assembler × σ) Unit}
    (h : LeavesTidy d c r) : (stateAfter r).1.Tidy d c := by
  cases r with
  | ok u state => exact h
  | error e state =>
      have hnew : state.1 = { delimiter := d, capacity := c } := h
      change state.1.Tidy d c
      rw [hnew]
      exact tidy_new d c

/-- A run that finds the start of a token leaves the start of one, or nothing if it fails. -/
def Recovers (d : UInt8) (c : Nat) (x : Run ε σ Unit) : Prop :=
  ∀ a s, Tidy d c a → LeavesTidy d c (x (a, s))

/-- A run with an observed handler is the run with the handler itself, and writes down calls of
which every token is as an assembler hands it over. -/
def Observes (d : UInt8) (c : Nat) (x' : Run ε (σ × List TokenCall) Unit) (x : Run ε σ Unit) :
    Prop :=
  ∀ a s calls, Tidy d c a → ∃ new,
    x' (a, (s, calls)) = mapState (fun (a, s) => (a, (s, calls ++ new))) (x (a, s)) ∧
    ∀ t, .token t ∈ new → Fits d c t

theorem Recovers.bind {x : Run ε σ Unit} {f : Unit → Run ε σ Unit} (hx : Recovers d c x)
    (hf : Recovers d c (f ())) : Recovers d c (x >>= f) := by
  intro a s ha
  have h := hx a s ha
  rw [bind_apply]
  cases hr : x (a, s) with
  | ok u state =>
      rw [hr] at h
      exact hf state.1 state.2 h
  | error e state =>
      rw [hr] at h
      exact h

theorem Observes.bind {x' : Run ε (σ × List TokenCall) Unit} {x : Run ε σ Unit}
    {f' : Unit → Run ε (σ × List TokenCall) Unit} {f : Unit → Run ε σ Unit}
    (hx : Observes d c x' x) (hkept : Recovers d c x) (hf : Observes d c (f' ()) (f ())) :
    Observes d c (x' >>= f') (x >>= f) := by
  intro a s calls ha
  rcases hx a s calls ha with ⟨first, hfirst, hfits⟩
  have h := hkept a s ha
  rw [bind_apply, bind_apply, hfirst]
  cases hr : x (a, s) with
  | ok u state =>
      rw [hr] at h
      rcases hf state.1 state.2 (calls ++ first) h with ⟨second, hsecond, hmore⟩
      refine ⟨first ++ second, ?_, ?_⟩
      · rw [← List.append_assoc]
        exact hsecond
      · intro t ht
        rcases List.mem_append.1 ht with ht | ht
        · exact hfits t ht
        · exact hmore t ht
  | error e state => exact ⟨first, rfl, hfits⟩

theorem lift_noting (call : TokenCall) (action : EStateM ε σ Unit) (a : Assembler) (s : σ)
    (calls : List TokenCall) :
    lift (TokenHandler.noting call action) (a, (s, calls)) =
      mapState (fun (a, s) => (a, (s, calls ++ [call]))) (lift action (a, s)) := by
  rw [lift_apply, lift_apply, TokenHandler.noting_apply]
  cases action s <;> rfl

theorem recovers_take (handler : TokenHandler ε σ) (b : UInt8) :
    Recovers d c (take handler b) := by
  intro a s ha
  rcases take_cases ha b with ⟨a₁, ha₁, htake⟩ | ⟨t, _, htake⟩ | htake
  · rw [htake]
    exact ha₁
  · rw [htake, lift_apply]
    cases handler.token t s with
    | ok u s' => exact tidy_new d c
    | error e s' => exact rfl
  · rw [htake]
    exact rfl

theorem observes_take (handler : TokenHandler ε σ) (b : UInt8) :
    Observes d c (take handler.observed b) (take handler b) := by
  intro a s calls ha
  rcases take_cases ha b with ⟨a₁, _, htake⟩ | ⟨t, ht, htake⟩ | htake
  · refine ⟨[], ?_, fun _ h => absurd h List.not_mem_nil⟩
    rw [htake, htake, List.append_nil]
    rfl
  · refine ⟨[.token t], ?_, ?_⟩
    · rw [htake, htake]
      exact lift_noting (.token t) (handler.token t) _ s calls
    · intro u hu
      cases List.mem_singleton.1 hu
      exact ht
  · refine ⟨[], ?_, fun _ h => absurd h List.not_mem_nil⟩
    rw [htake, htake, List.append_nil]
    rfl

theorem recovers_forM_take (handler : TokenHandler ε σ) (bytes : List UInt8) :
    Recovers d c (forM bytes (take handler)) := by
  induction bytes with
  | nil => exact fun a s ha => ha
  | cons b bytes ih => exact (recovers_take handler b).bind ih

theorem observes_forM_take (handler : TokenHandler ε σ) (bytes : List UInt8) :
    Observes d c (forM bytes (take handler.observed)) (forM bytes (take handler)) := by
  induction bytes with
  | nil =>
      intro a s calls _
      refine ⟨[], ?_, fun _ h => absurd h List.not_mem_nil⟩
      rw [List.append_nil]
      rfl
  | cons b bytes ih => exact (observes_take handler b).bind (recovers_take handler b) ih

theorem recovers_feed (handler : TokenHandler ε σ) (chunk : List UInt8) :
    Recovers d c (feed handler chunk) := by
  intro a s ha
  rw [feed_eq_forM_take handler chunk a s ha.toWithin]
  exact recovers_forM_take handler chunk a s ha

theorem observes_feed (handler : TokenHandler ε σ) (chunk : List UInt8) :
    Observes d c (feed handler.observed chunk) (feed handler chunk) := by
  intro a s calls ha
  rw [feed_eq_forM_take _ chunk a (s, calls) ha.toWithin,
    feed_eq_forM_take _ chunk a s ha.toWithin]
  exact observes_forM_take handler chunk a s calls ha

theorem observes_complete (handler : TokenHandler ε σ) :
    Observes d c (lift handler.observed.complete) (lift handler.complete) := by
  intro a s calls _
  refine ⟨[.complete], lift_noting .complete handler.complete a s calls, ?_⟩
  intro t ht
  cases List.mem_singleton.1 ht

theorem observes_finish (handler : TokenHandler ε σ) :
    Observes d c (finish handler.observed) (finish handler) := by
  intro a s calls ha
  have hplain : finish handler (a, s) =
      (do take handler d; lift handler.complete : Run ε σ Unit) (a, s) :=
    Same.bind (within_flush handler) (same_flush handler) (fun _ _ _ => rfl) a s ha.toWithin
  have hnoted : finish handler.observed (a, (s, calls)) =
      (do take handler.observed d; lift handler.observed.complete :
        Run ε (σ × List TokenCall) Unit) (a, (s, calls)) :=
    Same.bind (within_flush _) (same_flush _) (fun _ _ _ => rfl) a (s, calls) ha.toWithin
  rw [hplain, hnoted]
  exact (observes_take handler d).bind (recovers_take handler d) (observes_complete handler)
    a s calls ha

/-- Ending an input leaves nothing behind, also if it fails. -/
theorem stateAfter_finish (handler : TokenHandler ε σ) {a : Assembler} (ha : a.Within d c) (s : σ) :
    (stateAfter (finish handler (a, s))).1 = { delimiter := d, capacity := c } := by
  rcases a with ⟨d', c', pending⟩
  obtain rfl : d' = d := ha.delimiter_eq
  obtain rfl : c' = c := ha.capacity_eq
  rw [finish, bind_apply, flush_apply]
  by_cases hpending : pending.isEmpty
  · obtain rfl : pending = #[] := Array.isEmpty_iff.1 hpending
    rw [if_pos hpending]
    exact fst_stateAfter_lift handler.complete _ s
  · rw [if_neg hpending, lift_apply]
    cases handler.token pending.toList s with
    | ok u s' => exact fst_stateAfter_lift handler.complete _ s'
    | error e s' => rfl

theorem Reachable.tidy {a : Assembler} (h : a.Reachable) : a.Tidy a.delimiter a.capacity := by
  induction h with
  | new d c => exact tidy_new d c
  | @reset a _ ih => exact tidy_new a.delimiter a.capacity
  | @feed ε σ a _ handler chunk s ih =>
      exact (recovers_feed handler chunk a s ih).tidy.self
  | @finish ε σ a _ handler s ih =>
      rw [stateAfter_finish handler ih.toWithin]
      exact tidy_new a.delimiter a.capacity

/-- What holds of an assembler after any calls, with any handlers, and of its next call. The bytes
that it holds are within the capacity and without the delimiter. Every token that it hands over has
bytes, none of which is the delimiter, and no more of them than the capacity. After a chunk that
fails, for whatever reason, after the end of an input, whether it fails or not, and after a reset it
is a new assembler with the same delimiter and capacity. -/
theorem recovers_from_errors {a : Assembler} (ha : a.Reachable) (handler : TokenHandler ε σ)
    (s : σ) :
    let new : Assembler := { delimiter := a.delimiter, capacity := a.capacity }
    a.delimiter ∉ a.pending.toList ∧ a.pending.size ≤ a.capacity ∧
    (∀ chunk, ∃ calls,
      feed handler.observed chunk (a, (s, [])) =
        mapState (fun (a, s) => (a, (s, calls))) (feed handler chunk (a, s)) ∧
      ∀ t, .token t ∈ calls → Fits a.delimiter a.capacity t) ∧
    (∃ calls,
      finish handler.observed (a, (s, [])) =
        mapState (fun (a, s) => (a, (s, calls))) (finish handler (a, s)) ∧
      ∀ t, .token t ∈ calls → Fits a.delimiter a.capacity t) ∧
    (∀ chunk e a' s', feed handler chunk (a, s) = .error e (a', s') → a' = new) ∧
    (stateAfter (finish handler (a, s))).1 = new ∧
    a.reset = new := by
  intro new
  have htidy := ha.tidy
  refine ⟨htidy.not_mem, htidy.size_le, ?_, ?_, ?_, ?_, rfl⟩
  · intro chunk
    exact observes_feed handler chunk a s [] htidy
  · exact observes_finish handler a s [] htidy
  · intro chunk e a' s' herror
    have h := recovers_feed handler chunk a s htidy
    rw [herror] at h
    exact h
  · exact stateAfter_finish handler htidy.toWithin s

/-- A token that does not fit, in the middle of which the chunks are cut. -/
theorem recovers_from_errors_overlong :
    let a := (stateAfter (feed recorder [97, 10, 98] (Assembler.mk 10 2 #[], []))).1
    a.Reachable ∧ a = Assembler.mk 10 2 #[98] ∧
      stateAfter (feed recorder [99, 100, 10] (a, [])) = (Assembler.mk 10 2 #[], []) := by
  intro a
  have ha : a.Reachable := (Reachable.new 10 2).feed recorder [97, 10, 98] []
  have hlong : feed recorder [99, 100, 10] (a, []) =
      .error (.tokenTooLong 2) (Assembler.mk 10 2 #[], []) := rfl
  refine ⟨ha, rfl, ?_⟩
  have hnew := (recovers_from_errors ha recorder []).2.2.2.2.1 _ _ _ _ hlong
  rw [hlong]
  exact congrArg (·, []) hnew

end Assembler

end QueueWatch
