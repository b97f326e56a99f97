import Mathlib.Data.List.Basic
import QueueWatch.Token.Assembler

/-!
# Reading chunks a byte at a time

An assembler looks for the next delimiter in a chunk and treats the bytes before it as one piece.
Here the same is done a byte at a time (`take`), and `feed_eq_forM_take` says that nothing can tell
the two apart: neither the handler nor the error nor what is pending afterwards. A byte has no
place where it could be cut, so how an input is cut into chunks does not show.

This needs that the pending bytes are within the capacity, which every operation preserves.
-/

namespace QueueWatch

namespace Assembler

variable {ε σ : Type} {d : UInt8} {c : Nat} {P : Assembler → Prop}

/-- An assembler for tokens that end at `d` and have at most `c` bytes, as its pending bytes do. -/
structure Within (d : UInt8) (c : Nat) (a : Assembler) : Prop where
  delimiter_eq : a.delimiter = d
  capacity_eq : a.capacity = c
  size_le : a.pending.size ≤ c

theorem Within.self {a : Assembler} (h : a.Within d c) : a.Within a.delimiter a.capacity := by
  refine ⟨rfl, rfl, ?_⟩
  rw [h.capacity_eq]
  exact h.size_le

theorem Within.reset {a : Assembler} (h : a.Within d c) : a.reset.Within d c :=
  ⟨h.delimiter_eq, h.capacity_eq, Nat.zero_le c⟩

theorem Within.push {a : Assembler} (h : a.Within d c) (hroom : a.pending.size < a.capacity)
    (b : UInt8) : ({ a with pending := a.pending.push b } : Assembler).Within d c := by
  refine ⟨h.delimiter_eq, h.capacity_eq, ?_⟩
  rw [h.capacity_eq] at hroom
  rw [Array.size_push]
  exact hroom

/-- The state that is left by a run that succeeds and by one that fails. -/
def stateAfter : EStateM.Result (FeedError ε) (Assembler × σ) Unit → Assembler × σ
  | .ok _ state => state
  | .error _ state => state

/-- What held of the assembler holds after the run, also when the run fails. -/
def Keeps (P : Assembler → Prop) (x : Run ε σ Unit) : Prop :=
  ∀ (a : Assembler) (s : σ), P a → P (stateAfter (x (a, s))).1

/-- Two runs that cannot be told apart from an assembler of which `P` holds. -/
def Same (P : Assembler → Prop) (x y : Run ε σ Unit) : Prop :=
  ∀ (a : Assembler) (s : σ), P a → x (a, s) = y (a, s)

theorem bind_apply {ρ τ : Type} (x : EStateM ρ τ Unit) (f : Unit → EStateM ρ τ Unit) (state : τ) :
    (x >>= f) state =
      match x state with
      | .ok u state => f u state
      | .error e state => .error e state := by
  change EStateM.bind x f state = _
  unfold EStateM.bind
  cases x state <;> rfl

theorem Keeps.bind {x : Run ε σ Unit} {f : Unit → Run ε σ Unit} (hx : Keeps P x)
    (hf : Keeps P (f ())) : Keeps P (x >>= f) := by
  intro a s ha
  have h := hx a s ha
  rw [bind_apply]
  cases hr : x (a, s) with
  | ok u state =>
      rw [hr] at h
      exact hf state.1 state.2 h
  | error e state =>
      rw [hr] at h
      exact h

theorem Same.bind {x y : Run ε σ Unit} {f g : Unit → Run ε σ Unit} (hx : Keeps P x)
    (hxy : Same P x y) (hfg : Same P (f ()) (g ())) : Same P (x >>= f) (y >>= g) := by
  intro a s ha
  have h := hx a s ha
  rw [bind_apply, bind_apply, ← hxy a s ha]
  cases hr : x (a, s) with
  | ok u state =>
      rw [hr] at h
      exact hfg state.1 state.2 h
  | error e state => rfl

theorem Same.symm {x y : Run ε σ Unit} (h : Same P x y) : Same P y x :=
  fun a s ha => (h a s ha).symm

theorem Same.keeps {x y : Run ε σ Unit} (h : Same P x y) (hy : Keeps P y) : Keeps P x := by
  intro a s ha
  rw [h a s ha]
  exact hy a s ha

theorem Same.trans {x y z : Run ε σ Unit} (hxy : Same P x y) (hyz : Same P y z) : Same P x z :=
  fun a s ha => (hxy a s ha).trans (hyz a s ha)

/-! ## One byte -/

/-- Takes one byte of the input. -/
def take (handler : TokenHandler ε σ) (b : UInt8) : Run ε σ Unit :=
  fun (a, s) =>
    if b = a.delimiter then flush handler (a, s)
    else if a.pending.size < a.capacity then .ok () ({ a with pending := a.pending.push b }, s)
    else .error (.tokenTooLong a.capacity) (a.reset, s)

theorem take_apply (handler : TokenHandler ε σ) (b : UInt8) (a : Assembler) (s : σ) :
    take handler b (a, s) =
      if b = a.delimiter then flush handler (a, s)
      else if a.pending.size < a.capacity then .ok () ({ a with pending := a.pending.push b }, s)
      else .error (.tokenTooLong a.capacity) (a.reset, s) := rfl

theorem flush_apply (handler : TokenHandler ε σ) (a : Assembler) (s : σ) :
    flush handler (a, s) =
      if a.pending.isEmpty then .ok () (a, s)
      else lift (handler.token a.pending.toList) (a.reset, s) := rfl

theorem keep_apply (bytes : List UInt8) (a : Assembler) (s : σ) :
    keep (ε := ε) bytes (a, s) =
      if a.capacity < a.pending.size + bytes.length then
        .error (.tokenTooLong a.capacity) (a.reset, s)
      else .ok () ({ a with pending := a.pending ++ bytes.toArray }, s) := rfl

theorem close_apply (handler : TokenHandler ε σ) (bytes : List UInt8) (a : Assembler) (s : σ) :
    close handler bytes (a, s) =
      if a.pending.isEmpty then
        if a.capacity < bytes.length then .error (.tokenTooLong a.capacity) (a, s)
        else if bytes.isEmpty then .ok () (a, s)
        else lift (handler.token bytes) (a, s)
      else
        match keep bytes (a, s) with
        | .ok _ state => flush handler state
        | .error e state => .error e state := rfl

theorem lift_apply (action : EStateM ε σ Unit) (a : Assembler) (s : σ) :
    lift action (a, s) =
      match action s with
      | .ok _ s => .ok () (a, s)
      | .error e s => .error (.refused e) (a, s) := rfl

theorem fst_stateAfter_lift (action : EStateM ε σ Unit) (a : Assembler) (s : σ) :
    (stateAfter (lift action (a, s))).1 = a := by
  rw [lift_apply]
  cases action s <;> rfl

theorem keeps_lift (action : EStateM ε σ Unit) : Keeps P (lift action) := by
  intro a s ha
  rw [fst_stateAfter_lift]
  exact ha

theorem within_flush (handler : TokenHandler ε σ) : Keeps (Within d c) (flush handler) := by
  intro a s ha
  rw [flush_apply]
  by_cases hpending : a.pending.isEmpty
  · rw [if_pos hpending]
    exact ha
  · rw [if_neg hpending, fst_stateAfter_lift]
    exact ha.reset

theorem within_keep (bytes : List UInt8) : Keeps (Within d c) (keep (ε := ε) (σ := σ) bytes) := by
  intro a s ha
  rw [keep_apply]
  by_cases hlong : a.capacity < a.pending.size + bytes.length
  · rw [if_pos hlong]
    exact ha.reset
  · rw [if_neg hlong]
    refine ⟨ha.delimiter_eq, ha.capacity_eq, ?_⟩
    rw [ha.capacity_eq] at hlong
    change (a.pending ++ bytes.toArray).size ≤ c
    rw [Array.size_append, List.size_toArray]
    exact Nat.not_lt.1 hlong

theorem within_take (handler : TokenHandler ε σ) (b : UInt8) :
    Keeps (Within d c) (take handler b) := by
  intro a s ha
  rw [take_apply]
  by_cases hb : b = a.delimiter
  · rw [if_pos hb]
    exact within_flush handler a s ha
  · rw [if_neg hb]
    by_cases hroom : a.pending.size < a.capacity
    · rw [if_pos hroom]
      exact ha.push hroom b
    · rw [if_neg hroom]
      exact ha.reset

theorem keeps_forM {α : Type} {f : α → Run ε σ Unit} (hf : ∀ x, Keeps P (f x)) (xs : List α) :
    Keeps P (forM xs f) := by
  induction xs with
  | nil =>
      intro a s ha
      exact ha
  | cons x xs ih => exact (hf x).bind ih

/-! ## The bytes up to the next delimiter -/

/-- Bytes that are none of them the delimiter are kept, or there is no room for one of them. -/
theorem forM_take_eq_keep (handler : TokenHandler ε σ) (bytes : List UInt8) (hd : d ∉ bytes) :
    Same (Within d c) (forM bytes (take handler)) (keep bytes) := by
  induction bytes with
  | nil =>
      intro a s ha
      have hroom : ¬a.capacity < a.pending.size + ([] : List UInt8).length := by
        rw [ha.capacity_eq]
        exact Nat.not_lt.2 ha.size_le
      have hkept : a.pending ++ ([] : List UInt8).toArray = a.pending := Array.append_empty
      rw [keep_apply, if_neg hroom, hkept]
      rfl
  | cons b bytes ih =>
      intro a s ha
      have hb : b ≠ a.delimiter := by
        rw [ha.delimiter_eq]
        exact fun h => hd (List.mem_cons.2 (Or.inl h.symm))
      have hbytes : d ∉ bytes := fun h => hd (List.mem_cons_of_mem b h)
      rw [List.forM_cons, bind_apply, take_apply, if_neg hb]
      by_cases hroom : a.pending.size < a.capacity
      · rw [if_pos hroom]
        have h := ih hbytes _ s (ha.push hroom b)
        change forM bytes (take handler) _ = _
        have hsize : (a.pending.push b).size + bytes.length =
            a.pending.size + (b :: bytes).length := by
          rw [Array.size_push, List.length_cons, Nat.add_right_comm, Nat.add_assoc]
        have hkept : a.pending.push b ++ bytes.toArray = a.pending ++ (b :: bytes).toArray := by
          simp
        rw [h, keep_apply, keep_apply, hsize, hkept]
        rfl
      · have hfull : a.capacity < a.pending.size + (b :: bytes).length := by
          rw [List.length_cons]
          omega
        rw [if_neg hroom, keep_apply, if_pos hfull]

/-- To close a token is to keep its last bytes and to hand it over: a token that lies within the
chunk is not treated in any other way. -/
theorem close_eq (handler : TokenHandler ε σ) (bytes : List UInt8) :
    close handler bytes = (do keep bytes; flush handler) := by
  funext state
  rcases state with ⟨a, s⟩
  rw [bind_apply]
  by_cases hpending : a.pending.isEmpty
  · rcases a with ⟨delimiter, capacity, pending⟩
    obtain rfl : pending = #[] := Array.isEmpty_iff.1 hpending
    rw [keep_apply, close_apply, if_pos hpending]
    by_cases hlong : capacity < bytes.length
    · simp [hlong, reset]
    · cases bytes with
      | nil => simp [flush_apply]
      | cons b bytes =>
          rw [List.length_cons] at hlong
          simp [hlong, flush_apply, reset]
  · rw [close_apply, if_neg hpending]
    cases keep bytes (a, s) <;> rfl

/-- A delimiter that is taken ends the token. -/
theorem same_flush (handler : TokenHandler ε σ) :
    Same (Within d c) (flush handler) (take handler d) := by
  intro a s ha
  rw [take_apply, if_pos ha.delimiter_eq.symm]

theorem same_close (handler : TokenHandler ε σ) (bytes : List UInt8) (hd : d ∉ bytes) :
    Same (Within d c) (close handler bytes) (forM (bytes ++ [d]) (take handler)) := by
  rw [close_eq, List.forM_append, List.forM_cons, List.forM_nil]
  refine Same.bind (within_keep bytes) (forM_take_eq_keep handler bytes hd).symm ?_
  rw [bind_pure_unit]
  exact same_flush handler

/-- Between delimiters the bytes of a chunk can be read one by one. -/
theorem feedFrom_eq_forM_take (handler : TokenHandler ε σ) (piece : Array UInt8)
    (chunk : List UInt8) (hd : d ∉ piece.toList) :
    Same (Within d c) (feedFrom handler d piece chunk)
      (forM (piece.toList ++ chunk) (take handler)) := by
  induction chunk generalizing piece with
  | nil =>
      rw [List.append_nil, feedFrom]
      exact (forM_take_eq_keep handler piece.toList hd).symm
  | cons b rest ih =>
      rw [feedFrom]
      by_cases hb : b = d
      · have hclose := same_close handler piece.toList hd (c := c)
        have hrest := ih #[] List.not_mem_nil
        rw [if_pos hb, hb, List.append_cons, List.forM_append]
        exact Same.bind (hclose.keeps (keeps_forM (within_take handler) _)) hclose hrest
      · rw [if_neg hb]
        have hpush : d ∉ (piece.push b).toList := by
          rw [Array.toList_push, List.mem_append, List.mem_singleton]
          intro hx
          rcases hx with h | h
          · exact hd h
          · exact hb h.symm
        have h := ih (piece.push b) hpush
        rwa [Array.toList_push, List.append_assoc, List.singleton_append] at h

/-- A chunk is read as if its bytes came one by one. -/
theorem feed_eq_forM_take (handler : TokenHandler ε σ) (chunk : List UInt8) :
    Same (Within d c) (feed handler chunk) (forM chunk (take handler)) := by
  intro a s ha
  change feedFrom handler a.delimiter #[] chunk (a, s) = _
  rw [ha.delimiter_eq]
  exact feedFrom_eq_forM_take handler #[] chunk List.not_mem_nil a s ha

theorem within_feed (handler : TokenHandler ε σ) (chunk : List UInt8) :
    Keeps (Within d c) (feed handler chunk) :=
  (feed_eq_forM_take handler chunk).keeps (keeps_forM (within_take handler) chunk)

theorem within_finish (handler : TokenHandler ε σ) : Keeps (Within d c) (finish handler) :=
  (within_flush handler).bind (keeps_lift handler.complete)

/-- It makes no difference whether two chunks come one after the other or as one. -/
theorem same_feed_append (handler : TokenHandler ε σ) (chunk₁ chunk₂ : List UInt8) :
    Same (Within d c) (do feed handler chunk₁; feed handler chunk₂)
      (feed handler (chunk₁ ++ chunk₂)) := by
  have hboth := (feed_eq_forM_take (d := d) (c := c) handler (chunk₁ ++ chunk₂)).symm
  rw [List.forM_append] at hboth
  refine Same.trans ?_ hboth
  exact Same.bind (within_feed handler chunk₁) (feed_eq_forM_take handler chunk₁)
    (feed_eq_forM_take handler chunk₂)

/-- Nor does it for any number of chunks. -/
theorem same_forM_feed (handler : TokenHandler ε σ) (chunks : List (List UInt8)) :
    Same (Within d c) (forM chunks (feed handler)) (forM chunks.flatten (take handler)) := by
  induction chunks with
  | nil =>
      intro a s ha
      rfl
  | cons chunk chunks ih =>
      rw [List.flatten_cons, List.forM_append, List.forM_cons]
      exact Same.bind (within_feed handler chunk) (feed_eq_forM_take handler chunk) ih

end Assembler

end QueueWatch
