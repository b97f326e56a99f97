import QueueWatch.Proofs.Text.Parts
import QueueWatch.Proofs.Token.Bytewise

/-!
# Tokens do not depend on how an input is cut

However an input is cut into chunks, an assembler hands over the tokens that `Splitter.split` finds
in the whole of it, as long as they are within the capacity; it stops at the first that is not.

Both sides are compared with the list of the tokens of an input (`tokens`). The induction is on the
input as a row of pieces without delimiters (`induction_on_pieces`), since between two delimiters
neither side does anything that the handler sees.
-/

namespace QueueWatch

variable {ε σ : Type}

/-- The tokens of an input: what stands between its delimiters, unless it is empty. -/
def tokens (d : UInt8) (input : List UInt8) : List (List UInt8) :=
  (input.splitOn d).filter fun t => !t.isEmpty

/-- The tokens of a piece without delimiters. -/
def tokenOf (piece : List UInt8) : List (List UInt8) :=
  [piece].filter fun t => !t.isEmpty

theorem tokens_of_not_mem {d : UInt8} {piece : List UInt8} (h : d ∉ piece) :
    tokens d piece = tokenOf piece := by
  rw [tokens, List.splitOn_eq_singleton h, tokenOf]

theorem tokens_append_cons {d : UInt8} {piece : List UInt8} (h : d ∉ piece) (rest : List UInt8) :
    tokens d (piece ++ d :: rest) = tokenOf piece ++ tokens d rest := by
  rw [tokens, List.splitOn_append_cons_self_of_not_mem h, ← List.singleton_append,
    List.filter_append, tokenOf, tokens]

theorem forM_tokenOf {m : Type → Type} [Monad m] [LawfulMonad m] (piece : List UInt8)
    (f : List UInt8 → m Unit) :
    forM (tokenOf piece) f = (unless piece.isEmpty do f piece) := by
  cases piece <;> simp [tokenOf]

theorem tokens_intercalate {d : UInt8} {lines : List (List UInt8)} (h : ∀ line ∈ lines, d ∉ line) :
    tokens d ([d].intercalate lines) = lines.filter fun line => !line.isEmpty := by
  by_cases hlines : lines = []
  · rw [hlines]
    rfl
  · rw [tokens, List.splitOn_intercalate d h hlines]

namespace Splitter

theorem splitFrom_append (s : Splitter) (handler : TokenHandler ε σ) (pending : Array UInt8)
    {piece : List UInt8} (h : s.delimiter ∉ piece) (rest : List UInt8) :
    s.splitFrom handler pending (piece ++ rest) =
      s.splitFrom handler (pending ++ piece.toArray) rest := by
  induction piece generalizing pending with
  | nil => simp
  | cons b piece ih =>
      have hb : b ≠ s.delimiter := fun hb => h (List.mem_cons.2 (Or.inl hb.symm))
      have hpiece : s.delimiter ∉ piece := fun hp => h (List.mem_cons_of_mem b hp)
      have hkept : pending.push b ++ piece.toArray = pending ++ (b :: piece).toArray := by
        simp
      rw [List.cons_append, splitFrom_of_ne s handler pending hb, ih (pending.push b) hpiece, hkept]

/-- A splitter that skips empty tokens hands over the others and tells of the end. -/
theorem split_eq (d : UInt8) (handler : TokenHandler ε σ) (input : List UInt8) :
    split ⟨d, true⟩ handler input =
      (do
        forM (tokens d input) handler.token
        handler.complete) := by
  induction input using induction_on_pieces d with
  | last piece hd =>
      have h := splitFrom_append ⟨d, true⟩ handler #[] hd []
      rw [List.append_nil] at h
      rw [split, h, splitFrom_nil, tokens_of_not_mem hd, forM_tokenOf]
      by_cases hpiece : piece = [] <;> simp [hpiece]
  | step piece rest hd ih =>
      rw [split, splitFrom_append ⟨d, true⟩ handler #[] hd,
        splitFrom_delimiter ⟨d, true⟩ handler, tokens_append_cons hd, List.forM_append,
        forM_tokenOf, bind_assoc, ← ih, split]
      by_cases hpiece : piece = [] <;> simp [hpiece]

end Splitter

namespace Assembler

/-! ## What an assembler hands over -/

/-- Hands over a token unless it is too long. -/
def hand (handler : TokenHandler ε σ) (t : List UInt8) : Run ε σ Unit :=
  fun (a, s) =>
    if a.capacity < t.length then .error (.tokenTooLong a.capacity) (a, s)
    else lift (handler.token t) (a, s)

theorem hand_apply (handler : TokenHandler ε σ) (t : List UInt8) (a : Assembler) (s : σ) :
    hand handler t (a, s) =
      if a.capacity < t.length then .error (.tokenTooLong a.capacity) (a, s)
      else lift (handler.token t) (a, s) := rfl

theorem keeps_hand {P : Assembler → Prop} (handler : TokenHandler ε σ) (t : List UInt8) :
    Keeps P (hand handler t) := by
  intro a s ha
  rw [hand_apply]
  by_cases hlong : a.capacity < t.length
  · rw [if_pos hlong]
    exact ha
  · rw [if_neg hlong]
    exact keeps_lift (handler.token t) a s ha

/-- Nothing is pending, as in a new assembler and after a reset. -/
structure Clear (d : UInt8) (c : Nat) (a : Assembler) : Prop extends Within d c a where
  pending_eq : a.pending = #[]

theorem clear_reset (a : Assembler) : a.reset.Clear a.delimiter a.capacity :=
  ⟨⟨rfl, rfl, Nat.zero_le a.capacity⟩, rfl⟩

variable {d : UInt8} {c : Nat}

theorem Same.of_within {x y : Run ε σ Unit} (h : Same (Within d c) x y) : Same (Clear d c) x y :=
  fun a s ha => h a s ha.toWithin

theorem close_eq_hand (handler : TokenHandler ε σ) (piece : List UInt8) :
    Same (Clear d c) (close handler piece) (forM (tokenOf piece) (hand handler)) := by
  intro a s ha
  rw [close_apply, ha.pending_eq, if_pos Array.isEmpty_empty, forM_tokenOf]
  by_cases hpiece : piece = []
  · simp [hpiece]
    rfl
  · simp [hpiece, hand_apply]

/-- The bytes of a piece and the end of the input close a token, as a delimiter does. -/
theorem same_take_finish (handler : TokenHandler ε σ) {piece : List UInt8} (hd : d ∉ piece) :
    Same (Within d c) (do forM piece (take handler); finish handler)
      (do close handler piece; lift handler.complete) := by
  have hkeep := forM_take_eq_keep (c := c) handler piece hd
  rw [close_eq, bind_assoc]
  exact Same.bind (hkeep.keeps (within_keep piece)) hkeep fun a s _ => rfl

/-- From a clear assembler each token is handed over or is too long, and then the end is told. -/
theorem same_take_finish_hand (handler : TokenHandler ε σ) (input : List UInt8) :
    Same (Clear d c) (do forM input (take handler); finish handler)
      (do forM (tokens d input) (hand handler); lift handler.complete) := by
  induction input using induction_on_pieces d with
  | last piece hd =>
      have hclose := close_eq_hand (d := d) (c := c) handler piece
      rw [tokens_of_not_mem hd]
      refine (same_take_finish handler hd).of_within.trans ?_
      exact Same.bind (hclose.keeps (keeps_forM (keeps_hand handler) _)) hclose fun a s _ => rfl
  | step piece rest hd ih =>
      have hbytes : forM (piece ++ d :: rest) (take handler) =
          (do forM (piece ++ [d]) (take handler); forM rest (take handler)) := by
        rw [List.append_cons, List.forM_append]
      have htokens : forM (tokens d (piece ++ d :: rest)) (hand handler) =
          (do forM (tokenOf piece) (hand handler); forM (tokens d rest) (hand handler)) := by
        rw [tokens_append_cons hd, List.forM_append]
      have hclose := ((same_close (c := c) handler piece hd).symm.of_within).trans
        (close_eq_hand handler piece)
      rw [hbytes, htokens, bind_assoc, bind_assoc]
      exact Same.bind (hclose.keeps (keeps_forM (keeps_hand handler) _)) hclose ih

/-! ## Tokens within the capacity -/

theorem lift_bind (action : EStateM ε σ Unit) (next : Unit → EStateM ε σ Unit) :
    lift (action >>= next) = (do lift action; lift (next ())) := by
  funext state
  rcases state with ⟨a, s⟩
  rw [bind_apply, lift_apply, lift_apply, bind_apply]
  cases action s <;> rfl

theorem lift_forM_cons (f : List UInt8 → EStateM ε σ Unit) (t : List UInt8)
    (ts : List (List UInt8)) :
    lift (forM (t :: ts) f) = (do lift (f t); lift (forM ts f)) := by
  rw [List.forM_cons, lift_bind]

theorem hand_of_le (handler : TokenHandler ε σ) {t : List UInt8} (ht : t.length ≤ c) :
    Same (Clear d c) (hand handler t) (lift (handler.token t)) := by
  intro a s ha
  rw [hand_apply, ha.capacity_eq, if_neg (Nat.not_lt.2 ht)]

/-- While no token is too long, the handler gets them all. -/
theorem forM_hand_of_le (handler : TokenHandler ε σ) {ts : List (List UInt8)}
    (h : ∀ t ∈ ts, t.length ≤ c) :
    Same (Clear d c) (forM ts (hand handler)) (lift (forM ts handler.token)) := by
  induction ts with
  | nil => exact fun a s _ => rfl
  | cons t ts ih =>
      have ht : t.length ≤ c := h t List.mem_cons_self
      have hts : ∀ u ∈ ts, u.length ≤ c := fun u hu => h u (List.mem_cons_of_mem t hu)
      rw [List.forM_cons, lift_forM_cons]
      exact Same.bind (keeps_hand handler t) (hand_of_le handler ht) (ih hts)

/-- The handler gets the tokens before the first that is too long, and nothing comes after it. -/
theorem forM_hand_of_lt (handler : TokenHandler ε σ) {ts : List (List UInt8)}
    (h : ∃ t ∈ ts, c < t.length) (next : Run ε σ Unit) :
    Same (Clear d c) (do forM ts (hand handler); next)
      (do
        lift (forM (ts.takeWhile (·.length ≤ c)) handler.token)
        throw (.tokenTooLong c)) := by
  induction ts with
  | nil =>
      rcases h with ⟨t, ht, _⟩
      exact absurd ht List.not_mem_nil
  | cons t ts ih =>
      by_cases ht : t.length ≤ c
      · have hts : ∃ u ∈ ts, c < u.length := by
          rcases h with ⟨u, hu, hlong⟩
          rcases List.mem_cons.1 hu with rfl | hu
          · exact absurd ht (Nat.not_le.2 hlong)
          · exact ⟨u, hu, hlong⟩
        have htake : (t :: ts).takeWhile (·.length ≤ c) = t :: ts.takeWhile (·.length ≤ c) := by
          simp [ht]
        rw [htake, lift_forM_cons, List.forM_cons, bind_assoc, bind_assoc]
        exact Same.bind (keeps_hand handler t) (hand_of_le handler ht) (ih hts)
      · intro a s ha
        have htake : (t :: ts).takeWhile (·.length ≤ c) = [] := by
          simp [ht]
        rw [htake, List.forM_cons, bind_assoc, bind_apply, hand_apply, ha.capacity_eq,
          if_pos (Nat.not_le.1 ht)]
        rfl

/-! ## Any run -/

/-- What can become of an assembler, whichever handlers it had and wherever they stopped it. -/
inductive Reachable : Assembler → Prop where
  | new (d : UInt8) (c : Nat) : Reachable { delimiter := d, capacity := c }
  | reset {a : Assembler} (h : Reachable a) : Reachable a.reset
  | feed {ε σ : Type} {a : Assembler} (h : Reachable a) (handler : TokenHandler ε σ)
      (chunk : List UInt8) (s : σ) : Reachable (stateAfter (feed handler chunk (a, s))).1
  | finish {ε σ : Type} {a : Assembler} (h : Reachable a) (handler : TokenHandler ε σ) (s : σ) :
      Reachable (stateAfter (finish handler (a, s))).1

theorem Reachable.within {a : Assembler} (h : a.Reachable) : a.Within a.delimiter a.capacity := by
  induction h with
  | new d c => exact ⟨rfl, rfl, Nat.zero_le c⟩
  | reset _ ih => exact ih.reset
  | feed _ handler chunk s ih => exact (within_feed handler chunk _ s ih).self
  | finish _ handler s ih => exact (within_finish handler _ s ih).self

/-- Takes an input in chunks and ends it. -/
def consume (handler : TokenHandler ε σ) (chunks : List (List UInt8)) : Run ε σ Unit := do
  forM chunks (feed handler)
  finish handler

theorem consume_eq_hand (handler : TokenHandler ε σ) (chunks : List (List UInt8)) :
    Same (Clear d c) (consume handler chunks)
      (do forM (tokens d chunks.flatten) (hand handler); lift handler.complete) := by
  have hfeed := same_forM_feed (d := d) (c := c) handler chunks
  have hbytes : Same (Within d c) (consume handler chunks)
      (do forM chunks.flatten (take handler); finish handler) :=
    Same.bind (hfeed.keeps (keeps_forM (within_take handler) _)) hfeed fun a s _ => rfl
  exact hbytes.of_within.trans (same_take_finish_hand handler chunks.flatten)

/-- From a clear assembler an input in chunks is treated like the whole, if its tokens are within
the capacity. -/
theorem consume_of_le (handler : TokenHandler ε σ) {chunks : List (List UInt8)}
    (h : ∀ t ∈ tokens d chunks.flatten, t.length ≤ c) :
    Same (Clear d c) (consume handler chunks)
      (lift (Splitter.split ⟨d, true⟩ handler chunks.flatten)) := by
  rw [Splitter.split_eq, lift_bind]
  refine (consume_eq_hand handler chunks).trans ?_
  exact Same.bind (keeps_forM (keeps_hand handler) _) (forM_hand_of_le handler h) fun a s _ => rfl

theorem consume_of_lt (handler : TokenHandler ε σ) {chunks : List (List UInt8)}
    (h : ∃ t ∈ tokens d chunks.flatten, c < t.length) :
    Same (Clear d c) (consume handler chunks)
      (do
        lift (forM ((tokens d chunks.flatten).takeWhile (·.length ≤ c)) handler.token)
        throw (.tokenTooLong c)) :=
  (consume_eq_hand handler chunks).trans (forM_hand_of_lt handler h (lift handler.complete))

/-- How an input is cut does not show. Two chunks leave the handler, the error and the assembler as
one chunk with the bytes of both leaves them. From a reset assembler, which is like a new one, any
chunks and the end of the input have the effect of splitting the whole input, if no token is longer
than the capacity. Otherwise the handler gets the tokens before the first that is longer, and there
the run ends, unless the handler has ended it before. -/
theorem chunks_do_not_show {a : Assembler} (ha : a.Reachable) (handler : TokenHandler ε σ)
    (s : σ) :
    (∀ chunk₁ chunk₂ : List UInt8,
      (do feed handler chunk₁; feed handler chunk₂ : Run ε σ Unit) (a, s) =
        feed handler (chunk₁ ++ chunk₂) (a, s)) ∧
    (∀ chunks : List (List UInt8),
      (∀ t ∈ tokens a.delimiter chunks.flatten, t.length ≤ a.capacity) →
        consume handler chunks (a.reset, s) =
          lift (Splitter.split ⟨a.delimiter, true⟩ handler chunks.flatten) (a.reset, s)) ∧
    (∀ chunks : List (List UInt8),
      (∃ t ∈ tokens a.delimiter chunks.flatten, a.capacity < t.length) →
        consume handler chunks (a.reset, s) =
          (do
            lift (forM ((tokens a.delimiter chunks.flatten).takeWhile (·.length ≤ a.capacity))
              handler.token)
            throw (.tokenTooLong a.capacity) : Run ε σ Unit) (a.reset, s)) := by
  refine ⟨?_, ?_, ?_⟩
  · intro chunk₁ chunk₂
    exact same_feed_append handler chunk₁ chunk₂ a s ha.within
  · intro chunks hle
    exact consume_of_le handler hle a.reset s (clear_reset a)
  · intro chunks hlt
    exact consume_of_lt handler hlt a.reset s (clear_reset a)

/-- Writes down the tokens, and an empty one at the end of the input. -/
def recorder : TokenHandler Unit (List (List UInt8)) where
  token t := modify (· ++ [t])
  complete := modify (· ++ [[]])

theorem chunks_do_not_show_recorder :
    (Assembler.mk 10 2 #[]).Reachable ∧
      consume recorder [[97], [], [98, 10, 10, 99]] (Assembler.mk 10 2 #[], []) =
        .ok () (Assembler.mk 10 2 #[], [[97, 98], [99], []]) ∧
      consume recorder [[97], [10], [98, 99, 100, 10]] (Assembler.mk 10 2 #[], []) =
        .error (.tokenTooLong 2) (Assembler.mk 10 2 #[], [[97]]) := by
  have h := chunks_do_not_show (Reachable.new 10 2) recorder []
  refine ⟨Reachable.new 10 2, ?_, ?_⟩
  · exact (h.2.1 [[97], [], [98, 10, 10, 99]] (by decide)).trans rfl
  · exact (h.2.2 [[97], [10], [98, 99, 100, 10]] (by decide)).trans rfl

end Assembler

end QueueWatch
