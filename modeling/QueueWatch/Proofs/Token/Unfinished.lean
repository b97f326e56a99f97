import QueueWatch.Proofs.Token.Chunking

/-!
# An input that breaks off

An input may stop coming before its end is told. The tokens whose delimiter has shown up by then
(`endedTokens`) have been handed over, and the bytes behind the last delimiter (`unended`) are
pending (`Assembler.forM_feed_of_le`). They are too long as soon as a token that ends with them
would be, so that an input with a token that is too long is treated as if it had been told that it
is at its end (`Assembler.forM_feed_of_lt`).
-/

namespace QueueWatch

variable {ε σ : Type} {d : UInt8}

/-- The tokens of an input that end with a delimiter. -/
def endedTokens (d : UInt8) (input : List UInt8) : List (List UInt8) :=
  (input.splitOn d).dropLast.filter fun t => !t.isEmpty

/-- What stands behind the last delimiter of an input. -/
def unended (d : UInt8) (input : List UInt8) : List UInt8 :=
  (input.splitOn d).getLastD []

theorem endedTokens_of_not_mem {piece : List UInt8} (h : d ∉ piece) : endedTokens d piece = [] := by
  rw [endedTokens, List.splitOn_eq_singleton h]
  rfl

theorem unended_of_not_mem {piece : List UInt8} (h : d ∉ piece) : unended d piece = piece := by
  rw [unended, List.splitOn_eq_singleton h]
  rfl

theorem endedTokens_append_cons {piece : List UInt8} (h : d ∉ piece) (rest : List UInt8) :
    endedTokens d (piece ++ d :: rest) = tokenOf piece ++ endedTokens d rest := by
  rw [endedTokens, List.splitOn_append_cons_self_of_not_mem h,
    List.dropLast_cons_of_ne_nil (List.splitOn_ne_nil d rest), ← List.singleton_append,
    List.filter_append, tokenOf, endedTokens]

theorem unended_append_cons {piece : List UInt8} (h : d ∉ piece) (rest : List UInt8) :
    unended d (piece ++ d :: rest) = unended d rest := by
  obtain ⟨first, others, hrest⟩ := List.exists_cons_of_ne_nil (List.splitOn_ne_nil d rest)
  rw [unended, unended, List.splitOn_append_cons_self_of_not_mem h, hrest]
  rfl

/-- The last token need not have ended. -/
theorem tokens_eq_append (d : UInt8) (input : List UInt8) :
    tokens d input = endedTokens d input ++ tokenOf (unended d input) := by
  induction input using induction_on_pieces d with
  | last piece hd =>
      rw [tokens_of_not_mem hd, endedTokens_of_not_mem hd, unended_of_not_mem hd, List.nil_append]
  | step piece rest hd ih =>
      rw [tokens_append_cons hd, ih, endedTokens_append_cons hd, unended_append_cons hd,
        List.append_assoc]

theorem length_unended_le {c : Nat} {input : List UInt8} (h : ∀ t ∈ tokens d input, t.length ≤ c) :
    (unended d input).length ≤ c := by
  rcases List.eq_nil_or_concat (unended d input) with hnil | ⟨bytes, last, hconcat⟩
  · rw [hnil]
    exact Nat.zero_le c
  · refine h _ ?_
    rw [tokens_eq_append]
    exact List.mem_append_right _ (by simp [tokenOf, hconcat])

namespace Assembler

variable {c : Nat}

/-- From a clear assembler the tokens that ended are handed over or are too long, and the bytes
behind them are kept. -/
theorem same_take_hand_keep (handler : TokenHandler ε σ) (input : List UInt8) :
    Same (Clear d c) (forM input (take handler))
      (do forM (endedTokens d input) (hand handler); keep (unended d input)) := by
  induction input using induction_on_pieces d with
  | last piece hd =>
      rw [endedTokens_of_not_mem hd, unended_of_not_mem hd]
      exact (forM_take_eq_keep handler piece hd).of_within
  | step piece rest hd ih =>
      have hbytes : forM (piece ++ d :: rest) (take handler) =
          (do forM (piece ++ [d]) (take handler); forM rest (take handler)) := by
        rw [List.append_cons, List.forM_append]
      have hclose := ((same_close (c := c) handler piece hd).symm.of_within).trans
        (close_eq_hand handler piece)
      have htokens : forM (tokenOf piece ++ endedTokens d rest) (hand handler) =
          (do forM (tokenOf piece) (hand handler); forM (endedTokens d rest) (hand handler)) :=
        List.forM_append
      rw [hbytes, endedTokens_append_cons hd, unended_append_cons hd, htokens, bind_assoc]
      exact Same.bind (hclose.keeps (keeps_forM (keeps_hand handler) _)) hclose ih

theorem forM_feed_eq_hand (handler : TokenHandler ε σ) (chunks : List (List UInt8)) :
    Same (Clear d c) (forM chunks (feed handler))
      (do
        forM (endedTokens d chunks.flatten) (hand handler)
        keep (unended d chunks.flatten)) :=
  (same_forM_feed handler chunks).of_within.trans (same_take_hand_keep handler chunks.flatten)

/-- Chunks without a token that is too long are handed over as far as they go. -/
theorem forM_feed_of_le (handler : TokenHandler ε σ) {chunks : List (List UInt8)}
    (h : ∀ t ∈ tokens d chunks.flatten, t.length ≤ c) :
    Same (Clear d c) (forM chunks (feed handler))
      (do
        lift (forM (endedTokens d chunks.flatten) handler.token)
        keep (unended d chunks.flatten)) := by
  have hended : ∀ t ∈ endedTokens d chunks.flatten, t.length ≤ c := by
    intro t ht
    refine h t ?_
    rw [tokens_eq_append]
    exact List.mem_append_left _ ht
  refine (forM_feed_eq_hand handler chunks).trans ?_
  exact Same.bind (keeps_forM (keeps_hand handler) _) (forM_hand_of_le handler hended)
    fun a s _ => rfl

/-- Behind a token that is too long nothing comes, whatever it would be. -/
theorem forM_hand_next (handler : TokenHandler ε σ) {ts : List (List UInt8)}
    (h : ∃ t ∈ ts, c < t.length) (next next' : Run ε σ Unit) :
    Same (Clear d c) (do forM ts (hand handler); next) (do forM ts (hand handler); next') :=
  (forM_hand_of_lt handler h next).trans (forM_hand_of_lt handler h next').symm

/-- To keep too many bytes fails like a token with these bytes. -/
theorem keep_eq_hand_of_lt (handler : TokenHandler ε σ) {bytes : List UInt8}
    (h : c < bytes.length) : Same (Clear d c) (keep bytes) (hand handler bytes) := by
  intro a s ha
  have hreset : a.reset = a := by
    rw [reset, ← ha.pending_eq]
  rw [keep_apply, hand_apply, ha.pending_eq, ha.capacity_eq, Array.size_empty, Nat.zero_add,
    if_pos h, if_pos h, hreset]

/-- Not too many bytes are kept. -/
theorem exists_keep_of_le {bytes : List UInt8} (h : bytes.length ≤ c) {a : Assembler}
    (ha : a.Clear d c) (s : σ) :
    ∃ a', a'.Within d c ∧ keep (ε := ε) bytes (a, s) = .ok () (a', s) := by
  have hroom : ¬a.capacity < a.pending.size + bytes.length := by
    rw [ha.pending_eq, ha.capacity_eq, Array.size_empty, Nat.zero_add]
    exact Nat.not_lt.2 h
  have hkeep := keep_apply (ε := ε) bytes a s
  rw [if_neg hroom] at hkeep
  have hwithin := within_keep (ε := ε) bytes a s ha.toWithin
  rw [hkeep] at hwithin
  exact ⟨_, hwithin, hkeep⟩

theorem forM_feed_of_lt (handler : TokenHandler ε σ) {chunks : List (List UInt8)}
    (h : ∃ t ∈ tokens d chunks.flatten, c < t.length) :
    Same (Clear d c) (forM chunks (feed handler))
      (do
        lift (forM ((tokens d chunks.flatten).takeWhile (·.length ≤ c)) handler.token)
        throw (.tokenTooLong c)) := by
  refine (forM_feed_eq_hand handler chunks).trans ?_
  refine Same.trans ?_ (forM_hand_of_lt handler h (pure ()))
  rw [bind_pure_unit, tokens_eq_append, List.forM_append]
  rcases Nat.lt_or_ge c (unended d chunks.flatten).length with hlong | hshort
  · have hne : unended d chunks.flatten ≠ [] :=
      List.ne_nil_of_length_pos (Nat.lt_of_le_of_lt (Nat.zero_le c) hlong)
    have htoken : tokenOf (unended d chunks.flatten) = [unended d chunks.flatten] := by
      simp [tokenOf, hne]
    rw [htoken, List.forM_cons, List.forM_nil, bind_pure_unit]
    exact Same.bind (keeps_forM (keeps_hand handler) _) (fun a s _ => rfl)
      (keep_eq_hand_of_lt handler hlong)
  · have hended : ∃ t ∈ endedTokens d chunks.flatten, c < t.length := by
      rcases h with ⟨t, ht, hlong⟩
      rw [tokens_eq_append] at ht
      rcases List.mem_append.1 ht with ht | ht
      · exact ⟨t, ht, hlong⟩
      · rw [List.mem_singleton.1 (List.mem_filter.1 ht).1] at hlong
        exact absurd hshort (Nat.not_le.2 hlong)
    exact forM_hand_next handler hended _ _

end Assembler

end QueueWatch
