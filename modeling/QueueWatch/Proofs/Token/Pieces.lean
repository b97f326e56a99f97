import QueueWatch.Proofs.Token.Calls
import QueueWatch.Proofs.Token.Chunking

/-!
# The pieces of an input

A splitter hands over the pieces of its input between delimiters: all that are not empty if it skips
empty tokens, and otherwise all of them but an empty last one (`Splitter.tokensOf`). So without
skipping the input is made of its tokens with a delimiter between any two of them and one behind
the last if the input ends with one (`intercalate_closedPieces`).

The handler is asked for the tokens in order and then for the completion, up to the first failure
(`Splitter.split_hands_over_pieces`).
-/

namespace QueueWatch

variable {d : UInt8}

/-- The pieces of an input between delimiters, without the last one if that is empty. -/
def closedPieces (d : UInt8) (input : List UInt8) : List (List UInt8) :=
  if (input.splitOn d).getLast? = some [] then (input.splitOn d).dropLast else input.splitOn d

theorem closedPieces_of_not_mem {piece : List UInt8} (h : d ∉ piece) :
    closedPieces d piece = tokenOf piece := by
  rw [closedPieces, List.splitOn_eq_singleton h, tokenOf]
  cases piece <;> simp

theorem closedPieces_append_cons {piece : List UInt8} (h : d ∉ piece) (rest : List UInt8) :
    closedPieces d (piece ++ d :: rest) = piece :: closedPieces d rest := by
  have hne : rest.splitOn d ≠ [] := List.splitOn_ne_nil d rest
  rw [closedPieces, closedPieces, List.splitOn_append_cons_self_of_not_mem h,
    List.getLast?_cons_of_ne_nil hne, List.dropLast_cons_of_ne_nil hne]
  split <;> rfl

theorem closedPieces_eq_nil_iff {input : List UInt8} : closedPieces d input = [] ↔ input = [] := by
  induction input using induction_on_pieces d with
  | last piece hd =>
      rw [closedPieces_of_not_mem hd]
      cases piece <;> simp [tokenOf]
  | step piece rest hd ih =>
      rw [closedPieces_append_cons hd]
      simp

/-- An input is its pieces with delimiters between them, and one behind them if it ends with one. -/
theorem intercalate_closedPieces (d : UInt8) (input : List UInt8) :
    [d].intercalate (closedPieces d input) ++ (if input.getLast? = some d then [d] else []) =
      input := by
  induction input using induction_on_pieces d with
  | last piece hd =>
      have hlast : piece.getLast? ≠ some d := fun h => hd (List.mem_of_getLast? h)
      rw [closedPieces_of_not_mem hd, if_neg hlast]
      cases piece <;> simp [tokenOf]
  | step piece rest hd ih =>
      rw [closedPieces_append_cons hd]
      by_cases hrest : rest = []
      · rw [hrest, closedPieces_eq_nil_iff.2 rfl, List.intercalate_singleton]
        simp
      · have hmore : closedPieces d rest ≠ [] := fun h => hrest (closedPieces_eq_nil_iff.1 h)
        have hlast : (piece ++ d :: rest).getLast? = rest.getLast? := by
          rw [List.getLast?_append_of_ne_nil _ (List.cons_ne_nil d rest),
            List.getLast?_cons_of_ne_nil hrest]
        rw [List.intercalate_cons_of_ne_nil hmore, hlast, List.append_assoc, ih]
        simp

namespace Splitter

variable {ε σ : Type}

/-- The tokens that a splitter finds in an input. -/
def tokensOf (s : Splitter) (input : List UInt8) : List (List UInt8) :=
  if s.skipsEmpty then tokens s.delimiter input else closedPieces s.delimiter input

theorem mem_splitOn_of_mem_tokensOf {s : Splitter} {input t : List UInt8}
    (h : t ∈ s.tokensOf input) : t ∈ input.splitOn s.delimiter := by
  unfold tokensOf tokens closedPieces at h
  split at h
  · exact List.mem_of_mem_filter h
  · split at h
    · exact (List.dropLast_sublist _).mem h
    · exact h

/-- A splitter that keeps empty tokens. -/
theorem split_closedPieces (d : UInt8) (handler : TokenHandler ε σ) (input : List UInt8) :
    split ⟨d, false⟩ handler input =
      (do
        forM (closedPieces d input) handler.token
        handler.complete) := by
  induction input using induction_on_pieces d with
  | last piece hd =>
      have h := splitFrom_append ⟨d, false⟩ handler #[] hd []
      rw [List.append_nil] at h
      rw [split, h, splitFrom_nil, closedPieces_of_not_mem hd, forM_tokenOf]
      by_cases hpiece : piece = [] <;> simp [hpiece]
  | step piece rest hd ih =>
      rw [split, splitFrom_append ⟨d, false⟩ handler #[] hd,
        splitFrom_delimiter ⟨d, false⟩ handler, closedPieces_append_cons hd, List.forM_cons,
        bind_assoc, ← ih, split]
      simp

theorem split_tokensOf (s : Splitter) (handler : TokenHandler ε σ) (input : List UInt8) :
    split s handler input =
      (do
        forM (s.tokensOf input) handler.token
        handler.complete) := by
  rcases s with ⟨d, skips⟩
  cases skips with
  | true => exact split_eq d handler input
  | false => exact split_closedPieces d handler input

/-- What a splitter asks of its handler. The tokens are the pieces of the input between delimiters:
without skipping all of them but an empty last one, so that joining them with the delimiter gives
back the input up to a delimiter at its end, and with skipping those that are not empty. No token
holds the delimiter. Either the handler takes all tokens and is told of the end after the last one,
once, and what comes of that is the result; or it refuses one, which is the last thing that it is
asked for, and its error is the result. -/
theorem split_hands_over_pieces (s : Splitter) (input : List UInt8) :
    let d := s.delimiter
    let pieces := input.splitOn d
    let ts := s.tokensOf input
    (s.skipsEmpty = true → ts = pieces.filter fun piece => !piece.isEmpty) ∧
    (s.skipsEmpty = false →
      ts = (if pieces.getLast? = some [] then pieces.dropLast else pieces) ∧
      [d].intercalate ts ++ (if input.getLast? = some d then [d] else []) = input) ∧
    (∀ t ∈ ts, d ∉ t) ∧
    ∀ {ε σ : Type} (handler : TokenHandler ε σ) (st : σ),
      (∃ st', forM ts handler.token st = .ok () st' ∧
        split s handler input st = handler.complete st' ∧
        split s handler.observed input (st, []) =
          mapState (·, ts.map .token ++ [.complete]) (handler.complete st')) ∨
      ∃ before t after st' e st'', ts = before ++ t :: after ∧
        forM before handler.token st = .ok () st' ∧ handler.token t st' = .error e st'' ∧
        split s handler input st = .error e st'' ∧
        split s handler.observed input (st, []) =
          .error e (st'', (before ++ [t]).map .token) := by
  intro d pieces ts
  refine ⟨?_, ?_, ?_, ?_⟩
  · intro hskips
    exact if_pos hskips
  · intro hkeeps
    have hts : ts = closedPieces d input := if_neg (by rw [hkeeps]; exact Bool.false_ne_true)
    rw [hts]
    exact ⟨rfl, intercalate_closedPieces d input⟩
  · intro t ht
    exact not_mem_of_mem_splitOn (mem_splitOn_of_mem_tokensOf ht)
  · intro ε σ handler st
    rw [split_tokensOf, split_tokensOf, Assembler.bind_apply, Assembler.bind_apply]
    rcases handler.offer_cases ts st [] with
      ⟨st', hplain, hnoted⟩ | ⟨before, t, after, st', e, st'', hts, hbefore, hrefused, hplain,
        hnoted⟩
    · rw [List.nil_append] at hnoted
      refine Or.inl ⟨st', hplain, ?_, ?_⟩
      · rw [hplain]
      · rw [hnoted]
        exact TokenHandler.noting_apply _ handler.complete _ _
    · rw [List.nil_append] at hnoted
      refine Or.inr ⟨before, t, after, st', e, st'', hts, hbefore, hrefused, ?_, ?_⟩
      · rw [hplain]
      · rw [hnoted]

/-- Text with an empty piece inside and an empty one at its end, split in both ways. -/
theorem split_hands_over_pieces_gapped :
    tokensOf ⟨44, true⟩ [97, 44, 44, 98, 44] = [[97], [98]] ∧
      tokensOf ⟨44, false⟩ [97, 44, 44, 98, 44] = [[97], [], [98]] ∧
      [44].intercalate (tokensOf ⟨44, false⟩ [97, 44, 44, 98, 44]) ++ [44] =
        [97, 44, 44, 98, 44] := by
  refine ⟨?_, ?_, ?_⟩
  · exact ((split_hands_over_pieces ⟨44, true⟩ [97, 44, 44, 98, 44]).1 rfl).trans (by decide)
  · exact ((split_hands_over_pieces ⟨44, false⟩ [97, 44, 44, 98, 44]).2.1 rfl).1.trans (by decide)
  · exact ((split_hands_over_pieces ⟨44, false⟩ [97, 44, 44, 98, 44]).2.1 rfl).2

end Splitter

end QueueWatch
