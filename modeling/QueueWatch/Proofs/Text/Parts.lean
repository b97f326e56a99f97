import Mathlib.Data.List.Basic
import QueueWatch.Text.Blank

/-!
# The parts of a text

What trimming and cutting give is said without them: a trimmed text is what stands between blanks
and has none at its ends (`trim_eq_iff`), and a text that is cut at a mark is its first part,
without the mark, and the mark with what follows it, if there is one (`cut?_eq_iff`).

A text, or a list of whatever kind, can be cut at every occurrence of a separator. Statements about
the pieces go by induction on them (`induction_on_pieces`).
-/

namespace QueueWatch

/-! ## Lists with separators -/

section

variable {α : Type} [BEq α] [LawfulBEq α] {sep : α}

/-- A list is a piece without the separator, or it goes on behind one. -/
theorem induction_on_pieces (sep : α) {P : List α → Prop}
    (last : ∀ piece, sep ∉ piece → P piece)
    (step : ∀ piece rest, sep ∉ piece → P rest → P (piece ++ sep :: rest)) (input : List α) :
    P input := by
  induction hn : input.length using Nat.strongRecOn generalizing input with
  | ind n ih =>
      by_cases hsep : sep ∈ input
      · rcases List.eq_append_cons_of_mem hsep with ⟨piece, rest, rfl, hpiece⟩
        refine step piece rest hpiece (ih rest.length ?_ rest rfl)
        rw [← hn, List.length_append, List.length_cons]
        omega
      · exact last input hsep

theorem not_mem_of_mem_splitOn {input piece : List α} (h : piece ∈ input.splitOn sep) :
    sep ∉ piece := by
  induction input using induction_on_pieces sep with
  | last first hfirst =>
      rw [List.splitOn_eq_singleton hfirst] at h
      rw [List.mem_singleton.1 h]
      exact hfirst
  | step first rest hfirst ih =>
      rw [List.splitOn_append_cons_self_of_not_mem hfirst] at h
      rcases List.mem_cons.1 h with rfl | h
      · exact hfirst
      · exact ih h

end

namespace Text

/-! ## Trimming -/

theorem isBlank_of_isDigit {c : Char} (h : c.isDigit) : isBlank c = false := by
  have hlow : 48 ≤ c.toNat := (Char.isDigit_iff_toNat.1 h).1
  have hhigh : c.toNat ≤ 57 := (Char.isDigit_iff_toNat.1 h).2
  simp [isBlank]
  omega

def AllBlank (s : List Char) : Prop :=
  ∀ c ∈ s, isBlank c = true

theorem allBlank_nil : AllBlank [] :=
  List.forall_mem_nil _

/-- A text that neither begins nor ends with a blank. -/
structure Trimmed (s : List Char) : Prop where
  head : ∀ c ∈ s.head?, isBlank c = false
  last : ∀ c ∈ s.getLast?, isBlank c = false

theorem trimStart_append {blanks rest : List Char} (hblanks : AllBlank blanks)
    (hrest : ∀ c ∈ rest.head?, isBlank c = false) : trimStart (blanks ++ rest) = rest := by
  induction blanks with
  | nil =>
      cases rest with
      | nil => rfl
      | cons c rest => exact trimStart_cons_of_not_blank (hrest c rfl) rest
  | cons b blanks ih =>
      rw [List.cons_append, trimStart_cons_of_blank (hblanks b List.mem_cons_self)]
      exact ih fun c hc => hblanks c (List.mem_cons_of_mem b hc)

theorem trimEnd_eq (s : List Char) : trimEnd s = (trimStart s.reverse).reverse := rfl

theorem trimEnd_append {blanks rest : List Char} (hblanks : AllBlank blanks)
    (hrest : ∀ c ∈ rest.getLast?, isBlank c = false) : trimEnd (rest ++ blanks) = rest := by
  have hreverse : AllBlank blanks.reverse := fun c hc => hblanks c (List.mem_reverse.1 hc)
  rw [trimEnd_eq, List.reverse_append, trimStart_append hreverse (by simpa using hrest),
    List.reverse_reverse]

theorem trim_append {left text right : List Char} (hleft : AllBlank left)
    (hright : AllBlank right) (htext : Trimmed text) : trim (left ++ text ++ right) = text := by
  cases text with
  | nil =>
      have hblanks : AllBlank (left ++ right) := fun c hc =>
        (List.mem_append.1 hc).elim (hleft c) (hright c)
      have hnothing : trimStart (left ++ right ++ []) = [] := trimStart_append hblanks (by simp)
      rw [List.append_nil] at hnothing ⊢
      rw [trim, hnothing]
      rfl
  | cons c text =>
      rw [trim, List.append_assoc, trimStart_append hleft (by simpa using htext.head),
        trimEnd_append hright htext.last]

/-- The blanks before a text and the text without them. -/
theorem exists_eq_append_trimStart (s : List Char) :
    ∃ blanks, s = blanks ++ trimStart s ∧ AllBlank blanks ∧
      ∀ c ∈ (trimStart s).head?, isBlank c = false := by
  induction s with
  | nil => exact ⟨[], rfl, allBlank_nil, by simp⟩
  | cons c s ih =>
      by_cases hc : isBlank c = true
      · rcases ih with ⟨blanks, hs, hblanks, hhead⟩
        rw [trimStart_cons_of_blank hc]
        refine ⟨c :: blanks, by rw [List.cons_append, ← hs], ?_, hhead⟩
        exact List.forall_mem_cons.2 ⟨hc, hblanks⟩
      · have hfalse : isBlank c = false := Bool.not_eq_true _ ▸ hc
        rw [trimStart_cons_of_not_blank hfalse]
        exact ⟨[], rfl, allBlank_nil, by simpa using hfalse⟩

theorem exists_eq_trimEnd_append (s : List Char) :
    ∃ blanks, s = trimEnd s ++ blanks ∧ AllBlank blanks ∧
      ∀ c ∈ (trimEnd s).getLast?, isBlank c = false := by
  rcases exists_eq_append_trimStart s.reverse with ⟨blanks, hs, hblanks, hhead⟩
  refine ⟨blanks.reverse, ?_, fun c hc => hblanks c (List.mem_reverse.1 hc), ?_⟩
  · rw [trimEnd_eq, ← List.reverse_append, ← hs, List.reverse_reverse]
  · rw [trimEnd_eq, List.getLast?_reverse]
    exact hhead

/-- What trimming gives is what stands between blanks and has none at its ends. -/
theorem trim_eq_iff {s text : List Char} :
    trim s = text ↔
      ∃ left right, s = left ++ text ++ right ∧ AllBlank left ∧ AllBlank right ∧ Trimmed text := by
  constructor
  · rintro rfl
    rcases exists_eq_append_trimStart s with ⟨left, hs, hleft, hhead⟩
    rcases exists_eq_trimEnd_append (trimStart s) with ⟨right, hrest, hright, hlast⟩
    refine ⟨left, right, ?_, hleft, hright, ?_, hlast⟩
    · rw [trim, List.append_assoc, ← hrest, ← hs]
    · intro c hc
      apply hhead c
      rw [hrest]
      exact List.mem_head?_append_of_mem_head? hc
  · rintro ⟨left, right, rfl, hleft, hright, htext⟩
    exact trim_append hleft hright htext

/-! ## Cutting at a mark -/

/-- A part of a text with the mark before it. Where there is no part, there is no mark. -/
def marked (mark : Char) : Option (List Char) → List Char
  | none => []
  | some part => mark :: part

theorem cut?_append_marked {mark : Char} {before : List Char} (h : mark ∉ before)
    (after : Option (List Char)) : cut? mark (before ++ marked mark after) = (before, after) := by
  induction before with
  | nil => cases after <;> simp [marked, cut?]
  | cons c before ih =>
      have hc : c ≠ mark := fun hc => h (hc ▸ List.mem_cons_self)
      have hbefore : mark ∉ before := fun hmem => h (List.mem_cons_of_mem c hmem)
      rw [List.cons_append, cut?, if_neg hc, ih hbefore]

theorem not_mem_fst_cut? (mark : Char) (s : List Char) : mark ∉ (cut? mark s).1 := by
  induction s with
  | nil => exact List.not_mem_nil
  | cons c s ih =>
      rw [cut?]
      by_cases hc : c = mark
      · rw [if_pos hc]
        exact List.not_mem_nil
      · rw [if_neg hc]
        exact List.not_mem_cons_of_ne_of_not_mem (Ne.symm hc) ih

/-- A text is cut at the first mark. -/
theorem cut?_eq_iff {mark : Char} {s before : List Char} {after : Option (List Char)} :
    cut? mark s = (before, after) ↔ s = before ++ marked mark after ∧ mark ∉ before := by
  constructor
  · intro h
    have hbefore := not_mem_fst_cut? mark s
    rw [h] at hbefore
    refine ⟨?_, hbefore⟩
    cases after with
    | none =>
        have hs : (cut? mark s).1 = s := cut?_fst_of_none (by rw [h])
        rw [h] at hs
        rw [marked, List.append_nil]
        exact hs.symm
    | some after =>
        have hs : (cut? mark s).1 ++ mark :: after = s := cut?_fst_append_of_some (by rw [h])
        rw [h] at hs
        exact hs.symm
  · rintro ⟨rfl, hbefore⟩
    exact cut?_append_marked hbefore after

/-! ## Pieces -/

/-- Pieces are what the library's `splitOn` gives. -/
theorem pieces_eq_splitOn (sep : Char) (s : List Char) : pieces sep s = s.splitOn sep := by
  induction s with
  | nil => rfl
  | cons c s ih =>
      rw [pieces, ih]
      by_cases hc : c = sep
      · subst hc
        rw [if_pos rfl]
        have hempty : c ∉ ([] : List Char) := List.not_mem_nil
        exact (List.splitOn_append_cons_self_of_not_mem hempty s).symm
      · rw [if_neg hc]
        by_cases hs : sep ∈ s
        · rcases List.eq_append_cons_of_mem hs with ⟨piece, rest, rfl, hpiece⟩
          have hcons : sep ∉ c :: piece := List.not_mem_cons_of_ne_of_not_mem (Ne.symm hc) hpiece
          rw [List.splitOn_append_cons_self_of_not_mem hpiece, ← List.cons_append,
            List.splitOn_append_cons_self_of_not_mem hcons]
        · have hcons : sep ∉ c :: s := List.not_mem_cons_of_ne_of_not_mem (Ne.symm hc) hs
          rw [List.splitOn_eq_singleton hs, List.splitOn_eq_singleton hcons]

end Text

end QueueWatch
