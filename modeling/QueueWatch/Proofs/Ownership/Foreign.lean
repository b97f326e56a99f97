import Mathlib.Data.List.Chain
import QueueWatch.Proofs.Ownership.Forwarding

/-!
# What an ownership filter remembers as foreign

A filter remembers an inode as foreign after a scan that did not fail and did not find it
(`Judgement.Misses`), and only then. While it is remembered, no further scan is made for it. The
memory is bounded: when another inode has to be remembered and the memory is full, all that was in
it is forgotten (`Judgement.Forgets`). So between two such moments there is at most one scan for an
inode that does not find it (`OwnershipFilter.remembers_what_scans_missed`).

Nothing is assumed of the scans. One that fails may have added inodes to the owned ones before it
did.
-/

namespace QueueWatch

/-- An inode that is asked about, and what a scan would do now. -/
structure Inquiry where
  inode : UInt64
  outcome : ScanOutcome

/-- An inquiry, and the filter that it is made to. -/
structure Judgement extends Inquiry where
  before : OwnershipFilter

namespace Judgement

variable {j : Judgement} {inode : UInt64}

def after (j : Judgement) : OwnershipFilter :=
  (j.before.judgeOutcome j.outcome j.inode).1

def verdict (j : Judgement) : Verdict :=
  (j.before.judgeOutcome j.outcome j.inode).2

/-- A scan was made, did not fail and has not found the inode. -/
def Misses (j : Judgement) : Prop :=
  j.verdict.scanned = true ∧ j.outcome.failure = none ∧ j.inode ∉ j.outcome.found

instance (j : Judgement) : Decidable j.Misses :=
  inferInstanceAs (Decidable (_ ∧ _ ∧ _))

/-- An inode that was remembered as foreign no longer is. -/
def Forgets (j : Judgement) : Prop :=
  ∃ inode ∈ j.before.foreign, inode ∉ j.after.foreign

/-- What is known after an inquiry: the inode is not asked about, or a scan adds to the owned
inodes, and if it misses the inode, that is remembered. -/
theorem after_cases (j : Judgement) :
    (¬ j.Misses ∧ j.after = j.before) ∨
      (¬ j.Misses ∧ j.after = { j.before with owned := j.before.owned ∪ j.outcome.found }) ∨
      (j.Misses ∧ j.before.Asks j.inode ∧
        j.after =
          .remember { j.before with owned := j.before.owned ∪ j.outcome.found } j.inode) := by
  unfold Misses verdict after
  rcases j.before.judgeOutcome_cases j.outcome j.inode with
    ⟨_, hjudge⟩ | ⟨_, _, hjudge⟩ | ⟨_, e, hfailure, hjudge⟩ | ⟨_, _, hfound, hjudge⟩ |
      ⟨hasks, hfailure, hfound, hjudge⟩
  · exact Or.inl (by simp [hjudge])
  · exact Or.inl (by simp [hjudge])
  · exact Or.inr (Or.inl (by simp [hjudge, hfailure]))
  · exact Or.inr (Or.inl (by simp [hjudge, hfound]))
  · exact Or.inr (Or.inr (by simp [hjudge, hasks, hfailure, hfound]))

theorem foreign_of_not_misses (h : ¬ j.Misses) : j.after.foreign = j.before.foreign := by
  rcases j.after_cases with ⟨_, hafter⟩ | ⟨_, hafter⟩ | ⟨hmisses, _⟩
  · rw [hafter]
  · rw [hafter]
  · exact absurd hmisses h

/-- An inode that a scan misses was not remembered before, and is remembered from now on: beside the
others, or alone if there was no room. -/
theorem foreign_of_misses (h : j.Misses) :
    j.inode ∉ j.before.foreign ∧
      j.after.foreign =
        (if maxForeign ≤ j.before.foreign.size then ∅ else j.before.foreign).insert j.inode := by
  rcases j.after_cases with ⟨hnot, _⟩ | ⟨hnot, _⟩ | ⟨_, hasks, hafter⟩
  · exact absurd h hnot
  · exact absurd h hnot
  · rw [hafter]
    exact ⟨hasks.2, rfl⟩

theorem mem_foreign_of_misses (h : j.Misses) : j.inode ∈ j.after.foreign := by
  rw [(foreign_of_misses h).2]
  exact Std.ExtTreeSet.mem_insert_self

theorem owned_subset (h : inode ∈ j.before.owned) : inode ∈ j.after.owned := by
  rcases j.after_cases with ⟨_, hafter⟩ | ⟨_, hafter⟩ | ⟨_, _, hafter⟩
  · rwa [hafter]
  · rw [hafter]
    exact Std.ExtTreeSet.mem_union_iff.2 (Or.inl h)
  · rw [hafter]
    exact Std.ExtTreeSet.mem_union_iff.2 (Or.inl h)

theorem size_foreign_le (h : j.before.foreign.size ≤ maxForeign) :
    j.after.foreign.size ≤ maxForeign := by
  by_cases hmisses : j.Misses
  · have hafter := foreign_of_misses hmisses
    by_cases hfull : maxForeign ≤ j.before.foreign.size
    · rw [hafter.2, if_pos hfull, Std.ExtTreeSet.size_insert]
      simp [maxForeign]
    · rw [hafter.2, if_neg hfull, Std.ExtTreeSet.size_insert]
      split <;> omega
  · rw [foreign_of_not_misses hmisses]
    exact h

/-- What the memory holds more than before. -/
theorem remembered_iff :
    inode ∈ j.after.foreign ∧ inode ∉ j.before.foreign ↔ j.Misses ∧ inode = j.inode := by
  by_cases hmisses : j.Misses
  · have hafter := foreign_of_misses hmisses
    constructor
    · rintro ⟨hnow, hbefore⟩
      refine ⟨hmisses, ?_⟩
      rw [hafter.2, Std.ExtTreeSet.mem_insert] at hnow
      rcases hnow with heq | hkept
      · exact (Std.LawfulEqOrd.eq_of_compare heq).symm
      · split at hkept
        · exact absurd hkept Std.ExtTreeSet.not_mem_empty
        · exact absurd hkept hbefore
    · rintro ⟨_, rfl⟩
      exact ⟨mem_foreign_of_misses hmisses, hafter.1⟩
  · rw [foreign_of_not_misses hmisses]
    constructor
    · intro h
      exact absurd h.1 h.2
    · intro h
      exact absurd h.1 hmisses

/-- The memory is emptied when an inode has to be remembered and there is no room for it. -/
theorem forgets_iff : j.Forgets ↔ j.Misses ∧ maxForeign ≤ j.before.foreign.size := by
  constructor
  · rintro ⟨x, hx, hgone⟩
    by_cases hmisses : j.Misses
    · refine ⟨hmisses, ?_⟩
      by_contra hroom
      rw [(foreign_of_misses hmisses).2, if_neg hroom] at hgone
      exact hgone (Std.ExtTreeSet.mem_insert.2 (Or.inr hx))
    · rw [foreign_of_not_misses hmisses] at hgone
      exact absurd hx hgone
  · rintro ⟨hmisses, hfull⟩
    have hafter := foreign_of_misses hmisses
    rw [if_pos hfull] at hafter
    -- What is full is not empty, and of what was in it nothing is left.
    have hsome : ∃ x, x ∈ j.before.foreign := by
      by_contra hnone
      rw [Std.ExtTreeSet.eq_empty_iff_forall_not_mem.2 (not_exists.1 hnone),
        Std.ExtTreeSet.size_empty] at hfull
      exact absurd hfull (by decide)
    rcases hsome with ⟨x, hx⟩
    refine ⟨x, hx, ?_⟩
    rw [hafter.2, Std.ExtTreeSet.mem_insert]
    rintro (heq | hempty)
    · rw [Std.LawfulEqOrd.eq_of_compare heq] at hafter
      exact hafter.1 hx
    · exact Std.ExtTreeSet.not_mem_empty hempty

theorem mem_foreign_of_forgets (h : j.Forgets) : inode ∈ j.after.foreign ↔ inode = j.inode := by
  rcases forgets_iff.1 h with ⟨hmisses, hfull⟩
  rw [(foreign_of_misses hmisses).2, if_pos hfull, Std.ExtTreeSet.mem_insert,
    or_iff_left Std.ExtTreeSet.not_mem_empty, Std.LawfulEqOrd.compare_eq_iff_eq, eq_comm]

/-! ## Judgements one after the other -/

/-- One judgement finds what the one before it has left. -/
def Precedes (j k : Judgement) : Prop :=
  k.before = j.after

theorem mem_dropLast_cons {k : Judgement} {js : List Judgement} (h : k ∈ js.dropLast)
    (j : Judgement) : k ∈ (j :: js).dropLast := by
  cases js with
  | nil => exact absurd h List.not_mem_nil
  | cons first js => exact List.mem_cons_of_mem j h

/-- While nothing is forgotten, no scan is made for an inode that is remembered. -/
theorem not_misses_of_remembered {js : List Judgement} (hchain : (j :: js).IsChain Precedes)
    (hkept : ∀ k ∈ js.dropLast, ¬ k.Forgets) (h : inode ∈ j.after.foreign) :
    ∀ k ∈ js, ¬ (k.Misses ∧ k.inode = inode) := by
  induction js generalizing j with
  | nil => exact fun k hk => absurd hk List.not_mem_nil
  | cons first js ih =>
      rcases List.isChain_cons_cons.1 hchain with ⟨hfirst, hrest⟩
      have hbefore : inode ∈ first.before.foreign := by
        rw [hfirst]
        exact h
      intro k hk
      rcases List.mem_cons.1 hk with rfl | hk
      · rintro ⟨hmisses, rfl⟩
        exact (foreign_of_misses hmisses).1 hbefore
      · have hmem : first ∈ (first :: js).dropLast := by
          rw [List.dropLast_cons_of_ne_nil (List.ne_nil_of_mem hk)]
          exact List.mem_cons_self
        have hafter : inode ∈ first.after.foreign := by
          by_contra hgone
          exact hkept first hmem ⟨inode, hbefore, hgone⟩
        exact ih hrest (fun m hm => hkept m (mem_dropLast_cons hm first)) hafter k hk

/-- While nothing is forgotten, at most one scan misses an inode. The first and the last judgement
may forget what was remembered. -/
theorem countP_misses_le_one {js : List Judgement} (hchain : js.IsChain Precedes)
    (hkept : ∀ k ∈ js.tail.dropLast, ¬ k.Forgets) (inode : UInt64) :
    js.countP (fun j => j.Misses ∧ j.inode = inode) ≤ 1 := by
  induction js with
  | nil => exact Nat.zero_le 1
  | cons j js ih =>
      rw [List.countP_cons]
      by_cases hmisses : j.Misses ∧ j.inode = inode
      · have hremembered : inode ∈ j.after.foreign := hmisses.2 ▸ mem_foreign_of_misses hmisses.1
        have hnone := not_misses_of_remembered hchain hkept hremembered
        rw [List.countP_eq_zero.2 fun k hk => by simpa using hnone k hk]
        split <;> omega
      · have hlater : ∀ k ∈ js.tail.dropLast, ¬ k.Forgets := by
          intro k hk
          cases js with
          | nil => exact absurd hk List.not_mem_nil
          | cons first js => exact hkept k (mem_dropLast_cons hk first)
        rw [if_neg (by simpa using hmisses)]
        exact ih hchain.tail hlater

end Judgement

namespace OwnershipFilter

/-- The judgements on inquiries that are made one after the other. -/
def judgements (f : OwnershipFilter) : List Inquiry → List Judgement
  | [] => []
  | inquiry :: rest =>
      let j : Judgement := { inquiry with before := f }
      j :: j.after.judgements rest

theorem isChain_judgements (f : OwnershipFilter) (inquiries : List Inquiry) :
    (f.judgements inquiries).IsChain Judgement.Precedes := by
  induction inquiries generalizing f with
  | nil => exact List.IsChain.nil
  | cons inquiry rest ih =>
      cases rest with
      | nil => exact List.IsChain.singleton _
      | cons next rest => exact List.isChain_cons_cons.2 ⟨rfl, ih _⟩

theorem size_foreign_le_of_mem {f : OwnershipFilter} (h : f.foreign.size ≤ maxForeign)
    {inquiries : List Inquiry} {j : Judgement} (hj : j ∈ f.judgements inquiries) :
    j.before.foreign.size ≤ maxForeign := by
  induction inquiries generalizing f with
  | nil => exact absurd hj List.not_mem_nil
  | cons inquiry rest ih =>
      rcases List.mem_cons.1 hj with rfl | hj
      · exact h
      · exact ih (Judgement.size_foreign_le h) hj

/-- What a filter remembers as foreign, after any inquiries and whatever scans do. There are never
more inodes than the bound. An inode is added exactly when a scan was made for it, did not fail and
has not found it. What is remembered is forgotten exactly when this happens while the memory is
full, and then that inode alone is remembered. From one such moment to the next, with both of them
and with no other between them, at most one scan that does not fail misses an inode. What is owned
stays owned. -/
theorem remembers_what_scans_missed (inquiries : List Inquiry) :
    let js := empty.judgements inquiries
    (∀ j ∈ js,
      j.after.foreign.size ≤ maxForeign ∧
      (∀ inode, inode ∈ j.after.foreign ∧ inode ∉ j.before.foreign ↔
        j.Misses ∧ inode = j.inode) ∧
      (j.Forgets ↔ j.Misses ∧ j.before.foreign.size = maxForeign) ∧
      (j.Forgets → ∀ inode, inode ∈ j.after.foreign ↔ inode = j.inode) ∧
      ∀ inode ∈ j.before.owned, inode ∈ j.after.owned) ∧
    ∀ before first between last after, js = before ++ first :: between ++ last :: after →
      (∀ j ∈ between, ¬ j.Forgets) → ∀ inode,
        (first :: between ++ [last]).countP (fun j => j.Misses ∧ j.inode = inode) ≤ 1 := by
  intro js
  constructor
  · intro j hj
    have hsize : j.before.foreign.size ≤ maxForeign :=
      size_foreign_le_of_mem (f := empty) (Nat.zero_le maxForeign) hj
    refine ⟨Judgement.size_foreign_le hsize, fun _ => Judgement.remembered_iff, ?_,
      fun hforgets _ => Judgement.mem_foreign_of_forgets hforgets,
      fun _ howned => Judgement.owned_subset howned⟩
    rw [Judgement.forgets_iff]
    exact and_congr_right fun _ => ⟨fun hfull => Nat.le_antisymm hsize hfull, fun h => h.ge⟩
  · intro before first between last after hsplit hkept inode
    have hsegment : js = before ++ (first :: between ++ [last]) ++ after := by
      rw [hsplit]
      simp
    have hchain : js.IsChain Judgement.Precedes := isChain_judgements empty inquiries
    rw [hsegment] at hchain
    refine Judgement.countP_misses_le_one hchain.left_of_append.right_of_append ?_ inode
    simpa using hkept

/-- Inquiries about an inode that scans miss, before and after a scan for another one that fails
when it has found a third. -/
def repeatedInquiries : List Inquiry :=
  [⟨7, ∅, none⟩, ⟨9, .ofList [(8 : UInt64)], some ⟨ownDescriptors, .notFound⟩⟩, ⟨9, ∅, none⟩,
    ⟨7, ∅, none⟩]

/-- The one that is missed first is not asked for again; the one for which the scan failed is. -/
theorem remembers_what_scans_missed_again :
    let js := empty.judgements repeatedInquiries
    (js.map fun j => j.verdict.scanned) = [true, true, true, false] ∧
      js.countP (fun j => j.Misses ∧ j.inode = 7) ≤ 1 ∧
      js.countP (fun j => j.Misses ∧ j.inode = 9) ≤ 1 := by
  intro js
  have hkept : ∀ j ∈ js.tail.dropLast, ¬ j.Forgets := by
    simp only [Judgement.forgets_iff]
    decide +kernel
  have hne : js ≠ [] := List.cons_ne_nil _ _
  have hsplit : js = [] ++ js.head hne :: js.tail.dropLast ++ js.getLast hne :: [] := rfl
  have hcount := (remembers_what_scans_missed repeatedInquiries).2 [] _ _ _ [] hsplit hkept
  exact ⟨by decide +kernel, hcount 7, hcount 9⟩

end OwnershipFilter

end QueueWatch
