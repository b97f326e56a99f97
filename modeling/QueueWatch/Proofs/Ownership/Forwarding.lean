import Mathlib.Data.List.Induction
import QueueWatch.Ownership.Events

/-!
# What an ownership filter lets through

A filter keeps the inodes that it knows as owned and those that it remembers as foreign, and an
inode may be among both. What it owns is what its scans have found
(`OwnershipFilter.mem_owned_iff`), and the owned inodes are looked at first. So an update passes
just if a scan has found its inode, be it an earlier one or the one that the update has triggered;
what is remembered as foreign does not show (`OwnershipFilter.forwards_what_scans_found`).

Nothing is said about where scans come from: every update arrives with the outcome that a scan at
that time would have, whether it triggers one or not.
-/

namespace QueueWatch

/-- An update that reaches a filter, and the outcome that a scan would have now. -/
structure Arrival where
  update : SocketUpdate
  scan : Scan

def Arrival.inode (a : Arrival) : UInt64 :=
  a.update.name.inode

/-- What came of events and then of later ones. -/
def Filtered.join (s later : Filtered) : Filtered where
  filter := later.filter
  passed := s.passed ++ later.passed
  scans := s.scans + later.scans
  warnings := s.warnings ++ later.warnings

theorem Filtered.join_new (s : Filtered) : s.join { filter := s.filter } = s := by
  simp only [join, List.append_nil, Nat.add_zero]

theorem Filtered.take_join (scan : Scan) (s later : Filtered) (e : SocketEvent) :
    (s.join later).take scan e = s.join (later.take scan e) := by
  cases e with
  | updated u =>
      simp only [take, join, mk.injEq, true_and]
      refine ⟨?_, ?_, List.append_assoc ..⟩
      · by_cases hpasses : (later.filter.judge scan u.name.inode).2.passes <;> simp [hpasses]
      · by_cases hscanned : (later.filter.judge scan u.name.inode).2.scanned <;>
          simp [hscanned, Nat.add_assoc]
  | started n => simp only [take, join, List.append_assoc]
  | stopped n => simp only [take, join, List.append_assoc]

namespace OwnershipFilter

variable {f : OwnershipFilter} {scan : Scan} {inode : UInt64}

/-- Whether an update about an inode triggers a scan. -/
def Asks (f : OwnershipFilter) (inode : UInt64) : Prop :=
  inode ∉ f.owned ∧ inode ∉ f.foreign

instance (f : OwnershipFilter) (inode : UInt64) : Decidable (f.Asks inode) :=
  inferInstanceAs (Decidable (_ ∧ _))

/-- What a filter does with an update: it lets it pass or refuses it by what it knows, or it makes
a scan, which may fail and may find the inode or not. -/
theorem judgeOutcome_cases (f : OwnershipFilter) (outcome : ScanOutcome) (inode : UInt64) :
    (inode ∈ f.owned ∧ f.judgeOutcome outcome inode = (f, ⟨true, false, none⟩)) ∨
      (inode ∉ f.owned ∧ inode ∈ f.foreign ∧
        f.judgeOutcome outcome inode = (f, ⟨false, false, none⟩)) ∨
      (f.Asks inode ∧ ∃ e, outcome.failure = some e ∧
        f.judgeOutcome outcome inode =
          ({ f with owned := f.owned ∪ outcome.found }, ⟨false, true, some e⟩)) ∨
      (f.Asks inode ∧ outcome.failure = none ∧ inode ∈ outcome.found ∧
        f.judgeOutcome outcome inode =
          ({ f with owned := f.owned ∪ outcome.found }, ⟨true, true, none⟩)) ∨
      (f.Asks inode ∧ outcome.failure = none ∧ inode ∉ outcome.found ∧
        f.judgeOutcome outcome inode =
          (remember { f with owned := f.owned ∪ outcome.found } inode, ⟨false, true, none⟩)) := by
  by_cases howned : inode ∈ f.owned
  · exact Or.inl ⟨howned, by simp [judgeOutcome, howned]⟩
  · right
    by_cases hforeign : inode ∈ f.foreign
    · exact Or.inl ⟨howned, hforeign, by simp [judgeOutcome, howned, hforeign]⟩
    · right
      have hasks : f.Asks inode := ⟨howned, hforeign⟩
      cases hfailure : outcome.failure with
      | some e => exact Or.inl ⟨hasks, e, rfl, by simp [judgeOutcome, howned, hforeign, hfailure]⟩
      | none =>
          right
          by_cases hfound : inode ∈ outcome.found
          · exact Or.inl ⟨hasks, rfl, hfound,
              by simp [judgeOutcome, howned, hforeign, hfailure, hfound]⟩
          · exact Or.inr ⟨hasks, rfl, hfound,
              by simp [judgeOutcome, howned, hforeign, hfailure, hfound]⟩

/-- The same for a scan that adds nothing if it fails. -/
theorem judge_cases (f : OwnershipFilter) (scan : Scan) (inode : UInt64) :
    (inode ∈ f.owned ∧ f.judge scan inode = (f, ⟨true, false, none⟩)) ∨
      (inode ∉ f.owned ∧ inode ∈ f.foreign ∧ f.judge scan inode = (f, ⟨false, false, none⟩)) ∨
      (f.Asks inode ∧ ∃ e, scan = .error e ∧
        f.judge scan inode = (f, ⟨false, true, some e⟩)) ∨
      (f.Asks inode ∧ ∃ found, scan = .ok found ∧ inode ∈ found ∧
        f.judge scan inode = ({ f with owned := f.owned ∪ found }, ⟨true, true, none⟩)) ∨
      (f.Asks inode ∧ ∃ found, scan = .ok found ∧ inode ∉ found ∧
        f.judge scan inode =
          (remember { f with owned := f.owned ∪ found } inode, ⟨false, true, none⟩)) := by
  rcases judgeOutcome_cases f (.ofScan scan) inode with
    hknown | hforeign | ⟨hasks, e, hfailure, _⟩ | ⟨hasks, hfailure, hfound, hjudge⟩ |
      ⟨hasks, hfailure, hfound, hjudge⟩
  · exact Or.inl hknown
  · exact Or.inr (Or.inl hforeign)
  · cases scan with
    | error e => exact Or.inr (Or.inr (Or.inl ⟨hasks, e, rfl, judge_of_failure hasks.1 hasks.2 e⟩))
    | ok found => cases hfailure
  · cases scan with
    | error e => cases hfailure
    | ok found => exact Or.inr (Or.inr (Or.inr (Or.inl ⟨hasks, found, rfl, hfound, hjudge⟩)))
  · cases scan with
    | error e => cases hfailure
    | ok found => exact Or.inr (Or.inr (Or.inr (Or.inr ⟨hasks, found, rfl, hfound, hjudge⟩)))

/-! ## Arrivals one after the other -/

/-- What comes of arrivals, one after the other. -/
def siftFrom (s : Filtered) (arrivals : List Arrival) : Filtered :=
  arrivals.foldl (fun s a => s.take a.scan (.updated a.update)) s

/-- What comes of arrivals at a new filter. -/
def sift (arrivals : List Arrival) : Filtered :=
  siftFrom { filter := .empty } arrivals

/-- Whether a scan has found an inode: one that an arrival has triggered, and that did not fail. -/
def Found (arrivals : List Arrival) (inode : UInt64) : Prop :=
  ∃ before a after, arrivals = before ++ a :: after ∧ (sift before).filter.Asks a.inode ∧
    ∃ found, a.scan = .ok found ∧ inode ∈ found

variable {before : List Arrival} {a : Arrival}

theorem sift_concat (before : List Arrival) (a : Arrival) :
    sift (before ++ [a]) = (sift before).take a.scan (.updated a.update) := by
  rw [sift, siftFrom, List.foldl_append]
  rfl

theorem filter_sift_concat (before : List Arrival) (a : Arrival) :
    (sift (before ++ [a])).filter = ((sift before).filter.judge a.scan a.inode).1 := by
  rw [sift_concat]
  rfl

theorem passed_sift_concat (before : List Arrival) (a : Arrival) :
    (sift (before ++ [a])).passed =
      if ((sift before).filter.judge a.scan a.inode).2.passes then
        (sift before).passed ++ [.updated a.update]
      else (sift before).passed := by
  rw [sift_concat]
  rfl

theorem scans_sift_concat (before : List Arrival) (a : Arrival) :
    (sift (before ++ [a])).scans =
      if ((sift before).filter.judge a.scan a.inode).2.scanned then (sift before).scans + 1
      else (sift before).scans := by
  rw [sift_concat]
  rfl

theorem not_found_nil (inode : UInt64) : ¬Found [] inode := by
  intro hx
  rcases hx with ⟨before, a, after, hsplit, _⟩
  cases (List.append_eq_nil_iff.1 hsplit.symm).2

/-- A scan has found an inode if an earlier one has, or if the last arrival has triggered one that
did. -/
theorem found_concat {inode : UInt64} :
    Found (before ++ [a]) inode ↔
      Found before inode ∨
        (sift before).filter.Asks a.inode ∧ ∃ found, a.scan = .ok found ∧ inode ∈ found := by
  constructor
  · intro hx
    rcases hx with ⟨first, b, after, hsplit, hasks, hfound⟩
    rcases List.eq_nil_or_concat after with rfl | ⟨rest, last, rfl⟩
    · rcases List.append_inj' hsplit rfl with ⟨rfl, hb⟩
      cases hb
      exact Or.inr ⟨hasks, hfound⟩
    · have hconcat : before ++ [a] = (first ++ b :: rest) ++ [last] := by
        rw [hsplit, List.concat_eq_append, List.append_assoc, List.cons_append]
      exact Or.inl ⟨first, b, rest, (List.append_inj' hconcat rfl).1, hasks, hfound⟩
  · intro hx
    rcases hx with ⟨first, b, after, rfl, hasks, hfound⟩ | ⟨hasks, hfound⟩
    · exact ⟨first, b, after ++ [a], by simp, hasks, hfound⟩
    · exact ⟨before, a, [], rfl, hasks, hfound⟩

theorem Found.append {inode : UInt64} (h : Found before inode) (later : List Arrival) :
    Found (before ++ later) inode := by
  rcases h with ⟨first, b, after, rfl, hasks, hfound⟩
  exact ⟨first, b, after ++ later, by simp, hasks, hfound⟩

/-- A filter owns what its scans have found. -/
theorem mem_owned_iff (arrivals : List Arrival) (inode : UInt64) :
    inode ∈ (sift arrivals).filter.owned ↔ Found arrivals inode := by
  induction arrivals using List.reverseRecOn with
  | nil =>
      constructor
      · intro hmem
        exact absurd hmem Std.ExtTreeSet.not_mem_empty
      · intro hfound
        exact absurd hfound (not_found_nil inode)
  | append_singleton before a ih =>
      rw [filter_sift_concat, found_concat, ← ih]
      rcases judge_cases (sift before).filter a.scan a.inode with
        ⟨howned, hjudge⟩ | ⟨_, hforeign, hjudge⟩ | ⟨_, e, he, hjudge⟩ |
          ⟨hasks, found, hscan, _, hjudge⟩ | ⟨hasks, found, hscan, _, hjudge⟩
      · rw [hjudge]
        exact (or_iff_left fun hnew => hnew.1.1 howned).symm
      · rw [hjudge]
        exact (or_iff_left fun hnew => hnew.1.2 hforeign).symm
      · rw [hjudge, he]
        exact (or_iff_left fun hnew => nomatch hnew.2).symm
      · rw [hjudge, hscan]
        simp [hasks]
      · rw [hjudge, hscan]
        simp [hasks, remember]

/-- So an update passes just if a scan has found its inode, at the latest the one that it
triggers. -/
theorem passes_iff_found (before : List Arrival) (a : Arrival) :
    ((sift before).filter.judge a.scan a.inode).2.passes ↔ Found (before ++ [a]) a.inode := by
  rw [found_concat, ← mem_owned_iff]
  rcases judge_cases (sift before).filter a.scan a.inode with
    ⟨howned, hjudge⟩ | ⟨howned, hforeign, hjudge⟩ | ⟨hasks, e, he, hjudge⟩ |
      ⟨hasks, found, hscan, hfound, hjudge⟩ | ⟨hasks, found, hscan, hfound, hjudge⟩
  · rw [hjudge]
    simp [howned]
  · rw [hjudge]
    simp [howned, hforeign, Asks]
  · rw [hjudge, he]
    simp [hasks.1]
  · rw [hjudge, hscan]
    simp [hasks, hfound]
  · rw [hjudge, hscan]
    simp [hasks.1, hfound]

theorem scanned_iff_asks (f : OwnershipFilter) (scan : Scan) (inode : UInt64) :
    (f.judge scan inode).2.scanned ↔ f.Asks inode := by
  rcases judge_cases f scan inode with
    ⟨howned, hjudge⟩ | ⟨_, hforeign, hjudge⟩ | ⟨hasks, e, _, hjudge⟩ |
      ⟨hasks, found, _, _, hjudge⟩ | ⟨hasks, found, _, _, hjudge⟩
  · rw [hjudge]
    simp [Asks, howned]
  · rw [hjudge]
    simp [Asks, hforeign]
  all_goals
    rw [hjudge]
    simp [hasks]

theorem passed_of_found (h : Found (before ++ [a]) a.inode) :
    (sift (before ++ [a])).passed = (sift before).passed ++ [.updated a.update] := by
  rw [passed_sift_concat, if_pos ((passes_iff_found before a).2 h)]

theorem passed_of_not_found (h : ¬Found (before ++ [a]) a.inode) :
    (sift (before ++ [a])).passed = (sift before).passed := by
  rw [passed_sift_concat, if_neg fun hpasses => h ((passes_iff_found before a).1 hpasses)]

/-- What passes stays in order. -/
theorem passed_sublist (arrivals : List Arrival) :
    (sift arrivals).passed.Sublist (arrivals.map fun a => .updated a.update) := by
  induction arrivals using List.reverseRecOn with
  | nil => exact List.Sublist.refl []
  | append_singleton before a ih =>
      rw [List.map_append, passed_sift_concat]
      split
      · exact ih.append_right _
      · exact ih.trans (List.sublist_append_left _ _)

/-! ## Scans that fail -/

/-- What has come of arrivals does not matter for what comes of the next ones, apart from what the
filter knows. -/
theorem siftFrom_eq_join (arrivals : List Arrival) (s : Filtered) :
    siftFrom s arrivals = s.join (siftFrom { filter := s.filter } arrivals) := by
  induction arrivals using List.reverseRecOn with
  | nil => exact s.join_new.symm
  | append_singleton before a ih =>
      have hlast : ∀ s, siftFrom s (before ++ [a]) =
          (siftFrom s before).take a.scan (.updated a.update) := by
        intro s
        rw [siftFrom, List.foldl_append]
        rfl
      rw [hlast, hlast, ih, Filtered.take_join]

theorem sift_append (before later : List Arrival) :
    sift (before ++ later) =
      (sift before).join (siftFrom { filter := (sift before).filter } later) := by
  rw [sift, siftFrom, List.foldl_append]
  exact siftFrom_eq_join later (sift before)

/-- A scan that fails drops the update that has triggered it, and nothing else. -/
theorem passed_of_failure {e : ScanError} (hasks : (sift before).filter.Asks a.inode)
    (hscan : a.scan = .error e) (later : List Arrival) :
    (sift (before ++ a :: later)).passed = (sift (before ++ later)).passed := by
  have hjudge : (sift before).filter.judge a.scan a.inode =
      ((sift before).filter, ⟨false, true, some e⟩) := by
    rw [hscan]
    exact judge_of_failure hasks.1 hasks.2 e
  have hfilter : (sift (before ++ [a])).filter = (sift before).filter := by
    rw [filter_sift_concat, hjudge]
  have hpassed : (sift (before ++ [a])).passed = (sift before).passed := by
    rw [passed_sift_concat, hjudge]
    rfl
  have hafter : ∀ first, (sift (first ++ later)).passed =
      (sift first).passed ++ (siftFrom { filter := (sift first).filter } later).passed :=
    fun first => congrArg Filtered.passed (sift_append first later)
  rw [List.append_cons, hafter, hafter, hfilter, hpassed]

/-! ## Scans that always find the same -/

/-- No inode is remembered as foreign before a scan has succeeded. -/
theorem exists_scan_of_foreign {arrivals : List Arrival} {inode : UInt64}
    (h : inode ∈ (sift arrivals).filter.foreign) :
    ∃ before a after, arrivals = before ++ a :: after ∧ (sift before).filter.Asks a.inode ∧
      ∃ found, a.scan = .ok found := by
  induction arrivals using List.reverseRecOn generalizing inode with
  | nil => exact absurd h Std.ExtTreeSet.not_mem_empty
  | append_singleton before a ih =>
      by_cases hkept : inode ∈ (sift before).filter.foreign
      · rcases ih hkept with ⟨first, b, after, rfl, hasks, hfound⟩
        exact ⟨first, b, after ++ [a], by simp, hasks, hfound⟩
      · rw [filter_sift_concat] at h
        rcases judge_cases (sift before).filter a.scan a.inode with
          ⟨_, hjudge⟩ | ⟨_, _, hjudge⟩ | ⟨_, e, _, hjudge⟩ | ⟨_, found, _, _, hjudge⟩ |
            ⟨hasks, found, hscan, _, _⟩
        iterate 4
          rw [hjudge] at h
          exact absurd h hkept
        exact ⟨before, a, [], rfl, hasks, found, hscan⟩

/-- If every scan finds the same inodes, it is these that have been found when one of them is asked
about. -/
theorem found_concat_iff_of_constant {own : InodeSet}
    (hbefore : ∀ b ∈ before, b.scan = .ok own) (ha : a.scan = .ok own) :
    Found (before ++ [a]) a.inode ↔ a.inode ∈ own := by
  constructor
  · intro hx
    rcases hx with ⟨first, b, after, hsplit, _, found, hscan, hmem⟩
    have hb : b ∈ before ++ [a] := hsplit ▸ List.mem_append_right _ List.mem_cons_self
    have hown : b.scan = .ok own := by
      rcases List.mem_append.1 hb with hb | hb
      · exact hbefore b hb
      · rw [List.mem_singleton.1 hb]
        exact ha
    rw [← Except.ok.inj (hown.symm.trans hscan)] at hmem
    exact hmem
  · intro hown
    rw [found_concat]
    by_cases hfound : Found before a.inode
    · exact Or.inl hfound
    · have hforeign : a.inode ∉ (sift before).filter.foreign := by
        intro hforeign
        rcases exists_scan_of_foreign hforeign with ⟨first, b, after, hsplit, hasks, found, hscan⟩
        have hb : b ∈ before := hsplit ▸ List.mem_append_right _ List.mem_cons_self
        rw [← Except.ok.inj ((hbefore b hb).symm.trans hscan)] at hscan
        exact hfound ⟨first, b, after, hsplit, hasks, own, hscan, hown⟩
      have howned : a.inode ∉ (sift before).filter.owned :=
        fun howned => hfound ((mem_owned_iff before a.inode).1 howned)
      exact Or.inr ⟨⟨howned, hforeign⟩, own, ha, hown⟩

theorem passed_of_constant (own : InodeSet) (updates : List SocketUpdate) :
    (sift (updates.map fun u => ⟨u, .ok own⟩)).passed =
      (updates.filter fun u => u.name.inode ∈ own).map .updated := by
  induction updates using List.reverseRecOn with
  | nil => rfl
  | append_singleton updates u ih =>
      have hbefore : ∀ b ∈ updates.map fun u => (⟨u, .ok own⟩ : Arrival), b.scan = .ok own := by
        intro b hb
        rcases List.mem_map.1 hb with ⟨v, _, rfl⟩
        rfl
      have hfound := found_concat_iff_of_constant (a := ⟨u, .ok own⟩) hbefore rfl
      rw [List.map_append, List.map_singleton, List.filter_append, List.map_append, ← ih]
      by_cases hown : u.name.inode ∈ own
      · rw [passed_of_found (hfound.2 hown)]
        simp [hown]
      · rw [passed_of_not_found fun h => hown (hfound.1 h)]
        simp [hown]

/-- What a filter does with an update, after any others and whatever scans find. The update passes
once, unchanged and behind those that have passed, if a scan has found its inode that was triggered
by it or before, and otherwise it does not pass. A scan is triggered by an update about an inode
that is neither owned, which means found, nor remembered as foreign. So an inode passes ever after
it was found, be it remembered as foreign or not; a scan that fails drops the update that triggered
it and has no other effect on what passes; and if all scans find the same inodes, the updates about
these pass and no others. -/
theorem forwards_what_scans_found (before : List Arrival) (a : Arrival) :
    let s := sift before
    let next := sift (before ++ [a])
    (Found (before ++ [a]) a.inode → next.passed = s.passed ++ [.updated a.update]) ∧
    (¬Found (before ++ [a]) a.inode → next.passed = s.passed) ∧
    s.passed.Sublist (before.map fun a => .updated a.update) ∧
    (∀ inode, inode ∈ s.filter.owned ↔ Found before inode) ∧
    next.scans = s.scans + (if s.filter.Asks a.inode then 1 else 0) ∧
    (∀ later, Found before a.inode → (sift (before ++ later ++ [a])).passed =
      (sift (before ++ later)).passed ++ [.updated a.update]) ∧
    (∀ e later, s.filter.Asks a.inode → a.scan = .error e →
      (sift (before ++ a :: later)).passed = (sift (before ++ later)).passed) ∧
    ∀ (own : InodeSet) (updates : List SocketUpdate),
      (sift (updates.map fun u => ⟨u, .ok own⟩)).passed =
        (updates.filter fun u => u.name.inode ∈ own).map .updated := by
  intro s next
  refine ⟨passed_of_found, passed_of_not_found, passed_sublist before, mem_owned_iff before,
    ?_, ?_, ?_, passed_of_constant⟩
  · rw [scans_sift_concat]
    simp only [scanned_iff_asks]
    split <;> rfl
  · intro later hfound
    exact passed_of_found ((hfound.append later).append [a])
  · intro e later hasks hscan
    exact passed_of_failure hasks hscan later

/-- An update about the socket with an inode. -/
def inodeUpdate (inode : UInt64) : SocketUpdate :=
  ⟨⟨.ofOctets 127 0 0 1, 80, inode⟩, .ofEndpoint ⟨.ofOctets 127 0 0 1, 80⟩, ⟨0, 0, none⟩⟩

/-- A socket is asked about before it is opened, and found when another one is asked about. -/
def lateArrivals : List Arrival :=
  [⟨inodeUpdate 7, .ok ∅⟩, ⟨inodeUpdate 9, .ok (.ofList [(7 : UInt64), 9])⟩]

/-- An arrival at a time when scans fail. -/
def failingArrival (inode : UInt64) : Arrival :=
  ⟨inodeUpdate inode, .error ⟨ownDescriptors, .notFound⟩⟩

/-- Then it passes, although it is still remembered as foreign. One that no scan has found is
dropped while scans fail, and the next one passes as it would have without it. -/
theorem forwards_what_scans_found_late :
    let passed arrivals := (sift arrivals).passed
    7 ∈ (sift lateArrivals).filter.foreign ∧
      passed (lateArrivals ++ [failingArrival 7]) =
        passed lateArrivals ++ [.updated (inodeUpdate 7)] ∧
      passed (lateArrivals ++ [failingArrival 8]) = passed lateArrivals ∧
      passed (lateArrivals ++ failingArrival 8 :: [failingArrival 7]) =
        passed (lateArrivals ++ [failingArrival 7]) := by
  intro passed
  have hforeign : 7 ∈ (sift lateArrivals).filter.foreign := by decide +kernel
  have hlate : Found (lateArrivals ++ [failingArrival 7]) 7 := by
    rw [← mem_owned_iff]
    decide +kernel
  have hnever : ¬Found (lateArrivals ++ [failingArrival 8]) 8 := by
    rw [← mem_owned_iff]
    decide +kernel
  have hasks : (sift lateArrivals).filter.Asks 8 := by decide +kernel
  refine ⟨hforeign, ?_, ?_, ?_⟩
  · exact (forwards_what_scans_found lateArrivals (failingArrival 7)).1 hlate
  · exact (forwards_what_scans_found lateArrivals (failingArrival 8)).2.1 hnever
  · exact (forwards_what_scans_found lateArrivals (failingArrival 8)).2.2.2.2.2.2.1 _
      [failingArrival 7] hasks rfl

end OwnershipFilter

end QueueWatch
