import Mathlib.Data.List.Induction
import QueueWatch.Monitor.Counters
import QueueWatch.Proofs.Row.Reading

/-!
# What a softirq monitor has told

A poll of the softirq table replaces the counters that are held while the rows come in, and drops
the CPUs beyond the last row only if no row was at fault. After some of the rows these stand in the
place of the counters that were held for their CPUs, and what was told is every row that is not the
one held (`SoftnetScan.after_eq`).

The counters that are held for a CPU are the ones that were told last about it (`InStep`). Each row
keeps this (`InStep.see`), so it is so in the middle of a poll as well as after polls that succeed,
that stop at a row, or that cannot read the table (`SoftnetMonitor.inStep_history`).
-/

namespace QueueWatch

/-- The counters that were told last about a CPU. -/
def lastTold (updates : List CpuUpdate) (cpu : Nat) : Option SoftnetRow :=
  (updates.reverse.find? (·.cpu = cpu)).map CpuUpdate.row

theorem lastTold_concat (updates : List CpuUpdate) (u : CpuUpdate) (cpu : Nat) :
    lastTold (updates ++ [u]) cpu = if u.cpu = cpu then some u.row else lastTold updates cpu := by
  unfold lastTold
  rw [List.reverse_concat, List.find?_cons]
  by_cases hcpu : u.cpu = cpu <;> simp [hcpu]

/-- The counters that are held for a CPU are the ones that were told last about it. -/
def InStep (held : List SoftnetRow) (told : List CpuUpdate) : Prop :=
  ∀ cpu row, held[cpu]? = some row → lastTold told cpu = some row

theorem InStep.take {held : List SoftnetRow} {told : List CpuUpdate} (h : InStep held told)
    (n : Nat) : InStep (held.take n) told := by
  intro cpu row hrow
  rw [List.getElem?_take] at hrow
  split at hrow
  · exact h cpu row hrow
  · cases hrow

/-! ## The rows of one poll -/

/-- The rows that are not the ones held for their CPUs. -/
def changedCpus (held rows : List SoftnetRow) : List CpuUpdate :=
  (rows.mapIdx CpuUpdate.mk).filter fun u => held[u.cpu]? ≠ some u.row

theorem changedCpus_concat (held rows : List SoftnetRow) (row : SoftnetRow) :
    changedCpus held (rows ++ [row]) = changedCpus held rows ++
      if held[rows.length]? = some row then [] else [⟨rows.length, row⟩] := by
  rw [changedCpus, List.mapIdx_concat, List.filter_append, ← changedCpus]
  by_cases hheld : held[rows.length]? = some row <;> simp [hheld]

theorem mem_changedCpus_iff {held rows : List SoftnetRow} {u : CpuUpdate} :
    u ∈ changedCpus held rows ↔ rows[u.cpu]? = some u.row ∧ held[u.cpu]? ≠ some u.row := by
  have hmem : u ∈ rows.mapIdx CpuUpdate.mk ↔ rows[u.cpu]? = some u.row := by
    rw [List.mem_mapIdx]
    constructor
    · rintro ⟨cpu, hcpu, rfl⟩
      exact List.getElem?_eq_getElem hcpu
    · intro hrow
      rcases List.getElem?_eq_some_iff.1 hrow with ⟨hcpu, hget⟩
      exact ⟨u.cpu, hcpu, by rw [hget]⟩
  rw [changedCpus, List.mem_filter, hmem, decide_eq_true_iff]

/-- Every CPU is told of once at most, and in ascending order. -/
theorem pairwise_changedCpus (held rows : List SoftnetRow) :
    (changedCpus held rows).Pairwise (·.cpu < ·.cpu) := by
  refine List.Pairwise.filter _ (List.pairwise_iff_getElem.2 ?_)
  intro i j hi hj hij
  rw [List.getElem_mapIdx, List.getElem_mapIdx]
  exact hij

theorem changedCpus_self (rows : List SoftnetRow) : changedCpus rows rows = [] := by
  rw [List.eq_nil_iff_forall_not_mem]
  intro u hu
  rcases mem_changedCpus_iff.1 hu with ⟨hrow, hheld⟩
  exact hheld hrow

namespace SoftnetScan

variable {s : SoftnetScan}

@[simp] theorem cpu_see (s : SoftnetScan) (row : SoftnetRow) : (s.see row).cpu = s.cpu + 1 := by
  unfold see
  split <;> rfl

theorem updates_see (s : SoftnetScan) (row : SoftnetRow) :
    (s.see row).updates =
      s.updates ++ if s.held[s.cpu]? = some row then [] else [⟨s.cpu, row⟩] := by
  unfold see
  split <;> simp

/-- A row takes the place of what is held for its CPU, or the place behind all that is held. -/
theorem getElem?_held_see (h : s.cpu ≤ s.held.length) (row : SoftnetRow) (cpu : Nat) :
    (s.see row).held[cpu]? = if cpu = s.cpu then some row else s.held[cpu]? := by
  unfold see
  grind

/-- The state of a poll after some rows. -/
def after (held rows : List SoftnetRow) : SoftnetScan :=
  rows.foldl see ⟨0, held, []⟩

theorem after_concat (held rows : List SoftnetRow) (row : SoftnetRow) :
    after held (rows ++ [row]) = (after held rows).see row :=
  List.foldl_concat ..

theorem after_eq (held rows : List SoftnetRow) :
    after held rows =
      ⟨rows.length, rows ++ held.drop rows.length, changedCpus held rows⟩ := by
  induction rows using List.reverseRecOn with
  | nil => rfl
  | append_singleton rows row ih =>
      have hle : (after held rows).cpu ≤ (after held rows).held.length := by simp [ih]
      have hheld : ((after held rows).see row).held =
          (rows ++ [row]) ++ held.drop (rows ++ [row]).length := by
        refine List.ext_getElem? fun cpu => ?_
        rw [getElem?_held_see hle, ih]
        grind
      have hcpu : ((after held rows).see row).cpu = (rows ++ [row]).length := by
        rw [cpu_see, ih, List.length_append, List.length_singleton]
      have hupdates : ((after held rows).see row).updates = changedCpus held (rows ++ [row]) := by
        have hget : (rows ++ held.drop rows.length)[rows.length]? = held[rows.length]? := by grind
        rw [updates_see, ih, changedCpus_concat, hget]
      rw [after_concat, ← hheld, ← hcpu, ← hupdates]

end SoftnetScan

/-- What a row changes is told. -/
theorem InStep.see {s : SoftnetScan} {told : List CpuUpdate} (hle : s.cpu ≤ s.held.length)
    (h : InStep s.held (told ++ s.updates)) (row : SoftnetRow) :
    InStep (s.see row).held (told ++ (s.see row).updates) := by
  intro cpu held hheld
  rw [SoftnetScan.getElem?_held_see hle] at hheld
  rw [SoftnetScan.updates_see, ← List.append_assoc]
  by_cases hrow : s.held[s.cpu]? = some row
  · rw [if_pos hrow, List.append_nil]
    refine h cpu held ?_
    by_cases hcpu : cpu = s.cpu
    · rw [← hheld, if_pos hcpu, hcpu, hrow]
    · rw [← hheld, if_neg hcpu]
  · rw [if_neg hrow, lastTold_concat]
    by_cases hcpu : cpu = s.cpu
    · rw [if_pos hcpu] at hheld
      rw [if_pos hcpu.symm, hheld]
    · rw [if_neg hcpu] at hheld
      rw [if_neg (Ne.symm hcpu)]
      exact h cpu held hheld

theorem InStep.after {held : List SoftnetRow} {told : List CpuUpdate} (h : InStep held told)
    (rows : List SoftnetRow) :
    InStep (SoftnetScan.after held rows).held (told ++ (SoftnetScan.after held rows).updates) := by
  induction rows using List.reverseRecOn with
  | nil =>
      change InStep held (told ++ [])
      rwa [List.append_nil]
  | append_singleton rows row ih =>
      have hle : (SoftnetScan.after held rows).cpu ≤ (SoftnetScan.after held rows).held.length := by
        simp [SoftnetScan.after_eq]
      rw [SoftnetScan.after_concat]
      exact ih.see hle row

/-! ## Polls -/

namespace SoftnetMonitor

open RowDecoder

variable {m : SoftnetMonitor} {d : Disk} {path : String} {contents : List UInt8}
  {rows : List SoftnetRow} {fault : Option RowError}

/-- A monitor that reads a softirq table, at a path. -/
structure IsAt (path : String) (m : SoftnetMonitor) : Prop where
  path_eq : m.path = path
  format_eq : m.decoder.format = .softnet

theorem isAt_new (path : String) : (new path).IsAt path :=
  ⟨rfl, rfl⟩

theorem poll_of_load_error {cause : LoadError} (h : (m.loader.load d).2 = .error cause) :
    m.poll d = ({ m with loader := (m.loader.load d).1 }, ⟨[], some (.load cause)⟩) := by
  unfold poll
  rcases hload : m.loader.load d with ⟨loader, loaded⟩
  rw [hload] at h
  subst h
  rfl

/-- A poll that reads a table looks at the rows before the one that is at fault. The CPUs beyond
them are forgotten if none is. -/
theorem poll_of_load_ok (hm : m.IsAt path) (h : (m.loader.load d).2 = .ok contents)
    (hread : readRows .softnet contents = (rows, fault)) :
    (m.poll d).1.IsAt path ∧
      (m.poll d).1.held =
        (if fault = none then rows else (SoftnetScan.after m.held rows).held) ∧
      (m.poll d).2 = ⟨(SoftnetScan.after m.held rows).updates, fault.map (.counters path)⟩ := by
  rcases decodeRows_eq SoftnetScan.see contents m.decoder ⟨0, m.held, []⟩ with
    ⟨decoder, hformat, hdecode⟩
  rw [hm.format_eq] at hformat hdecode
  rw [hread] at hdecode
  change _ = ended fault (decoder, SoftnetScan.after m.held rows) at hdecode
  unfold poll
  rcases hload : m.loader.load d with ⟨loader, loaded⟩
  rw [hload] at h
  subst h
  simp only [hdecode]
  cases fault with
  | none =>
      refine ⟨⟨hm.path_eq, hformat⟩, ?_, rfl⟩
      rw [if_pos rfl, SoftnetScan.after_eq]
      exact List.take_left
  | some cause => exact ⟨⟨hm.path_eq, hformat⟩, rfl, by rw [ended, hm.path_eq, Option.map_some]⟩

/-- A poll, and all that was told so far. -/
def listen (s : SoftnetMonitor × List CpuUpdate) (d : Disk) : SoftnetMonitor × List CpuUpdate :=
  ((s.1.poll d).1, s.2 ++ (s.1.poll d).2.updates)

/-- A monitor of a path after polls, each with the disk that it found, and all that was told. -/
def history (path : String) (ds : List Disk) : SoftnetMonitor × List CpuUpdate :=
  ds.foldl listen (new path, [])

theorem history_concat (path : String) (ds : List Disk) (d : Disk) :
    history path (ds ++ [d]) = listen (history path ds) d :=
  List.foldl_concat ..

/-- At the end of each poll the counters that are held are the ones that were told last. -/
theorem inStep_history (path : String) (ds : List Disk) :
    (history path ds).1.IsAt path ∧ InStep (history path ds).1.held (history path ds).2 := by
  induction ds using List.reverseRecOn with
  | nil => exact ⟨isAt_new path, fun cpu row hrow => nomatch hrow⟩
  | append_singleton ds d ih =>
      rcases ih with ⟨hat, hstep⟩
      rw [history_concat, listen]
      cases hload : ((history path ds).1.loader.load d).2 with
      | error cause =>
          rw [poll_of_load_error hload, List.append_nil]
          exact ⟨⟨hat.path_eq, hat.format_eq⟩, hstep⟩
      | ok contents =>
          rcases hread : readRows .softnet contents with ⟨rows, fault⟩
          rcases poll_of_load_ok hat hload hread with ⟨hat', hheld, hreport⟩
          refine ⟨hat', ?_⟩
          have hafter := hstep.after rows
          rw [hheld, hreport]
          split
          · have hrows : (SoftnetScan.after (history path ds).1.held rows).held.take rows.length =
                rows := by
              rw [SoftnetScan.after_eq, List.take_left]
            have htake := hafter.take rows.length
            rw [hrows] at htake
            exact htake
          · exact hafter

/-- Whatever polls there were, those who listen know the counters that are held. The next poll tells
of the rows that are not the ones held, in the order of their CPUs, and those who listen are in step
after each of them. If no row is at fault the rows are held then and nothing else, and to poll the
same contents again tells nothing. Otherwise the CPUs from the row at fault on keep what was held
for them. If the table cannot be read, nothing changes. -/
theorem poll_history (path : String) (past : List Disk) (d : Disk) (m : SoftnetMonitor)
    (told : List CpuUpdate) (h : history path past = (m, told)) :
    InStep m.held told ∧
      match (m.loader.load d).2 with
      | .error cause => (m.poll d).1.held = m.held ∧ (m.poll d).2 = ⟨[], some (.load cause)⟩
      | .ok contents => ∀ rows fault, readRows .softnet contents = (rows, fault) →
          (m.poll d).2.error = fault.map (.counters path) ∧
          (m.poll d).2.updates.Pairwise (·.cpu < ·.cpu) ∧
          (∀ u, u ∈ (m.poll d).2.updates ↔
            rows[u.cpu]? = some u.row ∧ m.held[u.cpu]? ≠ some u.row) ∧
          (∀ n, InStep (SoftnetScan.after m.held (rows.take n)).held
            (told ++ (SoftnetScan.after m.held (rows.take n)).updates)) ∧
          (fault = none → (m.poll d).1.held = rows ∧
            ∀ d', ((m.poll d).1.loader.load d').2 = .ok contents →
              ((m.poll d).1.poll d').1.held = rows ∧ ((m.poll d).1.poll d').2 = ⟨[], none⟩) ∧
          (fault ≠ none → ∀ cpu, (m.poll d).1.held[cpu]? =
            if cpu < rows.length then rows[cpu]? else m.held[cpu]?) := by
  have hrun := inStep_history path past
  rw [h] at hrun
  rcases hrun with ⟨hat, hstep⟩
  refine ⟨hstep, ?_⟩
  cases hload : (m.loader.load d).2 with
  | error cause =>
      rw [poll_of_load_error hload]
      exact ⟨rfl, rfl⟩
  | ok contents =>
      intro rows fault hread
      rcases poll_of_load_ok hat hload hread with ⟨hat', hheld, hreport⟩
      rw [hreport, SoftnetScan.after_eq]
      refine ⟨rfl, pairwise_changedCpus .., fun _ => mem_changedCpus_iff, fun n => hstep.after _,
        ?_, ?_⟩
      · rintro rfl
        rw [if_pos rfl] at hheld
        refine ⟨hheld, fun d' hload' => ?_⟩
        rcases poll_of_load_ok hat' hload' hread with ⟨-, hheld', hreport'⟩
        refine ⟨hheld', ?_⟩
        rw [hreport', hheld, SoftnetScan.after_eq, changedCpus_self]
        rfl
      · intro hfault cpu
        rw [hheld, if_neg hfault, SoftnetScan.after_eq]
        grind

/-- A disk with a softirq table. -/
def cpusDisk (table : String) : Disk :=
  Disk.empty.write "/cpus" (Text.Utf8.encode table)

/-- The second row of the second table is at fault, so CPU 1 keeps what it had. -/
theorem poll_history_cpus :
    ∃ m told, history "/cpus" [cpusDisk "01 02 03\n04 05 06\n"] = (m, told) ∧
      m.held = [⟨1, 2, 3⟩, ⟨4, 5, 6⟩] ∧
      (∀ u, u ∈ (m.poll (cpusDisk "01 02 07\n04 0g 06\n")).2.updates ↔
        [SoftnetRow.mk 1 2 7][u.cpu]? = some u.row ∧ m.held[u.cpu]? ≠ some u.row) ∧
      (m.poll (cpusDisk "01 02 07\n04 0g 06\n")).1.held[0]? = some ⟨1, 2, 7⟩ ∧
      (m.poll (cpusDisk "01 02 07\n04 0g 06\n")).1.held[1]? = some ⟨4, 5, 6⟩ := by
  have hheld : (history "/cpus" [cpusDisk "01 02 03\n04 05 06\n"]).1.held =
      [⟨1, 2, 3⟩, ⟨4, 5, 6⟩] := by
    decide +kernel
  have hload : ((history "/cpus" [cpusDisk "01 02 03\n04 05 06\n"]).1.loader.load
      (cpusDisk "01 02 07\n04 0g 06\n")).2 = .ok (Text.Utf8.encode "01 02 07\n04 0g 06\n") := by
    decide +kernel
  have hread : readRows .softnet (Text.Utf8.encode "01 02 07\n04 0g 06\n") =
      ([⟨1, 2, 7⟩], some (.invalidNumber 1 .dropped (.invalidDigit 0x67))) := by
    decide +kernel
  rcases hrun : history "/cpus" [cpusDisk "01 02 03\n04 05 06\n"] with ⟨m, told⟩
  rw [hrun] at hheld hload
  have hpoll := (poll_history "/cpus" _ (cpusDisk "01 02 07\n04 0g 06\n") m told hrun).2
  rw [hload] at hpoll
  rcases hpoll _ _ hread with ⟨-, -, hupdates, -, -, hkept⟩
  refine ⟨m, told, rfl, hheld, hupdates, ?_, ?_⟩
  · rw [hkept (by simp)]
    rfl
  · rw [hkept (by simp), hheld]
    rfl

end SoftnetMonitor

end QueueWatch
