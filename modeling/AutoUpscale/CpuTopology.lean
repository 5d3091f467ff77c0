/-
The CPUs a process may use, as the thread policy detects them
(`src/thread_policy.h`).

A mask gives the bit of every CPU id; a set of some bytes shows those that fit.
Three caps meet here: 64 ids are kept for pinning, 256 CPUs are counted, ids
below 8192 are scanned.

- `cpuTopologyFromSet_scanned`: the kept ids are the first allowed ones.
- `threadsDecide_le_pinCount`: the worker budget never exceeds them.
-/
import AutoUpscale.PrefixBuffer
import AutoUpscale.UsmAdaptive

namespace AutoUpscale

open PrefixBuffer

/-- `UP_CPU_COUNT_MAX`, `UP_CPU_ID_LIMIT` -/
def cpuCountMax : ℤ := threadsMax * 4
def cpuIdLimit : ℕ := 8192

/-- `up_cpu_topology_t` -/
structure CpuTopology where
  allowedCount : ℤ
  pinCount : ℕ
  pinIds : ℕ → ℤ

def zeroTopology : CpuTopology := ⟨0, 0, fun _ => 0⟩

/-- `up__clamp_core_count` -/
def clampCoreCount (count : ℤ) : ℤ :=
  if count ≤ 0 then 1 else if count > cpuCountMax then cpuCountMax else count

/-- `up__topology_from_sysconf`; `getcores` is what the call returns, `none`
without a callback. -/
def topologyFromSysconf (t : CpuTopology) (getcores : Option ℤ) : CpuTopology :=
  { t with allowedCount := clampCoreCount (getcores.getD 1), pinCount := 0 }

/-- `CPU_ISSET_S` on a set of `setSize` bytes. -/
def cpuIsset (cpu setSize : ℕ) (set : ℕ → Bool) : Bool := decide (cpu / 8 < setSize) && set cpu

/-- `pin_ids[pin_count++] = cpu`, while there is room. -/
def keepPin (t : CpuTopology) (cpu : ℕ) : CpuTopology :=
  if (t.pinCount : ℤ) < threadsMax then
    { t with
      pinIds := Function.update t.pinIds t.pinCount cpu
      pinCount := t.pinCount + 1 }
  else t

/-- One turn of the scan. -/
def scanCpu (set : ℕ → Bool) (setSize : ℕ) (t : CpuTopology) (cpu : ℕ) : CpuTopology :=
  if cpuIsset cpu setSize set = false then t
  else
    let t := keepPin t cpu
    if t.allowedCount < cpuCountMax then { t with allowedCount := t.allowedCount + 1 } else t

/-- `scan_limit`, `CHAR_BIT` being 8. -/
def cpuScanLimit (setSize : ℕ) : ℕ :=
  if setSize > cpuIdLimit / 8 then cpuIdLimit else setSize * 8

/-- `up_cpu_topology_from_set`: the count it returns, and the topology. -/
def cpuTopologyFromSet (set : Option (ℕ → Bool)) (setSize : ℕ) : ℤ × CpuTopology :=
  match set with
  | none => (0, zeroTopology)
  | some set =>
    let t := (List.range (cpuScanLimit setSize)).foldl (scanCpu set setSize) zeroTopology
    (t.allowedCount, t)

/-- `CPU_ALLOC_SIZE` in words of 64 bits. -/
def cpuAllocSize (count : ℕ) : ℕ := (count + 63) / 64 * 8

/-- How the calls of a detection turn out: whether the set can be allocated, the
mask that `getaffinity` writes when it succeeds, what `getcores` returns. -/
structure AffinityOutcome where
  alloc : Bool
  getaffinity : Option (ℕ → Bool)
  getcores : Option ℤ

/-- `up_detect_cpu_topology_with` -/
def detectCpuTopologyWith (o : AffinityOutcome) : CpuTopology :=
  if o.alloc = false then topologyFromSysconf zeroTopology o.getcores
  else
    match o.getaffinity with
    | none => topologyFromSysconf zeroTopology o.getcores
    | some set =>
      let r := cpuTopologyFromSet (some set) (cpuAllocSize cpuIdLimit)
      if r.1 > 0 then r.2 else topologyFromSysconf r.2 o.getcores

/-! ### What a scan finds -/

/-- The set CPU ids below `UP_CPU_ID_LIMIT`, in ascending order. -/
def allowedCpus (set : ℕ → Bool) (setSize : ℕ) : List ℕ :=
  (List.range cpuIdLimit).filter fun cpu => cpuIsset cpu setSize set

theorem mem_allowedCpus {set : ℕ → Bool} {setSize cpu : ℕ} :
    cpu ∈ allowedCpus set setSize ↔ cpu < 8192 ∧ cpuIsset cpu setSize set = true := by
  unfold allowedCpus
  rw [List.mem_filter, List.mem_range]
  rfl

theorem allowedCpus_ascending (set : ℕ → Bool) (setSize : ℕ) :
    (allowedCpus set setSize).Pairwise (· < ·) :=
  List.pairwise_lt_range.filter _

/-- The scan stops where the set ends. -/
theorem filter_range_scanLimit (set : ℕ → Bool) (setSize : ℕ) :
    (List.range (cpuScanLimit setSize)).filter (fun cpu => cpuIsset cpu setSize set)
      = allowedCpus set setSize := by
  unfold cpuScanLimit
  split
  · rfl
  rename_i hsize
  have hle : setSize * 8 ≤ cpuIdLimit := by
    unfold cpuIdLimit at *
    omega
  obtain ⟨rest, hrest⟩ := Nat.exists_eq_add_of_le hle
  unfold allowedCpus
  rw [hrest, List.range_add, List.filter_append]
  have hbeyond : ((List.range rest).map (setSize * 8 + ·)).filter
      (fun cpu => cpuIsset cpu setSize set) = [] := by
    rw [List.filter_eq_nil_iff]
    intro cpu hcpu
    obtain ⟨k, -, rfl⟩ := List.mem_map.mp hcpu
    unfold cpuIsset
    rw [decide_eq_false (by omega), Bool.false_and]
    decide
  rw [hbeyond, List.append_nil]

/-- `pin_ids` and `pin_count` as a buffer. -/
def CpuTopology.pins (t : CpuTopology) : Buffer ℤ := ⟨t.pinCount, t.pinIds⟩

/-- The topology after a scan that has met `ids`: the first 64 of them, and their
number up to 256. -/
structure Scanned (ids : List ℕ) (t : CpuTopology) : Prop where
  pins : t.pins.Holds 64 (ids.map Nat.cast)
  count : t.allowedCount = min 256 (ids.length : ℤ)

theorem keepPin_pins (t : CpuTopology) (cpu : ℕ) :
    (keepPin t cpu).pins = t.pins.push 64 (cpu : ℤ) := by
  unfold keepPin threadsMax Buffer.push
  by_cases hlt : t.pinCount < 64
  · rw [if_pos (by exact_mod_cast hlt)]
    exact (if_pos hlt).symm
  · rw [if_neg (by exact_mod_cast hlt)]
    exact (if_neg hlt).symm

theorem keepPin_allowedCount (t : CpuTopology) (cpu : ℕ) :
    (keepPin t cpu).allowedCount = t.allowedCount := by
  unfold keepPin
  split <;> rfl

/-- An allowed id is kept and counted, as long as the caps allow. -/
theorem scanCpu_scanned {ids : List ℕ} {t : CpuTopology} (h : Scanned ids t)
    {set : ℕ → Bool} {setSize cpu : ℕ} (hset : cpuIsset cpu setSize set = true) :
    Scanned (ids ++ [cpu]) (scanCpu set setSize t cpu) := by
  have hkept := keepPin_allowedCount t cpu
  have hpins : (keepPin t cpu).pins.Holds 64 ((ids ++ [cpu]).map Nat.cast) := by
    rw [keepPin_pins, List.map_append]
    exact h.pins.push (cpu : ℤ)
  have hcount := h.count
  unfold scanCpu cpuCountMax threadsMax
  rw [if_neg (by rw [hset]; decide)]
  dsimp only
  split
  · refine ⟨hpins, ?_⟩
    rw [List.length_append, List.length_singleton]
    push_cast
    omega
  · refine ⟨hpins, ?_⟩
    rw [List.length_append, List.length_singleton]
    push_cast
    omega

theorem scan_scanned (set : ℕ → Bool) (setSize : ℕ) (cpus : List ℕ) :
    Scanned (cpus.filter fun cpu => cpuIsset cpu setSize set)
      (cpus.foldl (scanCpu set setSize) zeroTopology) := by
  induction cpus using List.reverseRecOn with
  | nil => exact ⟨rfl, rfl⟩
  | append_singleton cpus cpu ih =>
    rw [List.foldl_append, List.filter_append]
    show Scanned _ (scanCpu set setSize (cpus.foldl (scanCpu set setSize) zeroTopology) cpu)
    by_cases hset : cpuIsset cpu setSize set = true
    · rw [show [cpu].filter (fun cpu => cpuIsset cpu setSize set) = [cpu] from
        List.filter_cons_of_pos hset]
      exact scanCpu_scanned ih hset
    · rw [show [cpu].filter (fun cpu => cpuIsset cpu setSize set) = [] from
        List.filter_cons_of_neg hset, List.append_nil]
      unfold scanCpu
      rw [if_pos (by simpa using hset)]
      exact ih

/-- The scan meets the allowed CPUs. -/
theorem cpuTopologyFromSet_scanned (set : ℕ → Bool) (setSize : ℕ) :
    Scanned (allowedCpus set setSize) (cpuTopologyFromSet (some set) setSize).2 := by
  rw [← filter_range_scanLimit]
  exact scan_scanned set setSize (List.range (cpuScanLimit setSize))

/-- A detection with pin ids has read them from the process's mask. -/
theorem detectCpuTopologyWith_pins {o : AffinityOutcome}
    (hpin : 0 < (detectCpuTopologyWith o).pinCount) :
    ∃ set, o.getaffinity = some set ∧
      detectCpuTopologyWith o = (cpuTopologyFromSet (some set) 1024).2 := by
  unfold detectCpuTopologyWith at hpin ⊢
  split at hpin
  · exact absurd hpin (lt_irrefl 0)
  rename_i halloc
  rw [if_neg halloc]
  cases hset : o.getaffinity with
  | none =>
    rw [hset] at hpin
    exact absurd hpin (lt_irrefl 0)
  | some set =>
    rw [hset] at hpin
    dsimp only at hpin ⊢
    split at hpin
    · rename_i hcount
      exact ⟨set, rfl, if_pos hcount⟩
    · exact absurd hpin (lt_irrefl 0)

/-! ### The worker budget -/

theorem threadsDecide_bounds (userPref : ℤ) {cores : ℤ} (hcores : 0 < cores) :
    1 ≤ threadsDecide userPref cores ∧ threadsDecide userPref cores ≤ min cores 64 := by
  rw [threadsDecide_eq]
  generalize (if userPref ≤ threadsAuto then _ else userPref) = n
  unfold threadsMax
  omega

/-- The budget decided from a topology with pin ids does not exceed their
number: both are at most 64 and at most the number of allowed CPUs. -/
theorem threadsDecide_le_pinCount {ids : List ℕ} {t : CpuTopology} (h : Scanned ids t)
    (hpin : 0 < t.pinCount) (userPref : ℤ) :
    1 ≤ threadsDecide userPref t.allowedCount ∧
      threadsDecide userPref t.allowedCount ≤ t.pinCount := by
  have hpins : t.pinCount = min 64 ids.length := by
    rw [← List.length_map (Nat.cast : ℕ → ℤ)]
    exact h.pins.count_eq
  have hcount := h.count
  obtain ⟨hlo, hhi⟩ := threadsDecide_bounds userPref (show 0 < t.allowedCount by omega)
  exact ⟨hlo, by omega⟩

end AutoUpscale
