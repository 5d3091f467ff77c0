/-
Pinning the zimg workers to CPUs (`zimg_open` and `zimg_pool_on_spawn` of
`src/scaler_zimg.c`).

The hook acts on the backend's pin state by following the pool's events, as the
other hooks do in `AutoUpscale.ZimgBackend`; its log holds every worker it asked
to pin with the CPU it asked for.  The modulo of the hook never wraps, because
the pool has no more workers than there are pin ids.

* **`pinned_workers_distinct`** — the pin ids are the first allowed CPUs, and over
  any run of the backend no two workers are pinned to one of them.
-/
import AutoUpscale.CpuTopology
import AutoUpscale.ZimgReady

namespace AutoUpscale

open PrefixBuffer

/-! ### The pin state -/

/-- The fields of `zimg_priv_t` about pinning, with a log of the pins. -/
structure PinState where
  pinCpus : Bool
  topology : CpuTopology
  attempts : ℕ
  successes : ℕ
  log : List (ℕ × ℤ)

/-- `zimg_pool_on_spawn`; `pinned` is what `pin_worker_to_cpu` returns. -/
def zimgPoolOnSpawn (s : PinState) (i : ℕ) (pinned : Bool) : PinState :=
  if s.pinCpus = false ∨ s.topology.pinCount ≤ 0 then s
  else
    let cpu := s.topology.pinIds (i % s.topology.pinCount)
    { s with
      attempts := s.attempts + 1
      successes := if pinned then s.successes + 1 else s.successes
      log := s.log ++ [(i, cpu)] }

/-- What a pool event does to the pins: `up__pool_spawn` calls the hook for a
thread that was created. -/
def pinHook (pinned : ℕ → Bool) (s : PinState) : PoolEvent → PinState
  | .spawn i true => zimgPoolOnSpawn s i (pinned i)
  | _ => s

/-- The backend with its pins. -/
structure PinnedZimg where
  priv : ZimgPriv
  pins : PinState

/-- `zimg_open` on the topology that was detected. -/
def zimgOpenPinned (ctx : ScalerCtx) (t : CpuTopology) (api alloc : Bool) : Option PinnedZimg :=
  let nThreads := threadsDecide ctx.threadsPref t.allowedCount
  (zimgOpen ctx nThreads api alloc).map fun p => ⟨p, ⟨ctx.pinCpus, t, 0, 0, []⟩⟩

/-- The pool events of `zimg_ensure_lazy_init`. -/
def zimgLazyInitLog (p : ZimgPriv) (o : ZimgOutcome) : List PoolEvent :=
  if p.pool.lazyDone then []
  else if p.pool.lazyFailed then []
  else
    let p := { p with pool := workerPoolConfig p.plan.nThreads true }
    (workerPoolEnsureStarted p.pool
      { o.start with
        prepare := (allocScratchBuffers p o.allocs).1
        construct := fun i => (zimgPoolConstruct p o.allocs i).1 }).log

/-- The pool events of a start in `zimg_process`. -/
def zimgStartLog (ctx : ScalerCtx) (p : ZimgPriv) (src dst : Option Picture) (o : ZimgOutcome) :
    List PoolEvent :=
  if p.pool.broken then []
  else
    match zimgFrameViewsInit ctx src dst with
    | none => []
    | some (srcView, dstView) =>
      let p := zimgPrepareFirstFrameIo p ctx srcView dstView
      if zimgFrameIoSafe p srcView dstView = false then [] else zimgLazyInitLog p o

/-- `zimg_process` with its pins. -/
def zimgProcessPinned (ctx : ScalerCtx) (s : PinnedZimg) (src dst : Option Picture)
    (o : ZimgOutcome) (pinned : ℕ → Bool) : PinnedZimg :=
  ⟨(zimgProcess ctx s.priv src dst o).priv,
    (zimgStartLog ctx s.priv src dst o).foldl (pinHook pinned) s.pins⟩

/-- The backends a caller can hold, opened on the topology `t`. -/
inductive PinnedReachable (ctx : ScalerCtx) (t : CpuTopology) : PinnedZimg → Prop
  | open {s api alloc} (h : zimgOpenPinned ctx t api alloc = some s) : PinnedReachable ctx t s
  | process {s} (h : PinnedReachable ctx t s) (src dst : Option Picture) (o : ZimgOutcome)
      (pinned : ℕ → Bool) : PinnedReachable ctx t (zimgProcessPinned ctx s src dst o pinned)

/-! ### Which threads a start spawns -/

theorem poolConstructFrom_spawn {o : StartOutcome} {j : ℕ} {ok : Bool} :
    ∀ {k i : ℕ} {p : WorkerPool}, .spawn j ok ∈ (poolConstructFrom o k i p).2.2 → j < i + k := by
  intro k
  induction k with
  | zero =>
    intro i p hj
    exact absurd hj List.not_mem_nil
  | succ k ih =>
    intro i p hj
    have hone : .spawn j ok ∈ (poolConstructOne p i o).log → j = i := by
      unfold poolConstructOne
      intro hmem
      split at hmem
      · simp at hmem
      split at hmem
      · simp at hmem
      split at hmem <;> simp at hmem <;> exact hmem.1
    unfold poolConstructFrom at hj
    dsimp only at hj
    split at hj
    · have := hone hj
      omega
    · rcases List.mem_append.mp hj with hhead | hrest
      · have := hone hhead
        omega
      · have := ih hrest
        omega

/-- A start spawns a thread for one of the preferred workers; without threads of
its own it spawns none. -/
theorem workerPoolStart_spawn {p : WorkerPool} (h : p.Fresh) {o : StartOutcome} {j : ℕ} {ok : Bool}
    (hj : .spawn j ok ∈ (workerPoolStart p o).log) : j < max 1 p.nPref.toNat := by
  have hset := poolSetup_law p o h
  have hpref : (poolSetup p o).pool.nPref = p.nPref := by rw [hset.frame]
  have hsetup : .spawn j ok ∉ (poolSetup p o).log := by
    rcases hset.log with hlog | ⟨ok', hlog⟩ <;> simp [hlog]
  have hall : .spawn j ok ∈ (poolConstructAll (poolSetup p o).pool o).2.2 →
      j < max 1 p.nPref.toNat := by
    intro hmem
    have hlt := poolConstructFrom_spawn hmem
    rw [hpref] at hlt
    split at hlt <;> omega
  unfold workerPoolStart at hj
  dsimp only at hj
  split at hj
  · exact absurd hj hsetup
  split at hj
  · -- what retiring logs starts nothing
    have hretire := (poolRetireFailedStart_law (poolConstructAll (poolSetup p o).pool o).2.1
      (poolConstructAll (poolSetup p o).pool o).1 o.stop).winding
    rcases List.mem_append.mp hj with hj | hj
    · rcases List.mem_append.mp hj with hj | hj
      · exact absurd hj hsetup
      · exact hall hj
    · cases hretire _ hj
  · rcases List.mem_append.mp hj with hj | hj
    · rcases List.mem_append.mp hj with hj | hj
      · exact absurd hj hsetup
      · exact hall hj
    · simp at hj

theorem zimgLazyInitLog_spawn {p : ZimgPriv} {o : ZimgOutcome} {j : ℕ} {ok : Bool}
    (hj : .spawn j ok ∈ zimgLazyInitLog p o) : j < max 1 p.plan.nThreads.toNat := by
  unfold zimgLazyInitLog workerPoolEnsureStarted at hj
  dsimp only at hj
  split at hj
  · exact absurd hj List.not_mem_nil
  split at hj
  · exact absurd hj List.not_mem_nil
  have hfresh : (workerPoolConfig p.plan.nThreads true).Fresh := ⟨rfl, rfl, rfl⟩
  split at hj
  · exact absurd hj List.not_mem_nil
  split at hj
  · exact absurd hj List.not_mem_nil
  split at hj <;> exact workerPoolStart_spawn hfresh hj

/-! ### The plan within the pin ids -/

/-- The resolved plan has no more threads than the budget, when that is one of
`up_threads_decide`. -/
theorem zimgPlan_nThreads_le (ctx : ScalerCtx) {budget : ℤ} (hbudget : 1 ≤ budget)
    (srcAligned dstAligned : Bool) :
    (zimgPlan ctx budget srcAligned dstAligned).nThreads ≤ budget := by
  have hcells := (resolveIoPlan_feasible (zimgBuildIoReq ctx budget srcAligned dstAligned)).cells_le
  have hmax := (tileBudget_bounds budget).2
  have hb : (zimgPlan ctx budget srcAligned dstAligned).nThreads ≤ tileBudget budget := hcells
  omega

section Run

variable {ctx : ScalerCtx} {t : CpuTopology} {s : PinnedZimg} {ids : List ℕ}

theorem PinnedReachable.backend (h : PinnedReachable ctx t s) :
    ZimgReachable ctx (threadsDecide ctx.threadsPref t.allowedCount) s.priv := by
  induction h with
  | «open» hopen =>
    obtain ⟨p, hp, rfl⟩ := Option.map_eq_some_iff.mp hopen
    exact .open hp
  | process _ src dst o _ ih => exact .process ih src dst o

/-- No plan of a backend on `t` has more threads than `t` has pin ids. -/
theorem PinnedReachable.nThreads_le (h : PinnedReachable ctx t s) (ht : Scanned ids t)
    (hpin : 0 < t.pinCount) : s.priv.plan.nThreads ≤ t.pinCount := by
  obtain ⟨srcAligned, dstAligned, hplan⟩ := (zimgReachable_inv h.backend).plan
  obtain ⟨hlo, hhi⟩ := threadsDecide_le_pinCount ht hpin ctx.threadsPref
  rw [hplan]
  exact (zimgPlan_nThreads_le ctx hlo srcAligned dstAligned).trans hhi

/-! ### The pins of a run -/

/-- Every pin is of a worker below the number of pin ids, to the id in its place. -/
structure PinsInPlace (t : CpuTopology) (s : PinState) : Prop where
  topology : s.topology = t
  log : ∀ i cpu, (i, cpu) ∈ s.log → i < t.pinCount ∧ cpu = t.pinIds i

theorem PinsInPlace.onSpawn {s : PinState} (h : PinsInPlace t s) {i : ℕ} (hi : i < t.pinCount)
    (pinned : Bool) : PinsInPlace t (zimgPoolOnSpawn s i pinned) := by
  unfold zimgPoolOnSpawn
  split
  · exact h
  · refine ⟨h.topology, fun j cpu hj => ?_⟩
    rcases List.mem_append.mp hj with hj | hj
    · exact h.log j cpu hj
    · -- the modulo leaves the index alone
      obtain ⟨rfl, rfl⟩ := Prod.mk.inj (List.mem_singleton.mp hj)
      refine ⟨hi, ?_⟩
      rw [h.topology, Nat.mod_eq_of_lt hi]

theorem PinsInPlace.hooks {s : PinState} (h : PinsInPlace t s) (pinned : ℕ → Bool)
    {log : List PoolEvent} (hlog : ∀ j ok, .spawn j ok ∈ log → j < t.pinCount) :
    PinsInPlace t (log.foldl (pinHook pinned) s) := by
  induction log generalizing s with
  | nil => exact h
  | cons e log ih =>
    have hrest : ∀ j ok, .spawn j ok ∈ log → j < t.pinCount :=
      fun j ok hj => hlog j ok (List.mem_cons_of_mem e hj)
    refine ih ?_ hrest
    unfold pinHook
    split
    · rename_i j
      exact h.onSpawn (hlog j true List.mem_cons_self) (pinned j)
    · exact h

theorem PinnedReachable.pins (h : PinnedReachable ctx t s) (ht : Scanned ids t)
    (hpin : 0 < t.pinCount) : PinsInPlace t s.pins := by
  induction h with
  | «open» hopen =>
    obtain ⟨p, -, rfl⟩ := Option.map_eq_some_iff.mp hopen
    exact ⟨rfl, fun _ _ hj => absurd hj List.not_mem_nil⟩
  | @process s hs src dst o pinned ih =>
    refine ih.hooks pinned fun j ok hj => ?_
    unfold zimgStartLog at hj
    split at hj
    · exact absurd hj List.not_mem_nil
    split at hj
    · exact absurd hj List.not_mem_nil
    rename_i srcView dstView _
    dsimp only at hj
    split at hj
    · exact absurd hj List.not_mem_nil
    have hspawn := zimgLazyInitLog_spawn hj
    obtain ⟨srcAligned, dstAligned, hplan⟩ :=
      (zimgPrepareFirstFrameIo_inv (zimgReachable_inv hs.backend) srcView dstView).plan
    obtain ⟨hlo, hhi⟩ := threadsDecide_le_pinCount ht hpin ctx.threadsPref
    have hle := zimgPlan_nThreads_le ctx hlo srcAligned dstAligned
    rw [hplan] at hspawn
    omega

end Run

/-! ### The law -/

/-- The pins on a topology `t` that was read from a set of `setSize` bytes. -/
structure PinLaw (set : ℕ → Bool) (setSize : ℕ) (t : CpuTopology) : Prop where
  /-- The pin ids are the first allowed CPUs, in strictly ascending order. -/
  count : t.pinCount = min 64 (allowedCpus set setSize).length
  ids : (List.range t.pinCount).map t.pinIds = ((allowedCpus set setSize).take 64).map Nat.cast
  ascending : ∀ j k, j < k → k < t.pinCount → t.pinIds j < t.pinIds k
  /-- No plan has more threads than there are pin ids. -/
  threads : ∀ ctx srcAligned dstAligned,
    (resolveIoPlan (zimgBuildIoReq ctx (threadsDecide ctx.threadsPref t.allowedCount) srcAligned
      dstAligned)).nThreads ≤ t.pinCount
  /-- Over any run of a backend, its plan stays within the pin ids, every pin is
  to an allowed CPU, and no two workers share one. -/
  run : ∀ ctx s, PinnedReachable ctx t s → s.priv.plan.nThreads ≤ t.pinCount ∧
    ∀ i cpu, (i, cpu) ∈ s.pins.log →
      (∃ id : ℕ, cpu = id ∧ id < 8192 ∧ cpuIsset id setSize set = true) ∧
      ∀ j cpu', (j, cpu') ∈ s.pins.log → j ≠ i → cpu' ≠ cpu

theorem Scanned.pinLaw {set : ℕ → Bool} {setSize : ℕ} {t : CpuTopology}
    (h : Scanned (allowedCpus set setSize) t) (hpin : 0 < t.pinCount) : PinLaw set setSize t := by
  have hascending : ∀ j k, j < k → k < t.pinCount → t.pinIds j < t.pinIds k := by
    have hids : ((allowedCpus set setSize).map (Nat.cast : ℕ → ℤ)).Pairwise (· < ·) := by
      refine (allowedCpus_ascending set setSize).map _ ?_
      intro a b hab
      exact_mod_cast hab
    intro j k hjk hk
    exact Buffer.items_strictMono h.pins hids hjk hk
  have hcount : t.pinCount = min 64 (allowedCpus set setSize).length := by
    rw [← List.length_map (Nat.cast : ℕ → ℤ)]
    exact h.pins.count_eq
  have hids : (List.range t.pinCount).map t.pinIds
      = ((allowedCpus set setSize).take 64).map Nat.cast := by
    rw [List.map_take]
    exact h.pins
  refine
    { count := hcount
      ids := hids
      ascending := hascending
      threads := fun ctx srcAligned dstAligned => ?_
      run := fun ctx s hs => ⟨hs.nThreads_le h hpin, fun i cpu hi => ⟨?_, ?_⟩⟩ }
  · obtain ⟨hlo, hhi⟩ := threadsDecide_le_pinCount h hpin ctx.threadsPref
    exact (zimgPlan_nThreads_le ctx hlo srcAligned dstAligned).trans hhi
  · obtain ⟨hlt, rfl⟩ := (hs.pins h hpin).log i cpu hi
    have hmem : t.pinIds i ∈ ((allowedCpus set setSize).take 64).map (Nat.cast : ℕ → ℤ) := by
      rw [← hids]
      exact List.mem_map_of_mem (List.mem_range.mpr hlt)
    obtain ⟨id, hid, heq⟩ := List.mem_map.mp hmem
    obtain ⟨hlimit, hset⟩ := mem_allowedCpus.mp (List.mem_of_mem_take hid)
    exact ⟨id, heq.symm, hlimit, hset⟩
  · obtain ⟨hlt, rfl⟩ := (hs.pins h hpin).log i cpu hi
    intro j cpu' hj hne
    obtain ⟨hlt', rfl⟩ := (hs.pins h hpin).log j cpu' hj
    rcases Nat.lt_or_gt_of_ne hne with hji | hij
    · exact (hascending j i hji hlt).ne
    · exact (hascending i j hij hlt').ne'

/-- **Pinned workers get distinct, allowed CPUs**, whatever the mask and its size,
the thread preference, the geometry and the frames: for a topology read from a
set, and for the one that a detection finds. -/
theorem pinned_workers_distinct :
    (∀ set setSize, 0 < (cpuTopologyFromSet (some set) setSize).2.pinCount →
      PinLaw set setSize (cpuTopologyFromSet (some set) setSize).2) ∧
    ∀ o, 0 < (detectCpuTopologyWith o).pinCount →
      ∃ set, o.getaffinity = some set ∧ PinLaw set 1024 (detectCpuTopologyWith o) := by
  constructor
  · intro set setSize hpin
    exact (cpuTopologyFromSet_scanned set setSize).pinLaw hpin
  · intro o hpin
    obtain ⟨set, hset, heq⟩ := detectCpuTopologyWith_pins hpin
    refine ⟨set, hset, ?_⟩
    rw [heq] at hpin ⊢
    exact (cpuTopologyFromSet_scanned set 1024).pinLaw hpin

/-- A sparse set of two CPUs. -/
theorem pinned_workers_distinct_sparse :
    PinLaw (fun cpu => cpu == 3 || cpu == 70) 16
      (cpuTopologyFromSet (some fun cpu => cpu == 3 || cpu == 70) 16).2 :=
  pinned_workers_distinct.1 _ 16 (by decide +kernel)

end AutoUpscale
