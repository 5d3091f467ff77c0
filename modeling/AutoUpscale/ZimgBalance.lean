/-
The account of the zimg backend from open to close (`src/scaler_zimg.c`).

`HookInv` is what holds between two events of a start, `ZimgHeapInv` between two frames: the
log so far is one that a heap accepts and leaves what the backend has pointers to.

- `HookInv.start`: a start, whatever fails in it.
- `ZimgHeapInv.process`: a frame; `ZimgHeapInv.close`: the close.
- **`zimg_heap_balanced`** — over any run nothing is lost and nothing freed twice.
-/
import AutoUpscale.ZimgDrift
import AutoUpscale.ZimgHeap

namespace AutoUpscale

open LabelledTrace HeapLedger

/-! ### The pool's hooks -/

/-- The blocks of the backend but for those of slot `i`. -/
def ZimgHeap.Rest (s : ZimgHeap) (q : WorkerPool) (i : ℕ) (b : ZimgBlock) : Prop :=
  ¬ b.OfSlot i ∧ s.HoldsWith q b

theorem ZimgHeap.holdsWith_iff (s : ZimgHeap) (q : WorkerPool) (i : ℕ) (b : ZimgBlock) :
    s.HoldsWith q b ↔ SlotHeld i (s.priv.workers i) (s.tmp i) b ∨ s.Rest q i b := by
  unfold ZimgHeap.Rest
  cases b with
  | graph j =>
    by_cases hj : j = i
    · subst hj
      simp [ZimgHeap.HoldsWith, SlotHeld, ZimgBlock.OfSlot]
    · simp [ZimgHeap.HoldsWith, SlotHeld, ZimgBlock.OfSlot, hj]
  | tmp j =>
    by_cases hj : j = i
    · subst hj
      simp [ZimgHeap.HoldsWith, SlotHeld, ZimgBlock.OfSlot]
    · simp [ZimgHeap.HoldsWith, SlotHeld, ZimgBlock.OfSlot, hj]
  | tile j q =>
    by_cases hj : j = i
    · subst hj
      simp [ZimgHeap.HoldsWith, SlotHeld, ZimgBlock.OfSlot]
    · simp [ZimgHeap.HoldsWith, SlotHeld, ZimgBlock.OfSlot, hj]
  | _ => simp [SlotHeld, ZimgBlock.OfSlot]

theorem ZimgHeap.holdsWith_congr (s : ZimgHeap) {q q' : WorkerPool} (h : q'.storage = q.storage)
    (b : ZimgBlock) : s.HoldsWith q' b ↔ s.HoldsWith q b := by
  have hpool := poolHeld_congr h b
  cases b with
  | scratch side p => cases side <;> exact Iff.rfl
  | workers => exact hpool
  | threads => exact hpool
  | gate x => exact hpool
  | _ => exact Iff.rfl

/-- A backend beside a pool without storage. -/
theorem ZimgHeap.holdsWith_none (s : ZimgHeap) {p : WorkerPool}
    (hnone : p.storage = (false, false, false)) :
    (∀ b, b.OfPool → ¬ s.HoldsWith p b) ∧
      ∀ q b, PoolHeld q b ∨ s.HoldsWith p b ↔ s.HoldsWith q b := by
  simp only [WorkerPool.storage, Prod.mk.injEq] at hnone
  obtain ⟨hworkers, hthreads, hready⟩ := hnone
  constructor
  · intro b hb
    cases b <;> simp_all [ZimgBlock.OfPool, ZimgHeap.HoldsWith, PoolHeld]
  · intro q b
    cases b with
    | scratch side r => cases side <;> simp [ZimgHeap.HoldsWith, PoolHeld]
    | _ => simp [ZimgHeap.HoldsWith, PoolHeld, hworkers, hthreads, hready]

/-- A hook of one slot leaves the other blocks alone. -/
theorem ZimgHeap.rest_congr {s s' : ZimgHeap} {i : ℕ} (h : SlotFrame s.priv s'.priv i)
    (htmp : ∀ j, j ≠ i → s'.tmp j = s.tmp j) (q : WorkerPool) (b : ZimgBlock) :
    s'.Rest q i b ↔ s.Rest q i b := by
  unfold ZimgHeap.Rest
  refine and_congr_right fun hb => ?_
  cases b with
  | priv => exact Iff.rfl
  | scratch side p =>
    cases side
    · simp only [ZimgHeap.HoldsWith, h.src]
    · simp only [ZimgHeap.HoldsWith, h.dst]
  | tile j p => simp only [ZimgHeap.HoldsWith, h.other j hb]
  | graph j => simp only [ZimgHeap.HoldsWith, h.other j hb]
  | tmp j => simp only [ZimgHeap.HoldsWith, htmp j hb]
  | workers => exact Iff.rfl
  | threads => exact Iff.rfl
  | gate x => exact Iff.rfl

/-- Between two events of a start, whose pool is `q`: the slots outside `slots` are vacant. -/
structure HookInv (q : WorkerPool) (slots : Finset ℕ) (s : ZimgHeap) : Prop where
  account : Transfers (fun _ => False) (s.HoldsWith q) s.log
  vacant : ∀ i, i ∉ slots → SlotVacant (s.priv.workers i) (s.tmp i)
  tiles : ∀ i, (s.priv.workers i).colTiled = false → ∀ q, (s.priv.workers i).tileDst.data q = 0

section Hooks

variable {q : WorkerPool} {slots : Finset ℕ} {s : ZimgHeap} {c : ZimgHeapCall}

theorem rest_ofSlot (s : ZimgHeap) (q : WorkerPool) (i : ℕ) (b : ZimgBlock) (hb : b.OfSlot i) :
    ¬ s.Rest q i b :=
  fun h => h.1 hb

/-- A hook of slot `i`, from what it does to that slot. -/
theorem HookInv.slot (h : HookInv q slots s) {t : ZimgHeap} {i : ℕ} {new : ZimgHeapLog}
    (hframe : SlotFrame s.priv t.priv i) (htmp : ∀ j, j ≠ i → t.tmp j = s.tmp j)
    (hlog : t.log = s.log ++ new)
    (hnew : Transfers (fun b => SlotHeld i (s.priv.workers i) (s.tmp i) b ∨ s.Rest q i b)
      (fun b => SlotHeld i (t.priv.workers i) (t.tmp i) b ∨ s.Rest q i b) new)
    {slots' : Finset ℕ} (hslots : ∀ j, j ≠ i → j ∉ slots' → j ∉ slots)
    (hvacant : i ∉ slots' → SlotVacant (t.priv.workers i) (t.tmp i))
    (htiles : (t.priv.workers i).colTiled = false → ∀ q, (t.priv.workers i).tileDst.data q = 0) :
    HookInv q slots' t := by
  refine ⟨?_, fun j hj => ?_, fun j => ?_⟩
  · rw [hlog]
    refine h.account.append (hnew.congr (s.holdsWith_iff q i) fun b => ?_)
    rw [t.holdsWith_iff q i b, ZimgHeap.rest_congr hframe htmp q b]
  · by_cases hji : j = i
    · subst hji
      exact hvacant hj
    · rw [hframe.other j hji, htmp j hji]
      exact h.vacant j (hslots j hji hj)
  · by_cases hji : j = i
    · subst hji
      exact htiles
    · rw [hframe.other j hji]
      exact h.tiles j

theorem HookInv.construct (h : HookInv q slots s) {i : ℕ} (hi : i ∉ slots) {ok : Bool}
    (hok : ok = (zimgPoolConstruct s.priv c.outcome.allocs i).1) :
    HookInv q (if ok then insert i slots else slots) (zimgHeapHook c s (.construct i ok)) := by
  have hempty := h.vacant i hi
  obtain ⟨hnew, hvacant, htiles⟩ := zimgPoolConstruct_transfers (rest_ofSlot s q i) s.priv
    c.outcome.allocs hempty (c.tmpSize i)
  have htmp : (zimgHeapHook c s (.construct i ok)).tmp i =
      (zimgPoolConstructLog s.priv c.outcome.allocs (c.tmpSize i) (s.tmp i) i).1 :=
    Function.update_self i _ _
  rw [← htmp] at hnew hvacant
  rw [← hok] at hvacant
  have hbefore : ∀ b, SlotHeld i (s.priv.workers i) (s.tmp i) b ∨ s.Rest q i b ↔ s.Rest q i b :=
    fun b => or_iff_right (hempty.not_held i b)
  refine h.slot (zimgPoolConstruct_frame s.priv c.outcome.allocs i)
    (fun j hj => Function.update_of_ne hj _ _) rfl (hnew.congr hbefore fun _ => Iff.rfl)
    (fun j _ hj hmem => hj ?_) (fun hi' => hvacant ?_) htiles
  · cases ok
    · exact hmem
    · exact Finset.mem_insert_of_mem hmem
  · cases ok
    · rfl
    · exact absurd (Finset.mem_insert_self i slots) hi'

theorem HookInv.release (h : HookInv q slots s) (i : ℕ) :
    HookInv q (slots.erase i) (zimgReleaseHook s (.release i)) := by
  have htmp : (zimgReleaseHook s (.release i)).tmp i = false := Function.update_self i _ _
  have hempty : SlotVacant ((zimgReleaseHook s (.release i)).priv.workers i)
      ((zimgReleaseHook s (.release i)).tmp i) := by
    rw [htmp]
    exact zimgPoolRelease_vacant s.priv i (h.tiles i)
  have hafter : ∀ b, s.Rest q i b ↔ SlotHeld i ((zimgReleaseHook s (.release i)).priv.workers i)
      ((zimgReleaseHook s (.release i)).tmp i) b ∨ s.Rest q i b :=
    fun b => (or_iff_right (hempty.not_held i b)).symm
  refine h.slot (zimgPoolRelease_frame s.priv i) (fun j hj => Function.update_of_ne hj _ _) rfl
    ((zimgPoolRelease_transfers (rest_ofSlot s q i) (h.tiles i)).congr (fun _ => Iff.rfl) hafter)
    (fun j hji hj hmem => hj (Finset.mem_erase.mpr ⟨hji, hmem⟩)) (fun _ => hempty)
    fun _ => hempty.tile

theorem scratch_injective (side : WorkerViewSide) : Function.Injective (ZimgBlock.scratch side) := by
  intro p p' h
  cases h
  rfl

/-- The prepare hook, on a backend without scratch. -/
theorem allocScratchBuffers_transfers (s : ZimgHeap) (q : WorkerPool) (o : ZimgAllocs)
    (hsrc : ∀ p, s.priv.src.data p = 0) (hdst : ∀ p, s.priv.dst.data p = 0) :
    Transfers (s.HoldsWith q)
      (ZimgHeap.HoldsWith { s with priv := (allocScratchBuffers s.priv o).2 } q)
      (allocScratchBuffersLog s.priv o) := by
  have hfirst : Transfers (s.HoldsWith q) (BufferHeld (.scratch .src)
      (if s.priv.plan.srcZerocopy = false then allocPlaneBuffer s.priv.src o.src
        else (true, s.priv.src)).2 (s.HoldsWith q))
      (if s.priv.plan.srcZerocopy = false then
        allocPlaneBufferLog (.scratch .src) s.priv.src o.src else []) := by
    split
    · exact allocPlaneBuffer_transfers (scratch_injective .src) (fun p h => h (hsrc p)) _ hsrc
    · exact .nil fun b => (bufferHeld_null hsrc b).symm
  unfold allocScratchBuffers allocScratchBuffersLog
  dsimp only
  generalize (if s.priv.plan.srcZerocopy = false then allocPlaneBuffer s.priv.src o.src
    else (true, s.priv.src)) = src at hfirst ⊢
  have hsecond : Transfers (BufferHeld (.scratch .src) src.2 (s.HoldsWith q))
      (BufferHeld (.scratch .dst)
        (if s.priv.plan.dstZerocopy = false ∧ s.priv.plan.colTiled = false then
          allocPlaneBuffer s.priv.dst o.dst else (true, s.priv.dst)).2
        (BufferHeld (.scratch .src) src.2 (s.HoldsWith q)))
      (if s.priv.plan.dstZerocopy = false ∧ s.priv.plan.colTiled = false then
        allocPlaneBufferLog (.scratch .dst) s.priv.dst o.dst else []) := by
    split
    · refine allocPlaneBuffer_transfers (scratch_injective .dst) (fun p h => ?_) _ hdst
      rcases h with ⟨p', heq, -⟩ | h
      · exact absurd heq (by simp)
      · exact h (hdst p)
    · exact .nil fun b => (bufferHeld_null hdst b).symm
  generalize (if s.priv.plan.dstZerocopy = false ∧ s.priv.plan.colTiled = false then
    allocPlaneBuffer s.priv.dst o.dst else (true, s.priv.dst)) = dst at hsecond ⊢
  split
  · refine (hfirst.append (.nil fun _ => Iff.rfl)).congr (fun _ => Iff.rfl) fun b => ?_
    cases b with
    | scratch side p => cases side <;> simp [BufferHeld, ZimgHeap.HoldsWith, hsrc]
    | _ => simp [BufferHeld, ZimgHeap.HoldsWith]
  · refine (hfirst.append hsecond).congr (fun _ => Iff.rfl) fun b => ?_
    cases b with
    | scratch side p => cases side <;> simp [BufferHeld, ZimgHeap.HoldsWith, hsrc, hdst]
    | _ => simp [BufferHeld, ZimgHeap.HoldsWith]

/-- The hooks of a start after its first. -/
theorem HookInv.hooks {l l' : Ledger} (h : HookInv q l.slots s) {log : List PoolEvent}
    (hreplay : replay ledgerStep l log = some l') (hprepare : ∀ ok, .prepare ok ∉ log)
    (hok : ∀ i ok, .construct i ok ∈ log → ok = (zimgPoolConstruct s.priv c.outcome.allocs i).1) :
    HookInv q l'.slots (log.foldl (zimgHeapHook c) s) := by
  have hquiet : ∀ (s : ZimgHeap) (slots : Finset ℕ), HookInv q slots s →
      HookInv q slots ⟨s.priv, s.tmp, s.log ++ []⟩ := by
    intro s slots h
    rw [List.append_nil]
    exact h
  induction log generalizing l s with
  | nil =>
    obtain rfl := Option.some.inj hreplay
    exact h
  | cons e log ih =>
    rw [replay_cons] at hreplay
    obtain ⟨mid, hstep, hrest⟩ := Option.bind_eq_some_iff.mp hreplay
    refine ih ?_ hrest (fun ok hmem => hprepare ok (List.mem_cons_of_mem e hmem))
      fun i ok hmem => ?_
    · cases e with
      | prepare ok => exact absurd List.mem_cons_self (hprepare ok)
      | construct i ok =>
        simp only [ledgerStep, Option.ite_none_left_eq_some, Option.some.injEq] at hstep
        obtain ⟨hi, rfl⟩ := hstep
        exact h.construct hi (hok i ok List.mem_cons_self)
      | release i =>
        simp only [ledgerStep, Option.ite_none_right_eq_some, Option.some.injEq] at hstep
        obtain ⟨-, rfl⟩ := hstep
        exact h.release i
      | spawn i ok =>
        simp only [ledgerStep, Option.ite_none_left_eq_some] at hstep
        obtain ⟨-, hstep⟩ := hstep
        have hslots : mid.slots = l.slots := by
          split at hstep <;> rw [← Option.some.inj hstep]
        rw [hslots]
        exact hquiet s l.slots h
      | join i ok =>
        simp only [ledgerStep, Option.ite_none_left_eq_some, Option.some.injEq] at hstep
        obtain ⟨-, rfl⟩ := hstep
        exact hquiet s l.slots h
      | free =>
        simp only [ledgerStep, Option.ite_none_right_eq_some, Option.some.injEq] at hstep
        obtain ⟨⟨-, hnone⟩, rfl⟩ := hstep
        rw [hnone] at h
        exact hquiet s ∅ h
      | finalize n =>
        obtain rfl := Option.some.inj hstep
        exact hquiet s l.slots h
      | run i =>
        obtain rfl := Option.some.inj hstep
        exact hquiet s l.slots h
      | requestExit ok =>
        obtain rfl := Option.some.inj hstep
        exact hquiet s l.slots h
      | cancel i =>
        obtain rfl := Option.some.inj hstep
        exact hquiet s l.slots h
    · refine (hok i ok (List.mem_cons_of_mem e hmem)).trans ?_
      exact (zimgPoolConstruct_ok_congr (zimgPoolHook_frame c.outcome.allocs s.priv e) _ i).symm

/-! ### The start -/

theorem poolSetup_idle {p : WorkerPool} {o : StartOutcome} (h : (poolSetup p o).log = []) :
    poolSetup p o = ⟨false, p, []⟩ := by
  unfold poolSetup at h ⊢
  split
  · rfl
  rename_i hpref
  rw [if_neg hpref] at h
  dsimp only at h
  repeat' split at h
  all_goals simp at h

theorem poolConstructFrom_flags {o : StartOutcome} {j : ℕ} {ok : Bool} (k i : ℕ) (p : WorkerPool)
    (h : .construct j ok ∈ (poolConstructFrom o k i p).2.2) : ok = o.construct j := by
  have hone (i : ℕ) (p : WorkerPool) (h : .construct j ok ∈ (poolConstructOne p i o).log) :
      ok = o.construct j := by
    unfold poolConstructOne at h
    split at h
    · rename_i hfail
      obtain ⟨rfl, rfl⟩ : j = i ∧ ok = false := by simpa using h
      exact hfail.symm
    · rename_i hgood
      have hflag : j = i ∧ ok = true := by
        repeat' split at h
        all_goals simpa using h
      obtain ⟨rfl, rfl⟩ := hflag
      simpa using (Bool.not_eq_false _).mp hgood
  induction k generalizing i p with
  | zero => exact absurd h List.not_mem_nil
  | succ k ih =>
    unfold poolConstructFrom at h
    dsimp only at h
    split at h
    · exact hone i p h
    · rcases List.mem_append.mp h with h | h
      · exact hone i p h
      · exact ih _ _ h

/-- The events of a start after its setup. -/
theorem workerPoolStart_rest (p : WorkerPool) (o : StartOutcome) :
    ∃ rest, (workerPoolStart p o).log = (poolSetup p o).log ++ rest ∧
      ∀ i ok, .construct i ok ∈ rest → ok = o.construct i := by
  unfold workerPoolStart
  dsimp only
  split
  · exact ⟨[], (List.append_nil _).symm, fun i ok h => absurd h List.not_mem_nil⟩
  split
  · refine ⟨_, List.append_assoc _ _ _, fun i ok h => ?_⟩
    rcases List.mem_append.mp h with h | h
    · exact poolConstructFrom_flags _ _ _ h
    · exact absurd ((poolRetireFailedStart_law _ _ _).winding _ h) (by
        simp [PoolEvent.winding, PoolEvent.quiet])
  · refine ⟨_, List.append_assoc _ _ _, fun i ok h => ?_⟩
    rcases List.mem_append.mp h with h | h
    · exact poolConstructFrom_flags _ _ _ h
    · exact absurd h (by simp)

theorem allocScratchBuffers_workers (p : ZimgPriv) (o : ZimgAllocs) :
    (allocScratchBuffers p o).2.workers = p.workers := by
  simp only [allocScratchBuffers]
  split_ifs <;> rfl

/-- The first event of a start: the scratch, and the storage of its pool. -/
theorem HookInv.prepare {p : WorkerPool} (h : HookInv p slots s) (hpool : s.priv.pool = p)
    (hnone : p.storage = (false, false, false)) (hsrc : ∀ q, s.priv.src.data q = 0)
    (hdst : ∀ q, s.priv.dst.data q = 0) {o : StartOutcome} (hgate : o.gateInit = gateInit c.gate)
    (hworkers : o.allocWorkers = c.outcome.start.allocWorkers)
    (hthreads : o.allocThreads = c.outcome.start.allocThreads) {ok : Bool}
    (hprep : (poolSetup p o).log = [.prepare ok]) :
    HookInv (poolSetup p o).pool slots (zimgHeapHook c s (.prepare ok)) := by
  obtain ⟨t, ht⟩ : ∃ t, t = zimgHeapHook c s (.prepare ok) := ⟨_, rfl⟩
  have hsetup : Transfers (s.HoldsWith p) (t.HoldsWith (poolSetup p o).pool)
      (allocScratchBuffersLog s.priv c.outcome.allocs ++
        if ok then poolSetupLog p c.outcome.start c.gate else []) := by
    have hsame : poolSetupLog p c.outcome.start c.gate = poolSetupLog p o c.gate := by
      unfold poolSetupLog
      rw [hworkers, hthreads]
    have hscratch := allocScratchBuffers_transfers s p c.outcome.allocs hsrc hdst
    obtain ⟨hout, hwith⟩ := ZimgHeap.holdsWith_none
      { s with priv := (allocScratchBuffers s.priv c.outcome.allocs).2 } hnone
    have hpool := poolSetup_transfers hout hnone hgate hprep
    rw [hsame, ht]
    exact (hscratch.append hpool).congr (fun _ => Iff.rfl) (hwith _)
  have hslots : t.priv.workers = s.priv.workers := by
    rw [ht]
    exact allocScratchBuffers_workers s.priv c.outcome.allocs
  have htmp : t.tmp = s.tmp := by
    rw [ht]
    rfl
  have hlog : t.log = s.log ++ (allocScratchBuffersLog s.priv c.outcome.allocs ++
      if ok then poolSetupLog p c.outcome.start c.gate else []) := by
    rw [ht, ← hpool]
    rfl
  rw [← ht]
  refine ⟨?_, fun i hi => ?_, fun i => ?_⟩
  · rw [hlog]
    exact h.account.append hsetup
  · rw [hslots, htmp]
    exact h.vacant i hi
  · rw [hslots]
    exact h.tiles i

/-- A start, whatever fails in it. -/
theorem HookInv.start {p : WorkerPool} (h : HookInv p ∅ s) (hpool : s.priv.pool = p)
    (hfresh : p.Fresh) (hready : p.gateReady = false) (hsrc : ∀ q, s.priv.src.data q = 0)
    (hdst : ∀ q, s.priv.dst.data q = 0) {o : StartOutcome} (hgate : o.gateInit = gateInit c.gate)
    (hworkers : o.allocWorkers = c.outcome.start.allocWorkers)
    (hthreads : o.allocThreads = c.outcome.start.allocThreads)
    (hcons : ∀ i, o.construct i = (zimgPoolConstruct s.priv c.outcome.allocs i).1) :
    HookInv (workerPoolStart p o).pool (Finset.range (workerPoolStart p o).pool.nWorkers)
      ((workerPoolStart p o).log.foldl (zimgHeapHook c) s) := by
  have hreplay := (workerPoolStart_law p o hfresh).replays
  have honce := (workerPoolStart_law p o hfresh).once.prepares
  obtain ⟨rest, hlog, hflags⟩ := workerPoolStart_rest p o
  rcases (poolSetup_law p o hfresh).log with hnone | ⟨ok, hprep⟩
  · have hidle : workerPoolStart p o = ⟨false, p, []⟩ := by
      unfold workerPoolStart
      rw [poolSetup_idle hnone]
      rfl
    rw [hidle, hfresh.nWorkers]
    exact h
  rw [hlog, hprep, List.singleton_append] at hreplay honce ⊢
  have hrest : replay ledgerStep ⟨∅, ∅, none⟩ rest = some (workerPoolStart p o).pool.ledger :=
    hreplay
  have hprepare : ∀ ok, .prepare ok ∉ rest := by
    intro ok' hmem
    have hpos := List.countP_pos_iff.mpr ⟨_, hmem, (rfl : (PoolEvent.prepare ok').isPrepare = true)⟩
    rw [List.countP_cons] at honce
    simp only [PoolEvent.isPrepare, if_true] at honce hpos
    omega
  have hnone : p.storage = (false, false, false) := by
    simp [WorkerPool.storage, hfresh.workers, hfresh.threads, hready]
  have hfirst := h.prepare hpool hnone hsrc hdst hgate hworkers hthreads hprep
  have hrun := hfirst.hooks (c := c) (l := ⟨∅, ∅, none⟩) hrest hprepare fun i ok' hmem => ?_
  · -- the setup has allocated what the pool is left with
    refine ⟨hrun.account.congr (fun _ => Iff.rfl) fun b => ?_, hrun.vacant, hrun.tiles⟩
    exact (ZimgHeap.holdsWith_congr _ (workerPoolStart_storage p o) b).symm
  · refine (hflags i ok' hmem).trans ((hcons i).trans ?_)
    exact (zimgPoolConstruct_ok_congr (allocScratchBuffers_frame s.priv _) _ i).symm

end Hooks

/-! ### Frames -/

/-- What holds between two frames. -/
structure ZimgHeapInv (s : ZimgHeap) : Prop where
  hooks : HookInv s.priv.pool (Finset.range s.priv.pool.nWorkers) s
  /-- Before a start was tried there is nothing but the backend itself. -/
  fresh : s.priv.pool.lazyDone = false → s.priv.pool.lazyFailed = false →
    s.priv.pool.Fresh ∧ s.priv.pool.gateReady = false ∧ (∀ q, s.priv.src.data q = 0) ∧
      ∀ q, s.priv.dst.data q = 0

/-- `p'` is `p` up to its pictures, plan and threads. -/
structure HeapFrame (p p' : ZimgPriv) : Prop where
  pool : StopFrame p.pool p'.pool
  storage : p'.pool.storage = p.pool.storage
  src : p'.src = p.src
  dst : p'.dst = p.dst
  slots : ∀ i, (p'.workers i).graph = (p.workers i).graph ∧
    (p'.workers i).colTiled = (p.workers i).colTiled ∧
    (p'.workers i).tileDst = (p.workers i).tileDst

theorem HeapFrame.trans {p p' p'' : ZimgPriv} (h : HeapFrame p p') (h' : HeapFrame p' p'') :
    HeapFrame p p'' := by
  refine ⟨h.pool.trans h'.pool, h'.storage.trans h.storage, h'.src.trans h.src,
    h'.dst.trans h.dst, fun i => ?_⟩
  obtain ⟨hgraph, htiled, htile⟩ := h.slots i
  obtain ⟨hgraph', htiled', htile'⟩ := h'.slots i
  exact ⟨hgraph'.trans hgraph, htiled'.trans htiled, htile'.trans htile⟩

section Frames

variable {ctx : ScalerCtx} {s : ZimgHeap}

theorem ZimgHeapInv.congr (h : ZimgHeapInv s) {p : ZimgPriv} (hp : HeapFrame s.priv p) :
    ZimgHeapInv { s with priv := p } := by
  have hn : p.pool.nWorkers = s.priv.pool.nWorkers := by rw [hp.pool.rest]
  obtain ⟨hdone, hfailed⟩ := stopFrame_flags hp.pool
  refine ⟨⟨h.hooks.account.congr (fun _ => Iff.rfl) fun b => ?_, fun i hi => ?_, fun i => ?_⟩,
    fun hd hf => ?_⟩
  · refine Iff.trans ?_ (ZimgHeap.holdsWith_congr _ hp.storage b).symm
    cases b with
    | scratch side q =>
      cases side
      · simp only [ZimgHeap.HoldsWith, hp.src]
      · simp only [ZimgHeap.HoldsWith, hp.dst]
    | tile i q => simp only [ZimgHeap.HoldsWith, (hp.slots i).2.2]
    | graph i => simp only [ZimgHeap.HoldsWith, (hp.slots i).1]
    | _ => exact Iff.rfl
  · rw [hn] at hi
    obtain ⟨hgraph, htmp, htile⟩ := h.hooks.vacant i hi
    refine ⟨(hp.slots i).1.trans hgraph, htmp, fun q => ?_⟩
    rw [(hp.slots i).2.2]
    exact htile q
  · rw [(hp.slots i).2.1, (hp.slots i).2.2]
    exact h.hooks.tiles i
  · obtain ⟨hfresh, hready, hsrc, hdst⟩ := h.fresh (hdone ▸ hd) (hfailed ▸ hf)
    simp only [hp.src, hp.dst]
    have hstorage := hp.storage
    simp only [WorkerPool.storage, Prod.mk.injEq] at hstorage
    exact ⟨⟨hstorage.1.trans hfresh.workers, hp.pool.threads hfresh.threads,
      hn.trans hfresh.nWorkers⟩, hstorage.2.2.trans hready, hsrc, hdst⟩

theorem zimgHeapHooks_priv (c : ZimgHeapCall) (log : List PoolEvent) (s : ZimgHeap) :
    (log.foldl (zimgHeapHook c) s).priv = log.foldl (zimgPoolHook c.outcome.allocs) s.priv := by
  induction log generalizing s with
  | nil => rfl
  | cons e log ih => exact ih _

theorem HookInv.withPool {q q' : WorkerPool} {slots : Finset ℕ} (h : HookInv q slots s)
    (hq : q'.storage = q.storage) (p : WorkerPool) :
    HookInv q' slots { s with priv := { s.priv with pool := p } } := by
  refine ⟨h.account.congr (fun _ => Iff.rfl) fun b => ?_, h.vacant, h.tiles⟩
  refine Iff.trans ?_ (ZimgHeap.holdsWith_congr _ hq b).symm
  cases b with
  | scratch side q => cases side <;> exact Iff.rfl
  | _ => exact Iff.rfl

/-- The lazy start. -/
theorem ZimgHeapInv.ensure (h : ZimgHeapInv s) (c : ZimgHeapCall) :
    ZimgHeapInv { (zimgLazyInitLog s.priv c.run).foldl (zimgHeapHook c)
        { s with priv := { s.priv with pool := workerPoolConfig s.priv.plan.nThreads true } } with
      priv := (zimgEnsureLazyInit s.priv c.run).2 } := by
  unfold zimgLazyInitLog zimgEnsureLazyInit
  by_cases hdone : s.priv.pool.lazyDone = true
  · simp only [if_pos hdone]
    exact h
  by_cases hfailed : s.priv.pool.lazyFailed = true
  · simp only [if_neg hdone, if_pos hfailed]
    exact h
  simp only [if_neg hdone, if_neg hfailed]
  obtain ⟨hfresh, hready, hsrc, hdst⟩ := h.fresh (by simpa using hdone) (by simpa using hfailed)
  set p₀ : ZimgPriv := { s.priv with pool := workerPoolConfig s.priv.plan.nThreads true } with hp₀
  set o : StartOutcome := { c.run.start with
    prepare := (allocScratchBuffers p₀ c.run.allocs).1
    construct := fun i => (zimgPoolConstruct p₀ c.run.allocs i).1 } with ho
  have hnone : p₀.pool.storage = s.priv.pool.storage := by
    simp [hp₀, WorkerPool.storage, workerPoolConfig, hfresh.workers, hfresh.threads, hready]
  have hslots : HookInv s.priv.pool ∅ s := by
    have hhooks := h.hooks
    rw [hfresh.nWorkers, Finset.range_zero] at hhooks
    exact hhooks
  have hbefore : HookInv p₀.pool ∅ { s with priv := p₀ } := hslots.withPool hnone p₀.pool
  have hstart := hbefore.start (c := c) (o := o) rfl ⟨rfl, rfl, rfl⟩ rfl hsrc hdst rfl rfl rfl
    fun _ => rfl
  have hpriv := zimgHeapHooks_priv c (workerPoolStart p₀.pool o).log { s with priv := p₀ }
  have hensure : workerPoolEnsureStarted p₀.pool o =
      if (workerPoolStart p₀.pool o).ok = false then
        ⟨false, { (workerPoolStart p₀.pool o).pool with lazyFailed := true },
          (workerPoolStart p₀.pool o).log⟩
      else ⟨true, { (workerPoolStart p₀.pool o).pool with lazyDone := true },
          (workerPoolStart p₀.pool o).log⟩ := rfl
  have hpool : ∀ q : WorkerPool, q.storage = (workerPoolStart p₀.pool o).pool.storage →
      q.nWorkers = (workerPoolStart p₀.pool o).pool.nWorkers →
      (q.lazyDone = true ∨ q.lazyFailed = true) →
      ZimgHeapInv { (workerPoolStart p₀.pool o).log.foldl (zimgHeapHook c) { s with priv := p₀ } with
        priv := { (workerPoolStart p₀.pool o).log.foldl (zimgPoolHook c.run.allocs) p₀ with
          pool := q } } := by
    intro q hstorage hn hstarted
    have hafter := hstart.withPool hstorage q
    rw [hpriv, ← hn] at hafter
    exact ⟨hafter, fun hd hf => by simp_all⟩
  rw [hensure]
  split
  · exact hpool _ rfl rfl (.inr rfl)
  · exact hpool _ rfl rfl (.inl rfl)

theorem HeapFrame.refl (p : ZimgPriv) : HeapFrame p p :=
  ⟨.refl p.pool, rfl, rfl, rfl, fun _ => ⟨rfl, rfl, rfl⟩⟩

theorem prepareFirstFrameIo_heapFrame (ctx : ScalerCtx) (p : ZimgPriv) (srcView dstView : PictureView) :
    HeapFrame p (zimgPrepareFirstFrameIo p ctx srcView dstView) := by
  unfold zimgPrepareFirstFrameIo
  split
  · exact .refl p
  · exact ⟨.refl p.pool, rfl, rfl, rfl, fun _ => ⟨rfl, rfl, rfl⟩⟩

theorem pointWorkers_heapFrame (p : ZimgPriv) (srcView dstView : PictureView) :
    HeapFrame p (pointWorkers p srcView dstView) := by
  rw [pointWorkers_eq]
  refine ⟨.refl p.pool, rfl, rfl, rfl, fun i => ?_⟩
  dsimp only
  split
  · unfold pointWorker setWorkerView
    cases p.plan.srcZerocopy <;> cases p.plan.dstZerocopy <;> exact ⟨rfl, rfl, rfl⟩
  · exact ⟨rfl, rfl, rfl⟩

theorem noteAlignmentDrift_heapFrame (p : ZimgPriv) (o : ZimgOutcome) :
    HeapFrame p (zimgNoteAlignmentDrift p o).priv := by
  unfold zimgNoteAlignmentDrift
  dsimp only
  split
  · exact ⟨workerPoolPoison_frame p.pool o.stop, workerPoolPoison_storage p.pool o.stop, rfl, rfl,
      fun _ => ⟨rfl, rfl, rfl⟩⟩
  · exact ⟨.refl p.pool, rfl, rfl, rfl, fun _ => ⟨rfl, rfl, rfl⟩⟩

theorem dispatchAndWait_heapFrame (p : ZimgPriv) (o : ZimgOutcome) :
    HeapFrame p (zimgDispatchAndWait p o).priv := by
  have hlaw := zimgDispatchAndWait_law p o
  have hdispatch := workerPoolDispatch_storage p.pool o.gateOk o.stop
  have hstorage : (zimgDispatchAndWait p o).priv.pool.storage = p.pool.storage := by
    unfold zimgDispatchAndWait zimgCheckWorkerResults
    dsimp only
    split
    · exact hdispatch
    split
    · exact (workerPoolPoison_storage _ o.stop).trans hdispatch
    · exact hdispatch
  have hrest := hlaw.rest
  have hpool := hlaw.pool
  generalize (zimgDispatchAndWait p o).priv = p' at hrest hpool hstorage ⊢
  rw [hrest]
  exact ⟨hpool, hstorage, rfl, rfl, fun _ => ⟨rfl, rfl, rfl⟩⟩

theorem zimgHeapProcess_idle {c : ZimgHeapCall}
    (hlog : zimgStartLog ctx s.priv c.src c.dst c.run = []) :
    zimgHeapProcess ctx s c =
      { s with priv := (zimgProcess ctx s.priv c.src c.dst c.run).priv } := by
  unfold zimgHeapProcess
  rw [hlog]
  rfl

/-- **One frame** keeps the account. -/
theorem ZimgHeapInv.process (h : ZimgHeapInv s) (ctx : ScalerCtx) (c : ZimgHeapCall) :
    ZimgHeapInv (zimgHeapProcess ctx s c) := by
  have hstarted : ∀ srcView dstView, s.priv.pool.broken = false →
      zimgFrameViewsInit ctx c.src c.dst = some (srcView, dstView) →
      zimgFrameIoSafe (zimgPrepareFirstFrameIo s.priv ctx srcView dstView) srcView dstView = true →
      ∀ p, HeapFrame (zimgEnsureLazyInit (zimgPrepareFirstFrameIo s.priv ctx srcView dstView)
        c.run).2 p →
      ∀ r, zimgProcess ctx s.priv c.src c.dst c.run = r → r.priv = p →
        ZimgHeapInv (zimgHeapProcess ctx s c) := by
    intro srcView dstView hbroken hviews hsafe p hp r hr hpriv
    have hprep := h.congr (prepareFirstFrameIo_heapFrame ctx s.priv srcView dstView)
    have hafter := (hprep.ensure c).congr hp
    have hlog : zimgStartLog ctx s.priv c.src c.dst c.run =
        zimgLazyInitLog (zimgPrepareFirstFrameIo s.priv ctx srcView dstView) c.run := by
      unfold zimgStartLog
      rw [if_neg (by simp [hbroken]), hviews]
      dsimp only
      rw [if_neg (by simp [hsafe])]
    have hstarting : zimgStarting ctx s.priv c.src c.dst =
        { zimgPrepareFirstFrameIo s.priv ctx srcView dstView with
          pool := workerPoolConfig
            (zimgPrepareFirstFrameIo s.priv ctx srcView dstView).plan.nThreads true } := by
      unfold zimgStarting
      rw [hviews]
    unfold zimgHeapProcess
    rw [hlog, hstarting, hr, hpriv]
    exact hafter
  cases zimgProcess_exit ctx s.priv ⟨c.src, c.dst, c.run⟩ with
  | broken hbroken hcall =>
    have hlog : zimgStartLog ctx s.priv c.src c.dst c.run = [] := by
      unfold zimgStartLog
      rw [if_pos hbroken]
    rw [zimgHeapProcess_idle hlog]
    have hcall : zimgProcess ctx s.priv c.src c.dst c.run = _ := hcall
    rw [hcall]
    exact h
  | badViews hbroken hviews hcall =>
    have hlog : zimgStartLog ctx s.priv c.src c.dst c.run = [] := by
      unfold zimgStartLog
      rw [if_neg (by simp [hbroken]), hviews]
    rw [zimgHeapProcess_idle hlog]
    have hcall : zimgProcess ctx s.priv c.src c.dst c.run = _ := hcall
    rw [hcall]
    exact h
  | drift srcView dstView hbroken hviews hdrift hcall =>
    have hlog : zimgStartLog ctx s.priv c.src c.dst c.run = [] := by
      unfold zimgStartLog
      rw [if_neg (by simp [hbroken]), hviews]
      dsimp only
      rw [if_pos hdrift]
    rw [zimgHeapProcess_idle hlog]
    have hcall : zimgProcess ctx s.priv c.src c.dst c.run = _ := hcall
    rw [hcall, (drift_started hdrift).2]
    exact h.congr (noteAlignmentDrift_heapFrame s.priv c.run)
  | startFailed srcView dstView hbroken hviews hsafe hstart hcall =>
    exact hstarted srcView dstView hbroken hviews hsafe _ (.refl _) _ hcall rfl
  | dispatched srcView dstView hbroken hviews hsafe hstart hcall =>
    exact hstarted srcView dstView hbroken hviews hsafe _
      ((pointWorkers_heapFrame _ srcView dstView).trans (dispatchAndWait_heapFrame _ c.run)) _
      hcall rfl

end Frames

/-! ### Open and close -/

section Close

variable {ctx : ScalerCtx} {workerBudget : ℤ} {api alloc : Bool} {s : ZimgHeap}

theorem zimgHeapOpen_inv (h : zimgHeapOpen ctx workerBudget api alloc = some s) :
    ZimgHeapInv s := by
  unfold zimgHeapOpen zimgOpen at h
  split at h
  · simp at h
  split at h
  · simp at h
  dsimp only at h
  split at h
  · simp at h
  obtain rfl := Option.some.inj h
  refine ⟨⟨?_, fun i _ => ⟨rfl, rfl, fun _ => rfl⟩, fun i _ _ => rfl⟩,
    fun _ _ => ⟨⟨rfl, rfl, rfl⟩, rfl, fun _ => rfl, fun _ => rfl⟩⟩
  refine (Transfers.alloc (P := fun _ => False) id).congr (fun _ => Iff.rfl) fun b => ?_
  cases b with
  | scratch side q => cases side <;> simp [ZimgHeap.HoldsWith]
  | _ => simp [ZimgHeap.HoldsWith, PoolHeld, workerPoolConfig, zeroWorker, nullBuffer]

theorem zimgHeapAfter_inv (h : ZimgHeapInv s) (calls : List ZimgHeapCall) :
    ZimgHeapInv (zimgHeapAfter ctx s calls) := by
  induction calls generalizing s with
  | nil => exact h
  | cons c calls ih => exact ih (h.process ctx c)

theorem HookInv.releases {q : WorkerPool} {slots : Finset ℕ} (h : HookInv q slots s)
    (log : List PoolEvent) :
    HookInv q (slots.filter fun i => .release i ∉ log) (log.foldl zimgReleaseHook s) := by
  induction log generalizing s slots with
  | nil => simpa using h
  | cons e log ih =>
    cases e with
    | release i =>
      have hrest := ih (h.release i)
      have hslots : (slots.erase i).filter (fun j => .release j ∉ log) =
          slots.filter fun j => .release j ∉ PoolEvent.release i :: log := by
        ext j
        simp only [Finset.mem_filter, Finset.mem_erase, List.mem_cons, PoolEvent.release.injEq,
          not_or]
        tauto
      rw [hslots] at hrest
      exact hrest
    | _ => simpa [zimgReleaseHook] using ih h

theorem workerPoolDestroy_releases {p : WorkerPool} {o : StopOutcome}
    (hok : (workerPoolDestroy p o).ok = true) {i : ℕ} (hi : i < p.nWorkers) :
    .release i ∈ (workerPoolDestroy p o).log := by
  have hn : (workerPoolStop p o).pool.nWorkers = p.nWorkers := by
    rw [(workerPoolStop_law p o).frame.rest]
  unfold workerPoolDestroy at hok ⊢
  dsimp only at hok ⊢
  split at hok
  · rename_i hbad
    exact absurd (hbad.symm.trans hok) (by decide)
  · rename_i hgood
    rw [if_neg hgood, hn]
    refine List.mem_append_left _ (List.mem_append_right _ ?_)
    exact List.mem_map_of_mem (List.mem_range.mpr hi)

/-- **The close** frees whatever is held, when every thread could be joined. -/
theorem ZimgHeapInv.close (h : ZimgHeapInv s) {o : StopOutcome}
    (hok : (zimgHeapClose s o).1 = true) :
    Transfers (fun _ => False) (fun _ => False) (zimgHeapClose s o).2 := by
  unfold zimgHeapClose at hok ⊢
  dsimp only at hok ⊢
  split at hok
  · exact absurd hok (by simp)
  rename_i hgood
  rw [if_neg hgood]
  have hdown := h.hooks.releases (workerPoolDestroy s.priv.pool o).log
  have hall : (Finset.range s.priv.pool.nWorkers).filter
      (fun i => .release i ∉ (workerPoolDestroy s.priv.pool o).log) = ∅ := by
    refine Finset.filter_false_of_mem fun i hi => ?_
    have hmem := workerPoolDestroy_releases (by simpa using hgood) (Finset.mem_range.mp hi)
    exact not_not.mpr hmem
  rw [hall] at hdown
  generalize (workerPoolDestroy s.priv.pool o).log.foldl zimgReleaseHook s = t at hdown ⊢
  -- what is left: the pool's storage, the scratch and the backend itself
  have hslots : ∀ b, t.HoldsWith s.priv.pool b ↔ PoolHeld s.priv.pool b ∨
      BufferHeld (.scratch .src) t.priv.src (BufferHeld (.scratch .dst) t.priv.dst (· = .priv)) b := by
    intro b
    have hvacant := fun i => hdown.vacant i (Finset.notMem_empty i)
    cases b with
    | scratch side q => cases side <;> simp [ZimgHeap.HoldsWith, PoolHeld, BufferHeld]
    | tile i q => simp [ZimgHeap.HoldsWith, PoolHeld, BufferHeld, (hvacant i).tile]
    | graph i => simp [ZimgHeap.HoldsWith, PoolHeld, BufferHeld, (hvacant i).graph]
    | tmp i => simp [ZimgHeap.HoldsWith, PoolHeld, BufferHeld, (hvacant i).tmp]
    | _ => simp [ZimgHeap.HoldsWith, BufferHeld]
  have hpool := poolFree_transfers (P := BufferHeld (.scratch .src) t.priv.src
      (BufferHeld (.scratch .dst) t.priv.dst (· = .priv)))
    (fun b hb => by cases b <;> simp_all [ZimgBlock.OfPool, BufferHeld]) s.priv.pool
  have hsrc := freePlaneBuffer_transfers (P := BufferHeld (.scratch .dst) t.priv.dst (· = .priv))
    (scratch_injective .src) (by simp [BufferHeld]) t.priv.src
  have hdst := freePlaneBuffer_transfers (P := (· = .priv)) (scratch_injective .dst) (by simp)
    t.priv.dst
  have hpriv : Transfers (· = ZimgBlock.priv) (fun _ => False) [.free .priv] :=
    (Transfers.free (P := (· = ZimgBlock.priv)) rfl).congr (fun _ => Iff.rfl) fun b => by simp
  exact ((((hdown.account.congr (fun _ => Iff.rfl) hslots).append hpool).append hsrc).append
    hdst).append hpriv

theorem workerPoolDestroy_joined (p : WorkerPool) {o : StopOutcome} (h : ∀ i, o.join i = true) :
    (workerPoolDestroy p o).ok = true := by
  unfold workerPoolDestroy
  simp [(workerPoolStop_law p o).joined h]

/-- **Everything zimg allocates is freed once.**  Over any run of frames, whichever
allocations, library calls, threads and barriers fail in it, the log of allocations
and frees is one that a heap accepts, and what it leaves is exactly what the backend has
pointers to.  A close that joins every thread leaves nothing and has freed each block as
often as it was allocated; one that cannot frees nothing at all. -/
theorem zimg_heap_balanced (h : zimgHeapOpen ctx workerBudget api alloc = some s)
    (calls : List ZimgHeapCall) :
    let t := zimgHeapAfter ctx s calls
    (∃ held, replay heapStep ∅ t.log = some held ∧ ∀ b, b ∈ held ↔ t.Holds b) ∧
      ∀ o : StopOutcome,
        ((∀ i, o.join i = true) → (zimgHeapClose t o).1 = true) ∧
        ((zimgHeapClose t o).1 = true → replay heapStep ∅ (zimgHeapClose t o).2 = some ∅ ∧
          ∀ b, (zimgHeapClose t o).2.count (.alloc b) = (zimgHeapClose t o).2.count (.free b)) ∧
        ((zimgHeapClose t o).1 = false → (zimgHeapClose t o).2 = t.log) := by
  intro t
  have hinv : ZimgHeapInv t := zimgHeapAfter_inv (zimgHeapOpen_inv h) calls
  refine ⟨hinv.hooks.account ∅ (by simp), fun o => ⟨fun hjoin => ?_, fun hok => ?_, fun hfail => ?_⟩⟩
  · unfold zimgHeapClose
    simp [workerPoolDestroy_joined t.priv.pool hjoin]
  · obtain ⟨held, hlog, hheld⟩ := hinv.close hok ∅ (by simp)
    obtain rfl : held = ∅ := Finset.eq_empty_of_forall_notMem fun b hb => (hheld b).mp hb
    refine ⟨hlog, fun b => ?_⟩
    have hcount := heap_balance hlog b
    simpa using hcount
  · unfold zimgHeapClose at hfail ⊢
    dsimp only at hfail ⊢
    split at hfail
    · rename_i hbad
      rw [if_pos hbad]
    · exact absurd hfail (by simp)

end Close

/-- Two workers, of which the second gets its graph but no tmp buffer; the frame fails, and
the next one is refused. -/
def halfStarted : ZimgHeapCall where
  src := some sampleSrc
  dst := some sampleDst
  outcome := { smoothOutcome with
    allocs := { smoothOutcome.allocs with tmp := fun i => decide (i = 0) } }
  gate := ⟨true, true, true, true, true, true⟩
  tmpSize := fun _ => 4096

theorem zimg_heap_balanced_halfStarted :
    ∃ s, zimgHeapOpen (sampleCtx 0 0) 2 true true = some s ∧
      let t := zimgHeapAfter (sampleCtx 0 0) s [halfStarted, halfStarted]
      t.log.count (.free (.graph 1)) = 1 ∧ t.log.length = 21 ∧
      (∃ held, replay heapStep ∅ t.log = some held ∧ ∀ b, b ∈ held ↔ t.Holds b) ∧
      ∀ o : StopOutcome,
        ((∀ i, o.join i = true) → (zimgHeapClose t o).1 = true) ∧
        ((zimgHeapClose t o).1 = true → replay heapStep ∅ (zimgHeapClose t o).2 = some ∅ ∧
          ∀ b, (zimgHeapClose t o).2.count (.alloc b) = (zimgHeapClose t o).2.count (.free b)) ∧
        ((zimgHeapClose t o).1 = false → (zimgHeapClose t o).2 = t.log) := by
  have hrun : (zimgHeapOpen (sampleCtx 0 0) 2 true true).map (fun s =>
      ((zimgHeapAfter (sampleCtx 0 0) s [halfStarted, halfStarted]).log.count (.free (.graph 1)),
        (zimgHeapAfter (sampleCtx 0 0) s [halfStarted, halfStarted]).log.length)) =
        some (1, 21) := by
    decide +kernel
  obtain ⟨s, hs, hcount⟩ := Option.map_eq_some_iff.mp hrun
  simp only [Prod.mk.injEq] at hcount
  exact ⟨s, hs, hcount.1, hcount.2, zimg_heap_balanced hs _⟩

end AutoUpscale
