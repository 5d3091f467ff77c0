/-
The threaded unsharp mask equals the single-threaded one, in place or not.

- `usmPoolEnsureStarted_inv`: whatever number of workers comes up, the stripes
  divide the plane among exactly those (`UsmInv`).
- `setPerFrameUpTo_memory`: every worker starts with its own snapshot of the
  rows its neighbours are about to overwrite.
- `threaded_usm_eq_reference`: under every interleaving of the sweeps the
  destination is what the reference computes from the plane before the call.
-/
import AutoUpscale.GridPartition
import AutoUpscale.UsmSweep
import AutoUpscale.PoolLifecycle

namespace AutoUpscale

open DisjointParallel GridPartition PlaneMemory

/-! ### The payload of a started pool -/

/-- Slot `i` of `k` workers. -/
structure SlotReady (p : UsmPool) (k i : ℕ) : Prop where
  scratch : (p.workers i).scratch = addr p.scratch p.width (usmPoolScratchRows * i) 0
  width : (p.workers i).width = p.width
  height : (p.workers i).height = p.height
  yStart : (p.workers i).yStart = i * p.height / k
  yEnd : (p.workers i).yEnd = (i + 1) * p.height / k

/-- What stays of a pool from its creation on. -/
structure SamePlane (p p' : UsmPool) : Prop where
  width : p'.width = p.width
  height : p'.height = p.height
  scratch : p'.scratch = p.scratch
  pref : p'.nThreadsPref = p.nThreadsPref

theorem SamePlane.refl (p : UsmPool) : SamePlane p p := ⟨rfl, rfl, rfl, rfl⟩

theorem SamePlane.trans {p p' p'' : UsmPool} (h : SamePlane p p') (h' : SamePlane p' p'') :
    SamePlane p p'' :=
  ⟨h'.width.trans h.width, h'.height.trans h.height, h'.scratch.trans h.scratch,
    h'.pref.trans h.pref⟩

/-- A pool a caller can hold. -/
structure UsmInv (p : UsmPool) : Prop where
  width : 0 < p.width
  height : 0 < p.height
  pref : p.pool.nPref = p.nThreadsPref
  prefLe : p.nThreadsPref ≤ p.height
  fresh : p.pool.lazyDone = false → p.pool.lazyFailed = false → p.pool.Fresh
  ready : p.pool.lazyDone = true → p.nThreads = p.pool.nWorkers ∧ 1 ≤ p.pool.nWorkers ∧
    (p.pool.nWorkers : ℤ) ≤ p.nThreadsPref ∧ ∀ i < p.pool.nWorkers, SlotReady p p.pool.nWorkers i

theorem usmPoolHook_samePlane (p : UsmPool) (e : PoolEvent) : SamePlane p (usmPoolHook p e) := by
  unfold usmPoolHook
  split <;> exact ⟨rfl, rfl, rfl, rfl⟩

theorem hooks_samePlane (log : List PoolEvent) (p : UsmPool) :
    SamePlane p (log.foldl usmPoolHook p) := by
  induction log generalizing p with
  | nil => exact .refl p
  | cons e log ih => exact (usmPoolHook_samePlane p e).trans (ih _)

/-- A constructed slot has its scratch rows and the plane's size, and keeps them. -/
theorem hooks_slot {log : List PoolEvent} {i : ℕ} (h : .construct i true ∈ log) (p : UsmPool) :
    let q := log.foldl usmPoolHook p
    (q.workers i).scratch = addr p.scratch p.width (usmPoolScratchRows * i) 0 ∧
      (q.workers i).width = p.width ∧ (q.workers i).height = p.height := by
  induction log using List.reverseRecOn with
  | nil => cases h
  | append_singleton log e ih =>
    have hsame := hooks_samePlane log p
    rw [List.foldl_append, List.foldl_cons, List.foldl_nil]
    by_cases he : e = .construct i true
    · subst he
      simp only [usmPoolHook, usmPoolConstructWorker, Function.update_self, hsame.width,
        hsame.height, hsame.scratch, and_true]
      unfold addr
      ring
    · have ih := ih ((List.mem_append.mp h).resolve_right fun hmem =>
        he (List.mem_singleton.mp hmem).symm)
      cases e with
      | construct j ok =>
        cases ok with
        | false => exact ih
        | true =>
          have hij : i ≠ j := fun hij => he (hij ▸ rfl)
          simpa [usmPoolHook, usmPoolConstructWorker, Function.update_of_ne hij] using ih
      | finalize n =>
        simp only [usmPoolHook, usmPoolFinalize, usmPoolRepartitionStripes]
        split <;> exact ih
      | _ => exact ih

/-- Once the plane is divided among `k` workers, their constructed slots are
ready. -/
theorem hooks_finalized {log : List PoolEvent} {k i : ℕ} (h : .construct i true ∈ log)
    (hi : i < k) (p : UsmPool) :
    SlotReady ((log ++ [PoolEvent.finalize k]).foldl usmPoolHook p) k i := by
  have hsame := hooks_samePlane log p
  obtain ⟨hs, hw, hh⟩ := hooks_slot h p
  have hlast : (log ++ [PoolEvent.finalize k]).foldl usmPoolHook p =
      usmPoolFinalize (log.foldl usmPoolHook p) k := by
    rw [List.foldl_append]
    rfl
  constructor
  all_goals
    simp only [hlast, usmPoolFinalize, usmPoolRepartitionStripes, if_pos hi]
  · rw [hs, hsame.scratch, hsame.width]
  · rw [hw, hsame.width]
  · rw [hh, hsame.height]
  · split
    · rename_i hend
      rw [show i + 1 = k by omega, Nat.mul_div_cancel_left _ (by omega)]
    · rfl

theorem usmPoolEnsureStarted_inv {p : UsmPool} (h : UsmInv p) (o : StartOutcome) :
    UsmInv (usmPoolEnsureStarted p o).2 ∧ SamePlane p (usmPoolEnsureStarted p o).2 ∧
      ((usmPoolEnsureStarted p o).1 = true →
        (usmPoolEnsureStarted p o).2.pool.lazyDone = true) := by
  set o' : StartOutcome :=
    { o with prepare := usmPoolAllocScratch p o.prepare, construct := fun _ => true } with ho'
  have heq : usmPoolEnsureStarted p o = ((workerPoolEnsureStarted p.pool o').ok,
      { (workerPoolEnsureStarted p.pool o').log.foldl usmPoolHook p with
        pool := (workerPoolEnsureStarted p.pool o').pool }) := rfl
  rw [heq]
  unfold workerPoolEnsureStarted
  by_cases hdone : p.pool.lazyDone = true
  · rw [if_pos hdone]
    exact ⟨h, .refl p, fun _ => hdone⟩
  rw [if_neg hdone]
  by_cases hfailed : p.pool.lazyFailed = true
  · rw [if_pos hfailed]
    exact ⟨h, .refl p, by simp⟩
  rw [if_neg hfailed]
  have hstart := workerPoolStart_law p.pool o'
    (h.fresh (by simpa using hdone) (by simpa using hfailed))
  have hpref : (workerPoolStart p.pool o').pool.nPref = p.pool.nPref := by rw [hstart.frame]
  have hlazy : (workerPoolStart p.pool o').pool.lazyDone = p.pool.lazyDone := by rw [hstart.frame]
  have hsame := hooks_samePlane (workerPoolStart p.pool o').log p
  have hwidth : 0 < ((workerPoolStart p.pool o').log.foldl usmPoolHook p).width :=
    hsame.width ▸ h.width
  have hheight : 0 < ((workerPoolStart p.pool o').log.foldl usmPoolHook p).height :=
    hsame.height ▸ h.height
  have hnpref : (workerPoolStart p.pool o').pool.nPref =
      ((workerPoolStart p.pool o').log.foldl usmPoolHook p).nThreadsPref := by
    rw [hpref, h.pref, hsame.pref]
  have hple : ((workerPoolStart p.pool o').log.foldl usmPoolHook p).nThreadsPref ≤
      ((workerPoolStart p.pool o').log.foldl usmPoolHook p).height := by
    rw [hsame.pref, hsame.height]
    exact h.prefLe
  have hsame' : ∀ q, SamePlane p
      { (workerPoolStart p.pool o').log.foldl usmPoolHook p with pool := q } := fun q =>
    ⟨hsame.width, hsame.height, hsame.scratch, hsame.pref⟩
  simp only
  split
  · refine ⟨⟨hwidth, hheight, hnpref, hple, fun _ hf => by simp at hf, fun hd => ?_⟩, hsame' _, by simp⟩
    simp only [hlazy] at hd
    exact absurd hd hdone
  · rename_i hok
    have hok : (workerPoolStart p.pool o').ok = true := by simpa using hok
    obtain ⟨-, hpos, hle, -⟩ := hstart.up.mp hok
    obtain ⟨pre, hlog, hbuilt⟩ := hstart.built hok
    refine ⟨⟨hwidth, hheight, hnpref, hple, fun hd => by simp at hd, fun _ => ⟨?_, hpos, ?_, ?_⟩⟩,
      hsame' _, fun _ => rfl⟩
    · simp only [hlog, List.foldl_append, List.foldl_cons, List.foldl_nil, usmPoolHook,
        usmPoolFinalize]
    · exact hle.trans_eq hnpref
    · intro i hi
      have hi : i < (workerPoolStart p.pool o').pool.nWorkers := hi
      have hready := hooks_finalized (hbuilt i hi) hi p
      rw [← hlog] at hready
      obtain ⟨hs, hw, hh, hys, hye⟩ := hready
      exact ⟨hs, hw, hh, hys, hye⟩

/-! ### One frame's snapshots -/

/-- A worker with this frame's state. -/
def UsmWorker.framed (w : UsmWorker) (height dst dstStride src srcStride : ℕ) (amountQ8 : ℤ) :
    UsmWorker :=
  { w with
    src := src, srcStride := srcStride, dst := dst, dstStride := dstStride
    amountQ8 := amountQ8
    haloTop := if dst = src ∧ 0 < w.yStart then some (w.row 3) else none
    haloBot := if dst = src ∧ w.yEnd < height then some (w.row 4) else none }

/-- The snapshots of an in-place worker show the plane of memory `m₀`. -/
structure Snapshot (w : UsmWorker) (height src srcStride : ℕ) (m₀ m : Memory) : Prop where
  top : 0 < w.yStart → ∀ x < w.width, m (w.row 3 + x) = m₀ (addr src srcStride (w.yStart - 1) x)
  bot : w.yEnd < height → ∀ x < w.width, m (w.row 4 + x) = m₀ (addr src srcStride w.yEnd x)

theorem Snapshot.congr {w : UsmWorker} {height src srcStride : ℕ} {m₀ m m' : Memory}
    (h : Snapshot w height src srcStride m₀ m) (hm : ∀ a ∈ w.scratchRect, m' a = m a) :
    Snapshot w height src srcStride m₀ m' :=
  ⟨fun h0 x hx => (hm _ (row_subset 3 (by decide) (add_mem_bytes hx))).trans (h.top h0 x hx),
    fun h0 x hx => (hm _ (row_subset 4 (by decide) (add_mem_bytes hx))).trans (h.bot h0 x hx)⟩

theorem usmWorkerSetPerFrame_snd (m : Memory) (w : UsmWorker) (height dst ds src ss : ℕ)
    (amountQ8 : ℤ) : (usmWorkerSetPerFrame m w height dst ds src ss amountQ8).2 =
      w.framed height dst ds src ss amountQ8 := by
  simp only [usmWorkerSetPerFrame, UsmWorker.framed]
  by_cases hin : dst = src
  · rw [if_pos hin]
    by_cases ht : 0 < w.yStart <;> by_cases hb : w.yEnd < height <;>
      simp [usmWorkerSnapshotHalo, hin, ht, hb, UsmWorker.row, addr]
  · simp [hin]

theorem usmWorkerSetPerFrame_spec (m₀ m : Memory) (w : UsmWorker) {height : ℕ} (dst ds : ℕ)
    {src ss : ℕ} (amountQ8 : ℤ) (hend : w.yStart < w.yEnd) (hle : w.yEnd ≤ height)
    (hsep : Disjoint w.scratchRect (rect src ss w.width height))
    (hm : Set.EqOn m m₀ (rect src ss w.width height)) :
    let r := usmWorkerSetPerFrame m w height dst ds src ss amountQ8
    (∀ a ∉ w.scratchRect, r.1 a = m a) ∧ (dst = src → Snapshot w height src ss m₀ r.1) := by
  have h3 : w.scratch + 3 * w.width = w.row 3 := rfl
  have h4 : w.scratch + 4 * w.width = w.row 4 := rfl
  simp only [usmWorkerSetPerFrame]
  by_cases hin : dst = src
  swap
  · simp only [hin, if_false]
    exact ⟨fun _ _ => trivial, fun h => h.elim⟩
  rw [if_pos hin]
  simp only [usmWorkerSnapshotHalo, h3, h4]
  -- a source row is copied as it was in `m₀`
  have hcopy : ∀ {m' : Memory} {r y x}, Set.EqOn m' m₀ (rect src ss w.width height) →
      y < height → x < w.width →
      memcpy m' (w.row r) (src + y * ss) w.width (w.row r + x) = m₀ (addr src ss y x) :=
    fun hm' hy hx => (fill_add hx).trans (hm' (addr_mem_rect hx hy))
  have hkeep : ∀ {m' : Memory} {r y}, r < usmPoolScratchRows →
      Set.EqOn m' m₀ (rect src ss w.width height) →
      Set.EqOn (memcpy m' (w.row r) (src + y * ss) w.width) m₀ (rect src ss w.width height) :=
    fun hr hm' a ha => (fill_of_notMem fun hmem =>
      Set.disjoint_left.mp hsep (row_subset _ hr hmem) ha).trans (hm' ha)
  have hframe : ∀ {m' : Memory} {r y a}, r < usmPoolScratchRows → a ∉ w.scratchRect →
      memcpy m' (w.row r) (src + y * ss) w.width a = m' a :=
    fun hr ha => fill_of_notMem fun hmem => ha (row_subset _ hr hmem)
  by_cases ht : 0 < w.yStart <;> by_cases hb : w.yEnd < height <;>
    simp only [ht, hb, if_true, if_false]
  · refine ⟨fun a ha => ?_, fun _ => ⟨fun _ x hx => ?_, fun _ x hx => ?_⟩⟩
    · rw [hframe (by decide) ha, hframe (by decide) ha]
    · exact (fill_of_notMem (row_add_notMem (by omega) hx)).trans (hcopy hm (by omega) hx)
    · exact hcopy (hkeep (by decide) hm) hb hx
  · exact ⟨fun a ha => hframe (by decide) ha,
      fun _ => ⟨fun _ x hx => hcopy hm (by omega) hx, fun h => absurd h hb⟩⟩
  · exact ⟨fun a ha => hframe (by decide) ha,
      fun _ => ⟨fun h => absurd h ht, fun _ x hx => hcopy hm hb hx⟩⟩
  · exact ⟨fun _ _ => trivial, fun _ => ⟨fun h => absurd h ht, fun h => absurd h hb⟩⟩

/-- The scratch block of a pool. -/
def UsmPool.scratchRect (p : UsmPool) : Set ℕ :=
  rect p.scratch p.width p.width (usmPoolScratchRows * p.nThreadsPref.toNat)

section Frame

variable {p : UsmPool} {k : ℕ}

theorem SlotReady.scratchRect_eq {i : ℕ} (h : SlotReady p k i) : (p.workers i).scratchRect =
    rect (addr p.scratch p.width (usmPoolScratchRows * i) 0) p.width p.width
      usmPoolScratchRows := by
  rw [UsmWorker.scratchRect, h.scratch, h.width]

theorem SlotReady.scratchRect_subset {i : ℕ} (h : SlotReady p k i)
    (hi : i < p.nThreadsPref.toNat) : (p.workers i).scratchRect ⊆ p.scratchRect := by
  rw [h.scratchRect_eq]
  refine rect_subset_rect ?_
  have := Nat.mul_le_mul_left usmPoolScratchRows hi
  rwa [Nat.mul_succ] at this

theorem SlotReady.scratchRect_disjoint {i j : ℕ} (h : SlotReady p k i) (h' : SlotReady p k j)
    (hij : i ≠ j) : Disjoint (p.workers i).scratchRect (p.workers j).scratchRect := by
  rw [h.scratchRect_eq, h'.scratchRect_eq]
  refine rect_disjoint_rows le_rfl ?_
  unfold usmPoolScratchRows
  omega

/-- The cuts between the stripes of `k` workers. -/
def stripeCuts {k : ℕ} (hk : 0 < k) (height : ℕ) : Cuts k height where
  cut i := i * height / k
  zero := by simp
  last := Nat.mul_div_cancel_left _ hk
  mono hij _ := Nat.div_le_div_right (Nat.mul_le_mul_right _ hij)

theorem SlotReady.mem_band {i : ℕ} (h : SlotReady p k i) (hk : 0 < k) {y : ℕ} :
    y ∈ (stripeCuts hk p.height).band i ↔
      (p.workers i).yStart ≤ y ∧ y < (p.workers i).yEnd := by
  rw [h.yStart, h.yEnd]
  rfl

/-- Every worker has at least one row, all within the plane. -/
theorem SlotReady.stripe {i : ℕ} (h : SlotReady p k i) (hi : i < k) (hk : k ≤ p.height) :
    (p.workers i).yStart < (p.workers i).yEnd ∧ (p.workers i).yEnd ≤ p.height := by
  have hpos : 0 < k := by omega
  rw [h.yStart, h.yEnd]
  constructor
  · calc i * p.height / k < i * p.height / k + 1 := Nat.lt_succ_self _
      _ = (i * p.height + k) / k := (Nat.add_div_right _ hpos).symm
      _ ≤ (i + 1) * p.height / k := Nat.div_le_div_right (by rw [Nat.succ_mul]; omega)
  · exact ((stripeCuts hpos p.height).mono hi le_rfl).trans_eq (stripeCuts hpos p.height).last

/-- `usm_pool_set_per_frame` up to worker `n`. -/
def setPerFrameUpTo (m : Memory) (p : UsmPool) (dst ds src ss : ℕ) (amountQ8 : ℤ) (n : ℕ) :
    Memory × UsmPool :=
  (List.range n).foldl (fun r i =>
    let f := usmWorkerSetPerFrame r.1 (r.2.workers i) r.2.height dst ds src ss amountQ8
    (f.1, { r.2 with workers := Function.update r.2.workers i f.2 })) (m, p)

theorem setPerFrameUpTo_succ (m : Memory) (p : UsmPool) (dst ds src ss : ℕ) (amountQ8 : ℤ)
    (n : ℕ) : setPerFrameUpTo m p dst ds src ss amountQ8 (n + 1) =
      let r := setPerFrameUpTo m p dst ds src ss amountQ8 n
      let f := usmWorkerSetPerFrame r.1 (r.2.workers n) r.2.height dst ds src ss amountQ8
      (f.1, { r.2 with workers := Function.update r.2.workers n f.2 }) := by
  rw [setPerFrameUpTo, List.range_succ, List.foldl_append]
  rfl

/-- The workers' side of it does not depend on the memory. -/
theorem setPerFrameUpTo_pool (m : Memory) (p : UsmPool) (dst ds src ss : ℕ) (amountQ8 : ℤ)
    (n : ℕ) : (setPerFrameUpTo m p dst ds src ss amountQ8 n).2 = { p with
      workers := fun i => if i < n then (p.workers i).framed p.height dst ds src ss amountQ8
        else p.workers i } := by
  induction n with
  | zero => simp [setPerFrameUpTo]
  | succ n ih =>
    rw [setPerFrameUpTo_succ]
    simp only [usmWorkerSetPerFrame_snd, ih]
    congr 1
    funext i
    by_cases hin : i = n
    · subst hin
      simp
    · have hiff : i < n + 1 ↔ i < n := by omega
      simp [Function.update_of_ne hin, hiff]

/-- The snapshots: only scratch is written, and in place every worker gets the
rows around its stripe. -/
theorem setPerFrameUpTo_memory (m : Memory) (dst ds : ℕ) {src ss : ℕ} (amountQ8 : ℤ)
    (hk : k ≤ p.height) (hkp : k ≤ p.nThreadsPref.toNat)
    (hready : ∀ i < k, SlotReady p k i)
    (hsep : Disjoint p.scratchRect (rect src ss p.width p.height)) {n : ℕ} (hn : n ≤ k) :
    (∀ a ∉ p.scratchRect, (setPerFrameUpTo m p dst ds src ss amountQ8 n).1 a = m a) ∧
      (dst = src → ∀ i < n, Snapshot (p.workers i) p.height src ss m
        (setPerFrameUpTo m p dst ds src ss amountQ8 n).1) := by
  induction n with
  | zero => exact ⟨fun _ _ => rfl, by simp⟩
  | succ n ih =>
    obtain ⟨hmem, hsnap⟩ := ih (by omega)
    have hslot := hready n hn
    have hsub := hslot.scratchRect_subset (by omega : n < p.nThreadsPref.toNat)
    rw [setPerFrameUpTo_succ]
    simp only [setPerFrameUpTo_pool, lt_irrefl, if_false]
    set r := (setPerFrameUpTo m p dst ds src ss amountQ8 n).1 with hr
    obtain ⟨hframe, hown⟩ := usmWorkerSetPerFrame_spec m r (p.workers n) dst ds amountQ8
      (hslot.stripe hn hk).1 (hslot.stripe hn hk).2
      (by rw [hslot.width]; exact hsep.mono_left hsub)
      fun a ha => hmem a fun hin => Set.disjoint_left.mp hsep hin (hslot.width ▸ ha)
    refine ⟨fun a ha => (hframe a fun h => ha (hsub h)).trans (hmem a ha), fun hin i hi => ?_⟩
    by_cases hlast : i = n
    · subst hlast
      exact hown hin
    · -- a later snapshot is taken into another worker's rows
      refine (hsnap hin i (by omega)).congr fun a ha => hframe a fun h => ?_
      exact Set.disjoint_left.mp ((hready i (by omega)).scratchRect_disjoint hslot hlast) ha h

/-! ### All workers together -/

section Planes

variable {m m₁ m' : Memory} {dst ds src ss : ℕ} {amountQ8 : ℤ}

/-- What a frame's planes must be: wide enough, one plane or two separate ones,
and clear of the pool's scratch. -/
structure FramePlanes (p : UsmPool) (dst ds src ss : ℕ) : Prop where
  dstStride : p.width ≤ ds
  srcStride : p.width ≤ ss
  overlap : (dst = src ∧ ds = ss) ∨
    Disjoint (rect dst ds p.width p.height) (rect src ss p.width p.height)
  scratchDst : Disjoint p.scratchRect (rect dst ds p.width p.height)
  scratchSrc : Disjoint p.scratchRect (rect src ss p.width p.height)

theorem FramePlanes.sweepGeom (hp : FramePlanes p dst ds src ss) (amountQ8 : ℤ) (hw : 0 < p.width)
    (hk : k ≤ p.height) (hkp : k ≤ p.nThreadsPref.toNat) {i : ℕ} (hi : i < k)
    (h : SlotReady p k i) :
    SweepGeom ((p.workers i).framed p.height dst ds src ss amountQ8) := by
  have hsub := h.scratchRect_subset (hi.trans_le hkp)
  obtain ⟨hlt, hle⟩ := h.stripe hi hk
  have hscratch : ((p.workers i).framed p.height dst ds src ss amountQ8).scratchRect =
      (p.workers i).scratchRect := rfl
  constructor
  · exact h.width ▸ hw
  · exact hlt
  · exact h.height ▸ hle
  · exact h.width ▸ hp.srcStride
  · exact h.width ▸ hp.dstStride
  · simp only [UsmWorker.framed, h.width, h.height]
    exact hp.overlap
  · rw [hscratch]
    simp only [UsmWorker.framed, h.width, h.height]
    exact hp.scratchSrc.mono_left hsub
  · rw [hscratch]
    simp only [UsmWorker.framed, h.width, h.height]
    exact hp.scratchDst.mono_left hsub
  · rfl
  · simp only [UsmWorker.framed, h.height]
    rfl

/-- The sweeps of a frame do not get into each other's way. -/
theorem FramePlanes.separated (hp : FramePlanes p dst ds src ss) (amountQ8 : ℤ) (hw : 0 < p.width)
    (hk : k ≤ p.height) (hkp : k ≤ p.nThreadsPref.toNat)
    (hready : ∀ i < k, SlotReady p k i) :
    Separated RowStep.run (fun i : Fin k =>
        usmWorkerSweep ((p.workers i).framed p.height dst ds src ss amountQ8))
      (fun i => ((p.workers i).framed p.height dst ds src ss amountQ8).srcReads ∪
        (p.workers i).scratchRect)
      (fun i => (p.workers i).scratchRect ∪
        ((p.workers i).framed p.height dst ds src ss amountQ8).stripe) := by
  refine ⟨fun i => usmWorkerSweep_confined
    (hp.sweepGeom amountQ8 hw hk hkp i.isLt (hready i i.isLt)), fun i j hij => ?_⟩
  have hne : (i : ℕ) ≠ j := fun h => hij (Fin.ext h)
  have hi := hready i i.isLt
  have hj := hready j j.isLt
  have hsubi := hi.scratchRect_subset (i.isLt.trans_le hkp)
  have hsubj := hj.scratchRect_subset (j.isLt.trans_le hkp)
  -- the rows of two stripes
  have hrows : Disjoint {y | (p.workers i).yStart ≤ y ∧ y < (p.workers i).yEnd}
      {y | (p.workers j).yStart ≤ y ∧ y < (p.workers j).yEnd} := by
    have hk' : 0 < k := i.pos
    refine Set.disjoint_left.mpr fun y hy hy' => hne ?_
    exact (stripeCuts hk' p.height).band_unique i.isLt j.isLt ((hi.mem_band hk').mpr hy)
      ((hj.mem_band hk').mpr hy')
  have hstripe : ∀ i' < k, ((p.workers i').framed p.height dst ds src ss amountQ8).stripe ⊆
      rect dst ds p.width p.height := by
    intro i' hi'
    have hs := hready i' hi'
    have hle := (hs.stripe hi' hk).2
    refine pixels_mono (fun x hx => ?_) fun y hy => ?_
    · exact hs.width ▸ hx
    · exact lt_of_lt_of_le hy.2 hle
  have hcols : ∀ i' < k, ∀ x ∈ Set.Iio (p.workers i').width, x < ds := fun i' hi' x hx =>
    lt_of_lt_of_le ((hready i' hi').width ▸ hx) hp.dstStride
  have hsrc : ((p.workers j).framed p.height dst ds src ss amountQ8).srcReads ⊆
      rect src ss p.width p.height := by
    unfold UsmWorker.srcReads
    split
    · refine pixels_mono (fun x hx => ?_) fun y hy => ?_
      · exact hj.width ▸ hx
      · exact lt_of_lt_of_le hy.2 (hj.stripe j.isLt hk).2
    · rw [show ((p.workers j).framed p.height dst ds src ss amountQ8).width = p.width from hj.width,
        show ((p.workers j).framed p.height dst ds src ss amountQ8).height = p.height from hj.height]
      exact subset_rfl
  have hstripes : Disjoint ((p.workers i).framed p.height dst ds src ss amountQ8).stripe
      ((p.workers j).framed p.height dst ds src ss amountQ8).stripe :=
    pixels_disjoint (hcols i i.isLt) (hcols j j.isLt) (.inr hrows)
  have hwritesrc : Disjoint ((p.workers i).framed p.height dst ds src ss amountQ8).stripe
      ((p.workers j).framed p.height dst ds src ss amountQ8).srcReads := by
    rcases hp.overlap with ⟨hbase, hstride⟩ | hapart
    · subst hbase hstride
      have hown : ((p.workers j).framed p.height dst ds dst ds amountQ8).srcReads =
          ((p.workers j).framed p.height dst ds dst ds amountQ8).stripe := if_pos rfl
      rw [hown]
      exact hstripes
    · exact hapart.mono (hstripe i i.isLt) hsrc
  have hscratch := hi.scratchRect_disjoint hj hne
  have hstripeScratch := (hp.scratchDst.mono hsubj (hstripe i i.isLt)).symm
  exact .union_left
    (.union_right (.union_right (hp.scratchSrc.mono hsubi hsrc) hscratch)
      (.union_right hscratch (hp.scratchDst.mono hsubi (hstripe j j.isLt))))
    (.union_right (.union_right hwritesrc hstripeScratch)
      (.union_right hstripeScratch hstripes))

/-- Every interleaving of a frame's sweeps sharpens the plane that `m` shows. -/
theorem FramePlanes.interleaving_eq (hp : FramePlanes p dst ds src ss) (hw : 0 < p.width)
    (hpos : 0 < k) (hk : k ≤ p.height) (hkp : k ≤ p.nThreadsPref.toNat)
    (hready : ∀ i < k, SlotReady p k i) (hmem : ∀ a ∉ p.scratchRect, m₁ a = m a)
    (hsnap : dst = src → ∀ i < k, Snapshot (p.workers i) p.height src ss m m₁)
    (hrun : Interleaving RowStep.run (fun i : Fin k =>
      usmWorkerSweep ((p.workers i).framed p.height dst ds src ss amountQ8)) m₁ m') :
    (∀ y < p.height, ∀ x < p.width, m' (addr dst ds y x) =
        usmAt (planeAt m src ss) p.width p.height amountQ8 y x) ∧
      ∀ a ∉ rect dst ds p.width p.height, a ∉ p.scratchRect → m' a = m a := by
  have hsep := hp.separated amountQ8 hw hk hkp hready
  refine ⟨fun y hy x hx => ?_, fun a ha ha' => ?_⟩
  · -- the worker whose stripe holds row `y`
    obtain ⟨i, hi, hband⟩ := (stripeCuts hpos p.height).exists_band hy
    have hslot := hready i hi
    obtain ⟨hle, hlt⟩ := (hslot.mem_band hpos).mp hband
    have hgeom := hp.sweepGeom amountQ8 hw hk hkp hi hslot
    set w := (p.workers i).framed p.height dst ds src ss amountQ8 with hwdef
    have hwidth : w.width = p.width := hslot.width
    have hheight : w.height = p.height := hslot.height
    have hys : w.yStart ≤ y := hle
    have hye : y < w.yEnd := hlt
    -- what the worker reads is the plane before the frame
    have hread : ∀ r, ReadsRow w r → ∀ x < w.width,
        m₁ (usmWorkerSrcRow w r + x) = planeAt m src ss r x := by
      intro r hr x hx
      rcases hgeom.srcRow_cases hr with ⟨hin, h3, heq⟩ | ⟨hin, h4, heq⟩ | ⟨-, heq⟩
      · have hsnap := (hsnap hin i hi).top (show 0 < w.yStart by omega) x hx
        rw [heq]
        refine hsnap.trans ?_
        rw [show (p.workers i).yStart - 1 = r from by
          have : w.yStart = (p.workers i).yStart := rfl
          omega]
        rfl
      · have hlt : w.yEnd < p.height := by
          have := hr.height
          omega
        have hsnap := (hsnap hin i hi).bot hlt x hx
        rw [heq]
        refine hsnap.trans ?_
        rw [show (p.workers i).yEnd = r from h4.symm]
        rfl
      · rw [heq, show addr w.src w.srcStride r 0 + x = addr src ss r x from rfl]
        exact hmem _ fun h => Set.disjoint_left.mp hp.scratchSrc h
          (addr_mem_rect (hwidth ▸ hx) (hheight ▸ hr.height))
    have hmine : addr dst ds y x ∈ (p.workers i).scratchRect ∪ w.stripe :=
      .inr (addr_mem_pixels (show x < w.width from hwidth ▸ hx) ⟨hys, hye⟩)
    -- no other worker writes this byte
    have hsolo := hrun.eq_solo hsep ⟨i, hi⟩ hmine
    have hval := usmWorkerSweep_eq hgeom hread hys hye (hwidth ▸ hx)
    rw [hwidth, hheight] at hval
    exact hsolo.trans hval
  · rw [hrun.frame hsep fun i hmem => ?_]
    · exact hmem a ha'
    · have hslot := hready i i.isLt
      rcases hmem with h | h
      · exact ha' (hslot.scratchRect_subset (i.isLt.trans_le hkp) h)
      · refine ha (pixels_mono (fun x hx => ?_) (fun r hr => ?_) h)
        · exact hslot.width ▸ hx
        · exact lt_of_lt_of_le hr.2 (hslot.stripe i.isLt hk).2

end Planes

end Frame

/-! ### Every pool a caller can hold -/

theorem usmPoolResolveThreads_le {nThreads height stripeMin : ℤ} (hh : 0 < height) :
    usmPoolResolveThreads nThreads height stripeMin ≤ height := by
  have hdiv : ∀ s : ℤ, 0 < s → height / s ≤ height := fun s hs =>
    Int.ediv_le_self _ hh.le
  unfold usmPoolResolveThreads
  simp only
  generalize hs : (if stripeMin ≤ 0 then usmStripeMinRows else stripeMin) = s
  have hpos : 0 < s := by
    rw [← hs]
    unfold usmStripeMinRows
    split <;> omega
  have := hdiv s hpos
  split_ifs <;> omega

theorem usmPoolSetPerFrame_pool (m : Memory) (p : UsmPool) (dst ds src ss : ℕ) (amountQ8 : ℤ) :
    (usmPoolSetPerFrame m p dst ds src ss amountQ8).2 = { p with
      workers := fun i => if i < p.nThreads.toNat then
        (p.workers i).framed p.height dst ds src ss amountQ8 else p.workers i } :=
  setPerFrameUpTo_pool m p dst ds src ss amountQ8 p.nThreads.toNat

/-- Taking a frame's state leaves the slots ready, and so does a poisoned gate. -/
theorem UsmInv.setPerFrame {p : UsmPool} (h : UsmInv p) (hdone : p.pool.lazyDone = true)
    (m : Memory) (dst ds src ss : ℕ) (amountQ8 : ℤ) {q : WorkerPool}
    (hq : StopFrame p.pool q) :
    UsmInv { (usmPoolSetPerFrame m p dst ds src ss amountQ8).2 with pool := q } := by
  have hqpref : q.nPref = p.pool.nPref := by rw [hq.rest]
  have hqdone : q.lazyDone = true := by rw [hq.rest]; exact hdone
  have hqn : q.nWorkers = p.pool.nWorkers := by rw [hq.rest]
  obtain ⟨hn, hpos, hle, hready⟩ := h.ready hdone
  rw [usmPoolSetPerFrame_pool]
  refine ⟨h.width, h.height, hqpref.trans h.pref, h.prefLe, fun hd => ?_, fun _ => ?_⟩
  · exact absurd (hqdone.symm.trans hd) (by decide)
  · simp only [hqn]
    refine ⟨hn, hpos, hle, fun i hi => ?_⟩
    have hi' : i < p.nThreads.toNat := by omega
    obtain ⟨hs, hw, hh, hys, hye⟩ := hready i hi
    constructor <;> simp only [if_pos hi'] <;> assumption

/-- Every call keeps the invariant and the plane the pool was made for. -/
theorem usmPoolApply_inv {p : UsmPool} (h : UsmInv p) (c : UsmCall) (o : UsmOutcome)
    (m : Memory) :
    UsmInv (usmPoolApply p c o m).pool ∧ SamePlane p (usmPoolApply p c o m).pool := by
  unfold usmPoolApply
  split
  swap
  · exact ⟨h, .refl p⟩
  split
  · exact ⟨h, .refl p⟩
  split
  · exact ⟨h, .refl p⟩
  simp only
  split
  · exact ⟨h, .refl p⟩
  obtain ⟨hinv, hsame, hdone⟩ := usmPoolEnsureStarted_inv h o.start
  split
  · exact ⟨hinv, hsame⟩
  · rename_i hok
    have hdone := hdone (by simpa using hok)
    refine ⟨hinv.setPerFrame hdone m _ _ _ _ _ ?_, ?_⟩
    · have hpool : ∀ {dst ds src ss : ℕ} {amountQ8 : ℤ},
          (usmPoolSetPerFrame m (usmPoolEnsureStarted p o.start).2 dst ds src ss amountQ8).2.pool =
            (usmPoolEnsureStarted p o.start).2.pool := fun {_ _ _ _ _} => by
        rw [usmPoolSetPerFrame_pool]
      rw [← hpool]
      exact workerPoolDispatch_frame _ _ _
    · rw [usmPoolSetPerFrame_pool]
      exact ⟨hsame.width, hsame.height, hsame.scratch, hsame.pref⟩

theorem usmReachable_inv {nThreads width height stripeMin : ℤ} {p : UsmPool}
    (h : UsmReachable nThreads width height stripeMin p) :
    UsmInv p ∧ (p.width : ℤ) = width ∧ (p.height : ℤ) = height := by
  induction h with
  | @create p alloc scratch h =>
    unfold usmPoolCreate at h
    split at h
    · cases h
    · rename_i hargs
      simp only at h
      split at h
      · cases h
      · cases h
        have hw : 0 < width := by omega
        have hh : 0 < height := by omega
        have hcast : ((height.toNat : ℕ) : ℤ) = height := by omega
        refine ⟨⟨?_, ?_, rfl, ?_, fun _ _ => ⟨rfl, rfl, rfl⟩, fun hd => by cases hd⟩, ?_, hcast⟩
        · show 0 < width.toNat
          omega
        · show 0 < height.toNat
          omega
        · show usmPoolResolveThreads nThreads height stripeMin ≤ (height.toNat : ℤ)
          rw [hcast]
          exact usmPoolResolveThreads_le hh
        · show ((width.toNat : ℕ) : ℤ) = width
          omega
  | apply h c o m ih =>
    obtain ⟨hinv, hw, hh⟩ := ih
    obtain ⟨hinv', hsame⟩ := usmPoolApply_inv hinv c o m
    exact ⟨hinv', by rw [hsame.width, hw], by rw [hsame.height, hh]⟩

/-! ### One call -/

/-- What a call that reports success has done. -/
theorem usmPoolApply_ok {p : UsmPool} {c : UsmCall} {o : UsmOutcome} {m : Memory} {dst src : ℕ}
    (hdst : c.dst = some dst) (hsrc : c.src = some src)
    (hok : (usmPoolApply p c o m).status = .ok) :
    usmPoolValidateArgs p c = true ∧
      ((clampAmountQ8 c.amountQ8 = 0 ∧ usmPoolApply p c o m =
          ⟨.ok, p, applyIdentity m dst c.dstStride src c.srcStride p.width p.height, false⟩) ∨
        (usmPoolEnsureStarted p o.start).1 = true ∧ clampAmountQ8 c.amountQ8 ≠ 0 ∧
          ∃ q, StopFrame (usmPoolEnsureStarted p o.start).2.pool q ∧
            let f := usmPoolSetPerFrame m (usmPoolEnsureStarted p o.start).2 dst
              c.dstStride.toNat src c.srcStride.toNat (clampAmountQ8 c.amountQ8)
            usmPoolApply p c o m = ⟨.ok, { f.2 with pool := q }, f.1, true⟩) := by
  by_cases hvalid : usmPoolValidateArgs p c = true
  swap
  · simp [usmPoolApply, hdst, hsrc, hvalid] at hok
  by_cases hbroken : p.pool.broken = true
  · simp [usmPoolApply, hdst, hsrc, hvalid, hbroken] at hok
  refine ⟨hvalid, ?_⟩
  simp only [usmPoolApply, hdst, hsrc, hvalid, hbroken, if_false, Bool.true_eq_false,
    Bool.false_eq_true] at hok ⊢
  by_cases hzero : clampAmountQ8 c.amountQ8 = 0
  · exact .inl ⟨hzero, if_pos hzero⟩
  rw [if_neg hzero] at hok ⊢
  by_cases hstart : (usmPoolEnsureStarted p o.start).1 = true
  swap
  · simp [hstart] at hok
  simp only [hstart, Bool.true_eq_false, if_false] at hok ⊢
  have hframe := workerPoolDispatch_frame (usmPoolSetPerFrame m (usmPoolEnsureStarted p o.start).2
    dst c.dstStride.toNat src c.srcStride.toNat (clampAmountQ8 c.amountQ8)).2.pool o.gateOk o.stop
  rw [show (usmPoolSetPerFrame m (usmPoolEnsureStarted p o.start).2 dst c.dstStride.toNat src
    c.srcStride.toNat (clampAmountQ8 c.amountQ8)).2.pool = (usmPoolEnsureStarted p o.start).2.pool
    from by rw [usmPoolSetPerFrame_pool]] at hframe hok ⊢
  split at hok
  · rename_i hd
    refine .inr ⟨trivial, hzero, _, hframe, ?_⟩
    rw [if_pos hd]
  · cases hok

theorem usmPoolValidateArgs_spec {p : UsmPool} {c : UsmCall} {dst src : ℕ}
    (hdst : c.dst = some dst) (hsrc : c.src = some src)
    (h : usmPoolValidateArgs p c = true) :
    (p.width : ℤ) ≤ c.dstStride ∧ (p.width : ℤ) ≤ c.srcStride ∧
      (dst = src → c.dstStride = c.srcStride) := by
  unfold usmPoolValidateArgs at h
  split at h
  · cases h
  rename_i hargs
  split at h
  · cases h
  rename_i hsame
  rw [hdst, hsrc] at hargs
  unfold usmPlaneArgsOk at hargs
  rw [if_neg (by simp)] at hargs
  split at hargs
  · exact absurd rfl hargs
  · refine ⟨by omega, by omega, fun heq => ?_⟩
    by_contra hne
    exact hsame ⟨by rw [hdst, hsrc, heq], hne⟩

theorem SamePlane.scratchRect {p p' : UsmPool} (h : SamePlane p p') :
    p'.scratchRect = p.scratchRect := by
  rw [UsmPool.scratchRect, h.scratch, h.width, h.pref, UsmPool.scratchRect]

theorem FramePlanes.congr {p p' : UsmPool} {dst ds src ss : ℕ} (hp : FramePlanes p dst ds src ss)
    (h : SamePlane p p') : FramePlanes p' dst ds src ss := by
  obtain ⟨hd, hs, hover, hsd, hss⟩ := hp
  constructor
  · rwa [h.width]
  · rwa [h.width]
  · rwa [h.width, h.height]
  · rwa [h.scratchRect, h.width, h.height]
  · rwa [h.scratchRect, h.width, h.height]

/-- The output of a call that reports success, whatever the schedule. -/
theorem usmPoolApply_eq {p : UsmPool} (h : UsmInv p) {c : UsmCall} {o : UsmOutcome}
    {m m' : Memory} {dst src : ℕ} (hdst : c.dst = some dst) (hsrc : c.src = some src)
    (hp : FramePlanes p dst c.dstStride.toNat src c.srcStride.toNat)
    (hok : (usmPoolApply p c o m).status = .ok) (hends : (usmPoolApply p c o m).Ends m') :
    (∀ y < p.height, ∀ x < p.width, m' (addr dst c.dstStride.toNat y x) =
        usmAt (planeAt m src c.srcStride.toNat) p.width p.height (clampAmountQ8 c.amountQ8) y x) ∧
      ∀ a ∉ rect dst c.dstStride.toNat p.width p.height, a ∉ p.scratchRect → m' a = m a := by
  obtain ⟨hvalid, hcase⟩ := usmPoolApply_ok hdst hsrc hok
  obtain ⟨hd, hs, -⟩ := usmPoolValidateArgs_spec hdst hsrc hvalid
  rcases hcase with ⟨hzero, heq⟩ | ⟨hstart, -, q, hq, heq⟩
  · -- no amount: the plane is copied
    rw [heq] at hends
    simp only [UsmApplied.Ends, if_true] at hends
    rw [← Int.toNat_of_nonneg (a := c.dstStride) (by omega),
      ← Int.toNat_of_nonneg (a := c.srcStride) (by omega)] at hends
    obtain ⟨hval, hframe⟩ := applyIdentity_spec (m := m) hp.dstStride hp.srcStride hp.overlap
    rw [hends]
    refine ⟨fun y hy x hx => (hval y hy x hx).trans ?_, fun a ha _ => hframe a ha⟩
    rw [hzero, usmAt, combinePixel_zero]
    rfl
  · obtain ⟨hinv, hsame, hdone⟩ := usmPoolEnsureStarted_inv h o.start
    have hp₁ := hp.congr hsame
    set p₁ := (usmPoolEnsureStarted p o.start).2
    obtain ⟨hn, hpos, hle, hready⟩ := hinv.ready (hdone hstart)
    have hprefLe := hinv.prefLe
    have hk : p₁.pool.nWorkers ≤ p₁.height := by omega
    have hkp : p₁.pool.nWorkers ≤ p₁.nThreadsPref.toNat := by omega
    obtain ⟨hmem, hsnap⟩ := setPerFrameUpTo_memory m dst c.dstStride.toNat
      (clampAmountQ8 c.amountQ8) hk hkp hready
      hp₁.scratchSrc le_rfl
    have hframes : usmPoolSetPerFrame m p₁ dst c.dstStride.toNat src c.srcStride.toNat
        (clampAmountQ8 c.amountQ8) = setPerFrameUpTo m p₁ dst c.dstStride.toNat src
          c.srcStride.toNat (clampAmountQ8 c.amountQ8) p₁.pool.nWorkers := by
      rw [show p₁.pool.nWorkers = p₁.nThreads.toNat by omega]
      rfl
    rw [heq, hframes] at hends
    have hrun := hends rfl
    simp only [setPerFrameUpTo_pool] at hrun
    rw [show q.nWorkers = p₁.pool.nWorkers by rw [hq.rest]] at hrun
    simp only [Fin.is_lt, if_true] at hrun
    have hres := hp₁.interleaving_eq hinv.width hpos hk hkp hready hmem hsnap hrun
    rwa [hsame.width, hsame.height, hsame.scratchRect] at hres

/-- **A threaded sharpening equals the reference, in place or not.**

`ref`, `refStride` and `workspace` are the separate buffers the reference is
given; `m` is the memory before the call and `m'` after it, under any schedule of
the workers that came up. -/
theorem threaded_usm_eq_reference {nThreads width height stripeMinRows : ℤ} {p : UsmPool}
    (hp : UsmReachable nThreads width height stripeMinRows p)
    {c : UsmCall} {o : UsmOutcome} {m m' : Memory} {dst src : ℕ}
    (hdst : c.dst = some dst) (hsrc : c.src = some src)
    (hoverlap : dst = src ∨ Disjoint (rect dst c.dstStride.toNat width.toNat height.toNat)
      (rect src c.srcStride.toNat width.toNat height.toNat))
    (hscratchDst : Disjoint p.scratchRect
      (rect dst c.dstStride.toNat width.toNat height.toNat))
    (hscratchSrc : Disjoint p.scratchRect
      (rect src c.srcStride.toNat width.toNat height.toNat))
    {ref refStride workspace : ℕ} (hrefStride : width.toNat ≤ refStride)
    (hrefSrc : Disjoint (rect ref refStride width.toNat height.toNat)
      (rect src c.srcStride.toNat width.toNat height.toNat))
    (hrefWork : Disjoint (rect ref refStride width.toNat height.toNat)
      (rect workspace width.toNat width.toNat height.toNat))
    (hworkSrc : Disjoint (rect workspace width.toNat width.toNat height.toNat)
      (rect src c.srcStride.toNat width.toNat height.toNat))
    (hok : (usmPoolApply p c o m).status = .ok) (hends : (usmPoolApply p c o m).Ends m') :
    let r := applyPlane m (some ⟨some ref, refStride, some src, c.srcStride, width, height⟩)
      c.amountQ8 (some workspace)
    r.1 = true ∧
      (∀ y < height.toNat, ∀ x < width.toNat,
        m' (addr dst c.dstStride.toNat y x) = r.2 (addr ref refStride y x)) ∧
      (∀ y < height.toNat, ∀ x, width.toNat ≤ x → x < c.dstStride.toNat →
        addr dst c.dstStride.toNat y x ∉ p.scratchRect →
        m' (addr dst c.dstStride.toNat y x) = m (addr dst c.dstStride.toNat y x)) ∧
      ∀ a ∉ rect dst c.dstStride.toNat width.toNat height.toNat, a ∉ p.scratchRect →
        m' a = m a := by
  obtain ⟨hinv, hw, hh⟩ := usmReachable_inv hp
  obtain ⟨hvalid, -⟩ := usmPoolApply_ok hdst hsrc hok
  obtain ⟨hd, hs, hstride⟩ := usmPoolValidateArgs_spec hdst hsrc hvalid
  subst hw hh
  simp only [Int.toNat_natCast] at *
  have hplanes : FramePlanes p dst c.dstStride.toNat src c.srcStride.toNat :=
    ⟨by omega, by omega, hoverlap.imp_left fun heq => ⟨heq, by rw [hstride heq]⟩,
      hscratchDst, hscratchSrc⟩
  obtain ⟨hval, hframe⟩ := usmPoolApply_eq hinv hdst hsrc hplanes hok hends
  obtain ⟨href, hrefVal⟩ := applyPlane_eq m c.amountQ8 hinv.width hinv.height
    hrefStride hplanes.srcStride (.inr hrefSrc) hrefWork hworkSrc
  rw [Int.toNat_of_nonneg (a := c.srcStride) (by omega)] at href hrefVal
  refine ⟨href, fun y hy x hx => ?_, fun y _ x hx hxd hscratch => hframe _ ?_ hscratch, hframe⟩
  · rw [hval y hy x hx, hrefVal y hy x hx]
  · -- padding is in no row of pixels
    rintro ⟨y', -, x', hx', heq⟩
    have hx' : x' < p.width := hx'
    have := (addr_inj hxd (hx'.trans_le hplanes.dstStride) heq).2
    omega

/-- Two workers sharpen a 2x2 plane in place. -/
theorem threaded_usm_eq_reference_two :
    ∃ p m', UsmReachable 2 2 2 1 p ∧
      (usmPoolApply p ⟨some 0, 3, some 0, 3, 128⟩
        ⟨⟨true, true, true, true, fun _ => true, fun _ => true, ⟨true, fun _ => true⟩⟩, true,
          ⟨true, fun _ => true⟩⟩ UInt8.ofNat).Ends m' ∧
      ∀ y < 2, ∀ x < 2, m' (addr 0 3 y x) =
        (applyPlane UInt8.ofNat (some ⟨some 200, 2, some 0, 3, 2, 2⟩) 128 (some 300)).2
          (addr 200 2 y x) := by
  set p : UsmPool :=
    { nThreads := 2, nThreadsPref := 2, width := 2, height := 2, scratch := 100
      workers := fun _ => default, pool := workerPoolConfig 2 false } with hp
  have hreach : UsmReachable 2 2 2 1 p := .create (show usmPoolCreate 2 2 2 1 true 100 = some p from rfl)
  set r := usmPoolApply p ⟨some 0, 3, some 0, 3, 128⟩
    ⟨⟨true, true, true, true, fun _ => true, fun _ => true, ⟨true, fun _ => true⟩⟩, true,
      ⟨true, fun _ => true⟩⟩ UInt8.ofNat with hr
  have hok : r.status = .ok := by
    rw [hr, hp]
    decide
  obtain ⟨m', hrun⟩ := exists_interleaving RowStep.run
    (fun i : Fin r.pool.pool.nWorkers => usmWorkerSweep (r.pool.workers i)) r.memory
  have hends : r.Ends m' := by
    rw [UsmApplied.Ends, if_neg (by decide)]
    exact fun _ => hrun
  refine ⟨p, m', hreach, hends, ?_⟩
  exact (threaded_usm_eq_reference hreach rfl rfl (.inl rfl)
    (rect_disjoint_of_le (by decide) (by decide)).symm
    (rect_disjoint_of_le (by decide) (by decide)).symm (by decide : (2 : ℤ).toNat ≤ 2)
    (rect_disjoint_of_le (by decide) (by decide)).symm
    (rect_disjoint_of_le (by decide) (by decide))
    (rect_disjoint_of_le (by decide) (by decide)).symm hok hends).2.1

end AutoUpscale
