/-
What holds of every zimg backend a caller can hold.

`CellReady` describes a constructed cell.  A start constructs all cells of the
plan or fails (`zimgEnsureLazyInit_inv`), and no frame afterwards changes them
beyond the picture planes they point at.

- `zimgReachable_inv`: the invariant of every reachable backend.
- `zimgProcess_ok`: what a frame that reports success has dispatched.
-/
import AutoUpscale.PoolLifecycle
import AutoUpscale.ZimgBackend

namespace AutoUpscale

open DisjointParallel PlaneMemory

/-! ### Constructed cells -/

/-- Worker `w` of backend `p` is set up for the cell with bounds `c`. -/
structure CellReady (p : ZimgPriv) (c : CellBounds) (w : StripeWorker) : Prop where
  graph : w.graph = some (buildStripeGraph p.geom.srcW c p.subW p.subH p.algo)
  cell : w.cell = workerCellGeom c p.subW p.subH
  colTiled : w.colTiled = p.plan.colTiled
  copyIn : w.copyIn = !p.plan.srcZerocopy
  copyOut : w.copyOut = !p.plan.dstZerocopy
  src : p.plan.srcZerocopy = false → w.src = planeBufferView p.src
  dst : p.plan.colTiled = false → p.plan.dstZerocopy = false → w.dst = planeBufferView p.dst
  tile : p.plan.colTiled = true → w.dst = planeBufferView w.tileDst
  tileLayout : p.plan.colTiled = true → w.tileDst.layout =
    initPlaneLayout (c.cols.dstEnd - c.cols.dstStart) (c.rows.dstEnd - c.rows.dstStart)
      p.subW p.subH

/-- What the pool's hooks leave alone. -/
structure HookFrame (p p' : ZimgPriv) : Prop where
  pool : p'.pool = p.pool
  swap : p'.yv12SwapUv = p.yv12SwapUv
  subW : p'.subW = p.subW
  subH : p'.subH = p.subH
  plan : p'.plan = p.plan
  budget : p'.workerBudget = p.workerBudget
  srcLayout : p'.src.layout = p.src.layout
  dstLayout : p'.dst.layout = p.dst.layout
  geom : p'.geom = p.geom
  algo : p'.algo = p.algo

theorem HookFrame.refl (p : ZimgPriv) : HookFrame p p :=
  ⟨rfl, rfl, rfl, rfl, rfl, rfl, rfl, rfl, rfl, rfl⟩

theorem HookFrame.trans {p p' p'' : ZimgPriv} (h : HookFrame p p') (h' : HookFrame p' p'') :
    HookFrame p p'' :=
  ⟨h'.pool.trans h.pool, h'.swap.trans h.swap, h'.subW.trans h.subW, h'.subH.trans h.subH,
    h'.plan.trans h.plan, h'.budget.trans h.budget, h'.srcLayout.trans h.srcLayout,
    h'.dstLayout.trans h.dstLayout, h'.geom.trans h.geom, h'.algo.trans h.algo⟩

theorem allocScratchBuffers_frame (p : ZimgPriv) (o : ZimgAllocs) :
    HookFrame p (allocScratchBuffers p o).2 := by
  unfold allocScratchBuffers
  have hsrc : (if p.plan.srcZerocopy = false then allocPlaneBuffer p.src o.src
      else (true, p.src)).2.layout = p.src.layout := by
    split
    · exact allocPlaneBuffer_layout _ _
    · rfl
  have hdst : (if p.plan.dstZerocopy = false ∧ p.plan.colTiled = false then
      allocPlaneBuffer p.dst o.dst else (true, p.dst)).2.layout = p.dst.layout := by
    split
    · exact allocPlaneBuffer_layout _ _
    · rfl
  simp only
  generalize (if p.plan.srcZerocopy = false then allocPlaneBuffer p.src o.src
    else (true, p.src)) = s at hsrc ⊢
  generalize (if p.plan.dstZerocopy = false ∧ p.plan.colTiled = false then
    allocPlaneBuffer p.dst o.dst else (true, p.dst)) = d at hdst ⊢
  split
  · exact ⟨rfl, rfl, rfl, rfl, rfl, rfl, hsrc, rfl, rfl, rfl⟩
  · exact ⟨rfl, rfl, rfl, rfl, rfl, rfl, hsrc, hdst, rfl, rfl⟩

/-- A hook of one slot touches that slot only. -/
structure SlotFrame (p p' : ZimgPriv) (i : ℕ) : Prop where
  frame : HookFrame p p'
  src : p'.src = p.src
  dst : p'.dst = p.dst
  other : ∀ j, j ≠ i → p'.workers j = p.workers j

theorem zimgPoolRelease_frame (p : ZimgPriv) (i : ℕ) : SlotFrame p (zimgPoolRelease p i) i :=
  ⟨⟨rfl, rfl, rfl, rfl, rfl, rfl, rfl, rfl, rfl, rfl⟩, rfl, rfl,
    fun _ hj => Function.update_of_ne hj _ _⟩

theorem zimgPoolConstruct_frame (p : ZimgPriv) (o : ZimgAllocs) (i : ℕ) :
    SlotFrame p (zimgPoolConstruct p o i).2 i := by
  unfold zimgPoolConstruct
  split
  · exact ⟨.refl p, rfl, rfl, fun _ _ => rfl⟩
  simp only
  split
  · exact ⟨⟨rfl, rfl, rfl, rfl, rfl, rfl, rfl, rfl, rfl, rfl⟩, rfl, rfl, fun j hj => by
      simp [zimgPoolRelease, Function.update_of_ne hj]⟩
  · exact ⟨⟨rfl, rfl, rfl, rfl, rfl, rfl, rfl, rfl, rfl, rfl⟩, rfl, rfl,
      fun j hj => Function.update_of_ne hj _ _⟩

theorem zimgPoolHook_frame (o : ZimgAllocs) (p : ZimgPriv) (e : PoolEvent) :
    HookFrame p (zimgPoolHook o p e) := by
  cases e with
  | prepare ok => exact allocScratchBuffers_frame p o
  | construct i ok => exact (zimgPoolConstruct_frame p o i).frame
  | release i => exact (zimgPoolRelease_frame p i).frame
  | _ => exact .refl p

theorem zimgHooks_frame (o : ZimgAllocs) (log : List PoolEvent) (p : ZimgPriv) :
    HookFrame p (log.foldl (zimgPoolHook o) p) := by
  induction log generalizing p with
  | nil => exact .refl p
  | cons e log ih => exact (zimgPoolHook_frame o p e).trans (ih _)

theorem buildWorkerGraphAndTmp_ok {w : StripeWorker} {p : ZimgPriv} {c : CellBounds}
    {graph tmp : Bool} (h : (buildWorkerGraphAndTmp w p c graph tmp).1 = true) :
    (buildWorkerGraphAndTmp w p c graph tmp).2 =
      { w with graph := some (buildStripeGraph p.geom.srcW c p.subW p.subH p.algo) } := by
  unfold buildWorkerGraphAndTmp at h ⊢
  cases graph
  · simp at h
  · rfl

theorem allocTileDst_ok {w : StripeWorker} {p : ZimgPriv} {dstStripeH : ℤ}
    {alloc : Plane → Option ℕ} (h : (allocTileDst w p dstStripeH alloc).1 = true) :
    ∃ t : PlaneBuffer, t.layout = initPlaneLayout w.cell.dstW dstStripeH p.subW p.subH ∧
      (allocTileDst w p dstStripeH alloc).2 =
        { w with tileDst := t, dst := planeBufferView t } := by
  unfold allocTileDst at h ⊢
  simp only at h ⊢
  split at h
  · simp at h
  · rename_i ht
    rw [if_neg ht]
    exact ⟨_, allocPlaneBuffer_layout _ _, rfl⟩

/-- A cell that `init_stripe_worker` accepts is ready. -/
theorem initStripeWorker_ready {w : StripeWorker} {p : ZimgPriv} {c : CellBounds}
    {alloc : Plane → Option ℕ} {graph tmp : Bool}
    (h : (initStripeWorker w p c alloc graph tmp).1 = true) :
    CellReady p c (initStripeWorker w p c alloc graph tmp).2 := by
  unfold initStripeWorker at h ⊢
  simp only at h ⊢
  cases htiled : p.plan.colTiled
  · simp only [htiled, Bool.false_eq_true, if_false] at h ⊢
    rw [buildWorkerGraphAndTmp_ok h]
    exact ⟨rfl, rfl, htiled.symm, rfl, rfl, fun _ => rfl, fun _ _ => rfl,
      fun ht => by simp [htiled] at ht, fun ht => by simp [htiled] at ht⟩
  · simp only [htiled, if_true] at h ⊢
    split at h
    · simp at h
    rename_i ht
    rw [if_neg ht, buildWorkerGraphAndTmp_ok h]
    obtain ⟨t, hlayout, heq⟩ := allocTileDst_ok (by simpa using ht)
    rw [heq]
    exact ⟨rfl, rfl, htiled.symm, rfl, rfl, fun _ => rfl, fun hf => by simp [htiled] at hf,
      fun _ => rfl, fun _ => hlayout⟩

theorem CellReady.congr {p p' : ZimgPriv} {c : CellBounds} {w : StripeWorker}
    (h : CellReady p c w) (hframe : HookFrame p p') (hsrc : p'.src = p.src)
    (hdst : p'.dst = p.dst) : CellReady p' c w := by
  obtain ⟨h1, h2, h3, h4, h5, h6, h7, h8, h9⟩ := h
  constructor <;>
    simp only [hframe.geom, hframe.subW, hframe.subH, hframe.plan, hframe.algo, hsrc, hdst] <;>
    assumption

/-! ### Starting -/

theorem allocPlanes_ok_congr (alloc : Plane → Option ℕ) (ps : List Plane) {b b' : PlaneBuffer}
    (h : b.layout = b'.layout) : (allocPlanes alloc ps b).1 = (allocPlanes alloc ps b').1 := by
  induction ps generalizing b b' with
  | nil => rfl
  | cons p ps ih =>
    unfold allocPlanes
    rw [h]
    split
    · rfl
    split
    · rfl
    · exact ih rfl

/-- Whether a cell can be constructed depends on the plan and the sizes only. -/
theorem zimgPoolConstruct_ok_congr {p p' : ZimgPriv} (h : HookFrame p p') (o : ZimgAllocs)
    (i : ℕ) : (zimgPoolConstruct p' o i).1 = (zimgPoolConstruct p o i).1 := by
  have halloc : ∀ (alloc : Plane → Option ℕ) (d d' : Plane → ℕ) (l : PlaneLayout),
      (allocPlaneBuffer ⟨d, l⟩ alloc).1 = (allocPlaneBuffer ⟨d', l⟩ alloc).1 := by
    intro alloc d d' l
    unfold allocPlaneBuffer planeBufferBytes
    split
    · rfl
    · exact allocPlanes_ok_congr alloc _ rfl
  have hinit : ∀ w w' c alloc graph tmp, (initStripeWorker w p' c alloc graph tmp).1 =
      (initStripeWorker w' p c alloc graph tmp).1 := by
    intro w w' c alloc graph tmp
    unfold initStripeWorker allocTileDst buildWorkerGraphAndTmp
    simp only [h.plan, h.subW, h.subH]
    rw [halloc alloc w.tileDst.data w'.tileDst.data]
    repeat' split
    all_goals rfl
  unfold zimgPoolConstruct
  rw [h.plan, h.geom]
  split
  · rfl
  simp only
  rw [hinit _ (p.workers i)]
  split <;> rfl

theorem zimgPoolConstruct_ready {p : ZimgPriv} {o : ZimgAllocs} {i : ℕ}
    (h : (zimgPoolConstruct p o i).1 = true) :
    ∃ c, zimgCellBounds p.plan p.geom i = some c ∧
      CellReady (zimgPoolConstruct p o i).2 c ((zimgPoolConstruct p o i).2.workers i) := by
  have hslot := zimgPoolConstruct_frame p o i
  unfold zimgPoolConstruct at h hslot ⊢
  split at h
  · simp at h
  rename_i c hc
  simp only [hc] at h hslot ⊢
  split at h
  · simp at h
  rename_i hinit
  rw [if_neg hinit] at hslot ⊢
  refine ⟨c, rfl, ?_⟩
  simp only [Function.update_self]
  exact (initStripeWorker_ready (by simpa using hinit)).congr hslot.frame hslot.src hslot.dst

theorem builtLog_succ (inlineRun : Bool) (n : ℕ) : builtLog inlineRun 0 (n + 1) =
    builtLog inlineRun 0 n ++ (.construct n true :: if inlineRun then [] else [.spawn n true]) := by
  unfold builtLog
  rw [List.range'_concat, List.flatMap_append]
  simp

/-- Constructing the slots in order leaves all of them ready. -/
theorem hooks_built {p : ZimgPriv} {o : ZimgAllocs} (inlineRun : Bool) {n : ℕ}
    (h : ∀ i < n, (zimgPoolConstruct p o i).1 = true) :
    let q := (builtLog inlineRun 0 n).foldl (zimgPoolHook o) p
    q.src = p.src ∧ q.dst = p.dst ∧ ∀ i : ℕ, i < n → ∃ c, zimgCellBounds p.plan p.geom i = some c ∧
      CellReady q c (q.workers i) := by
  induction n with
  | zero => exact ⟨rfl, rfl, fun i hi => by omega⟩
  | succ n ih =>
    obtain ⟨hsrc, hdst, hready⟩ := ih fun i hi => h i (by omega)
    have hframe := zimgHooks_frame o (builtLog inlineRun 0 n) p
    rw [builtLog_succ, List.foldl_append]
    set q := (builtLog inlineRun 0 n).foldl (zimgPoolHook o) p with hq
    have hok : (zimgPoolConstruct q o n).1 = true := by
      rw [zimgPoolConstruct_ok_congr hframe]
      exact h n (by omega)
    have hslot := zimgPoolConstruct_frame q o n
    have hlast : (PoolEvent.construct n true ::
        if inlineRun then [] else [.spawn n true]).foldl (zimgPoolHook o) q =
          (zimgPoolConstruct q o n).2 := by
      cases inlineRun <;> rfl
    rw [hlast]
    refine ⟨hslot.src.trans hsrc, hslot.dst.trans hdst, fun i hi => ?_⟩
    by_cases hin : i = n
    · subst hin
      obtain ⟨c, hc, hcell⟩ := zimgPoolConstruct_ready hok
      rw [hframe.plan, hframe.geom] at hc
      exact ⟨c, hc, hcell⟩
    · obtain ⟨c, hc, hcell⟩ := hready i (by omega)
      refine ⟨c, hc, ?_⟩
      rw [hslot.other i hin]
      exact hcell.congr hslot.frame hslot.src hslot.dst

/-! ### The invariant -/

/-- What holds of a backend opened for `ctx`. -/
structure ZimgInv (ctx : ScalerCtx) (workerBudget : ℤ) (p : ZimgPriv) : Prop where
  chroma : chromaToZimg ctx.chroma = some (p.subW, p.subH, p.yv12SwapUv)
  budget : p.workerBudget = workerBudget
  geom : p.geom = ctx.geom
  algo : p.algo = algoToZimg ctx.algo
  srcLayout : p.src.layout = initPlaneLayout ctx.srcW ctx.srcH p.subW p.subH
  dstLayout : p.dst.layout = initPlaneLayout ctx.dstW ctx.dstH p.subW p.subH
  plan : ∃ srcAligned dstAligned, p.plan = zimgPlan ctx workerBudget srcAligned dstAligned
  ready : p.pool.lazyDone = true → (p.pool.nWorkers : ℤ) = p.plan.nThreads ∧
    ∀ i : ℕ, i < p.pool.nWorkers → ∃ c, zimgCellBounds p.plan p.geom i = some c ∧
      CellReady p c (p.workers i)

section Keeps

variable {ctx : ScalerCtx} {workerBudget : ℤ} {p : ZimgPriv}

/-- A tiled plan copies out. -/
theorem ZimgInv.colTiled (h : ZimgInv ctx workerBudget p) (hz : p.plan.dstZerocopy = true) :
    p.plan.colTiled = false := by
  obtain ⟨sa, da, hplan⟩ := h.plan
  rw [hplan] at hz ⊢
  refine Bool.eq_false_iff.mpr fun htiled => ?_
  exact absurd (hz.symm.trans (resolveIoPlan_colTiled htiled).2) (by decide)

/-- Winding the pool down, or keeping it, leaves the invariant. -/
theorem ZimgInv.withPool (h : ZimgInv ctx workerBudget p) {q : WorkerPool}
    (hq : StopFrame p.pool q) : ZimgInv ctx workerBudget { p with pool := q } := by
  obtain ⟨h1, h2, h3, h4, h5, h6, h7, hready⟩ := h
  have hn : q.nWorkers = p.pool.nWorkers := by rw [hq.rest]
  have hdone : q.lazyDone = p.pool.lazyDone := by rw [hq.rest]
  refine ⟨h1, h2, h3, h4, h5, h6, h7, fun hd => ?_⟩
  obtain ⟨hcount, hcells⟩ := hready (hdone.symm.trans hd)
  refine ⟨hn ▸ hcount, fun i hi => ?_⟩
  obtain ⟨c, hc, hcell⟩ := hcells i (hn ▸ hi)
  exact ⟨c, hc, hcell.graph, hcell.cell, hcell.colTiled, hcell.copyIn, hcell.copyOut, hcell.src,
    hcell.dst, hcell.tile, hcell.tileLayout⟩

/-- The first frame may choose the plan again, as long as no start was tried. -/
theorem zimgPrepareFirstFrameIo_inv (h : ZimgInv ctx workerBudget p) (src dst : PictureView) :
    ZimgInv ctx workerBudget (zimgPrepareFirstFrameIo p ctx src dst) := by
  unfold zimgPrepareFirstFrameIo
  split
  · exact h
  · rename_i hidle
    refine ⟨h.chroma, h.budget, h.geom, h.algo, h.srcLayout, h.dstLayout,
      ⟨zimgViewAligned src, zimgViewAligned dst, ?_⟩, fun hd => ?_⟩
    · rw [← h.budget]
      rfl
    · exact absurd (.inl hd) hidle

theorem zimgEnsureLazyInit_inv (h : ZimgInv ctx workerBudget p) (o : ZimgOutcome) :
    ZimgInv ctx workerBudget (zimgEnsureLazyInit p o).2 ∧
      ((zimgEnsureLazyInit p o).1 = true → (zimgEnsureLazyInit p o).2.pool.lazyDone = true) := by
  unfold zimgEnsureLazyInit
  split
  · rename_i hdone
    exact ⟨h, fun _ => hdone⟩
  split
  · exact ⟨h, by simp⟩
  simp only
  set p₀ : ZimgPriv := { p with pool := workerPoolConfig p.plan.nThreads true } with hp₀
  set o' : StartOutcome := { o.start with
    prepare := (allocScratchBuffers p₀ o.allocs).1
    construct := fun i => (zimgPoolConstruct p₀ o.allocs i).1 } with ho'
  have hfresh : p₀.pool.Fresh := ⟨rfl, rfl, rfl⟩
  have hlaw := workerPoolStart_law p₀.pool o' hfresh
  have hensure : workerPoolEnsureStarted p₀.pool o' =
      if (workerPoolStart p₀.pool o').ok = false then
        ⟨false, { (workerPoolStart p₀.pool o').pool with lazyFailed := true },
          (workerPoolStart p₀.pool o').log⟩
      else ⟨true, { (workerPoolStart p₀.pool o').pool with lazyDone := true },
          (workerPoolStart p₀.pool o').log⟩ := rfl
  have hframe := zimgHooks_frame o.allocs (workerPoolStart p₀.pool o').log p₀
  -- whatever the hooks do, the shape of the backend stays
  have hshape : ∀ q, (q.lazyDone = true → (q.nWorkers : ℤ) = p.plan.nThreads ∧
      ∀ i : ℕ, i < q.nWorkers → ∃ c, zimgCellBounds p.plan p.geom i = some c ∧
        CellReady ((workerPoolStart p₀.pool o').log.foldl (zimgPoolHook o.allocs) p₀) c
          (((workerPoolStart p₀.pool o').log.foldl (zimgPoolHook o.allocs) p₀).workers i)) →
      ZimgInv ctx workerBudget
        { (workerPoolStart p₀.pool o').log.foldl (zimgPoolHook o.allocs) p₀ with pool := q } := by
    intro q hq
    obtain ⟨-, hswap, hsubW, hsubH, hplan, hbudget, hsl, hdl, hgeom, halgo⟩ := hframe
    constructor
    · rw [hswap, hsubW, hsubH]
      exact h.chroma
    · rw [hbudget]
      exact h.budget
    · rw [hgeom]
      exact h.geom
    · rw [halgo]
      exact h.algo
    · rw [hsl, hsubW, hsubH]
      exact h.srcLayout
    · rw [hdl, hsubW, hsubH]
      exact h.dstLayout
    · rw [hplan]
      exact h.plan
    · intro hd
      rw [hplan, hgeom]
      obtain ⟨hn, hcells⟩ := hq hd
      refine ⟨hn, fun i hi => ?_⟩
      obtain ⟨c, hc, hcell⟩ := hcells i hi
      exact ⟨c, hc, hcell.graph, hcell.cell, hcell.colTiled, hcell.copyIn, hcell.copyOut,
        hcell.src, hcell.dst, hcell.tile, hcell.tileLayout⟩
  rw [hensure]
  split
  · refine ⟨hshape _ fun hd => ?_, by simp⟩
    have hlazy : (workerPoolStart p₀.pool o').pool.lazyDone = false := by
      rw [hlaw.frame]
      rfl
    exact absurd (hd.symm.trans hlazy) (by decide)
  · rename_i hok
    obtain ⟨hn, -, hcons, inlineRun, hlog⟩ := workerPoolStart_all hfresh rfl (by simpa using hok)
    refine ⟨hshape _ fun _ => ⟨hn, ?_⟩, fun _ => rfl⟩
    -- the shared scratch comes first, then every cell in order
    have hprep := allocScratchBuffers_frame p₀ o.allocs
    have hbuilt := hooks_built inlineRun (p := (allocScratchBuffers p₀ o.allocs).2) (o := o.allocs)
      (n := (workerPoolStart p₀.pool o').pool.nWorkers)
      fun i hi => (zimgPoolConstruct_ok_congr hprep o.allocs i).trans (hcons i hi)
    rw [hlog]
    intro i hi
    rw [List.foldl_append, List.foldl_cons]
    obtain ⟨c, hc, hcell⟩ := hbuilt.2.2 i hi
    rw [hprep.plan, hprep.geom] at hc
    exact ⟨c, hc, hcell⟩

/-- The picture planes a worker is pointed at. -/
structure CellPointed (p : ZimgPriv) (srcView dstView : PictureView) (w : StripeWorker) :
    Prop where
  src : p.plan.srcZerocopy = true → w.src = picturePlanes p.yv12SwapUv srcView
  vlcSrc : p.plan.srcZerocopy = false → w.vlcSrc = picturePlanes p.yv12SwapUv srcView
  dst : p.plan.dstZerocopy = true → w.dst = picturePlanes p.yv12SwapUv dstView
  vlcDst : p.plan.dstZerocopy = false → w.vlcDst = picturePlanes p.yv12SwapUv dstView

/-- Both views of a worker set for a frame. -/
def pointWorker (p : ZimgPriv) (srcView dstView : PictureView) (w : StripeWorker) :
    StripeWorker :=
  setWorkerView
    (setWorkerView w .src p.plan.srcZerocopy (picturePlanes p.yv12SwapUv srcView))
    .dst p.plan.dstZerocopy (picturePlanes p.yv12SwapUv dstView)

/-- The two calls of `point_workers_planes` made for a frame. -/
def pointWorkers (p : ZimgPriv) (srcView dstView : PictureView) : ZimgPriv :=
  let p := pointWorkersPlanes p srcView .src p.plan.srcZerocopy
  pointWorkersPlanes p dstView .dst p.plan.dstZerocopy

theorem pointWorkers_eq (p : ZimgPriv) (srcView dstView : PictureView) :
    pointWorkers p srcView dstView = { p with
      workers := fun i =>
        if i < p.pool.nWorkers then pointWorker p srcView dstView (p.workers i)
        else p.workers i } := by
  unfold pointWorkers pointWorkersPlanes pointWorker
  simp only
  congr 1
  funext i
  split <;> rfl

/-- Only views in zero-copy use are replaced, and those belong to no scratch. -/
theorem CellReady.pointed {c : CellBounds} {w : StripeWorker} (h : CellReady p c w)
    (htiled : p.plan.dstZerocopy = true → p.plan.colTiled = false)
    (srcView dstView : PictureView) : CellReady p c (pointWorker p srcView dstView w) := by
  obtain ⟨h1, h2, h3, h4, h5, h6, h7, h8, h9⟩ := h
  have hsrc (hs : p.plan.srcZerocopy = true) {P : Prop} : p.plan.srcZerocopy = false → P :=
    fun hf => absurd (hs.symm.trans hf) (by decide)
  have hdst (hz : p.plan.dstZerocopy = true) {P : Prop} : p.plan.dstZerocopy = false → P :=
    fun hf => absurd (hz.symm.trans hf) (by decide)
  have htile (hz : p.plan.dstZerocopy = true) {P : Prop} : p.plan.colTiled = true → P :=
    fun ht => absurd ((htiled hz).symm.trans ht) (by decide)
  unfold pointWorker
  cases hs : p.plan.srcZerocopy <;> cases hz : p.plan.dstZerocopy
  · exact ⟨h1, h2, h3, h4, h5, h6, h7, h8, h9⟩
  · exact ⟨h1, h2, h3, h4, h5, h6, fun _ => hdst hz, htile hz, h9⟩
  · exact ⟨h1, h2, h3, h4, h5, hsrc hs, h7, h8, h9⟩
  · exact ⟨h1, h2, h3, h4, h5, hsrc hs, fun _ => hdst hz, htile hz, h9⟩

theorem CellPointed.of_pointWorker (p : ZimgPriv) (srcView dstView : PictureView)
    (w : StripeWorker) : CellPointed p srcView dstView (pointWorker p srcView dstView w) := by
  unfold pointWorker
  cases hs : p.plan.srcZerocopy <;> cases hz : p.plan.dstZerocopy
  · exact ⟨fun ht => absurd (hs.symm.trans ht) (by decide), fun _ => rfl,
      fun ht => absurd (hz.symm.trans ht) (by decide), fun _ => rfl⟩
  · exact ⟨fun ht => absurd (hs.symm.trans ht) (by decide), fun _ => rfl, fun _ => rfl,
      fun hf => absurd (hz.symm.trans hf) (by decide)⟩
  · exact ⟨fun _ => rfl, fun hf => absurd (hs.symm.trans hf) (by decide),
      fun ht => absurd (hz.symm.trans ht) (by decide), fun _ => rfl⟩
  · exact ⟨fun _ => rfl, fun hf => absurd (hs.symm.trans hf) (by decide), fun _ => rfl,
      fun hf => absurd (hz.symm.trans hf) (by decide)⟩

/-- Pointing the workers at a frame's pictures keeps the cells ready. -/
theorem pointWorkers_inv (h : ZimgInv ctx workerBudget p) (srcView dstView : PictureView) :
    let q := pointWorkers p srcView dstView
    ZimgInv ctx workerBudget q ∧
      ∀ i < q.pool.nWorkers, CellPointed q srcView dstView (q.workers i) := by
  rw [pointWorkers_eq]
  refine ⟨⟨h.chroma, h.budget, h.geom, h.algo, h.srcLayout, h.dstLayout, h.plan,
    fun hd => ⟨(h.ready hd).1, fun i hi => ?_⟩⟩, fun i hi => ?_⟩
  · obtain ⟨c, hc, hcell⟩ := (h.ready hd).2 i hi
    have hi : i < p.pool.nWorkers := hi
    refine ⟨c, hc, ?_⟩
    simp only [if_pos hi]
    exact (hcell.pointed h.colTiled srcView dstView).congr
      ⟨rfl, rfl, rfl, rfl, rfl, rfl, rfl, rfl, rfl, rfl⟩ rfl rfl
  · have hi : i < p.pool.nWorkers := hi
    simp only [if_pos hi]
    obtain ⟨h1, h2, h3, h4⟩ := CellPointed.of_pointWorker p srcView dstView (p.workers i)
    exact ⟨h1, h2, h3, h4⟩

theorem zimgDispatchAndWait_inv (h : ZimgInv ctx workerBudget p) (o : ZimgOutcome) :
    ZimgInv ctx workerBudget (zimgDispatchAndWait p o).priv := by
  have hd := h.withPool (workerPoolDispatch_frame p.pool o.gateOk o.stop)
  unfold zimgDispatchAndWait zimgCheckWorkerResults
  simp only
  split
  · exact hd
  split
  · exact hd.withPool (workerPoolPoison_frame _ o.stop)
  · exact hd

theorem zimgProcess_inv (h : ZimgInv ctx workerBudget p) (src dst : Option Picture)
    (o : ZimgOutcome) : ZimgInv ctx workerBudget (zimgProcess ctx p src dst o).priv := by
  unfold zimgProcess
  split
  · exact h
  split
  · exact h
  rename_i srcView dstView _
  simp only
  have hprep := zimgPrepareFirstFrameIo_inv h srcView dstView
  split
  · unfold zimgNoteAlignmentDrift
    simp only
    have hmiss : ZimgInv ctx workerBudget { zimgPrepareFirstFrameIo p ctx srcView dstView with
        driftMisses := (zimgPrepareFirstFrameIo p ctx srcView dstView).driftMisses + 1 } := by
      obtain ⟨h1, h2, h3, h4, h5, h6, h7, hready⟩ := hprep
      refine ⟨h1, h2, h3, h4, h5, h6, h7, fun hd => ⟨(hready hd).1, fun i hi => ?_⟩⟩
      obtain ⟨c, hc, hcell⟩ := (hready hd).2 i hi
      exact ⟨c, hc, hcell.congr ⟨rfl, rfl, rfl, rfl, rfl, rfl, rfl, rfl, rfl, rfl⟩ rfl rfl⟩
    split
    · exact hmiss.withPool (workerPoolPoison_frame _ o.stop)
    · exact hmiss
  obtain ⟨hinit, -⟩ := zimgEnsureLazyInit_inv hprep o
  split
  · exact hinit
  · exact zimgDispatchAndWait_inv (pointWorkers_inv hinit srcView dstView).1 o

theorem zimgReachable_inv (h : ZimgReachable ctx workerBudget p) :
    ZimgInv ctx workerBudget p := by
  induction h with
  | @«open» p api alloc hopen =>
    unfold zimgOpen at hopen
    split at hopen
    · cases hopen
    split at hopen
    · cases hopen
    rename_i subW subH swap hchroma
    simp only at hopen
    split at hopen
    · cases hopen
    · obtain rfl := Option.some.inj hopen
      exact ⟨hchroma, rfl, rfl, rfl, rfl, rfl, ⟨true, true, rfl⟩, fun hd => by cases hd⟩
  | process _ src dst o ih => exact zimgProcess_inv ih src dst o

/-- What a frame that reports success has dispatched: every cell of the plan,
pointed at the frame's pictures, and every graph has returned 0. -/
structure FrameDispatched (ctx : ScalerCtx) (workerBudget : ℤ) (srcView dstView : PictureView)
    (rc : ℕ → ℤ) (r : ZimgProcessed) : Prop where
  inv : ZimgInv ctx workerBudget r.priv
  started : r.priv.pool.lazyDone = true
  dispatched : r.dispatched = true
  completed : r.completed = true
  rc : ∀ i < r.priv.pool.nWorkers, rc i = 0
  pointed : ∀ i < r.priv.pool.nWorkers, CellPointed r.priv srcView dstView (r.priv.workers i)

theorem zimgDispatchAndWait_ok (h : ZimgInv ctx workerBudget p)
    (hdone : p.pool.lazyDone = true) {srcView dstView : PictureView}
    (hpoint : ∀ i < p.pool.nWorkers, CellPointed p srcView dstView (p.workers i))
    {o : ZimgOutcome} (hok : (zimgDispatchAndWait p o).status = .ok) :
    FrameDispatched ctx workerBudget srcView dstView o.rc (zimgDispatchAndWait p o) := by
  have hinv := zimgDispatchAndWait_inv h o
  have hframe := workerPoolDispatch_frame p.pool o.gateOk o.stop
  have hn : (workerPoolDispatch p.pool o.gateOk o.stop).pool.nWorkers = p.pool.nWorkers := by
    rw [hframe.rest]
  have hlazy : (workerPoolDispatch p.pool o.gateOk o.stop).pool.lazyDone = p.pool.lazyDone := by
    rw [hframe.rest]
  unfold zimgDispatchAndWait zimgCheckWorkerResults at hok hinv ⊢
  simp only at hok hinv ⊢
  split at hok
  · cases hok
  rename_i hd
  rw [if_neg hd] at hinv ⊢
  split at hok
  · cases hok
  rename_i hrc
  rw [if_neg hrc] at hinv ⊢
  refine ⟨hinv, hlazy.trans hdone, rfl, rfl, fun i hi => ?_, fun i hi => ?_⟩
  · by_contra hne
    exact hrc (List.any_eq_true.mpr ⟨i, List.mem_range.mpr hi, decide_eq_true hne⟩)
  · obtain ⟨h1, h2, h3, h4⟩ := hpoint i (hn ▸ hi)
    exact ⟨h1, h2, h3, h4⟩

theorem zimgProcess_ok (h : ZimgInv ctx workerBudget p) {src dst : Option Picture}
    {o : ZimgOutcome} (hok : (zimgProcess ctx p src dst o).status = .ok) :
    ∃ srcView dstView, zimgFrameViewsInit ctx src dst = some (srcView, dstView) ∧
      FrameDispatched ctx workerBudget srcView dstView o.rc (zimgProcess ctx p src dst o) := by
  have hinv := zimgProcess_inv h src dst o
  unfold zimgProcess at hok hinv ⊢
  split at hok
  · cases hok
  rename_i hbroken
  rw [if_neg hbroken] at hinv ⊢
  split at hok
  · cases hok
  rename_i srcView dstView hviews
  refine ⟨srcView, dstView, hviews, ?_⟩
  simp only [hviews] at hok hinv ⊢
  split at hok
  · unfold zimgNoteAlignmentDrift at hok
    simp only at hok
    split at hok <;> cases hok
  rename_i hsafe
  rw [if_neg hsafe] at hinv ⊢
  have hprep := zimgPrepareFirstFrameIo_inv h srcView dstView
  obtain ⟨hinit, hdone⟩ := zimgEnsureLazyInit_inv hprep o
  split at hok
  · cases hok
  rename_i hstart
  rw [if_neg hstart] at hinv ⊢
  obtain ⟨hpoint, hviewed⟩ := pointWorkers_inv hinit srcView dstView
  exact zimgDispatchAndWait_ok hpoint (hdone (by simpa using hstart)) hviewed hok

end Keeps

end AutoUpscale
