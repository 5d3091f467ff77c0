/-
The zimg backend around its cells (`src/scaler_zimg.c`): open, the first
frame's choice of I/O mode, the lazy start of the pool and one frame's dispatch.

The slots and threads are an all-or-nothing `WorkerPool`; its hooks act on the
backend's state by following the pool's events.  `zimgProcess` runs a frame up to
the dispatch; `ZimgProcessed.Ends` says which memories it can leave.

CPU pinning is in `AutoUpscale.CpuPinning`; the log is left out.
-/
import AutoUpscale.PictureView
import AutoUpscale.ZimgCell
import AutoUpscale.WorkerPool

namespace AutoUpscale

open DisjointParallel PlaneMemory

/-! ### State -/

/-- `ZIMG_BUFFER_ALIGN` -/
def zimgBufferAlign : ℕ := 32

/-- `UP_ZIMG_DRIFT_FATAL_MISSES` -/
def zimgDriftFatalMisses : ℕ := 30

/-- `zimg_priv_t` -/
structure ZimgPriv where
  pool : WorkerPool
  workers : ℕ → StripeWorker
  yv12SwapUv : Bool
  subW : ℕ
  subH : ℕ
  plan : ZimgIoPlan
  workerBudget : ℤ
  driftMisses : ℕ
  src : PlaneBuffer
  dst : PlaneBuffer
  geom : TileGeom
  algo : ResampleFilter

/-- How the allocations of a start turn out: where each plane buffer goes, which
graphs libzimg builds, which of them get their tmp buffer. -/
structure ZimgAllocs where
  src : Plane → Option ℕ
  dst : Plane → Option ℕ
  tile : ℕ → Plane → Option ℕ
  graph : ℕ → Bool
  tmp : ℕ → Bool

/-- How the calls of one frame turn out; `rc i` is what the graph of cell `i`
returns. -/
structure ZimgOutcome where
  start : StartOutcome
  allocs : ZimgAllocs
  gateOk : Bool
  rc : ℕ → ℤ
  stop : StopOutcome

/-- `zimg_supports` -/
def zimgSupports (chroma : ℕ) (_algo : ℤ) : Bool := (chromaToZimg chroma).isSome

/-- `zimg_open` with the budget that `up_threads_decide` gives; `api` says
whether the libzimg versions match, `alloc` whether the allocation succeeds. -/
def zimgOpen (ctx : ScalerCtx) (workerBudget : ℤ) (api alloc : Bool) : Option ZimgPriv :=
  if api = false then none
  else
    match chromaToZimg ctx.chroma with
    | none => none
    | some (subW, subH, swap) =>
      let plan := resolveIoPlan (zimgBuildIoReq ctx workerBudget true true)
      if alloc = false then none
      else some
        { pool := workerPoolConfig 0 true
          workers := fun _ => zeroWorker
          yv12SwapUv := swap
          subW := subW
          subH := subH
          plan := plan
          workerBudget := workerBudget
          driftMisses := 0
          src := ⟨fun _ => 0, initPlaneLayout ctx.srcW ctx.srcH subW subH⟩
          dst := ⟨fun _ => 0, initPlaneLayout ctx.dstW ctx.dstH subW subH⟩
          geom := ctx.geom
          algo := algoToZimg ctx.algo }

/-! ### Pool hooks -/

/-- `alloc_scratch_buffers` -/
def allocScratchBuffers (p : ZimgPriv) (o : ZimgAllocs) : Bool × ZimgPriv :=
  let s := if p.plan.srcZerocopy = false then allocPlaneBuffer p.src o.src else (true, p.src)
  let p := { p with src := s.2 }
  if s.1 = false then (false, p)
  else
    let d := if p.plan.dstZerocopy = false ∧ p.plan.colTiled = false then
      allocPlaneBuffer p.dst o.dst else (true, p.dst)
    (d.1, { p with dst := d.2 })

/-- `alloc_tile_dst` -/
def allocTileDst (w : StripeWorker) (p : ZimgPriv) (dstStripeH : ℤ) (alloc : Plane → Option ℕ) :
    Bool × StripeWorker :=
  let t := allocPlaneBuffer
    { w.tileDst with layout := initPlaneLayout w.cell.dstW dstStripeH p.subW p.subH } alloc
  if t.1 = false then (false, { w with tileDst := t.2 })
  else (true, { w with tileDst := t.2, dst := planeBufferView t.2 })

/-- `build_worker_graph_and_tmp` -/
def buildWorkerGraphAndTmp (w : StripeWorker) (p : ZimgPriv) (c : CellBounds)
    (graph tmp : Bool) : Bool × StripeWorker :=
  if graph = false then (false, w)
  else
    let w := { w with graph := some (buildStripeGraph p.geom.srcW c p.subW p.subH p.algo) }
    (tmp, w)

/-- `init_stripe_worker` -/
def initStripeWorker (w : StripeWorker) (p : ZimgPriv) (c : CellBounds)
    (alloc : Plane → Option ℕ) (graph tmp : Bool) : Bool × StripeWorker :=
  let w := { w with
    cell := workerCellGeom c p.subW p.subH
    colTiled := p.plan.colTiled
    copyIn := !p.plan.srcZerocopy
    copyOut := !p.plan.dstZerocopy
    src := planeBufferView p.src }
  if w.colTiled then
    let t := allocTileDst w p (c.rows.dstEnd - c.rows.dstStart) alloc
    if t.1 = false then (false, t.2) else buildWorkerGraphAndTmp t.2 p c graph tmp
  else buildWorkerGraphAndTmp { w with dst := planeBufferView p.dst } p c graph tmp

/-- `zimg_pool_release` -/
def zimgPoolRelease (p : ZimgPriv) (i : ℕ) : ZimgPriv :=
  let w := { p.workers i with graph := none }
  let w := if w.colTiled then { w with tileDst := freePlaneBuffer w.tileDst } else w
  { p with workers := Function.update p.workers i w }

/-- `zimg_pool_construct` -/
def zimgPoolConstruct (p : ZimgPriv) (o : ZimgAllocs) (i : ℕ) : Bool × ZimgPriv :=
  match zimgCellBounds p.plan p.geom i with
  | none => (false, p)
  | some c =>
    let r := initStripeWorker (p.workers i) p c (o.tile i) (o.graph i) (o.tmp i)
    let p := { p with workers := Function.update p.workers i r.2 }
    if r.1 = false then (false, zimgPoolRelease p i) else (true, p)

/-- What a pool event does to the backend. -/
def zimgPoolHook (o : ZimgAllocs) (p : ZimgPriv) : PoolEvent → ZimgPriv
  | .prepare _ => (allocScratchBuffers p o).2
  | .construct i _ => (zimgPoolConstruct p o i).2
  | .release i => zimgPoolRelease p i
  | _ => p

/-! ### One frame -/

/-- `zimg_view_aligned` -/
def zimgViewAligned (view : PictureView) : Bool :=
  (List.range view.planeCount).all fun i =>
    decide ((view.plane i).pixels % zimgBufferAlign = 0) &&
      decide ((view.plane i).pitch % zimgBufferAlign = 0)

/-- `zimg_prepare_first_frame_io` -/
def zimgPrepareFirstFrameIo (p : ZimgPriv) (ctx : ScalerCtx) (src dst : PictureView) : ZimgPriv :=
  if p.pool.lazyDone ∨ p.pool.lazyFailed then p
  else
    let req := zimgBuildIoReq ctx p.workerBudget (zimgViewAligned src) (zimgViewAligned dst)
    { p with plan := resolveIoPlan req }

/-- `zimg_frame_io_safe` -/
def zimgFrameIoSafe (p : ZimgPriv) (src dst : PictureView) : Bool :=
  (!p.plan.srcZerocopy || zimgViewAligned src) && (!p.plan.dstZerocopy || zimgViewAligned dst)

/-- `zimg_frame_views_init` -/
def zimgFrameViewsInit (ctx : ScalerCtx) (src dst : Option Picture) :
    Option (PictureView × PictureView) :=
  match pictureViewInit src ctx.chroma (scalerSrcRegion ctx) with
  | none => none
  | some srcView =>
    match pictureViewInit dst ctx.chroma (scalerDstRegion ctx) with
    | none => none
    | some dstView => some (srcView, dstView)

/-- The plane pointers and pitches that `point_workers_planes` copies. -/
def picturePlanes (swap : Bool) (pic : PictureView) : PlaneView where
  data p := (pic.plane (chromaPhysicalPlaneIndex p.index swap)).pixels
  pitch p := (pic.plane (chromaPhysicalPlaneIndex p.index swap)).pitch

/-- `worker_view_side_e` -/
inductive WorkerViewSide
  | src | dst
  deriving DecidableEq, Repr

/-- Sets the view that `worker_view_for` selects. -/
def setWorkerView (w : StripeWorker) (side : WorkerViewSide) (zerocopy : Bool)
    (view : PlaneView) : StripeWorker :=
  match side, zerocopy with
  | .src, true => { w with src := view }
  | .src, false => { w with vlcSrc := view }
  | .dst, true => { w with dst := view }
  | .dst, false => { w with vlcDst := view }

/-- `point_workers_planes` -/
def pointWorkersPlanes (p : ZimgPriv) (pic : PictureView) (side : WorkerViewSide)
    (zerocopy : Bool) : ZimgPriv :=
  { p with workers := fun i =>
      if i < p.pool.nWorkers then
        setWorkerView (p.workers i) side zerocopy (picturePlanes p.yv12SwapUv pic)
      else p.workers i }

/-- `zimg_ensure_lazy_init` -/
def zimgEnsureLazyInit (p : ZimgPriv) (o : ZimgOutcome) : Bool × ZimgPriv :=
  if p.pool.lazyDone then (true, p)
  else if p.pool.lazyFailed then (false, p)
  else
    let p := { p with pool := workerPoolConfig p.plan.nThreads true }
    let c := workerPoolEnsureStarted p.pool
      { o.start with
        prepare := (allocScratchBuffers p o.allocs).1
        construct := fun i => (zimgPoolConstruct p o.allocs i).1 }
    (c.ok, { c.log.foldl (zimgPoolHook o.allocs) p with pool := c.pool })

/-- The result of a frame: its status, the backend after it, whether cells were
dispatched and whether the barrier saw all of them finish. -/
structure ZimgProcessed where
  status : ProcessStatus
  priv : ZimgPriv
  dispatched : Bool
  completed : Bool

/-- `zimg_note_alignment_drift` -/
def zimgNoteAlignmentDrift (p : ZimgPriv) (o : ZimgOutcome) : ZimgProcessed :=
  let p := { p with driftMisses := p.driftMisses + 1 }
  if p.driftMisses ≥ zimgDriftFatalMisses then
    ⟨.fatal, { p with pool := (workerPoolPoison p.pool o.stop).pool }, false, false⟩
  else ⟨.transient, p, false, false⟩

/-- `zimg_check_worker_results` -/
def zimgCheckWorkerResults (p : ZimgPriv) (o : ZimgOutcome) : ZimgProcessed :=
  if (List.range p.pool.nWorkers).any fun i => decide (o.rc i ≠ 0) then
    ⟨.fatal, { p with pool := (workerPoolPoison p.pool o.stop).pool }, true, true⟩
  else ⟨.ok, p, true, true⟩

/-- `zimg_dispatch_and_wait` -/
def zimgDispatchAndWait (p : ZimgPriv) (o : ZimgOutcome) : ZimgProcessed :=
  let d := workerPoolDispatch p.pool o.gateOk o.stop
  let p := { p with pool := d.pool }
  if d.ok = false then ⟨.fatal, p, true, false⟩ else zimgCheckWorkerResults p o

/-- `zimg_process` on a backend that is open. -/
def zimgProcess (ctx : ScalerCtx) (p : ZimgPriv) (src dst : Option Picture) (o : ZimgOutcome) :
    ZimgProcessed :=
  if p.pool.broken then ⟨.fatal, p, false, false⟩
  else
    match zimgFrameViewsInit ctx src dst with
    | none => ⟨.transient, p, false, false⟩
    | some (srcView, dstView) =>
      let p := zimgPrepareFirstFrameIo p ctx srcView dstView
      if zimgFrameIoSafe p srcView dstView = false then zimgNoteAlignmentDrift p o
      else
        let s := zimgEnsureLazyInit p o
        if s.1 = false then ⟨.fatal, s.2, false, false⟩
        else
          let p := pointWorkersPlanes s.2 srcView .src s.2.plan.srcZerocopy
          let p := pointWorkersPlanes p dstView .dst p.plan.dstZerocopy
          zimgDispatchAndWait p o

/-- The steps of cell `i` in a frame whose graphs return `rc`. -/
def ZimgPriv.cellRun (lib : ZimgLib) (p : ZimgPriv) (rc : ℕ → ℤ) (i : ℕ) : List CellStep :=
  match (p.workers i).graph with
  | some g => zimgWorkerRun lib (p.workers i) g (rc i)
  | none => []

/-- The memories a frame can leave.  A barrier that completes has seen every
cell run once; one that fails leaves the destination uncertain. -/
def ZimgProcessed.Ends (lib : ZimgLib) (r : ZimgProcessed) (rc : ℕ → ℤ) (m m' : Memory) : Prop :=
  if r.dispatched = false then m' = m
  else r.completed = true →
    Interleaving (CellStep.run lib)
      (fun i : Fin r.priv.pool.nWorkers => r.priv.cellRun lib rc i) m m'

/-- The backends a caller can hold: opened, and given any number of frames. -/
inductive ZimgReachable (ctx : ScalerCtx) (workerBudget : ℤ) : ZimgPriv → Prop
  | open {p api alloc} (h : zimgOpen ctx workerBudget api alloc = some p) :
      ZimgReachable ctx workerBudget p
  | process {p} (h : ZimgReachable ctx workerBudget p) (src dst : Option Picture)
      (o : ZimgOutcome) : ZimgReachable ctx workerBudget (zimgProcess ctx p src dst o).priv

end AutoUpscale
