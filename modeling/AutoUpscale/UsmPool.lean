/-
The threaded unsharp mask (`src/usm_pool.c`).

The pool's slots and threads are a `WorkerPool`; its hooks act on the USM payload
by following the pool's events (`usmPoolHook`).  A worker's sweep is the list of
its row steps, the buffers rotating as in the source.  `usmPoolApply` runs a call
up to the dispatch; `UsmApplied.Ends` says which memories it can leave: those of
every interleaving of the sweeps, each of which the gate runs once.

This is the default build, without per-stripe flat detection.
-/
import AutoUpscale.Usm
import AutoUpscale.WorkerPool

namespace AutoUpscale

open DisjointParallel PlaneMemory

/-! ### Workers -/

/-- `UP_USM_APPLY_OK`, `UP_USM_APPLY_FAILED_UNCHANGED`,
`UP_USM_APPLY_OUTPUT_UNCERTAIN` -/
inductive UsmStatus
  | ok | failedUnchanged | outputUncertain
  deriving DecidableEq, Repr

/-- `USM_STRIPE_MIN_ROWS` -/
def usmStripeMinRows : ℤ := 8

/-- `USM_POOL_ALIGN` -/
def usmPoolAlign : ℕ := 64

/-- `USM_POOL_SCRATCH_ROWS` -/
def usmPoolScratchRows : ℕ := 5

/-- `usm_worker_t`; a NULL halo is `none`. -/
structure UsmWorker where
  yStart : ℕ
  yEnd : ℕ
  width : ℕ
  height : ℕ
  scratch : ℕ
  src : ℕ
  dst : ℕ
  srcStride : ℕ
  dstStride : ℕ
  amountQ8 : ℤ
  haloTop : Option ℕ
  haloBot : Option ℕ
  deriving Inhabited

/-- `usm_worker_src_row` -/
def usmWorkerSrcRow (w : UsmWorker) (y : ℕ) : ℕ :=
  let row := w.src + y * w.srcStride
  let row := match w.haloBot with
    | some bot => if y = w.yEnd then bot else row
    | none => row
  match w.haloTop with
  | some top => if y + 1 = w.yStart then top else row
  | none => row

/-- A row-level step of a sweep. -/
inductive RowStep
  | hblur (out inp width : ℕ)
  | combine (dst src up mid dn width : ℕ) (amountQ8 : ℤ)
  deriving DecidableEq, Repr

def RowStep.run : RowStep → Memory → Memory
  | .hblur out inp width, m => hblurRow m out inp width
  | .combine dst src up mid dn width amountQ8, m => combineRow m dst src up mid dn width amountQ8

/-- The loop of `usm_worker_sweep` with `k` rows to go. -/
def usmWorkerSweepFrom (w : UsmWorker) : ℕ → ℕ → ℕ → ℕ → ℕ → List RowStep
  | 0, _, _, _, _ => []
  | k + 1, y, up, mid, dn =>
    let yDn := if y < w.height - 1 then y + 1 else w.height - 1
    .hblur dn (usmWorkerSrcRow w yDn) w.width ::
      .combine (w.dst + y * w.dstStride) (w.src + y * w.srcStride) up mid dn w.width w.amountQ8 ::
      usmWorkerSweepFrom w k (y + 1) mid dn up

/-- `usm_worker_sweep` -/
def usmWorkerSweep (w : UsmWorker) : List RowStep :=
  let up := w.scratch
  let mid := w.scratch + w.width
  let dn := w.scratch + 2 * w.width
  let yUp := if w.yStart > 0 then w.yStart - 1 else 0
  .hblur up (usmWorkerSrcRow w yUp) w.width ::
    .hblur mid (usmWorkerSrcRow w w.yStart) w.width ::
    usmWorkerSweepFrom w (w.yEnd - w.yStart) w.yStart up mid dn

/-! ### The pool and its hooks -/

/-- `usm_pool_t`.  `scratch` is where the allocator puts the scratch block. -/
structure UsmPool where
  nThreads : ℤ
  nThreadsPref : ℤ
  width : ℕ
  height : ℕ
  scratch : ℕ
  workers : ℕ → UsmWorker
  pool : WorkerPool

/-- `usm_pool_scratch_bytes` -/
def usmPoolScratchBytes (n width : ℤ) : ℕ :=
  if n ≤ 0 ∨ width ≤ 0 then 0
  else
    let per := usmPoolScratchRows * width.toNat % 2 ^ 64
    if per / usmPoolScratchRows ≠ width.toNat then 0
    else if per > sizeMax / n.toNat then 0
    else per * n.toNat

/-- `usm_pool_alloc_scratch`, which is all `usm_pool_prepare` does; `alloc` says
whether the allocation succeeds. -/
def usmPoolAllocScratch (p : UsmPool) (alloc : Bool) : Bool :=
  let bytes := usmPoolScratchBytes p.nThreadsPref p.width
  if bytes = 0 then false
  else if (bytes + (usmPoolAlign - 1)) % 2 ^ 64 / usmPoolAlign * usmPoolAlign < bytes then false
  else alloc

/-- `usm_pool_construct_worker` -/
def usmPoolConstructWorker (p : UsmPool) (i : ℕ) : UsmPool :=
  let w := { p.workers i with
    scratch := p.scratch + i * usmPoolScratchRows * p.width
    width := p.width
    height := p.height }
  { p with workers := Function.update p.workers i w }

/-- `usm_pool_repartition_stripes` -/
def usmPoolRepartitionStripes (workers : ℕ → UsmWorker) (n height : ℕ) : ℕ → UsmWorker :=
  fun i =>
    if i < n then
      { workers i with
        yStart := i * height / n
        yEnd := if i = n - 1 then height else (i + 1) * height / n }
    else workers i

/-- `usm_pool_finalize` -/
def usmPoolFinalize (p : UsmPool) (nWorkers : ℕ) : UsmPool :=
  { p with
    workers := usmPoolRepartitionStripes p.workers nWorkers p.height
    nThreads := nWorkers }

/-- What a pool event does to the payload. -/
def usmPoolHook (p : UsmPool) : PoolEvent → UsmPool
  | .construct i true => usmPoolConstructWorker p i
  | .finalize n => usmPoolFinalize p n
  | _ => p

/-- `usm_pool_resolve_threads` -/
def usmPoolResolveThreads (nThreads height stripeMinRows : ℤ) : ℤ :=
  let nThreads := if nThreads > threadsMax then threadsMax else nThreads
  let stripeMinRows := if stripeMinRows ≤ 0 then usmStripeMinRows else stripeMinRows
  let maxBySize := height / stripeMinRows
  let maxBySize := if maxBySize < 1 then 1 else maxBySize
  if nThreads > maxBySize then maxBySize else nThreads

/-- `up_usm_pool_create`; `alloc` says whether the allocation succeeds. -/
def usmPoolCreate (nThreads width height stripeMinRows : ℤ) (alloc : Bool) (scratch : ℕ) :
    Option UsmPool :=
  if nThreads < 1 ∨ width ≤ 0 ∨ height ≤ 0 then none
  else
    let nThreads := usmPoolResolveThreads nThreads height stripeMinRows
    if alloc = false then none
    else some
      { nThreads := nThreads
        nThreadsPref := nThreads
        width := width.toNat
        height := height.toNat
        scratch := scratch
        workers := fun _ => default
        pool := workerPoolConfig nThreads false }

/-! ### One frame -/

/-- The arguments of `up_usm_pool_apply`; a NULL plane is `none`. -/
structure UsmCall where
  dst : Option ℕ
  dstStride : ℤ
  src : Option ℕ
  srcStride : ℤ
  amountQ8 : ℤ

/-- `usm_pool_validate_args` on a pool that exists. -/
def usmPoolValidateArgs (p : UsmPool) (c : UsmCall) : Bool :=
  if usmPlaneArgsOk c.dst c.dstStride c.src c.srcStride p.width = false then false
  else if c.dst = c.src ∧ c.dstStride ≠ c.srcStride then false
  else true

/-- `usm_worker_snapshot_halo` -/
def usmWorkerSnapshotHalo (m : Memory) (w : UsmWorker) (src srcStride height : ℕ) :
    Memory × UsmWorker :=
  let top := w.scratch + 3 * w.width
  let bot := w.scratch + 4 * w.width
  let r :=
    if w.yStart > 0 then
      (memcpy m top (src + (w.yStart - 1) * srcStride) w.width, { w with haloTop := some top })
    else (m, w)
  if r.2.yEnd < height then
    (memcpy r.1 bot (src + r.2.yEnd * srcStride) r.2.width, { r.2 with haloBot := some bot })
  else r

/-- The body of the loop of `usm_pool_set_per_frame`. -/
def usmWorkerSetPerFrame (m : Memory) (w : UsmWorker) (height dst dstStride src srcStride : ℕ)
    (amountQ8 : ℤ) : Memory × UsmWorker :=
  let w := { w with
    src := src, srcStride := srcStride, dst := dst, dstStride := dstStride
    amountQ8 := amountQ8, haloTop := none, haloBot := none }
  if dst = src then usmWorkerSnapshotHalo m w src srcStride height else (m, w)

/-- `usm_pool_set_per_frame` -/
def usmPoolSetPerFrame (m : Memory) (p : UsmPool) (dst dstStride src srcStride : ℕ)
    (amountQ8 : ℤ) : Memory × UsmPool :=
  (List.range p.nThreads.toNat).foldl
    (fun r i =>
      let f := usmWorkerSetPerFrame r.1 (r.2.workers i) r.2.height dst dstStride src srcStride
        amountQ8
      (f.1, { r.2 with workers := Function.update r.2.workers i f.2 })) (m, p)

/-- How the calls made by one apply turn out. -/
structure UsmOutcome where
  start : StartOutcome
  gateOk : Bool
  stop : StopOutcome

/-- `up_worker_pool_ensure_started` with the hooks of this pool. -/
def usmPoolEnsureStarted (p : UsmPool) (o : StartOutcome) : Bool × UsmPool :=
  let c := workerPoolEnsureStarted p.pool
    { o with prepare := usmPoolAllocScratch p o.prepare, construct := fun _ => true }
  (c.ok, { c.log.foldl usmPoolHook p with pool := c.pool })

/-- The result of a call: its status, the pool after it, the memory when it ends
or, when workers were dispatched, when they start. -/
structure UsmApplied where
  status : UsmStatus
  pool : UsmPool
  memory : Memory
  dispatched : Bool

/-- `up_usm_pool_apply` -/
def usmPoolApply (p : UsmPool) (c : UsmCall) (o : UsmOutcome) (m : Memory) : UsmApplied :=
  match c.dst, c.src with
  | some dst, some src =>
    if usmPoolValidateArgs p c = false then ⟨.failedUnchanged, p, m, false⟩
    else if p.pool.broken then ⟨.failedUnchanged, p, m, false⟩
    else
      let amountQ8 := clampAmountQ8 c.amountQ8
      if amountQ8 = 0 then
        ⟨.ok, p, applyIdentity m dst c.dstStride src c.srcStride p.width p.height, false⟩
      else
        let s := usmPoolEnsureStarted p o.start
        if s.1 = false then ⟨.failedUnchanged, s.2, m, false⟩
        else
          let f := usmPoolSetPerFrame m s.2 dst c.dstStride.toNat src c.srcStride.toNat amountQ8
          let d := workerPoolDispatch f.2.pool o.gateOk o.stop
          ⟨if d.ok then .ok else .outputUncertain, { f.2 with pool := d.pool }, f.1, true⟩
  | _, _ => ⟨.failedUnchanged, p, m, false⟩

/-- The memories a call can leave.  A dispatch that returns 0 has run every
worker once; one that fails leaves the output uncertain. -/
def UsmApplied.Ends (r : UsmApplied) (m' : Memory) : Prop :=
  if r.dispatched = false then m' = r.memory
  else r.status = .ok →
    Interleaving RowStep.run (fun i : Fin r.pool.pool.nWorkers =>
      usmWorkerSweep (r.pool.workers i)) r.memory m'

/-- The pools a caller can hold: created, and applied any number of times. -/
inductive UsmReachable (nThreads width height stripeMinRows : ℤ) : UsmPool → Prop
  | create {p alloc scratch}
      (h : usmPoolCreate nThreads width height stripeMinRows alloc scratch = some p) :
      UsmReachable nThreads width height stripeMinRows p
  | apply {p} (h : UsmReachable nThreads width height stripeMinRows p) (c : UsmCall)
      (o : UsmOutcome) (m : Memory) :
      UsmReachable nThreads width height stripeMinRows (usmPoolApply p c o m).pool

end AutoUpscale
