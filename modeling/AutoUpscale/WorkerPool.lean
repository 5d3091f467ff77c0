/-
The lifecycle half of the worker pool (`src/worker_pool.h`): lazy start,
partial start, poison, stop and destroy, with every way their calls can fail.

A `StartOutcome` or `StopOutcome` says how the calls made by one pool operation
turn out; each operation returns its result (`true` for 0), the pool after it
and the events it caused, in order.  What the gate does between threads is the
subject of `AutoUpscale.PoolGate`; here a dispatch is the result its gate
reports.
-/
import AutoUpscale.ScalerContext

namespace AutoUpscale

/-! ### State, outcomes, events -/

/-- `up_worker_pool_t`.  `workers` says whether the slot array is allocated,
`threads` holds the `started` markers of the thread records; `gateReady` is
`up_pool_gate_ready`. -/
structure WorkerPool where
  nPref : ℤ
  allOrNothing : Bool
  gateReady : Bool
  workers : Bool
  threads : Option (ℕ → Bool)
  nWorkers : ℕ
  inlineRun : Bool
  lazyDone : Bool
  lazyFailed : Bool
  broken : Bool

/-- How the exit request and each join of one stop turn out. -/
structure StopOutcome where
  exit : Bool
  join : ℕ → Bool

/-- How the calls of one start turn out. -/
structure StartOutcome where
  prepare : Bool
  allocWorkers : Bool
  allocThreads : Bool
  gateInit : Bool
  construct : ℕ → Bool
  spawn : ℕ → Bool
  stop : StopOutcome

inductive PoolEvent
  | prepare (ok : Bool)
  | construct (i : ℕ) (ok : Bool)
  | spawn (i : ℕ) (ok : Bool)
  | finalize (n : ℕ)
  | run (i : ℕ)
  | requestExit (ok : Bool)
  | cancel (i : ℕ)
  | join (i : ℕ) (ok : Bool)
  | release (i : ℕ)
  | free
  deriving DecidableEq

/-- The result of a pool operation, the pool after it and its events. -/
structure PoolCall where
  ok : Bool
  pool : WorkerPool
  log : List PoolEvent

/-- `up_worker_pool_config` on a zero-initialised pool. -/
def workerPoolConfig (nPref : ℤ) (allOrNothing : Bool) : WorkerPool where
  nPref := nPref
  allOrNothing := allOrNothing
  gateReady := false
  workers := false
  threads := none
  nWorkers := 0
  inlineRun := false
  lazyDone := false
  lazyFailed := false
  broken := false

/-! ### Stop -/

/-- The `started` marker of slot `i`. -/
def WorkerPool.started (p : WorkerPool) (i : ℕ) : Bool :=
  match p.threads with
  | none => false
  | some st => st i

def WorkerPool.setStarted (p : WorkerPool) (i : ℕ) (v : Bool) : WorkerPool :=
  { p with threads := p.threads.map fun st => Function.update st i v }

/-- One turn of the join loop. -/
def joinOne (o : StopOutcome) (c : PoolCall) (i : ℕ) : PoolCall :=
  if c.pool.started i = false then c
  else if o.join i = false then
    ⟨false, { c.pool with broken := true }, c.log ++ [.join i false]⟩
  else ⟨c.ok, c.pool.setStarted i false, c.log ++ [.join i true]⟩

/-- `up__pool_cancel_started`; only its events are kept. -/
def poolCancelStarted (p : WorkerPool) : List PoolEvent :=
  ((List.range p.nPref.toNat).filter fun i => p.started i).map .cancel

/-- `up_worker_pool_stop` -/
def workerPoolStop (p : WorkerPool) (o : StopOutcome) : PoolCall :=
  match p.threads with
  | none => ⟨true, p, []⟩
  | some _ =>
    let c : PoolCall :=
      if p.gateReady = false ∨ o.exit then ⟨true, p, [.requestExit true]⟩
      else ⟨true, { p with broken := true }, .requestExit false :: poolCancelStarted p⟩
    (List.range p.nPref.toNat).foldl (joinOne o) c

/-- `up__pool_release_slots` -/
def poolReleaseSlots (n : ℕ) : List PoolEvent :=
  (List.range n).map .release

/-! ### Start -/

/-- `up__pool_alloc` -/
def poolAlloc (p : WorkerPool) (o : StartOutcome) : Bool × WorkerPool :=
  if o.allocWorkers = false then (false, p)
  else
    let p := { p with workers := true }
    if p.nPref = 1 then (true, p)
    else if o.allocThreads = false then (false, p)
    else (true, { p with threads := some fun _ => false })

/-- `up__pool_setup` -/
def poolSetup (p : WorkerPool) (o : StartOutcome) : PoolCall :=
  if p.nPref < 1 ∨ p.nPref > threadsMax then ⟨false, p, []⟩
  else if o.prepare = false then ⟨false, p, [.prepare false]⟩
  else
    let a := poolAlloc p o
    if a.1 = false then ⟨false, a.2, [.prepare true]⟩
    else
      let p := { a.2 with inlineRun := decide (p.nPref = 1) }
      if p.inlineRun = false then
        if o.gateInit = false then ⟨false, p, [.prepare true]⟩
        else ⟨true, { p with gateReady := true }, [.prepare true]⟩
      else ⟨true, p, [.prepare true]⟩

/-- `up__pool_construct_one`, with `up__pool_spawn` -/
def poolConstructOne (p : WorkerPool) (i : ℕ) (o : StartOutcome) : PoolCall :=
  if o.construct i = false then ⟨false, p, [.construct i false]⟩
  else if p.inlineRun then ⟨true, p, [.construct i true]⟩
  else if o.spawn i then ⟨true, p.setStarted i true, [.construct i true, .spawn i true]⟩
  else ⟨false, p, [.construct i true, .spawn i false, .release i]⟩

/-- `up__pool_construct_all` from slot `i` on, with `k` slots to go: the number
built, the pool and the events. -/
def poolConstructFrom (o : StartOutcome) : ℕ → ℕ → WorkerPool → ℕ × WorkerPool × List PoolEvent
  | 0, i, p => (i, p, [])
  | k + 1, i, p =>
    let c := poolConstructOne p i o
    if c.ok = false then (i, c.pool, c.log)
    else
      let r := poolConstructFrom o k (i + 1) c.pool
      (r.1, r.2.1, c.log ++ r.2.2)

/-- `up__pool_construct_all` -/
def poolConstructAll (p : WorkerPool) (o : StartOutcome) : ℕ × WorkerPool × List PoolEvent :=
  poolConstructFrom o (if p.inlineRun then 1 else p.nPref.toNat) 0 p

/-- `up__pool_build_ok` -/
def poolBuildOk (p : WorkerPool) (built : ℕ) : Bool :=
  let need : ℤ := if p.inlineRun then 1 else p.nPref
  if built = 0 then false else !p.allOrNothing || decide (need ≤ built)

/-- `up__pool_retire_failed_start` -/
def poolRetireFailedStart (p : WorkerPool) (built : ℕ) (o : StopOutcome) :
    WorkerPool × List PoolEvent :=
  let c := workerPoolStop { p with nWorkers := built } o
  if c.ok = false then (c.pool, c.log)
  else ({ c.pool with nWorkers := 0 }, c.log ++ poolReleaseSlots built)

/-- `up_worker_pool_start` -/
def workerPoolStart (p : WorkerPool) (o : StartOutcome) : PoolCall :=
  let c := poolSetup p o
  if c.ok = false then c
  else
    let r := poolConstructAll c.pool o
    if poolBuildOk r.2.1 r.1 = false then
      let f := poolRetireFailedStart r.2.1 r.1 o.stop
      ⟨false, f.1, c.log ++ r.2.2 ++ f.2⟩
    else ⟨true, { r.2.1 with nWorkers := r.1 }, c.log ++ r.2.2 ++ [.finalize r.1]⟩

/-- `up_worker_pool_ensure_started` -/
def workerPoolEnsureStarted (p : WorkerPool) (o : StartOutcome) : PoolCall :=
  if p.lazyDone then ⟨true, p, []⟩
  else if p.lazyFailed then ⟨false, p, []⟩
  else
    let c := workerPoolStart p o
    if c.ok = false then ⟨false, { c.pool with lazyFailed := true }, c.log⟩
    else ⟨true, { c.pool with lazyDone := true }, c.log⟩

/-! ### Dispatch, poison, destroy -/

/-- `up_worker_pool_poison` -/
def workerPoolPoison (p : WorkerPool) (o : StopOutcome) : PoolCall :=
  workerPoolStop { p with broken := true } o

/-- `up_worker_pool_dispatch`, `gateOk` being what lock, broadcast and barrier
report. -/
def workerPoolDispatch (p : WorkerPool) (gateOk : Bool) (o : StopOutcome) : PoolCall :=
  if p.inlineRun then ⟨true, p, [.run 0]⟩
  else if gateOk then ⟨true, p, []⟩
  else
    let c := workerPoolPoison p o
    ⟨false, c.pool, c.log⟩

/-- `up_worker_pool_destroy` -/
def workerPoolDestroy (p : WorkerPool) (o : StopOutcome) : PoolCall :=
  let c := workerPoolStop p o
  if c.ok = false then c
  else
    ⟨true, { c.pool with nWorkers := 0, workers := false, threads := none, gateReady := false },
      c.log ++ poolReleaseSlots c.pool.nWorkers ++ if c.pool.workers then [.free] else []⟩

/-! ### Runs -/

inductive PoolOp
  | ensureStarted (o : StartOutcome)
  | dispatch (gateOk : Bool) (o : StopOutcome)
  | poison (o : StopOutcome)
  | destroy (o : StopOutcome)

def poolCall (p : WorkerPool) : PoolOp → PoolCall
  | .ensureStarted o => workerPoolEnsureStarted p o
  | .dispatch gateOk o => workerPoolDispatch p gateOk o
  | .poison o => workerPoolPoison p o
  | .destroy o => workerPoolDestroy p o

/-- The pool and all events after a sequence of operations. -/
def poolAfter (p : WorkerPool) : List PoolOp → WorkerPool × List PoolEvent
  | [] => (p, [])
  | op :: ops =>
    let c := poolCall p op
    let r := poolAfter c.pool ops
    (r.1, c.log ++ r.2)

end AutoUpscale
