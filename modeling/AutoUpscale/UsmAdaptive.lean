/-
Adaptive worker selection for the unsharp mask (`src/usm_adaptive.h`), with the
counts it starts from (`src/thread_policy.h`) and the parts of the filter that
drive it (`src/autoupscale.c`: `InitUsmPool`, `ApplyUsmIfEnabled`, `DisableUsm`).

A pool pointer is a handle into a heap of live pools; every handle is used once.
What a pool does is given by the frame's `FrameEnv`: what `up_usm_pool_create`
returns, how each `up_usm_pool_apply` turns out, what the clock reads.  `threads`
is `up_usm_pool_effective_threads`.  The log holds what happens to the pools, and
`fault` when a pool that is not live is used.

A frame that `ApplyUsmIfEnabled` leaves alone for its picture is no step.  Times
are `Float`, the `double` of the source.
-/
import AutoUpscale.Filter
import AutoUpscale.UsmPool
import AutoUpscale.WorkerTuner

namespace AutoUpscale

/-! ### Worker counts -/

/-- `UP_THREADS_AUTO`, `UP_THREADS_AUTO_MAX` -/
def threadsAuto : ℤ := 0
def threadsAutoMax : ℤ := 12

/-- `up_threads_decide` -/
def threadsDecide (userPref totalCores : ℤ) : ℤ :=
  let totalCores := if totalCores ≤ 0 then 1 else totalCores
  let n :=
    if userPref ≤ threadsAuto then
      let n := totalCores.tdiv 2 - 2
      let n := if n < 1 then 1 else n
      if n > threadsAutoMax then threadsAutoMax else n
    else userPref
  let n := if n > totalCores then totalCores else n
  let n := if n > threadsMax then threadsMax else n
  if n < 1 then 1 else n

/-- The clamps of `up_threads_decide`. -/
theorem threadsDecide_eq (userPref totalCores : ℤ) :
    threadsDecide userPref totalCores =
      max (min threadsMax (min (max totalCores 1)
        (if userPref ≤ threadsAuto then
          min threadsAutoMax (max ((max totalCores 1).tdiv 2 - 2) 1)
        else userPref))) 1 := by
  have hcores : (if totalCores ≤ 0 then 1 else totalCores) = max totalCores 1 := by
    split_ifs <;> omega
  unfold threadsDecide
  rw [hcores]
  simp only [gt_iff_lt, ← min_def_lt, ← max_def_lt]

/-- `up_usm_threads_decide` -/
def usmThreadsDecide (userPref totalCores width height : ℤ) : ℤ :=
  if userPref > threadsAuto then threadsDecide userPref totalCores
  else if width ≤ 0 ∨ height ≤ 0 then 1
  else
    let pixels := width.toNat * height.toNat % 2 ^ 64
    let count := if pixels ≤ 1280 * 720 then 8 else if pixels ≤ 1920 * 1080 then 12 else 16
    threadsDecide count totalCores

namespace Adaptive

open PlaneMemory

/-! ### State -/

/-- `struct timespec` -/
structure Timespec where
  sec : ℤ
  nsec : ℤ
  deriving DecidableEq, Repr

/-- `up_usm_adaptive_t`; a NULL trial is `none`. -/
structure UsmAdaptive where
  tuner : WorkerTuner Float
  trial : Option ℕ
  trialCount : ℤ
  width : ℤ
  height : ℤ
  stripeRows : ℤ
  enabled : Bool
  stopped : Bool
  retained : Bool
  framePending : Bool
  frameTimed : Bool
  frameStart : Timespec
  deriving DecidableEq, Repr

/-- What happens to the pools. -/
inductive Event
  | created (h : ℕ)
  | trialCreated (h : ℕ)
  | applied (h : ℕ) (status : UsmStatus)
  | promoted (h : ℕ)
  | destroyed (h : ℕ)
  /-- The pool runs another number of workers than the tuner asks for. -/
  | mismatch
  | disabled
  | fault
  deriving DecidableEq, Repr

/-- The fields of `filter_sys_t` this is about, the live pools and their past. -/
structure UsmSystem (Pool Plane : Type*) where
  adaptive : UsmAdaptive
  pool : Option ℕ
  amountQ8 : ℤ
  heap : ℕ → Option Pool
  next : ℕ
  plane : Plane
  log : List Event

/-- How one `up_usm_pool_apply` turns out. -/
structure UsmReply (Pool Plane : Type*) where
  status : UsmStatus
  pool : Pool
  plane : Plane

/-- How the calls of one frame turn out. -/
structure FrameEnv (Pool Plane : Type*) where
  create : ℤ → ℤ → ℤ → ℤ → Option Pool
  apply : ℕ → Pool → ℤ → Plane → UsmReply Pool Plane
  startClock : Option Timespec
  endClock : Option Timespec

/-- A zeroed `up_usm_adaptive_t`. -/
def zeroAdaptive : UsmAdaptive where
  tuner :=
    { limit := 0, best := 0, current := 0, candidate := 0, cursor := 0, warmup := 0
      remaining := 0, drift := 0, changes := 0, samples := [], baseUs := 0.0, trialUs := 0.0
      steadyUs := 0.0, phase := .base }
  trial := none
  trialCount := 0
  width := 0
  height := 0
  stripeRows := 0
  enabled := false
  stopped := false
  retained := false
  framePending := false
  frameTimed := false
  frameStart := ⟨0, 0⟩

/-- `up_usm_adaptive_init` -/
def usmAdaptiveInit (initial limit width height stripeRows : ℤ) : UsmAdaptive :=
  let rows := if stripeRows > 0 then stripeRows else 8
  let byHeight := height.tdiv rows
  let limit := if limit > byHeight then byHeight else limit
  let tuner := workerTunerInit initial limit
  { zeroAdaptive with
    tuner := tuner
    width := width
    height := height
    stripeRows := stripeRows
    enabled := decide (tuner.limit > 1) }

variable {Pool Plane : Type*}

/-! ### Pools -/

namespace UsmSystem

def setAdaptive (s : UsmSystem Pool Plane) (a : UsmAdaptive) : UsmSystem Pool Plane :=
  { s with adaptive := a }

/-- A pool that `up_usm_pool_create` returned gets the next handle. -/
def addPool (s : UsmSystem Pool Plane) (p : Pool) (e : Event) : UsmSystem Pool Plane :=
  { s with
    heap := Function.update s.heap s.next (some p)
    next := s.next + 1
    log := s.log ++ [e] }

/-- `up_usm_pool_destroy` -/
def destroyPool (s : UsmSystem Pool Plane) : Option ℕ → UsmSystem Pool Plane
  | none => s
  | some h =>
    match s.heap h with
    | none => { s with log := s.log ++ [.fault] }
    | some _ =>
      { s with heap := Function.update s.heap h none, log := s.log ++ [.destroyed h] }

/-- `up_usm_pool_apply`; a NULL pool fails. -/
def applyPool (s : UsmSystem Pool Plane) (env : FrameEnv Pool Plane) (amountQ8 : ℤ) :
    Option ℕ → UsmStatus × UsmSystem Pool Plane
  | none => (.failedUnchanged, s)
  | some h =>
    match s.heap h with
    | none => (.failedUnchanged, { s with log := s.log ++ [.fault] })
    | some p =>
      let r := env.apply h p amountQ8 s.plane
      (r.status,
        { s with
          heap := Function.update s.heap h (some r.pool)
          plane := r.plane
          log := s.log ++ [.applied h r.status] })

/-- `up_usm_pool_effective_threads`, 0 without a pool. -/
def effectiveThreads (threads : Pool → ℤ) (s : UsmSystem Pool Plane) (h : Option ℕ) : ℤ :=
  match h.bind s.heap with
  | none => 0
  | some p => threads p

end UsmSystem

open UsmSystem

/-! ### `usm_adaptive.h` -/

/-- `up_usm_adaptive_clear_trial` -/
def usmAdaptiveClearTrial (s : UsmSystem Pool Plane) : UsmSystem Pool Plane :=
  let s := s.destroyPool s.adaptive.trial
  s.setAdaptive { s.adaptive with trial := none, trialCount := 0 }

/-- `up_usm_adaptive_stop` -/
def usmAdaptiveStop (s : UsmSystem Pool Plane) : UsmSystem Pool Plane :=
  let s := usmAdaptiveClearTrial s
  s.setAdaptive { s.adaptive with enabled := false, stopped := true, framePending := false }

/-- `up_usm_adaptive_begin` -/
def usmAdaptiveBegin (s : UsmSystem Pool Plane) (clock : Option Timespec) :
    UsmSystem Pool Plane :=
  if s.adaptive.enabled = false then s
  else
    match clock with
    | none => s.setAdaptive { s.adaptive with framePending := true, frameTimed := false }
    | some start =>
      s.setAdaptive
        { s.adaptive with framePending := true, frameTimed := true, frameStart := start }

/-- `up_usm_adaptive_take_start`: the start of the frame, when it is known. -/
def usmAdaptiveTakeStart (s : UsmSystem Pool Plane) (clock : Option Timespec) :
    Option Timespec × UsmSystem Pool Plane :=
  if s.adaptive.framePending = false then (clock, s)
  else
    let s := s.setAdaptive { s.adaptive with framePending := false }
    (if s.adaptive.frameTimed then some s.adaptive.frameStart else none, s)

/-- `up_usm_adaptive_select`: the pool to use, `best` being the one in use. -/
def usmAdaptiveSelect (s : UsmSystem Pool Plane) (env : FrameEnv Pool Plane)
    (best : Option ℕ) : Option ℕ × UsmSystem Pool Plane :=
  if s.adaptive.tuner.current = s.adaptive.tuner.best then (best, s)
  else if s.adaptive.trialCount = s.adaptive.tuner.current then (s.adaptive.trial, s)
  else
    let s := usmAdaptiveClearTrial s
    match env.create s.adaptive.tuner.current s.adaptive.width s.adaptive.height
        s.adaptive.stripeRows with
    | none => (best, usmAdaptiveStop s)
    | some p =>
      let h := s.next
      let s := s.addPool p (.trialCreated h)
      (some h,
        s.setAdaptive
          { s.adaptive with trial := some h, trialCount := s.adaptive.tuner.current })

/-- `up_usm_adaptive_elapsed` -/
def usmAdaptiveElapsed (start : Timespec) (clock : Option Timespec) : Option Float :=
  match clock with
  | none => none
  | some stop =>
    let elapsed := (Float.ofInt stop.sec - Float.ofInt start.sec) * 1.0e6
      + (Float.ofInt stop.nsec - Float.ofInt start.nsec) / 1000.0
    if elapsed.isFinite ∧ elapsed > 0.0 then some elapsed else none

/-- `up_usm_adaptive_accept` -/
def usmAdaptiveAccept (s : UsmSystem Pool Plane) (elapsed : Float) : UsmSystem Pool Plane :=
  let previous := s.adaptive.tuner.best
  let phase := s.adaptive.tuner.phase
  let s := s.setAdaptive
    { s.adaptive with tuner := workerTunerObserve s.adaptive.tuner (some elapsed) }
  if s.adaptive.tuner.best = previous then
    if phase = .confirm ∧ s.adaptive.tuner.phase = .base then usmAdaptiveClearTrial s else s
  else
    let s := s.destroyPool s.pool
    let s := { s with
      pool := s.adaptive.trial
      log := s.log ++ s.adaptive.trial.toList.map Event.promoted }
    s.setAdaptive { s.adaptive with trial := none, trialCount := 0 }

/-- `up_usm_adaptive_recover` -/
def usmAdaptiveRecover (s : UsmSystem Pool Plane) (env : FrameEnv Pool Plane)
    (best : Option ℕ) (status : UsmStatus) (amountQ8 : ℤ) : UsmStatus × UsmSystem Pool Plane :=
  let s := usmAdaptiveStop s
  if status = .outputUncertain then
    (status, s.setAdaptive { s.adaptive with retained := true })
  else s.applyPool env amountQ8 best

/-- `up_usm_adaptive_apply` -/
def usmAdaptiveApply (threads : Pool → ℤ) (s : UsmSystem Pool Plane) (env : FrameEnv Pool Plane)
    (amountQ8 : ℤ) : UsmStatus × UsmSystem Pool Plane :=
  let s := s.setAdaptive { s.adaptive with retained := false }
  let select := if s.adaptive.enabled then usmAdaptiveSelect s env s.pool else (s.pool, s)
  let selected := select.1
  let s := select.2
  let take := if s.adaptive.enabled then usmAdaptiveTakeStart s env.startClock else (none, s)
  let r := take.2.applyPool env amountQ8 selected
  let status := r.1
  let s := r.2
  if status ≠ .ok ∧ selected ≠ s.pool then usmAdaptiveRecover s env s.pool status amountQ8
  else if status ≠ .ok ∨ s.adaptive.enabled = false then (status, s)
  else if s.effectiveThreads threads selected ≠ s.adaptive.tuner.current then
    (status, usmAdaptiveStop { s with log := s.log ++ [.mismatch] })
  else
    match take.1.bind fun start => usmAdaptiveElapsed start env.endClock with
    | none => (status, usmAdaptiveStop s)
    | some elapsed => (status, usmAdaptiveAccept s elapsed)

/-! ### The filter around it -/

/-- The options that `InitUsmPool` reads. -/
structure UsmConfig where
  usmPct : ℤ
  chroma : ℕ
  threadsPref : ℤ
  cores : ℤ
  width : ℤ
  height : ℤ
  stripeMin : ℤ
  adaptiveUsm : ℤ

/-- `InitAdaptiveUsm` -/
def initAdaptiveUsm (c : UsmConfig) (initial : ℤ) : UsmAdaptive :=
  if c.adaptiveUsm = 0 then zeroAdaptive
  else if c.threadsPref ≠ threadsAuto then zeroAdaptive
  else usmAdaptiveInit initial (threadsDecide threadsMax c.cores) c.width c.height c.stripeMin

/-- The first count that `InitUsmPool` asks for. -/
def UsmConfig.initialThreads (c : UsmConfig) : ℤ :=
  usmThreadsDecide c.threadsPref c.cores c.width c.height

/-- `InitUsmPool` on a zeroed `filter_sys_t`. -/
def initUsmPool (c : UsmConfig) (create : ℤ → ℤ → ℤ → ℤ → Option Pool) (plane : Plane) :
    UsmSystem Pool Plane :=
  let s : UsmSystem Pool Plane :=
    { adaptive := zeroAdaptive, pool := none, amountQ8 := 0, heap := fun _ => none, next := 0
      plane := plane, log := [] }
  if c.usmPct ≤ 0 ∨ chromaHasYPlane c.chroma = false then s
  else
    let n := c.initialThreads
    match create n c.width c.height c.stripeMin with
    | none => s
    | some p =>
      { s.addPool p (.created s.next) with
        pool := some s.next
        amountQ8 := usmAmountPctToQ8 c.usmPct
        adaptive := initAdaptiveUsm c n }

/-- `DisableUsm` -/
def disableUsm (s : UsmSystem Pool Plane) : UsmSystem Pool Plane :=
  let s := usmAdaptiveStop { s with amountQ8 := 0 }
  let s := s.destroyPool s.pool
  { s with pool := none, log := s.log ++ [.disabled] }

/-- `ApplyUsmIfEnabled` with `RunUsm`, on a picture with a usable luma plane. -/
def applyUsmIfEnabled (threads : Pool → ℤ) (s : UsmSystem Pool Plane)
    (env : FrameEnv Pool Plane) : UsmStatus × UsmSystem Pool Plane :=
  if s.amountQ8 ≤ 0 ∨ s.pool = none then (.ok, s)
  else
    let r := usmAdaptiveApply threads s env s.amountQ8
    if r.1 ≠ .ok then
      if r.2.adaptive.retained then r else (r.1, disableUsm r.2)
    else r

/-- What the filter does with its USM state: the start of a frame, a scaled
picture with luma `plane`, or `DisableUsm` (the content probe, `Close`). -/
inductive Step (Pool Plane : Type*)
  | start (clock : Option Timespec)
  | frame (plane : Plane) (env : FrameEnv Pool Plane)
  | disable

def step (threads : Pool → ℤ) (s : UsmSystem Pool Plane) : Step Pool Plane → UsmSystem Pool Plane
  | .start clock => usmAdaptiveBegin s clock
  | .frame plane env => (applyUsmIfEnabled threads { s with plane := plane } env).2
  | .disable => disableUsm s

/-- The system after a sequence of steps. -/
def run (threads : Pool → ℤ) (s : UsmSystem Pool Plane) (steps : List (Step Pool Plane)) :
    UsmSystem Pool Plane :=
  steps.foldl (step threads) s

/-! ### The pools of `usm_pool.c` -/

/-- How the pools of one frame turn out: whether a descriptor can be allocated and
where its scratch block would go, the calls of each apply, and the memory in which
its workers leave off. -/
structure UsmPoolOutcome where
  alloc : Bool
  scratch : ℕ
  outcome : ℕ → UsmOutcome
  finish : ℕ → UsmApplied → Memory
  startClock : Option Timespec
  endClock : Option Timespec

/-- A frame on the luma plane at `pixels`, in place. -/
def usmPoolEnv (pixels : ℕ) (pitch : ℤ) (o : UsmPoolOutcome) : FrameEnv UsmPool Memory where
  create n width height rows := usmPoolCreate n width height rows o.alloc o.scratch
  apply h p amountQ8 m :=
    let r := usmPoolApply p ⟨some pixels, pitch, some pixels, pitch, amountQ8⟩ (o.outcome h) m
    ⟨r.status, r.pool, o.finish h r⟩
  startClock := o.startClock
  endClock := o.endClock

end Adaptive

end AutoUpscale
