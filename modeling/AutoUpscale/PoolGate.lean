/-
The worker pool's dispatch gate (pool_gate.h, worker_pool.h) as a transition
system: one main thread, `n` workers, two mutexes with their condition
variables.

Every pthread call and every access to an atomic is one step of its own.  A
worker's program counter (`WorkerPc`) says at which call of
`up__pool_worker_main` it stands, with `up_pool_gate_wait_for_go`,
`up_pool_gate_worker_done` and the failure report inlined; the main thread's
(`MainPc`) does the same for spawning, `up_worker_pool_dispatch`,
`up_worker_pool_poison` and `up_worker_pool_stop`.  A step is told by a
`Choice` how its call turns out, so `State.next` is executable, and the runs of
the system are the executions of `State.step` from `State.initial`.

What is assumed of pthreads: a mutex has at most one owner, unlocking a mutex
one owns succeeds, a thread created is a thread running.  Every other call may
fail, a condition wait may wake for no reason, and a cancelled thread dies only
inside the condition wait, which hands it the mutex back first.

The owner dispatches neither on a pool that is marked broken nor after it has
begun to tear the pool down (`State.retired`, which the code does not store);
it may stop the pool at any time between dispatches, and as often as it likes.
`n` is the number of workers that came up, or of those asked for when the start
fails half-way.
-/
import Mathlib.Tactic
import AutoUpscale.LabelledTrace

namespace AutoUpscale

/-! ### Threads, calls and events -/

inductive Thread (n : ℕ)
  | main
  | worker (i : Fin n)
  deriving DecidableEq

/-- The calls that may fail. -/
inductive Call
  | setCancelState | gateLock | goWait | doneLock | doneSignal
  | dispatchLock | goBroadcast | clock | timedWait
  | exitLock | exitBroadcast | create | cancel | join
  deriving DecidableEq

/-- What a step shows to the outside.  `enter i g` and `leave i` are the entry
to and the return from `ops->run` of worker `i` for generation `g`; `ret ok`
is the return of a dispatch, `exitRequested ok` of
`up_pool_gate_request_exit`, `stopped ok` of `up_worker_pool_stop`. -/
inductive Event (n : ℕ)
  | tau
  | spurious
  | timeout
  | fault (call : Call)
  | dispatch
  | arm (generation : UInt64)
  | enter (i : Fin n) (generation : UInt64)
  | leave (i : Fin n)
  | ret (ok : Bool)
  | exitRequested (ok : Bool)
  | stopped (ok : Bool)
  deriving DecidableEq

/-- How the call a thread stands at turns out, or what an idle owner does. -/
inductive Choice
  | ok | fail | spurious | timeout | cancel
  | dispatch | poison | destroy
  deriving DecidableEq

/-! ### Program counters -/

/-- How `pthread_cond_wait` ends. -/
inductive WaitEnd
  | woken | failed | cancelled
  deriving DecidableEq

/-- Who is inside `up__pool_gate_notify_done`: a last finisher, or a failure
report made with or without the gate lock in hand. -/
inductive Notifier
  | workerDone | failHolding | failFree
  deriving DecidableEq

inductive EndKind
  | exited | failed | cancelled
  deriving DecidableEq

/-- The next call of a worker thread. -/
inductive WorkerPc
  | unborn
  | disableAtStart
  | lockGate
  | enableCancel
  | testGo
  | condWait
  | waiting
  | reacquire (how : WaitEnd)
  | cancelUnlock
  | disableCancel (waitOk : Bool)
  | readGeneration
  | unlockGate (run : Bool)
  | callRun
  | running
  | fetchSub
  | report (holding : Bool)
  | notifyLock (who : Notifier)
  | notifySignal (who : Notifier)
  | notifyUnlock (who : Notifier) (signalled : Bool)
  | storeSyncFailed
  | unlockFailed
  | ended (how : EndKind)
  deriving DecidableEq

/-- From where `up_worker_pool_stop` was called. -/
inductive Caller
  | dispatch | poison | destroy
  deriving DecidableEq

/-- How `pthread_cond_timedwait` ends. -/
inductive TimedEnd
  | woken | timedOut | failed
  deriving DecidableEq

/-- The next call of the main thread. -/
inductive MainPc
  | spawn (k : ℕ)
  | idle
  | lockGo
  | arm
  | broadcast
  | unlockGo (ok : Bool)
  | storeGoFailed
  | loadFailed
  | readClock
  | lockDone
  | testFailed
  | testPending
  | timedWait
  | timedWaiting
  | relockDone (how : TimedEnd)
  | testTimedOut
  | unlockDone (ok : Bool)
  | finalPending
  | finalFailed
  | exitLock (c : Caller)
  | setExit (c : Caller)
  | exitBroadcast (c : Caller)
  | exitUnlock (c : Caller) (ok : Bool)
  | storeExitFailed (c : Caller)
  | cancelStarted (c : Caller) (k : ℕ)
  | join (c : Caller) (k : ℕ) (ok : Bool)
  | afterStop (c : Caller)
  deriving DecidableEq

/-! ### State -/

/-- `up_pool_thread_t`, and what pthreads keep for the thread. -/
structure Worker where
  pc : WorkerPc
  seenGen : UInt64
  started : Bool
  cancelled : Bool
  deriving DecidableEq

/-- `up_pool_gate_t`: the two mutexes with their owners, the two condition
variables with the threads still blocked on them, and the four variables. -/
structure Gate (n : ℕ) where
  lock : Option (Thread n)
  goWaiters : Finset (Fin n)
  doneLock : Option (Thread n)
  doneWaiter : Bool
  generation : UInt64
  exitRequested : Bool
  pending : ℤ
  syncFailed : Bool
  deriving DecidableEq

structure State (n : ℕ) where
  gate : Gate n
  workers : Fin n → Worker
  main : MainPc
  broken : Bool
  retired : Bool

def Worker.goto (w : Worker) (pc : WorkerPc) : Worker :=
  { w with pc := pc }

/-- `up_pool_gate_init` done, no thread created, slots zeroed. -/
def State.initial (n : ℕ) : State n where
  gate := ⟨none, ∅, none, false, 0, false, 0, false⟩
  workers := fun _ => ⟨.unborn, 0, false, false⟩
  main := .spawn 0
  broken := false
  retired := false

/-! ### Worker steps -/

variable {n : ℕ}

/-- Where `up__pool_gate_notify_done` returns to. -/
def Notifier.resume : Notifier → Bool → WorkerPc
  | .workerDone, true => .lockGate
  | .workerDone, false => .storeSyncFailed
  | .failHolding, _ => .unlockFailed
  | .failFree, _ => .ended .failed

/-- One step of worker `i`: the event, the gate and the worker after it. -/
def workerNext (i : Fin n) (g : Gate n) (w : Worker) (c : Choice) :
    Option (Event n × Gate n × Worker) :=
  match w.pc with
  | .unborn => none
  -- up__pool_worker_main: cancellation is off outside the gate wait
  | .disableAtStart =>
    match c with
    | .ok => some (.tau, g, w.goto .lockGate)
    | .fail => some (.fault .setCancelState, g, w.goto (.report false))
    | _ => none
  -- up_pool_gate_wait_for_go
  | .lockGate =>
    match c with
    | .ok =>
      if g.lock = none then
        some (.tau, { g with lock := some (.worker i) }, w.goto .enableCancel)
      else none
    | .fail => some (.fault .gateLock, g, w.goto (.report false))
    | _ => none
  | .enableCancel =>
    match c with
    | .ok => some (.tau, g, w.goto .testGo)
    | .fail => some (.fault .setCancelState, g, w.goto (.disableCancel false))
    | _ => none
  | .testGo =>
    if c ≠ .ok then none
    else if g.generation = w.seenGen ∧ g.exitRequested = false then
      some (.tau, g, w.goto .condWait)
    else some (.tau, g, w.goto (.disableCancel true))
  | .condWait =>
    match c with
    | .ok =>
      some (.tau, { g with lock := none, goWaiters := insert i g.goWaiters }, w.goto .waiting)
    | .fail => some (.fault .goWait, g, w.goto (.disableCancel false))
    | _ => none
  | .waiting =>
    match c with
    | .ok => if i ∈ g.goWaiters then none else some (.tau, g, w.goto (.reacquire .woken))
    | .spurious =>
      some (.spurious, { g with goWaiters := g.goWaiters.erase i }, w.goto (.reacquire .woken))
    | .fail =>
      some (.fault .goWait, { g with goWaiters := g.goWaiters.erase i },
        w.goto (.reacquire .failed))
    | .cancel =>
      if w.cancelled then
        some (.tau, { g with goWaiters := g.goWaiters.erase i }, w.goto (.reacquire .cancelled))
      else none
    | _ => none
  | .reacquire how =>
    if c = .ok ∧ g.lock = none then
      some (.tau, { g with lock := some (.worker i) },
        w.goto (match how with
          | .woken => .testGo
          | .failed => .disableCancel false
          | .cancelled => .cancelUnlock))
    else none
  -- the cleanup handler of a cancelled wait
  | .cancelUnlock =>
    if c = .ok then some (.tau, { g with lock := none }, w.goto (.ended .cancelled)) else none
  | .disableCancel waitOk =>
    match c with
    | .ok => some (.tau, g, w.goto (if waitOk then .readGeneration else .report true))
    | .fail => some (.fault .setCancelState, g, w.goto (.report true))
    | _ => none
  | .readGeneration =>
    if c = .ok then
      some (.tau, g, { w with
        pc := .unlockGate (decide (g.generation ≠ w.seenGen))
        seenGen := g.generation })
    else none
  | .unlockGate run =>
    if c = .ok then
      some (.tau, { g with lock := none }, w.goto (if run then .callRun else .ended .exited))
    else none
  -- ops->run, then up_pool_gate_worker_done
  | .callRun => if c = .ok then some (.enter i w.seenGen, g, w.goto .running) else none
  | .running => if c = .ok then some (.leave i, g, w.goto .fetchSub) else none
  | .fetchSub =>
    if c = .ok then
      some (.tau, { g with pending := g.pending - 1 },
        w.goto (if g.pending = 1 then .notifyLock .workerDone else .lockGate))
    else none
  -- up__pool_gate_report_worker_failure
  | .report holding =>
    if c = .ok then
      some (.tau, { g with syncFailed := true },
        w.goto (.notifyLock (if holding then .failHolding else .failFree)))
    else none
  -- up__pool_gate_notify_done
  | .notifyLock who =>
    match c with
    | .ok =>
      if g.doneLock = none then
        some (.tau, { g with doneLock := some (.worker i) }, w.goto (.notifySignal who))
      else none
    | .fail => some (.fault .doneLock, g, w.goto (who.resume false))
    | _ => none
  | .notifySignal who =>
    match c with
    | .ok => some (.tau, { g with doneWaiter := false }, w.goto (.notifyUnlock who true))
    | .fail =>
      some (.fault .doneSignal, { g with syncFailed := true }, w.goto (.notifyUnlock who false))
    | _ => none
  | .notifyUnlock who signalled =>
    if c = .ok then
      some (.tau, { g with doneLock := none }, w.goto (who.resume signalled))
    else none
  | .storeSyncFailed =>
    if c = .ok then some (.tau, { g with syncFailed := true }, w.goto .lockGate) else none
  | .unlockFailed =>
    if c = .ok then some (.tau, { g with lock := none }, w.goto (.ended .failed)) else none
  | .ended _ => none

/-! ### Main-thread steps -/

def State.goto (s : State n) (pc : MainPc) : State n :=
  { s with main := pc }

def State.setGate (s : State n) (g : Gate n) (pc : MainPc) : State n :=
  { s with gate := g, main := pc }

def State.setWorker (s : State n) (i : Fin n) (w : Worker) : State n :=
  { s with workers := Function.update s.workers i w }

/-- `up_worker_pool_poison`: mark the pool broken, then stop it. -/
def State.poison (s : State n) (c : Caller) : State n :=
  { s with broken := true, main := .exitLock c }

/-- One step of the main thread. -/
def mainNext (s : State n) (c : Choice) : Option (Event n × State n) :=
  let g := s.gate
  match s.main with
  -- up__pool_spawn, and up__pool_retire_failed_start when it fails
  | .spawn k =>
    if hk : k < n then
      match c with
      | .ok =>
        some (.tau, (s.setWorker ⟨k, hk⟩
          { s.workers ⟨k, hk⟩ with
            pc := .disableAtStart, seenGen := g.generation, started := true }).goto
          (.spawn (k + 1)))
      | .fail =>
        some (.fault .create, { s with retired := true, main := .exitLock .destroy })
      | _ => none
    else if c = .ok then some (.tau, s.goto .idle)
    else none
  -- the owner between two calls
  | .idle =>
    match c with
    | .dispatch =>
      if s.broken = false ∧ s.retired = false then some (.dispatch, s.goto .lockGo) else none
    | .poison => some (.tau, s.poison .poison)
    | .destroy => some (.tau, { s with retired := true, main := .exitLock .destroy })
    | _ => none
  -- up_worker_pool_dispatch
  | .lockGo =>
    match c with
    | .ok =>
      if g.lock = none then some (.tau, s.setGate { g with lock := some .main } .arm) else none
    | .fail => some (.fault .dispatchLock, s.poison .dispatch)
    | _ => none
  | .arm =>
    if c = .ok then
      some (.arm (g.generation + 1),
        s.setGate { g with pending := n, generation := g.generation + 1 } .broadcast)
    else none
  | .broadcast =>
    match c with
    | .ok => some (.tau, s.setGate { g with goWaiters := ∅ } (.unlockGo true))
    | .fail => some (.fault .goBroadcast, s.goto (.unlockGo false))
    | _ => none
  | .unlockGo ok =>
    if c = .ok then
      some (.tau, s.setGate { g with lock := none } (if ok then .loadFailed else .storeGoFailed))
    else none
  | .storeGoFailed =>
    if c = .ok then
      some (.tau, { s with gate := { g with syncFailed := true } }.poison .dispatch)
    else none
  -- up_pool_gate_wait_all
  | .loadFailed =>
    if c = .ok then
      some (.tau, if g.syncFailed then s.poison .dispatch else s.goto .readClock)
    else none
  | .readClock =>
    match c with
    | .ok => some (.tau, s.goto .lockDone)
    | .fail => some (.fault .clock, s.poison .dispatch)
    | _ => none
  | .lockDone =>
    match c with
    | .ok =>
      if g.doneLock = none then
        some (.tau, s.setGate { g with doneLock := some .main } .testFailed)
      else none
    | .fail => some (.fault .doneLock, s.poison .dispatch)
    | _ => none
  | .testFailed =>
    if c = .ok then
      some (.tau, s.goto (if g.syncFailed then .unlockDone false else .testPending))
    else none
  | .testPending =>
    if c = .ok then
      some (.tau, s.goto (if g.pending = 0 then .unlockDone true else .timedWait))
    else none
  | .timedWait =>
    match c with
    | .ok => some (.tau, s.setGate { g with doneLock := none, doneWaiter := true } .timedWaiting)
    | .fail => some (.fault .timedWait, s.goto (.unlockDone false))
    | _ => none
  | .timedWaiting =>
    match c with
    | .ok => if g.doneWaiter then none else some (.tau, s.goto (.relockDone .woken))
    | .spurious =>
      some (.spurious, s.setGate { g with doneWaiter := false } (.relockDone .woken))
    | .timeout =>
      some (.timeout, s.setGate { g with doneWaiter := false } (.relockDone .timedOut))
    | .fail =>
      some (.fault .timedWait, s.setGate { g with doneWaiter := false } (.relockDone .failed))
    | _ => none
  | .relockDone how =>
    if c = .ok ∧ g.doneLock = none then
      some (.tau, s.setGate { g with doneLock := some .main }
        (match how with
          | .woken => .testFailed
          | .timedOut => .testTimedOut
          | .failed => .unlockDone false))
    else none
  | .testTimedOut =>
    if c = .ok then some (.tau, s.goto (.unlockDone (decide (g.pending = 0)))) else none
  | .unlockDone ok =>
    if c = .ok then
      let s' := { s with gate := { g with doneLock := none } }
      some (.tau, if ok then s'.goto .finalPending else s'.poison .dispatch)
    else none
  | .finalPending =>
    if c = .ok then
      some (.tau, if g.pending ≠ 0 then s.poison .dispatch else s.goto .finalFailed)
    else none
  | .finalFailed =>
    if c ≠ .ok then none
    else if g.syncFailed then some (.tau, s.poison .dispatch)
    else some (.ret true, s.goto .idle)
  -- up_worker_pool_stop: up_pool_gate_request_exit
  | .exitLock caller =>
    match c with
    | .ok =>
      if g.lock = none then
        some (.tau, s.setGate { g with lock := some .main } (.setExit caller))
      else none
    | .fail => some (.fault .exitLock, s.goto (.storeExitFailed caller))
    | _ => none
  | .setExit caller =>
    if c = .ok then
      some (.tau, s.setGate { g with exitRequested := true } (.exitBroadcast caller))
    else none
  | .exitBroadcast caller =>
    match c with
    | .ok => some (.tau, s.setGate { g with goWaiters := ∅ } (.exitUnlock caller true))
    | .fail => some (.fault .exitBroadcast, s.goto (.exitUnlock caller false))
    | _ => none
  | .exitUnlock caller ok =>
    if c ≠ .ok then none
    else if ok then
      some (.exitRequested true, s.setGate { g with lock := none } (.join caller 0 true))
    else some (.tau, s.setGate { g with lock := none } (.storeExitFailed caller))
  | .storeExitFailed caller =>
    if c = .ok then
      some (.exitRequested false,
        { s with gate := { g with syncFailed := true }, broken := true,
                 main := .cancelStarted caller 0 })
    else none
  -- up__pool_cancel_started
  | .cancelStarted caller k =>
    if hk : k < n then
      if (s.workers ⟨k, hk⟩).started then
        match c with
        | .ok =>
          some (.tau,
            (s.setWorker ⟨k, hk⟩ { s.workers ⟨k, hk⟩ with cancelled := true }).goto
              (.cancelStarted caller (k + 1)))
        | .fail => some (.fault .cancel, s.goto (.cancelStarted caller (k + 1)))
        | _ => none
      else if c = .ok then some (.tau, s.goto (.cancelStarted caller (k + 1)))
      else none
    else if c = .ok then some (.tau, s.goto (.join caller 0 true))
    else none
  -- the join loop
  | .join caller k ok =>
    if hk : k < n then
      if (s.workers ⟨k, hk⟩).started then
        match c with
        | .ok =>
          match (s.workers ⟨k, hk⟩).pc with
          | .ended _ =>
            some (.tau, (s.setWorker ⟨k, hk⟩ { s.workers ⟨k, hk⟩ with started := false }).goto
              (.join caller (k + 1) ok))
          | _ => none
        | .fail =>
          some (.fault .join, { s with broken := true, main := .join caller (k + 1) false })
        | _ => none
      else if c = .ok then some (.tau, s.goto (.join caller (k + 1) ok))
      else none
    else if c = .ok then some (.stopped ok, s.goto (.afterStop caller))
    else none
  | .afterStop caller =>
    if c ≠ .ok then none
    else
      match caller with
      | .dispatch => some (.ret false, s.goto .idle)
      | _ => some (.tau, s.goto .idle)

/-! ### The system -/

/-- One step of thread `t`. -/
def State.next (s : State n) : Thread n × Choice → Option (Event n × State n)
  | (.main, c) => mainNext s c
  | (.worker i, c) =>
    (workerNext i s.gate (s.workers i) c).map fun r =>
      (r.1, { s with gate := r.2.1, workers := Function.update s.workers i r.2.2 })

/-- Some thread makes a step that shows `e`. -/
def State.step (s : State n) (e : Event n) (s' : State n) : Prop :=
  ∃ a, s.next a = some (e, s')

/-- A run of the pool: the events `tr` lead from a fresh pool to `s`. -/
def PoolRun (n : ℕ) (tr : List (Event n)) (s : State n) : Prop :=
  LabelledTrace.Execution State.step (State.initial n) tr s

/-- Thread `t` makes `k` steps in which every call succeeds. -/
def runs (t : Thread n) (k : ℕ) : List (Thread n × Choice) :=
  List.replicate k (t, .ok)

end AutoUpscale
