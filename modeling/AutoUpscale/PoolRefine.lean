/-
The two models of the worker pool agree.

`PoolGate` has every pthread call of every thread as a step of its own;
`WorkerPool` has each call of the owner as one function and takes from the gate
only what it reports.  Here the first is shown to refine the second.

- `Models`: the pool record that stands for a state of the gate between two
  calls.
- `Stopping`: how far a stop is, against the same stop of the record.
- `Follows`: a run so far, against the start and the calls it amounts to;
  `Follows.step` is the simulation step.
- `gate_refines_lifecycle`: whenever the owner has the pool to itself, the run
  is a start followed by a sequence of calls of the lifecycle model, with the
  same results and the same record of what its stops and joins did.
-/
import AutoUpscale.PoolExit
import AutoUpscale.WorkerPool

namespace AutoUpscale

open LabelledTrace

/-! ### Calls of the lifecycle model, and what the gate shows of them -/

/-- A call on a started pool.  `stop` is what `up_worker_pool_destroy` does to
the gate before it lets go of the storage. -/
inductive GateCall
  | dispatch (gateOk : Bool) (o : StopOutcome)
  | poison (o : StopOutcome)
  | stop (o : StopOutcome)

def gateCall (p : WorkerPool) : GateCall → PoolCall
  | .dispatch gateOk o => workerPoolDispatch p gateOk o
  | .poison o => workerPoolPoison p o
  | .stop o => workerPoolStop p o

def poolAfterCalls (p : WorkerPool) (calls : List GateCall) : WorkerPool :=
  calls.foldl (fun p c => (gateCall p c).pool) p

/-- The start in which every call succeeds but the creation of the threads from
`k` on; `o` is how the stop of a failed start turns out. -/
def createsBelow (k : ℕ) (o : StopOutcome) : StartOutcome where
  prepare := true
  allocWorkers := true
  allocThreads := true
  gateInit := true
  construct := fun _ => true
  spawn := fun i => decide (i < k)
  stop := o

variable {n : ℕ}

/-- The events by which the owner's calls are told. -/
def Event.shown : Event n → Bool
  | .dispatch | .ret _ | .exitRequested _ | .stopped _ | .fault .join => true
  | _ => false

/-- What the gate shows of an event of the lifecycle model. -/
def PoolEvent.shows : PoolEvent → List (Event n)
  | .requestExit ok => [.exitRequested ok]
  | .join _ false => [.fault .join]
  | _ => []

def PoolEvent.joined : PoolEvent → Bool
  | .join _ false => false
  | _ => true

def stopShown (c : PoolCall) : List (Event n) :=
  c.log.flatMap PoolEvent.shows ++ [.stopped c.ok]

/-- A start that fails has stopped the threads it created. -/
def startShown (c : PoolCall) : List (Event n) :=
  c.log.flatMap PoolEvent.shows ++ if c.ok then [] else [.stopped (c.log.all PoolEvent.joined)]

def GateCall.shown (p : WorkerPool) : GateCall → List (Event n)
  | .dispatch true _ => [.dispatch, .ret true]
  | .dispatch false o => .dispatch :: stopShown (workerPoolPoison p o) ++ [.ret false]
  | .poison o => stopShown (workerPoolPoison p o)
  | .stop o => stopShown (workerPoolStop p o)

def callsShown (p : WorkerPool) : List GateCall → List (Event n)
  | [] => []
  | c :: cs => c.shown p ++ callsShown (gateCall p c).pool cs

theorem poolAfterCalls_snoc (p : WorkerPool) (calls : List GateCall) (c : GateCall) :
    poolAfterCalls p (calls ++ [c]) = (gateCall (poolAfterCalls p calls) c).pool := by
  simp [poolAfterCalls]

theorem callsShown_snoc (p : WorkerPool) (calls : List GateCall) (c : GateCall) :
    (callsShown p (calls ++ [c]) : List (Event n)) =
      callsShown p calls ++ c.shown (poolAfterCalls p calls) := by
  induction calls generalizing p with
  | nil => simp [callsShown, poolAfterCalls]
  | cons d ds ih =>
    rw [List.cons_append, callsShown, ih, callsShown, List.append_assoc]
    rfl

/-! ### The stop, one join at a time -/

/-- The exit request of a stop. -/
def exitPart (p : WorkerPool) (o : StopOutcome) : PoolCall :=
  if p.gateReady = false ∨ o.exit then ⟨true, p, [.requestExit true]⟩
  else ⟨true, { p with broken := true }, .requestExit false :: poolCancelStarted p⟩

/-- A stop up to the join of slot `k`. -/
def joinFirst (p : WorkerPool) (o : StopOutcome) (k : ℕ) : PoolCall :=
  (List.range k).foldl (joinOne o) (exitPart p o)

theorem joinFirst_succ (p : WorkerPool) (o : StopOutcome) (k : ℕ) :
    joinFirst p o (k + 1) = joinOne o (joinFirst p o k) k := by
  rw [joinFirst, List.range_succ, List.foldl_append]
  rfl

theorem workerPoolStop_eq {p : WorkerPool} {st : ℕ → Bool} (h : p.threads = some st)
    (o : StopOutcome) : workerPoolStop p o = joinFirst p o p.nPref.toNat := by
  simp only [workerPoolStop, joinFirst, exitPart]
  split
  · rename_i hnone
    cases h.symm.trans hnone
  · rfl

/-- The joins made so far do not depend on how a later one turns out. -/
theorem joinFirst_update (p : WorkerPool) (o : StopOutcome) {j k : ℕ} (hk : k ≤ j) (v : Bool) :
    joinFirst p { o with join := Function.update o.join j v } k = joinFirst p o k := by
  induction k with
  | zero => rfl
  | succ k ih =>
    rw [joinFirst_succ, joinFirst_succ, ih (by omega)]
    unfold joinOne
    simp only [Function.update_of_ne (show k ≠ j by omega)]

theorem joinOne_skip {o : StopOutcome} {c : PoolCall} {i : ℕ} (h : c.pool.started i = false) :
    joinOne o c i = c := by
  rw [joinOne, if_pos h]

/-- Past the last thread the join loop finds nothing. -/
theorem joinFirst_past {p : WorkerPool} {o : StopOutcome} {k m : ℕ} (hkm : k ≤ m)
    (h : ∀ i, k ≤ i → (joinFirst p o k).pool.started i = false) :
    joinFirst p o m = joinFirst p o k := by
  induction m, hkm using Nat.le_induction with
  | base => rfl
  | succ m hkm ih => rw [joinFirst_succ, ih, joinOne_skip (h m hkm)]

/-! ### What a stop shows -/

theorem shows_exitPart (p : WorkerPool) (o : StopOutcome) (h : p.gateReady = true) :
    ((exitPart p o).log.flatMap PoolEvent.shows : List (Event n)) = [.exitRequested o.exit] := by
  have hcancel : (poolCancelStarted p).flatMap PoolEvent.shows = ([] : List (Event n)) := by
    rw [poolCancelStarted, List.flatMap_map]
    exact List.flatMap_eq_nil_iff.mpr fun _ _ => rfl
  unfold exitPart
  rw [h]
  cases he : o.exit
  · simpa [PoolEvent.shows] using hcancel
  · simp [PoolEvent.shows]

theorem joinOne_ok {o : StopOutcome} {c : PoolCall} (i : ℕ)
    (h : c.ok = c.log.all PoolEvent.joined) :
    (joinOne o c i).ok = (joinOne o c i).log.all PoolEvent.joined := by
  unfold joinOne
  split
  · exact h
  split
  · simp [PoolEvent.joined]
  · simp [PoolEvent.joined, h]

/-- A stop succeeds exactly when no join of its log failed. -/
theorem joinFirst_ok (p : WorkerPool) (o : StopOutcome) (k : ℕ) :
    (joinFirst p o k).ok = (joinFirst p o k).log.all PoolEvent.joined := by
  induction k with
  | zero =>
    rw [joinFirst, exitPart]
    split
    · rfl
    · simp [PoolEvent.joined, poolCancelStarted]
  | succ k ih => rw [joinFirst_succ, joinOne_ok k ih]

/-! ### The pool that stands for a state of the gate -/

/-- The `started` markers of the thread records. -/
def State.markers (s : State n) (i : ℕ) : Bool :=
  if h : i < n then (s.workers ⟨i, h⟩).started else false

/-- `p` is the pool record of a started pool in state `s`. -/
structure Models (s : State n) (p : WorkerPool) : Prop where
  ready : p.gateReady = true
  threaded : p.inlineRun = false
  threads : p.threads = some s.markers
  room : n ≤ p.nPref.toNat
  broken : p.broken = s.broken

theorem State.markers_lt (s : State n) {k : ℕ} (hk : k < n) :
    s.markers k = (s.workers ⟨k, hk⟩).started := dif_pos hk

theorem State.markers_ge (s : State n) {k : ℕ} (hk : n ≤ k) : s.markers k = false :=
  dif_neg (by omega)

theorem State.markers_set {s s' : State n} {k : ℕ} (hk : k < n) {w : Worker}
    (h : s'.workers = Function.update s.workers ⟨k, hk⟩ w) :
    s'.markers = Function.update s.markers k w.started := by
  funext i
  unfold State.markers
  rw [h]
  by_cases hik : i = k
  · subst hik
    simp [hk]
  · rw [Function.update_of_ne hik]
    split
    · rw [Function.update_of_ne (by simpa using hik)]
    · rfl

namespace Models

variable {s s' : State n} {p : WorkerPool}

theorem congr (h : Models s p) (hm : s'.markers = s.markers) (hb : s'.broken = s.broken) :
    Models s' p :=
  ⟨h.ready, h.threaded, h.threads.trans (by rw [hm]), h.room, h.broken.trans hb.symm⟩

theorem started (h : Models s p) (i : ℕ) : p.started i = s.markers i := by
  rw [WorkerPool.started, h.threads]

theorem poisoned (h : Models s p) (hm : s'.markers = s.markers) (hb : s'.broken = true) :
    Models s' { p with broken := true } :=
  ⟨h.ready, h.threaded, h.threads.trans (by rw [hm]), h.room, hb.symm⟩

theorem marked (h : Models s p) {k : ℕ} {v : Bool}
    (hm : s'.markers = Function.update s.markers k v) (hb : s'.broken = s.broken) :
    Models s' (p.setStarted k v) := by
  refine ⟨h.ready, h.threaded, ?_, h.room, h.broken.trans hb.symm⟩
  rw [WorkerPool.setStarted, h.threads, hm]
  rfl

theorem nWorkers (h : Models s p) (k : ℕ) : Models s { p with nWorkers := k } :=
  ⟨h.ready, h.threaded, h.threads, h.room, h.broken⟩

/-- At the end of the gate's join loop the record's is over as well. -/
theorem stop_eq {o : StopOutcome} {k : ℕ} (h : Models s p)
    (hj : Models s' (joinFirst p o k).pool) (hk : n ≤ k) (hroom : k ≤ p.nPref.toNat) :
    workerPoolStop p o = joinFirst p o k := by
  rw [workerPoolStop_eq h.threads]
  exact joinFirst_past hroom fun i hi => by rw [hj.started, s'.markers_ge (by omega)]

end Models

/-! ### A stop in progress -/

/-- The main thread is asking the workers to leave. -/
def MainPc.requests (caller : Caller) : MainPc → Prop
  | .exitLock c | .setExit c | .exitBroadcast c | .exitUnlock c _ | .storeExitFailed c =>
    c = caller
  | _ => False

/-- A stop of the pool `p` called from `caller`, as far as state `s`, with what
it has shown. -/
inductive Stopping (p : WorkerPool) (caller : Caller) (s : State n) : List (Event n) → Prop
  | request (hmain : s.main.requests caller) (hm : Models s p) : Stopping p caller s []
  | cancelling (k : ℕ) (hmain : s.main = .cancelStarted caller k)
      (hm : Models s { p with broken := true }) : Stopping p caller s [.exitRequested false]
  | joining (o : StopOutcome) (k : ℕ) (hk : k ≤ n)
      (hmain : s.main = .join caller k (joinFirst p o k).ok)
      (hm : Models s (joinFirst p o k).pool) :
      Stopping p caller s ((joinFirst p o k).log.flatMap PoolEvent.shows)
  | stopped (o : StopOutcome) (hmain : s.main = .afterStop caller)
      (hm : Models s (workerPoolStop p o).pool) :
      Stopping p caller s (stopShown (workerPoolStop p o))

namespace Stopping

variable {p : WorkerPool} {caller : Caller} {s₀ s s' : State n} {cur : List (Event n)} {e : Event n}

theorem congr (h : Stopping p caller s cur) (hmain : s'.main = s.main)
    (hm : s'.markers = s.markers) (hb : s'.broken = s.broken) : Stopping p caller s' cur := by
  cases h with
  | request hreq hmodels => exact .request (hmain ▸ hreq) (hmodels.congr hm hb)
  | cancelling k hk hmodels => exact .cancelling k (hmain.trans hk) (hmodels.congr hm hb)
  | joining o k hk hj hmodels => exact .joining o k hk (hmain.trans hj) (hmodels.congr hm hb)
  | stopped o ho hmodels => exact .stopped o (hmain.trans ho) (hmodels.congr hm hb)

/-- The join loop begins. -/
theorem begin_join (hp : p.gateReady = true) (o : StopOutcome)
    (hmain : s.main = .join caller 0 true) (hm : Models s (exitPart p o).pool) :
    Stopping p caller s [.exitRequested o.exit] := by
  rw [← shows_exitPart p o hp]
  refine .joining o 0 (Nat.zero_le n) ?_ hm
  rw [hmain, joinFirst_ok, List.all_eq_true.mpr]
  intro ev hev
  rw [joinFirst, List.range_zero, List.foldl_nil, exitPart] at hev
  split at hev
  · obtain rfl : ev = _ := by simpa using hev
    rfl
  · rcases List.mem_cons.mp hev with rfl | hc
    · rfl
    · obtain ⟨i, -, rfl⟩ := List.mem_map.mp hc
      rfl

/-- One turn of the join loop, as `o` has it turn out. -/
theorem join_one {o : StopOutcome} {k : ℕ} (hk : k < n) {v : Bool}
    (hstarted : (joinFirst p o k).pool.started k = true)
    (hmain : s'.main = .join caller (k + 1) ((joinFirst p o k).ok && v))
    (hm : Models s' (if v then (joinFirst p o k).pool.setStarted k false
      else { (joinFirst p o k).pool with broken := true })) :
    Stopping p caller s' ((joinFirst p o k).log.flatMap PoolEvent.shows ++
      if v then [] else [.fault .join]) := by
  -- the outcome of this join is decided only now
  have hone : joinFirst p { o with join := Function.update o.join k v } (k + 1) =
      if v then ⟨(joinFirst p o k).ok, (joinFirst p o k).pool.setStarted k false,
          (joinFirst p o k).log ++ [.join k true]⟩
        else ⟨false, { (joinFirst p o k).pool with broken := true },
          (joinFirst p o k).log ++ [.join k false]⟩ := by
    rw [joinFirst_succ, joinFirst_update p o le_rfl, joinOne]
    simp only [hstarted, Bool.true_eq_false, if_false, Function.update_self]
    cases v <;> rfl
  have hshow : ((joinFirst p { o with join := Function.update o.join k v } (k + 1)).log.flatMap
      PoolEvent.shows : List (Event n)) = (joinFirst p o k).log.flatMap PoolEvent.shows ++
        if v then [] else [.fault .join] := by
    rw [hone]
    cases v <;> simp [PoolEvent.shows]
  rw [← hshow]
  refine .joining _ (k + 1) hk ?_ ?_
  · rw [hmain, hone]
    cases v <;> simp
  · rw [hone]
    cases v <;> exact hm

theorem step_request (hmain : s.main.requests caller) (hm : Models s p)
    (hs : MainStep s s.main e s') : Stopping p caller s' ([e].filter Event.shown) := by
  obtain ⟨g, workers, main, broken, retired⟩ := s
  cases hs with
  | exitLock | exitLockFails | setExit | exitBroadcast | exitBroadcastFails | exitUnlockFailed =>
    exact .request hmain (hm.congr rfl rfl)
  | exitUnlock c =>
    obtain rfl : c = caller := hmain
    have hexit : exitPart p ⟨true, fun _ => true⟩ = ⟨true, p, [.requestExit true]⟩ :=
      if_pos (.inr rfl)
    exact begin_join hm.ready ⟨true, fun _ => true⟩ rfl (by rw [hexit]; exact hm.congr rfl rfl)
  | storeExitFailed c =>
    obtain rfl : c = caller := hmain
    exact .cancelling 0 rfl (hm.poisoned rfl rfl)
  | _ => exact absurd hmain (by simp [MainPc.requests])

theorem step_cancelling {k : ℕ} (hmain : s.main = .cancelStarted caller k)
    (hm : Models s { p with broken := true }) (hs : MainStep s s.main e s') :
    Stopping p caller s' (.exitRequested false :: [e].filter Event.shown) := by
  obtain ⟨g, workers, main, broken, retired⟩ := s
  obtain rfl : main = .cancelStarted caller k := hmain
  cases hs with
  | cancel _ _ hk hstarted =>
    refine .cancelling (k + 1) rfl (hm.congr ?_ rfl)
    rw [State.markers_set hk rfl]
    exact Function.update_eq_self_iff.mpr (State.markers_lt _ hk).symm
  | cancelFails | cancelSkips => exact .cancelling (k + 1) rfl (hm.congr rfl rfl)
  | cancelled =>
    have hexit : exitPart p ⟨false, fun _ => true⟩ =
        ⟨true, { p with broken := true }, .requestExit false :: poolCancelStarted p⟩ := by
      rw [exitPart, if_neg (by simp [show p.gateReady = true from hm.ready])]
    have hready : p.gateReady = true := hm.ready
    refine begin_join hready ⟨false, fun _ => true⟩ rfl ?_
    rw [hexit]
    exact hm.congr rfl rfl

theorem step_joining (hp : Models s₀ p) {o : StopOutcome} {k : ℕ} (hk : k ≤ n)
    (hmain : s.main = .join caller k (joinFirst p o k).ok)
    (hm : Models s (joinFirst p o k).pool) (hs : MainStep s s.main e s') :
    Stopping p caller s' ((joinFirst p o k).log.flatMap PoolEvent.shows ++
      [e].filter Event.shown) := by
  obtain ⟨g, workers, main, broken, retired⟩ := s
  obtain rfl : main = _ := hmain
  cases hs with
  | join _ _ _ hlt how hstarted hended =>
    have hstart : (joinFirst p o k).pool.started k = true := by
      rw [hm.started, State.markers_lt _ hlt]
      exact hstarted
    refine join_one hlt (v := true) hstart (by simp [State.goto]) (hm.marked ?_ rfl)
    rw [State.markers_set hlt rfl]
  | joinFails _ _ _ hlt hstarted =>
    refine join_one hlt (v := false) ?_ (by simp) (hm.poisoned rfl rfl)
    rw [hm.started, State.markers_lt _ hlt]
    exact hstarted
  | joinSkips _ _ _ hlt hstarted =>
    have hskip : joinFirst p o (k + 1) = joinFirst p o k := by
      rw [joinFirst_succ, joinOne_skip]
      rw [hm.started, State.markers_lt _ hlt]
      exact hstarted
    rw [show [Event.tau].filter Event.shown = ([] : List (Event n)) from rfl, List.append_nil,
      ← hskip]
    refine .joining o (k + 1) hlt ?_ ?_
    · rw [hskip]
      rfl
    · rw [hskip]
      exact hm.congr rfl rfl
  | joined _ _ _ hle =>
    have hstop : workerPoolStop p o = joinFirst p o k := hp.stop_eq hm hle (hk.trans hp.room)
    have hlast : Stopping p caller (⟨g, workers, .afterStop caller, broken, retired⟩ : State n)
        (stopShown (workerPoolStop p o)) :=
      .stopped o rfl (by rw [hstop]; exact hm.congr rfl rfl)
    rw [stopShown, hstop] at hlast
    exact hlast

/-- A stop is neither the spawn loop nor the owner between two calls. -/
theorem not_spawning (h : Stopping p caller s cur) (j : ℕ) : s.main ≠ .spawn j := by
  intro hj
  cases h with
  | request hmain => simp [hj, MainPc.requests] at hmain
  | cancelling _ hmain | joining _ _ _ hmain | stopped _ hmain => simp [hj] at hmain

theorem not_idle (h : Stopping p caller s cur) : s.main ≠ .idle := by
  intro hidle
  cases h with
  | request hmain => simp [hidle, MainPc.requests] at hmain
  | cancelling _ hmain | joining _ _ _ hmain | stopped _ hmain => simp [hidle] at hmain

/-- One step of a stop: it goes on, or it returns as the record's stop does. -/
theorem step (hp : Models s₀ p) (h : Stopping p caller s cur) (hs : MainStep s s.main e s') :
    Stopping p caller s' (cur ++ [e].filter Event.shown) ∨
    ∃ o, s'.main = .idle ∧ Models s' (workerPoolStop p o).pool ∧
      cur = stopShown (workerPoolStop p o) ∧
      [e].filter Event.shown = if caller = .dispatch then [.ret false] else [] := by
  cases h with
  | request hmain hm => exact .inl (step_request hmain hm hs)
  | cancelling k hmain hm => exact .inl (step_cancelling hmain hm hs)
  | joining o k hk hmain hm => exact .inl (step_joining hp hk hmain hm hs)
  | stopped o hmain hm =>
    obtain ⟨g, workers, main, broken, retired⟩ := s
    obtain rfl : main = .afterStop caller := hmain
    refine .inr ⟨o, ?_⟩
    cases hs with
    | dispatchStopped => exact ⟨rfl, hm.congr rfl rfl, rfl, rfl⟩
    | stopped _ hcaller => exact ⟨rfl, hm.congr rfl rfl, rfl, (if_neg hcaller).symm⟩

end Stopping

/-! ### The start -/

/-- The pool record with its first `k` threads created. -/
def builtPool (m : ℤ) (allOrNothing : Bool) (k : ℕ) : WorkerPool :=
  { workerPoolConfig m allOrNothing with
    gateReady := true
    workers := true
    threads := some fun i => decide (i < k) }

/-- The threads created so far are the first `k`. -/
def State.Born (s : State n) (k : ℕ) : Prop :=
  ∀ i : Fin n, (s.workers i).pc = .unborn ↔ k ≤ i

/-- How many threads have been created. -/
def State.born (s : State n) : ℕ :=
  (Finset.univ.filter fun i => (s.workers i).pc ≠ .unborn).card

theorem State.Born.born_eq {s : State n} {k : ℕ} (h : s.Born k) (hk : k ≤ n) : s.born = k := by
  have hset : (Finset.univ.filter fun i : Fin n => (s.workers i).pc ≠ .unborn) =
      Finset.univ.filter fun i : Fin n => i.val < k :=
    Finset.filter_congr fun i _ => by rw [ne_eq, h i, not_le]
  rw [State.born, hset, Fin.card_filter_val_lt, min_eq_right hk]

/-- A gate of `n` workers is what a start of `m` slots comes to when `k` threads
could be created: all of the `n` that came up, or too few of the `m`. -/
def StartFits (n k : ℕ) (m : ℤ) (allOrNothing : Bool) : Prop :=
  (allOrNothing = true → m = n) ∧ (k < n → m = n ∧ (allOrNothing = true ∨ k = 0))

instance (n k : ℕ) (m : ℤ) (allOrNothing : Bool) : Decidable (StartFits n k m allOrNothing) :=
  inferInstanceAs (Decidable (_ ∧ _))

theorem builtPool_setStarted (m : ℤ) (allOrNothing : Bool) (k : ℕ) :
    (builtPool m allOrNothing k).setStarted k true = builtPool m allOrNothing (k + 1) := by
  unfold builtPool WorkerPool.setStarted
  simp only [Option.map_some, WorkerPool.mk.injEq, true_and, and_true, Option.some.injEq]
  funext i
  by_cases hik : i = k
  · simp [hik]
  · rw [Function.update_of_ne hik, decide_eq_decide]
    omega

theorem poolConstructFrom_built (m : ℤ) (allOrNothing : Bool) {k : ℕ} (o : StopOutcome) (j : ℕ)
    {i : ℕ} (hi : i ≤ k) :
    ∃ log, poolConstructFrom (createsBelow k o) j i (builtPool m allOrNothing i) =
        (min (i + j) k, builtPool m allOrNothing (min (i + j) k), log) ∧
      log.flatMap PoolEvent.shows = ([] : List (Event n)) ∧ log.all PoolEvent.joined = true := by
  induction j generalizing i with
  | zero => exact ⟨[], by simp [poolConstructFrom, min_eq_left hi], rfl, rfl⟩
  | succ j ih =>
    rw [poolConstructFrom]
    by_cases hik : i < k
    · have hone : poolConstructOne (builtPool m allOrNothing i) i (createsBelow k o) =
          ⟨true, builtPool m allOrNothing (i + 1), [.construct i true, .spawn i true]⟩ := by
        rw [← builtPool_setStarted]
        simp [poolConstructOne, createsBelow, builtPool, workerPoolConfig, hik]
      obtain ⟨log, hrest, hshow, hjoined⟩ := ih (i := i + 1) hik
      rw [hone]
      refine ⟨[.construct i true, .spawn i true] ++ log, ?_, ?_, ?_⟩
      · simp only [Bool.true_eq_false, if_false, hrest]
        rw [show i + 1 + j = i + (j + 1) by omega]
      · rw [List.flatMap_append, hshow]
        rfl
      · rw [List.all_append, hjoined]
        rfl
    · obtain rfl : i = k := by omega
      have hone : poolConstructOne (builtPool m allOrNothing i) i (createsBelow i o) =
          ⟨false, builtPool m allOrNothing i,
            [.construct i true, .spawn i false, .release i]⟩ := by
        simp [poolConstructOne, createsBelow, builtPool, workerPoolConfig]
      rw [hone]
      exact ⟨[.construct i true, .spawn i false, .release i], by simp, rfl, rfl⟩

section Start

variable {m : ℤ} {allOrNothing : Bool} {k : ℕ} {o : StopOutcome}

theorem poolSetup_config (h2 : 2 ≤ m) (h64 : m ≤ 64) :
    poolSetup (workerPoolConfig m allOrNothing) (createsBelow k o) =
      ⟨true, builtPool m allOrNothing 0, [.prepare true]⟩ := by
  have hrange : ¬ (m < 1 ∨ m > threadsMax) := by
    unfold threadsMax
    omega
  have hone : m ≠ 1 := by omega
  simp [poolSetup, poolAlloc, createsBelow, workerPoolConfig, builtPool, hrange, hone]

theorem poolConstructAll_built (m : ℤ) (allOrNothing : Bool) (o : StopOutcome) (hkm : k ≤ m.toNat) :
    ∃ log, poolConstructAll (builtPool m allOrNothing 0) (createsBelow k o) =
        (k, builtPool m allOrNothing k, log) ∧
      log.flatMap PoolEvent.shows = ([] : List (Event n)) ∧ log.all PoolEvent.joined = true := by
  have h := poolConstructFrom_built (n := n) m allOrNothing o m.toNat (Nat.zero_le k)
  rw [Nat.zero_add, min_eq_right hkm] at h
  exact h

theorem poolBuildOk_built : poolBuildOk (builtPool m allOrNothing k) k =
    (decide (k ≠ 0) && (!allOrNothing || decide (m ≤ k))) := by
  by_cases hk : k = 0 <;> simp [poolBuildOk, builtPool, workerPoolConfig, hk]

theorem start_up (h2 : 2 ≤ m) (h64 : m ≤ 64) (hk : 0 < k) (hkm : k ≤ m)
    (hall : allOrNothing = true → m = k) :
    let c := workerPoolStart (workerPoolConfig m allOrNothing) (createsBelow k o)
    c.ok = true ∧ c.pool = { builtPool m allOrNothing k with nWorkers := k } ∧
      startShown c = ([] : List (Event n)) := by
  obtain ⟨log, hbuild, hshow, -⟩ := poolConstructAll_built (n := n) (k := k) m
    allOrNothing o (by omega)
  have hok : poolBuildOk (builtPool m allOrNothing k) k = true := by
    rw [poolBuildOk_built, Bool.and_eq_true, Bool.or_eq_true, decide_eq_true_eq,
      decide_eq_true_eq]
    refine ⟨by omega, ?_⟩
    cases allOrNothing
    · exact .inl rfl
    · exact .inr (hall rfl).le
  intro c
  have hc : c = ⟨true, { builtPool m allOrNothing k with nWorkers := k },
      [.prepare true] ++ log ++ [.finalize k]⟩ := by
    simp only [c, workerPoolStart, poolSetup_config h2 h64, hbuild, hok, Bool.true_eq_false,
      if_false]
  rw [hc]
  refine ⟨rfl, rfl, ?_⟩
  simp [startShown, hshow, PoolEvent.shows]

/-- A failed start keeps what its stop leaves, and releases the slots when that
stop joined every thread. -/
theorem poolRetireFailedStart_built (m : ℤ) (allOrNothing : Bool) (k : ℕ) (o : StopOutcome) :
    let stop := workerPoolStop { builtPool m allOrNothing k with nWorkers := k } o
    let r := poolRetireFailedStart (builtPool m allOrNothing k) k o
    (r.1 = stop.pool ∨ r.1 = { stop.pool with nWorkers := 0 }) ∧
      r.2.flatMap PoolEvent.shows = (stop.log.flatMap PoolEvent.shows : List (Event n)) ∧
      r.2.all PoolEvent.joined = stop.ok := by
  intro stop r
  have hjoin : stop.ok = stop.log.all PoolEvent.joined := by
    have heq : stop = joinFirst { builtPool m allOrNothing k with nWorkers := k } o m.toNat :=
      workerPoolStop_eq rfl o
    rw [heq]
    exact joinFirst_ok _ o m.toNat
  have hrelease : (poolReleaseSlots k).flatMap PoolEvent.shows = ([] : List (Event n)) := by
    rw [poolReleaseSlots, List.flatMap_map]
    exact List.flatMap_eq_nil_iff.mpr fun _ _ => rfl
  have hreleased : (poolReleaseSlots k).all PoolEvent.joined = true := by
    simp [poolReleaseSlots, PoolEvent.joined]
  have hr : r = if stop.ok = false then (stop.pool, stop.log)
      else ({ stop.pool with nWorkers := 0 }, stop.log ++ poolReleaseSlots k) := rfl
  rw [hr]
  split
  · exact ⟨.inl rfl, rfl, hjoin.symm⟩
  · refine ⟨.inr rfl, ?_, ?_⟩
    · rw [List.flatMap_append, hrelease, List.append_nil]
    · rw [List.all_append, hreleased, Bool.and_true, hjoin]

theorem start_failed (h2 : 2 ≤ m) (h64 : m ≤ 64) (hkm : k < m)
    (hall : allOrNothing = true ∨ k = 0) :
    let c := workerPoolStart (workerPoolConfig m allOrNothing) (createsBelow k o)
    c.ok = false ∧ c.pool = (poolRetireFailedStart (builtPool m allOrNothing k) k o).1 ∧
      startShown c = (stopShown (workerPoolStop
        { builtPool m allOrNothing k with nWorkers := k } o) : List (Event n)) := by
  obtain ⟨log, hbuild, hshow, hjoined⟩ := poolConstructAll_built (n := n) (k := k) m
    allOrNothing o (by omega)
  have hok : poolBuildOk (builtPool m allOrNothing k) k = false := by
    rw [poolBuildOk_built]
    rcases hall with rfl | rfl
    · simp [show ¬ m ≤ k by omega]
    · rfl
  intro c
  obtain ⟨-, hshown, hjoin⟩ := poolRetireFailedStart_built (n := n) m allOrNothing k o
  have hc : c = ⟨false, (poolRetireFailedStart (builtPool m allOrNothing k) k o).1,
      [.prepare true] ++ log ++ (poolRetireFailedStart (builtPool m allOrNothing k) k o).2⟩ := by
    simp only [c, workerPoolStart, poolSetup_config h2 h64, hbuild, hok, Bool.true_eq_false,
      if_false, if_true]
    rfl
  rw [hc]
  refine ⟨rfl, rfl, ?_⟩
  simp only [startShown, stopShown, List.flatMap_append, List.all_append, hshow, hjoined, hshown,
    hjoin, Bool.false_eq_true, if_false]
  rfl

end Start

/-! ### What each thread's step does to the record -/

/-- A step that the pool record does not see. -/
structure Unseen (s : State n) (e : Event n) (s' : State n) : Prop where
  markers : s'.markers = s.markers
  broken : s'.broken = s.broken
  hidden : [e].filter Event.shown = []

theorem WorkerStep.hidden {i : Fin n} {g g' : Gate n} {w w' : Worker} {pc : WorkerPc}
    {e : Event n} (h : WorkerStep i g w pc e g' w') : [e].filter Event.shown = [] := by
  cases h <;> rfl

/-- No step of a worker starts, joins, or breaks anything. -/
theorem workerNext_unseen {s : State n} {i : Fin n} {c : Choice} {e : Event n} {g' : Gate n}
    {w' : Worker} (h : workerNext i s.gate (s.workers i) c = some (e, g', w')) :
    Unseen s e { s with gate := g', workers := Function.update s.workers i w' } := by
  refine ⟨?_, rfl, (workerNext_step h).hidden⟩
  rw [State.markers_set i.isLt rfl, (workerNext_frame h).started]
  exact Function.update_eq_self_iff.mpr (State.markers_lt s i.isLt).symm

/-- The main thread is inside `up_worker_pool_dispatch`, before any poisoning. -/
def MainPc.dispatching : MainPc → Prop
  | .lockGo | .arm | .broadcast | .unlockGo _ | .storeGoFailed | .loadFailed | .readClock
  | .lockDone | .testFailed | .testPending | .timedWait | .timedWaiting | .relockDone _
  | .testTimedOut | .unlockDone _ | .finalPending | .finalFailed => True
  | _ => False

/-- A dispatch goes on, gives up and poisons the pool, or returns. -/
theorem MainStep.dispatching {s s' : State n} {e : Event n} (hs : MainStep s s.main e s')
    (hmain : s.main.dispatching) :
    (s'.main.dispatching ∧ Unseen s e s') ∨
    (s'.main = .exitLock .dispatch ∧ s'.markers = s.markers ∧ s'.broken = true ∧
      [e].filter Event.shown = []) ∨
    (s'.main = .idle ∧ s'.markers = s.markers ∧ s'.broken = s.broken ∧ e = .ret true) := by
  obtain ⟨g, workers, main, broken, retired⟩ := s
  cases hs with
  | lockGoFails | storeGoFailed | loadFailed | readClockFails | lockDoneFails | unlockDoneFailed
  | finalPending | finalFailed => exact .inr (.inl ⟨rfl, rfl, rfl, rfl⟩)
  | «return» => exact .inr (.inr ⟨rfl, rfl, rfl, rfl⟩)
  | lockGo | arm | broadcast | broadcastFails | unlockGo | unlockGoFailed | loadHealthy
  | readClock | lockDone | testFailed | testHealthy | testNonePending | testPending | timedWait
  | timedWaitFails | wake | wakeSpurious | timeout | wakeFailed | relockWoken | relockTimedOut
  | relockFailed | testTimedOut | unlockDone | finalNonePending =>
    exact .inl ⟨trivial, rfl, rfl, rfl⟩
  | _ => exact hmain.elim

/-- Only the spawn loop brings a thread into being. -/
theorem State.Born.main_step {s s' : State n} {c : Choice} {e : Event n} {k : ℕ} (h : s.Born k)
    (hm : mainNext s c = some (e, s')) (hspawn : ∀ j : Fin n, s.main ≠ .spawn j) : s'.Born k := by
  have hkeep : (∀ i, (s'.workers i).pc = (s.workers i).pc) → s'.Born k := by
    intro hpc i
    rw [hpc, h i]
  cases mainNext_move hm with
  | spawn j _ _ _ _ _ _ _ hmain => exact absurd hmain (hspawn j)
  | arm _ _ _ _ hworkers => exact hkeep fun i => by rw [hworkers]
  | quiet _ hsame | start _ _ hsame | call _ _ hsame | count _ _ _ hsame | «return» _ _ hsame
  | stop _ _ hsame | stopped _ _ hsame => exact hkeep hsame.pc

theorem State.Born.worker_step {s : State n} {i : Fin n} {c : Choice} {e : Event n} {g' : Gate n}
    {w' : Worker} {k : ℕ} (h : s.Born k)
    (hw : workerNext i s.gate (s.workers i) c = some (e, g', w')) :
    ({ s with gate := g', workers := Function.update s.workers i w' } : State n).Born k := by
  intro j
  by_cases hj : j = i
  · subst hj
    have hborn : (s.workers j).pc ≠ .unborn := by
      intro hpc
      have hstep := workerNext_step hw
      rw [hpc] at hstep
      cases hstep
    rw [← h j]
    simp only [Function.update_self]
    exact iff_of_false (workerNext_frame hw).born hborn
  · rw [← h j]
    simp only [Function.update_of_ne hj]

/-! ### The simulation -/

/-- The pool a stop called from `caller` begins with. -/
def Caller.enter (p : WorkerPool) : Caller → WorkerPool
  | .destroy => p
  | _ => { p with broken := true }

def Caller.opening : Caller → List (Event n)
  | .dispatch => [.dispatch]
  | _ => []

/-- The call of the record that ends in such a stop. -/
def Caller.call (o : StopOutcome) : Caller → GateCall
  | .dispatch => .dispatch false o
  | .poison => .poison o
  | .destroy => .stop o

theorem Caller.call_pool {p : WorkerPool} (hp : p.inlineRun = false) (o : StopOutcome)
    (caller : Caller) :
    (gateCall p (caller.call o)).pool = (workerPoolStop (caller.enter p) o).pool := by
  cases caller with
  | dispatch =>
    simp only [Caller.call, gateCall, workerPoolDispatch, hp, Bool.false_eq_true, if_false]
    rfl
  | _ => rfl

theorem Caller.call_shown (p : WorkerPool) (o : StopOutcome) (caller : Caller) :
    ((caller.call o).shown p : List (Event n)) = caller.opening ++
      stopShown (workerPoolStop (caller.enter p) o) ++
      if caller = .dispatch then [.ret false] else [] := by
  cases caller with
  | dispatch => rfl
  | _ =>
    simp only [Caller.opening, List.nil_append, reduceCtorEq, if_false, List.append_nil]
    rfl

/-- A start of which `k` threads came up, and the calls since, leave `p` and show `L`. -/
def ComesTo (m : ℤ) (allOrNothing : Bool) (k : ℕ) (p : WorkerPool) (L : List (Event n)) : Prop :=
  StartFits n k m allOrNothing → ∃ o calls,
    let c := workerPoolStart (workerPoolConfig m allOrNothing) (createsBelow k o)
    c.ok = decide (k = n) ∧ p = poolAfterCalls c.pool calls ∧
      L = startShown c ++ callsShown c.pool calls

theorem ComesTo.call {m : ℤ} {allOrNothing : Bool} {k : ℕ} {p : WorkerPool} {L : List (Event n)}
    (h : ComesTo m allOrNothing k p L) (d : GateCall) :
    ComesTo m allOrNothing k (gateCall p d).pool (L ++ d.shown p) := by
  intro hfit
  obtain ⟨o, calls, hok, rfl, rfl⟩ := h hfit
  exact ⟨o, calls ++ [d], hok, (poolAfterCalls_snoc _ _ _).symm,
    by rw [callsShown_snoc, List.append_assoc]⟩

/-- A run so far and its state, against the start and the calls it comes to. -/
inductive Follows (m : ℤ) (allOrNothing : Bool) (tr : List (Event n)) (s : State n) : Prop
  | spawning (k : ℕ) (hk : k ≤ n) (hborn : s.Born k) (hmain : s.main = .spawn k)
      (hm : Models s (builtPool m allOrNothing k)) (htr : tr.filter Event.shown = [])
  | retiring (k : ℕ) (hk : k < n) (hborn : s.Born k) (s₀ : State n)
      (hp : Models s₀ { builtPool m allOrNothing k with nWorkers := k })
      (hstop : Stopping { builtPool m allOrNothing k with nWorkers := k } .destroy s
        (tr.filter Event.shown))
  | idle (k : ℕ) (hk : k ≤ n) (hborn : s.Born k) (p : WorkerPool)
      (hcalls : ComesTo m allOrNothing k p (tr.filter Event.shown)) (hmain : s.main = .idle)
      (hm : Models s p)
  | dispatching (k : ℕ) (hk : k ≤ n) (hborn : s.Born k) (p : WorkerPool) (L : List (Event n))
      (hcalls : ComesTo m allOrNothing k p L) (hmain : s.main.dispatching) (hm : Models s p)
      (htr : tr.filter Event.shown = L ++ [.dispatch])
  | stopping (k : ℕ) (hk : k ≤ n) (hborn : s.Born k) (p : WorkerPool) (L cur : List (Event n))
      (caller : Caller) (hcalls : ComesTo m allOrNothing k p L) (s₀ : State n)
      (hthreaded : p.inlineRun = false) (hp : Models s₀ (caller.enter p))
      (hstop : Stopping (caller.enter p) caller s cur)
      (htr : tr.filter Event.shown = L ++ caller.opening ++ cur)

namespace Follows

variable {m : ℤ} {allOrNothing : Bool} {tr : List (Event n)} {s s' : State n} {e : Event n}

theorem worker_step (h : Follows m allOrNothing tr s) {i : Fin n} {c : Choice} {g' : Gate n}
    {w' : Worker} (hw : workerNext i s.gate (s.workers i) c = some (e, g', w')) :
    Follows m allOrNothing (tr ++ [e])
      { s with gate := g', workers := Function.update s.workers i w' } := by
  obtain ⟨hmarkers, hbroken, hhidden⟩ := workerNext_unseen hw
  have htrace : (tr ++ [e]).filter Event.shown = tr.filter Event.shown := by
    rw [List.filter_append, hhidden, List.append_nil]
  cases h with
  | spawning k hk hborn hmain hm htr =>
    exact .spawning k hk (hborn.worker_step hw) hmain (hm.congr hmarkers hbroken)
      (htrace.trans htr)
  | retiring k hk hborn s₀ hp hstop =>
    refine .retiring k hk (hborn.worker_step hw) s₀ hp ?_
    rw [htrace]
    exact hstop.congr rfl hmarkers hbroken
  | idle k hk hborn p hcalls hmain hm =>
    refine .idle k hk (hborn.worker_step hw) p ?_ hmain (hm.congr hmarkers hbroken)
    rw [htrace]
    exact hcalls
  | dispatching k hk hborn p L hcalls hmain hm htr =>
    exact .dispatching k hk (hborn.worker_step hw) p L hcalls hmain (hm.congr hmarkers hbroken)
      (htrace.trans htr)
  | stopping k hk hborn p L cur caller hcalls s₀ hthreaded hp hstop htr =>
    exact .stopping k hk (hborn.worker_step hw) p L cur caller hcalls s₀ hthreaded hp
      (hstop.congr rfl hmarkers hbroken) (htrace.trans htr)

theorem filter_snoc (tr : List (Event n)) (e : Event n) :
    (tr ++ [e]).filter Event.shown = tr.filter Event.shown ++ [e].filter Event.shown :=
  List.filter_append ..

/-- The spawn loop creates the next thread, gives up, or is through. -/
theorem spawning_step {k : ℕ} {c : Choice} (h2 : 2 ≤ m) (h64 : m ≤ 64) (hn : 0 < n)
    (hnm : n ≤ m) (hk : k ≤ n) (hborn : s.Born k) (hmain : s.main = .spawn k)
    (hm : Models s (builtPool m allOrNothing k)) (htr : tr.filter Event.shown = [])
    (hs : mainNext s c = some (e, s')) : Follows m allOrNothing (tr ++ [e]) s' := by
  have hnext := hborn.main_step hs
  have hstep := mainNext_step hs
  obtain ⟨g, workers, main, broken, retired⟩ := s
  obtain rfl : main = .spawn k := hmain
  cases hstep with
  | spawn _ hlt =>
    refine .spawning (k + 1) hlt ?_ rfl ?_ (by rw [filter_snoc, htr]; rfl)
    · intro i
      by_cases hi : i = ⟨k, hlt⟩
      · subst hi
        simp [State.goto, State.setWorker]
      · have hne : i.val ≠ k := fun hval => hi (Fin.ext hval)
        simp only [State.goto, State.setWorker, Function.update_of_ne hi]
        rw [hborn i]
        omega
    · rw [← builtPool_setStarted]
      refine hm.marked ?_ rfl
      rw [State.markers_set hlt rfl]
  | spawnFails _ hlt =>
    refine .retiring k hlt hborn _ (hm.nWorkers k) ?_
    rw [filter_snoc, htr]
    exact .request rfl ((hm.nWorkers k).congr rfl rfl)
  | spawned _ hle =>
    obtain rfl : k = n := le_antisymm hk hle
    refine .idle k hk hborn { builtPool m allOrNothing k with nWorkers := k } ?_ rfl
      ((hm.nWorkers k).congr rfl rfl)
    intro hfit
    obtain ⟨hok, hpool, hshown⟩ := start_up (n := k) (o := ⟨true, fun _ => true⟩) h2 h64 hn hnm
      hfit.1
    refine ⟨⟨true, fun _ => true⟩, [], by simp [hok], by rw [hpool]; rfl, ?_⟩
    rw [filter_snoc, htr, hshown]
    rfl

theorem idle_step {k : ℕ} {p : WorkerPool} (hk : k ≤ n) (hborn : s'.Born k)
    (hcalls : ComesTo m allOrNothing k p (tr.filter Event.shown)) (hmain : s.main = .idle)
    (hm : Models s p) (hs : MainStep s s.main e s') : Follows m allOrNothing (tr ++ [e]) s' := by
  obtain ⟨g, workers, main, broken, retired⟩ := s
  obtain rfl : main = .idle := hmain
  cases hs with
  | dispatch =>
    exact .dispatching k hk hborn p _ hcalls trivial (hm.congr rfl rfl) (filter_snoc _ _)
  | poison =>
    have hp : Models (State.poison ⟨g, workers, .idle, broken, retired⟩ .poison)
        (Caller.enter p .poison) := hm.poisoned rfl rfl
    refine .stopping k hk hborn p _ [] .poison hcalls _ hm.threaded hp (.request rfl hp) ?_
    rw [filter_snoc, List.append_nil]
    rfl
  | destroy =>
    have hp : Models (⟨g, workers, .exitLock .destroy, broken, true⟩ : State n) p :=
      hm.congr rfl rfl
    refine .stopping k hk hborn p _ [] .destroy hcalls _ hm.threaded hp (.request rfl hp) ?_
    rw [filter_snoc, List.append_nil]
    rfl

theorem dispatching_step {k : ℕ} {p : WorkerPool} {L : List (Event n)} (hk : k ≤ n)
    (hborn : s'.Born k) (hcalls : ComesTo m allOrNothing k p L) (hmain : s.main.dispatching)
    (hm : Models s p) (htr : tr.filter Event.shown = L ++ [.dispatch])
    (hs : MainStep s s.main e s') : Follows m allOrNothing (tr ++ [e]) s' := by
  rcases hs.dispatching hmain with ⟨hmain', hmarkers, hbroken, hhidden⟩ |
    ⟨hmain', hmarkers, hbroken, hhidden⟩ | ⟨hmain', hmarkers, hbroken, rfl⟩
  · refine .dispatching k hk hborn p L hcalls hmain' (hm.congr hmarkers hbroken) ?_
    rw [filter_snoc, hhidden, List.append_nil, htr]
  · have hp : Models s' (Caller.enter p .dispatch) := hm.poisoned hmarkers hbroken
    refine .stopping k hk hborn p L [] .dispatch hcalls s' hm.threaded hp
      (.request (by rw [hmain']; rfl) hp) ?_
    rw [filter_snoc, hhidden, List.append_nil, List.append_nil, htr]
    rfl
  · have hret : gateCall p (.dispatch true ⟨true, fun _ => true⟩) = ⟨true, p, []⟩ := by
      simp only [gateCall, workerPoolDispatch, hm.threaded, Bool.false_eq_true, if_false, if_true]
    have hnext := hcalls.call (.dispatch true ⟨true, fun _ => true⟩)
    rw [hret] at hnext
    refine .idle k hk hborn p ?_ hmain' (hm.congr hmarkers hbroken)
    rw [filter_snoc, htr, List.append_assoc]
    exact hnext

theorem stopping_step {k : ℕ} {p : WorkerPool} {L cur : List (Event n)} {caller : Caller}
    {s₀ : State n} (hk : k ≤ n) (hborn : s'.Born k) (hcalls : ComesTo m allOrNothing k p L)
    (hthreaded : p.inlineRun = false) (hp : Models s₀ (caller.enter p))
    (hstop : Stopping (caller.enter p) caller s cur)
    (htr : tr.filter Event.shown = L ++ caller.opening ++ cur) (hs : MainStep s s.main e s') :
    Follows m allOrNothing (tr ++ [e]) s' := by
  rcases hstop.step hp hs with hstop' | ⟨o, hmain', hm', rfl, hclose⟩
  · refine .stopping k hk hborn p L _ caller hcalls s₀ hthreaded hp hstop' ?_
    rw [filter_snoc, htr, List.append_assoc]
  · have hnext := hcalls.call (caller.call o)
    rw [← caller.call_pool hthreaded] at hm'
    refine .idle k hk hborn _ ?_ hmain' hm'
    rw [filter_snoc, htr, hclose]
    rw [caller.call_shown] at hnext
    simpa only [List.append_assoc] using hnext

theorem retiring_step {k : ℕ} {s₀ : State n} (h2 : 2 ≤ m) (h64 : m ≤ 64) (hnm : n ≤ m)
    (hk : k < n) (hborn : s'.Born k)
    (hp : Models s₀ { builtPool m allOrNothing k with nWorkers := k })
    (hstop : Stopping { builtPool m allOrNothing k with nWorkers := k } .destroy s
      (tr.filter Event.shown)) (hs : MainStep s s.main e s') :
    Follows m allOrNothing (tr ++ [e]) s' := by
  rcases hstop.step hp hs with hstop' | ⟨o, hmain', hm', hcur, hclose⟩
  · exact .retiring k hk hborn s₀ hp (by rw [filter_snoc]; exact hstop')
  · obtain ⟨hpool, -, -⟩ := poolRetireFailedStart_built (n := n) m allOrNothing k o
    refine .idle k hk.le hborn (poolRetireFailedStart (builtPool m allOrNothing k) k o).1 ?_
      hmain' ?_
    · intro hfit
      obtain ⟨hok, hstart, hshown⟩ := start_failed (n := n) (o := o) h2 h64
        (show (k : ℤ) < m by omega) (hfit.2 hk).2
      refine ⟨o, [], ?_, hstart.symm, ?_⟩
      · rw [hok, decide_eq_false hk.ne]
      · rw [filter_snoc, hcur, hclose, hshown]
        rfl
    · rcases hpool with hpool | hpool <;> rw [hpool]
      · exact hm'
      · exact hm'.nWorkers 0

/-- **The simulation step.** -/
theorem step (h2 : 2 ≤ m) (h64 : m ≤ 64) (hn : 0 < n) (hnm : n ≤ m)
    (h : Follows m allOrNothing tr s) (hs : s.step e s') :
    Follows m allOrNothing (tr ++ [e]) s' := by
  rcases State.step_cases hs with ⟨i, c, g', w', hw, rfl⟩ | ⟨c, hc⟩
  · exact h.worker_step hw
  have hborn' : ∀ {k}, s.Born k → (∀ j, s.main ≠ .spawn j) → s'.Born k :=
    fun hborn hne => hborn.main_step hc fun j => hne j
  have hstep := mainNext_step hc
  cases h with
  | spawning k hk hborn hmain hm htr =>
    exact spawning_step h2 h64 hn hnm hk hborn hmain hm htr hc
  | retiring k hk hborn s₀ hp hstop =>
    exact retiring_step h2 h64 hnm hk (hborn' hborn hstop.not_spawning) hp hstop hstep
  | idle k hk hborn p hcalls hmain hm =>
    exact idle_step hk (hborn' hborn (by simp [hmain])) hcalls hmain hm hstep
  | dispatching k hk hborn p L hcalls hmain hm htr =>
    refine dispatching_step hk (hborn' hborn ?_) hcalls hmain hm htr hstep
    intro j hj
    rw [hj] at hmain
    exact hmain
  | stopping k hk hborn p L cur caller hcalls s₀ hthreaded hp hstop htr =>
    exact stopping_step hk (hborn' hborn hstop.not_spawning) hcalls hthreaded hp hstop htr hstep

end Follows

/-- **The gate refines the lifecycle model.**  Whenever the owner has the pool
to itself, the run so far is a start and a sequence of calls of the lifecycle
model for some outcome of each exit request and join: the start succeeded
exactly when every thread came up, the record after the calls is the pool's,
and the owner saw what the calls show. -/
theorem gate_refines_lifecycle {tr : List (Event n)} {s : State n} {m : ℤ}
    {allOrNothing : Bool} (hn : 0 < n) (hnm : n ≤ m) (h2 : 2 ≤ m) (h64 : m ≤ 64)
    (h : PoolRun n tr s) (hidle : s.main = .idle) (hfit : StartFits n s.born m allOrNothing) :
    ∃ o calls,
      let c := workerPoolStart (workerPoolConfig m allOrNothing) (createsBelow s.born o)
      c.ok = decide (s.born = n) ∧ Models s (poolAfterCalls c.pool calls) ∧
        tr.filter Event.shown = startShown c ++ callsShown c.pool calls := by
  have hinit : Follows m allOrNothing [] (State.initial n) := by
    refine .spawning 0 (Nat.zero_le n) (fun i => by simp [State.initial]) rfl ?_ rfl
    refine ⟨rfl, rfl, ?_, by simp only [builtPool, workerPoolConfig]; omega, rfl⟩
    have hmarkers : (State.initial n).markers = fun i => decide (i < 0) := by
      funext i
      simp [State.markers, State.initial]
    rw [hmarkers]
    rfl
  have hfollows := h.history (P := fun _ => True) (I := Follows m allOrNothing)
    (fun hI hstep _ => hI.step h2 h64 hn hnm hstep) (fun _ _ => trivial) hinit
  cases hfollows with
  | idle k hk hborn p hcalls hmain hm =>
    rw [hborn.born_eq hk] at hfit ⊢
    obtain ⟨o, calls, hok, rfl, hL⟩ := hcalls hfit
    exact ⟨o, calls, hok, hm, hL⟩
  | spawning _ _ _ hmain => exact absurd (hmain.symm.trans hidle) (by simp)
  | retiring _ _ _ _ _ hstop | stopping _ _ _ _ _ _ _ _ _ _ _ hstop =>
    exact absurd hidle hstop.not_idle
  | dispatching _ _ _ _ _ _ hmain =>
    rw [hidle] at hmain
    exact hmain.elim

/-- A dispatch whose broadcast fails: the pool is poisoned, both workers run
what was armed, and the main thread joins them. -/
theorem gate_refines_lifecycle_failedBroadcast :
    ∃ tr s o calls, PoolRun 2 tr s ∧
      (callsShown (workerPoolStart (workerPoolConfig 2 true) (createsBelow 2 o)).pool calls :
        List (Event 2)) = [.dispatch, .exitRequested true, .stopped true, .ret false] ∧
      Models s (poolAfterCalls
        (workerPoolStart (workerPoolConfig 2 true) (createsBelow 2 o)).pool calls) := by
  have hall : (execute State.next (State.initial 2)
      (failedBroadcast ++ runs .main 1 ++ drain ++ runs .main 1)).any (fun r =>
        decide (r.2.main = .idle ∧ r.2.born = 2 ∧ r.1.filter Event.shown =
          [.dispatch, .exitRequested true, .stopped true, .ret false])) = true := by decide
  obtain ⟨⟨tr, s⟩, hexec, h⟩ := (Option.any_eq_true _ _).mp hall
  obtain ⟨hidle, hborn, hshown⟩ := of_decide_eq_true h
  have hrun : PoolRun 2 tr s := execute_sound hexec
  obtain ⟨o, calls, -, hmodels, htr⟩ := gate_refines_lifecycle (by decide)
    (by decide) (by decide) (by decide) hrun hidle
    (show StartFits 2 s.born 2 true by rw [hborn]; decide)
  simp only [hborn] at hmodels htr
  obtain ⟨-, -, hstart⟩ := start_up (n := 2) (o := o) (by decide) (by decide) (by decide)
    (by decide) (show true = true → (2 : ℤ) = (2 : ℕ) from fun _ => rfl)
  refine ⟨tr, s, o, calls, hrun, ?_, hmodels⟩
  rw [← hshown, htr, hstart, List.nil_append]

end AutoUpscale
