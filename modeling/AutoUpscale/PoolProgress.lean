/-
Every call of the pool comes to its end.

`no_lost_wakeup` says that some thread can go on; here is why going on leads
somewhere.  A thread at a program counter can make so many steps, its *rank*,
before it sleeps or ends; waking it, arming the gate and starting a call bring in
new rank, and nothing else does.

- `State.step_rank`: each step but a spurious wakeup is paid for.
- `gate_steps_bounded`: so the steps of a run are bounded by the calls made in it.
- `dispatch_returns`, `stop_returns`: a dispatch, and a stop, cannot be outstanding
  for more than a number of steps linear in the workers; in a run without failing
  calls it meanwhile never gets stuck, and it ends well.
-/
import AutoUpscale.PoolWakeup

namespace AutoUpscale

open LabelledTrace

variable {n : ℕ}

/-! ### Ranks -/

/-- The steps a worker can make before it sleeps or ends, a notification counting
for the five it allows the main thread.  `asleep` is a blocked condition wait. -/
def WorkerPc.rank (asleep : Bool) : WorkerPc → ℕ
  | .unborn | .ended _ => 0
  | .unlockFailed | .cancelUnlock | .unlockGate false => 1
  | .notifyUnlock .failHolding _ | .notifyUnlock .failFree _ | .reacquire .cancelled
  | .readGeneration => 2
  | .notifySignal .failHolding | .notifySignal .failFree => 8
  | .notifyLock .failHolding | .notifyLock .failFree => 9
  | .report _ => 10
  | .disableCancel _ => 11
  | .reacquire .failed => 12
  | .waiting => if asleep then 13 else 17
  | .condWait => 14
  | .testGo => 15
  | .enableCancel | .reacquire .woken => 16
  | .lockGate => 17
  | .disableAtStart | .storeSyncFailed => 18
  | .notifyUnlock .workerDone _ => 19
  | .notifySignal .workerDone => 25
  | .notifyLock .workerDone => 26
  | .fetchSub => 27
  | .running => 28
  | .callRun => 29
  | .unlockGate true => 30

/-- A generation the worker has not seen is one more round to make. -/
def Worker.unseen (w : Worker) (g : Gate n) : ℕ :=
  if g.generation = w.seenGen then 0 else 29

def Worker.rank (w : Worker) (g : Gate n) (i : Fin n) : ℕ :=
  w.pc.rank (decide (i ∈ g.goWaiters)) + w.unseen g

/-- The steps the main thread can make before it is between two calls, with what it
brings to the workers and with the next stop paid for. -/
def MainPc.rank (n : ℕ) (asleep : Bool) : MainPc → ℕ
  | .spawn k => 19 * (n - k) + 6 * n + 9
  | .idle => 6 * n + 8
  | .lockGo => 39 * n + 24
  | .arm => 39 * n + 23
  | .broadcast => 10 * n + 22
  | .unlockGo _ => 6 * n + 21
  | .storeGoFailed => 6 * n + 8
  | .loadFailed => 6 * n + 20
  | .readClock => 6 * n + 19
  | .lockDone => 6 * n + 18
  | .testFailed => 6 * n + 17
  | .testPending => 6 * n + 16
  | .timedWait => 6 * n + 15
  | .timedWaiting => if asleep then 6 * n + 14 else 6 * n + 19
  | .relockDone .woken => 6 * n + 18
  | .relockDone .timedOut => 6 * n + 13
  | .relockDone .failed => 6 * n + 9
  | .testTimedOut => 6 * n + 12
  | .unlockDone true => 6 * n + 11
  | .unlockDone false => 6 * n + 8
  | .finalPending => 6 * n + 10
  | .finalFailed => 6 * n + 9
  | .exitLock _ => 6 * n + 7
  | .setExit _ => 6 * n + 6
  | .exitBroadcast _ => 6 * n + 5
  | .exitUnlock _ _ => 2 * n + 4
  | .storeExitFailed _ => 2 * n + 3
  | .cancelStarted _ k => n - k + n + 2
  | .join _ k _ => n - k + 1
  | .afterStop _ => 6 * n + 9

def State.rank (s : State n) : ℕ :=
  s.main.rank n s.gate.doneWaiter + ∑ i, (s.workers i).rank s.gate i

/-- Every step counts but a spurious wakeup. -/
def Event.cost : Event n → ℕ
  | .spurious => 0
  | _ => 1

/-- The rank that an event brings in. -/
def Event.allowance : Event n → ℕ
  | .spurious => 4
  | .dispatch => 33 * n + 17
  | .stopped _ => 6 * n + 9
  | _ => 0

theorem WorkerPc.rank_le (pc : WorkerPc) (asleep : Bool) : pc.rank asleep ≤ 30 := by
  unfold WorkerPc.rank
  split <;> first | omega | (split <;> omega)

/-- A broadcast lets a worker that is asleep make four more steps. -/
theorem WorkerPc.rank_wake (pc : WorkerPc) (asleep : Bool) :
    pc.rank false ≤ pc.rank asleep + 4 := by
  cases asleep
  · exact Nat.le_add_right _ _
  · unfold WorkerPc.rank
    split <;> simp

theorem Worker.unseen_le (w : Worker) (g : Gate n) : w.unseen g ≤ 29 := by
  unfold Worker.unseen
  split <;> omega

theorem Worker.rank_le (w : Worker) (g : Gate n) (i : Fin n) : w.rank g i ≤ 59 := by
  have hpc := w.pc.rank_le (decide (i ∈ g.goWaiters))
  have hunseen := w.unseen_le g
  unfold Worker.rank
  omega

theorem State.sum_workerRank_le (s : State n) :
    ∑ i, (s.workers i).rank s.gate i ≤ 59 * n :=
  (Finset.sum_le_card_nsmul _ _ 59 fun i _ => (s.workers i).rank_le s.gate i).trans_eq (by
    simp [mul_comm])

/-! ### Worker steps -/

/-- A signal wakes the main thread, for which it pays five steps. -/
def signalCost (g g' : Gate n) : ℕ :=
  if g.doneWaiter = true ∧ g'.doneWaiter = false then 5 else 0

theorem MainPc.rank_wake (pc : MainPc) : pc.rank n false ≤ pc.rank n true + 5 := by
  unfold MainPc.rank
  split <;> simp

theorem MainPc.rank_signal (pc : MainPc) {g g' : Gate n}
    (h : g'.doneWaiter = g.doneWaiter ∨ g'.doneWaiter = false) :
    pc.rank n g'.doneWaiter ≤ pc.rank n g.doneWaiter + signalCost g g' := by
  rcases h with h | h
  · rw [h]
    exact Nat.le_add_right _ _
  · cases hg : g.doneWaiter
    · rw [h]
      exact Nat.le_add_right _ _
    · have hcost : signalCost g g' = 5 := if_pos ⟨hg, h⟩
      rw [h, hcost]
      exact pc.rank_wake

/-- A step that leaves the generations alone is paid for out of the position. -/
theorem Worker.rank_pay {i : Fin n} {g g' : Gate n} {w w' : Worker} {a b : ℕ}
    (hunseen : w'.unseen g' = w.unseen g)
    (hpc : a + w'.pc.rank (decide (i ∈ g'.goWaiters)) ≤
      w.pc.rank (decide (i ∈ g.goWaiters)) + b) :
    a + w'.rank g' i ≤ w.rank g i + b := by
  unfold Worker.rank
  omega

/-- One worker's rank around its own step. -/
theorem workerNext_rank {i : Fin n} {g g' : Gate n} {w w' : Worker} {c : Choice}
    {e : Event n} (h : workerNext i g w c = some (e, g', w')) :
    e.cost + signalCost g g' + w'.rank g' i ≤ w.rank g i + e.allowance := by
  obtain ⟨pc, seen, started, cancelled⟩ := w
  cases workerNext_step h with
  | readGeneration =>
    by_cases hgen : g.generation = seen <;>
      simp [signalCost, Event.cost, Event.allowance, Worker.rank, Worker.unseen, WorkerPc.rank, hgen]
  | signal who =>
    refine Worker.rank_pay rfl ?_
    cases who <;> cases hdone : g.doneWaiter <;>
      simp [signalCost, Event.cost, Event.allowance, WorkerPc.rank, Worker.goto, hdone]
  | notifyLockFails who =>
    refine Worker.rank_pay rfl ?_
    cases who <;>
      simp [signalCost, Event.cost, Event.allowance, WorkerPc.rank, Worker.goto, Notifier.resume]
  | notifyUnlock who signalled =>
    refine Worker.rank_pay rfl ?_
    cases who <;> cases signalled <;>
      simp [signalCost, Event.cost, Event.allowance, WorkerPc.rank, Worker.goto, Notifier.resume]
  | notifyLock who | signalFails who =>
    refine Worker.rank_pay rfl ?_
    cases who <;> simp [signalCost, Event.cost, Event.allowance, WorkerPc.rank, Worker.goto]
  | wakeSpurious | wakeFailed | wakeCancelled =>
    refine Worker.rank_pay rfl ?_
    by_cases hmem : i ∈ g.goWaiters <;>
      simp [signalCost, Event.cost, Event.allowance, WorkerPc.rank, Worker.goto, hmem]
  | wake hout =>
    refine Worker.rank_pay rfl ?_
    simp [signalCost, Event.cost, Event.allowance, WorkerPc.rank, Worker.goto, hout]
  | _ =>
    refine Worker.rank_pay rfl ?_
    simp [signalCost, Event.cost, Event.allowance, WorkerPc.rank, Worker.goto]

/-- What a worker's step leaves of the two condition variables. -/
theorem workerNext_waiters {i : Fin n} {g g' : Gate n} {w w' : Worker} {c : Choice}
    {e : Event n} (h : workerNext i g w c = some (e, g', w')) :
    (∀ j, j ≠ i → (j ∈ g'.goWaiters ↔ j ∈ g.goWaiters)) ∧
      (g'.doneWaiter = g.doneWaiter ∨ g'.doneWaiter = false) := by
  obtain ⟨pc, seen, started, cancelled⟩ := w
  cases workerNext_step h <;> simp +contextual

/-! ### Main-thread steps -/

theorem State.rank_pay {s s' : State n} {a b k : ℕ}
    (hworkers : ∑ i, (s'.workers i).rank s'.gate i ≤ (∑ i, (s.workers i).rank s.gate i) + k)
    (hmain : a + s'.main.rank n s'.gate.doneWaiter + k ≤
      s.main.rank n s.gate.doneWaiter + b) : a + s'.rank ≤ s.rank + b := by
  unfold State.rank
  omega

theorem State.sum_rank_le {s s' : State n} {k : ℕ}
    (h : ∀ i, (s'.workers i).rank s'.gate i ≤ (s.workers i).rank s.gate i + k) :
    ∑ i, (s'.workers i).rank s'.gate i ≤ (∑ i, (s.workers i).rank s.gate i) + k * n := by
  refine (Finset.sum_le_sum fun i _ => h i).trans_eq ?_
  simp [Finset.sum_add_distrib, mul_comm]

/-- A flag that pthreads keep of a thread has no part in its rank. -/
theorem sum_rank_update (g : Gate n) (workers : Fin n → Worker) (k : Fin n) (w : Worker)
    (hpc : w.pc = (workers k).pc) (hseen : w.seenGen = (workers k).seenGen) :
    ∑ i, (Function.update workers k w i).rank g i = ∑ i, (workers i).rank g i := by
  refine Finset.sum_congr rfl fun i _ => ?_
  by_cases hik : i = k
  · subst hik
    simp [Worker.rank, Worker.unseen, hpc, hseen]
  · rw [Function.update_of_ne hik]

/-- The main thread's step, with what it wakes. -/
theorem mainNext_rank {s s' : State n} {c : Choice} {e : Event n}
    (h : mainNext s c = some (e, s')) : e.cost + s'.rank ≤ s.rank + e.allowance := by
  obtain ⟨g, workers, main, broken, retired⟩ := s
  cases mainNext_step h with
  | arm =>
    refine State.rank_pay (k := 29 * n) (State.sum_rank_le fun i => ?_) ?_
    · have hunseen := (workers i).unseen_le { g with generation := g.generation + 1 }
      have hdrop : ∀ a b : ℕ, b ≤ 29 → a + b ≤ a + (workers i).unseen g + 29 := by omega
      exact hdrop _ _ hunseen
    · simp [Event.cost, Event.allowance, MainPc.rank, State.setGate]
      omega
  | broadcast | exitBroadcast =>
    refine State.rank_pay (k := 4 * n) (State.sum_rank_le fun i => ?_) ?_
    · refine (Nat.zero_add _).symm.trans_le (Worker.rank_pay rfl ?_)
      simpa [State.setGate] using (workers i).pc.rank_wake (decide (i ∈ g.goWaiters))
    · simp [Event.cost, Event.allowance, MainPc.rank, State.setGate]
      omega
  | spawn k hk =>
    refine State.rank_pay (k := 18) ?_ ?_
    · refine (Nat.zero_add _).symm.trans_le (sum_move ⟨k, hk⟩ ?_ fun j hj => ?_)
      · simp [State.goto, State.setWorker, Worker.rank, Worker.unseen, WorkerPc.rank]
      · simp [State.goto, State.setWorker, hj]
    · simp [Event.cost, Event.allowance, MainPc.rank, State.goto, State.setWorker]
      omega
  | cancel caller k hk =>
    refine State.rank_pay (k := 0) (sum_rank_update g workers ⟨k, hk⟩
      { workers ⟨k, hk⟩ with cancelled := true } rfl rfl).le ?_
    simp [Event.cost, Event.allowance, MainPc.rank, State.goto, State.setWorker]
    omega
  | join caller k ok hk =>
    refine State.rank_pay (k := 0) (sum_rank_update g workers ⟨k, hk⟩
      { workers ⟨k, hk⟩ with started := false } rfl rfl).le ?_
    simp [Event.cost, Event.allowance, MainPc.rank, State.goto, State.setWorker]
    omega
  | wake hout =>
    refine State.rank_pay (k := 0) le_rfl ?_
    simp only at hout
    simp [Event.cost, Event.allowance, MainPc.rank, State.goto, hout]
    omega
  | wakeSpurious | timeout | wakeFailed =>
    refine State.rank_pay (k := 0) le_rfl ?_
    simp only [Event.cost, Event.allowance, MainPc.rank, State.setGate]
    split <;> omega
  | testTimedOut =>
    refine State.rank_pay (k := 0) le_rfl ?_
    by_cases hzero : g.pending = 0 <;>
      simp [Event.cost, Event.allowance, MainPc.rank, State.goto, hzero] <;> omega
  | _ =>
    refine State.rank_pay (k := 0) le_rfl ?_
    simp [Event.cost, Event.allowance, MainPc.rank, State.goto, State.setGate, State.poison]
      <;> omega

/-- **Every step is paid for.** -/
theorem State.step_rank {s s' : State n} {e : Event n} (h : s.step e s') :
    e.cost + s'.rank ≤ s.rank + e.allowance := by
  rcases State.step_cases h with ⟨i, c, g', w', hw, rfl⟩ | ⟨c, hm⟩
  swap
  · exact mainNext_rank hm
  obtain ⟨hgo, hdone⟩ := workerNext_waiters hw
  have hworkers : e.cost + signalCost s.gate g' +
      ∑ j, (Function.update s.workers i w' j).rank g' j ≤
        (∑ j, (s.workers j).rank s.gate j) + e.allowance := by
    refine sum_move i (by simpa using workerNext_rank hw) fun j hji => ?_
    simp [Worker.rank, Worker.unseen, hji, hgo j hji, (workerNext_frame hw).generation]
  have hmain := s.main.rank_signal hdone
  change e.cost + (s.main.rank n g'.doneWaiter +
    ∑ j, (Function.update s.workers i w' j).rank g' j) ≤ s.rank + e.allowance
  unfold State.rank
  omega

/-! ### Steps of a run -/

/-- The steps of a run that are no spurious wakeups. -/
def stepCount (tr : List (Event n)) : ℕ :=
  tr.countP fun e => decide (e ≠ .spurious)

def Event.isStopped : Event n → Bool
  | .stopped _ => true
  | _ => false

theorem sum_cost (tr : List (Event n)) : (tr.map Event.cost).sum = stepCount tr := by
  induction tr with
  | nil => rfl
  | cons e tr ih =>
    rw [List.map_cons, List.sum_cons, ih, stepCount, stepCount, List.countP_cons]
    cases e <;> simp [Event.cost, Nat.add_comm]

theorem sum_allowance (tr : List (Event n)) :
    (tr.map Event.allowance).sum = (33 * n + 17) * tr.count .dispatch +
      (6 * n + 9) * tr.countP Event.isStopped + 4 * tr.count .spurious := by
  induction tr with
  | nil => rfl
  | cons e tr ih =>
    rw [List.map_cons, List.sum_cons, ih, List.countP_cons, List.count_cons, List.count_cons]
    cases e <;> simp [Event.allowance, Event.isStopped, mul_add] <;> omega

/-- The rank of a state and what its labels bring in pay for a run from it. -/
theorem Execution.steps_le {s s' : State n} {tr : List (Event n)}
    (h : Execution State.step s tr s') :
    stepCount tr + s'.rank ≤ s.rank + ((33 * n + 17) * tr.count .dispatch +
      (6 * n + 9) * tr.countP Event.isStopped + 4 * tr.count .spurious) := by
  rw [← sum_cost, ← sum_allowance]
  exact h.amortised State.step_rank

theorem rank_initial : (State.initial n).rank = 25 * n + 9 := by
  have hzero : ∀ i, ((State.initial n).workers i).rank (State.initial n).gate i = 0 :=
    fun i => rfl
  simp only [State.rank, hzero, Finset.sum_const_zero]
  simp [State.initial, MainPc.rank]
  omega

/-- **The gate never runs in circles.**  Whatever calls fail and however the
threads are interleaved, the steps of a run are bounded by its dispatches, its
stops and the wakeups that came for no reason. -/
theorem gate_steps_bounded {tr : List (Event n)} {s : State n} (hrun : PoolRun n tr s) :
    stepCount tr ≤ 25 * n + 9 + (33 * n + 17) * tr.count .dispatch +
      (6 * n + 9) * tr.countP Event.isStopped + 4 * tr.count .spurious := by
  have h := Execution.steps_le hrun
  rw [rank_initial] at h
  omega

theorem gate_steps_lateArrival :
    ∃ tr s, PoolRun 2 tr s ∧ stepCount tr = 48 ∧ stepCount tr ≤ 142 := by
  have hall : (execute State.next (State.initial 2) lateArrival).any (fun r =>
      decide (stepCount r.1 = 48 ∧ r.1.count .dispatch = 1 ∧
        r.1.countP Event.isStopped = 0 ∧ r.1.count .spurious = 0)) = true := by decide
  obtain ⟨⟨tr, s⟩, hexec, h⟩ := (Option.any_eq_true _ _).mp hall
  obtain ⟨hcount, hdispatch, hstopped, hspurious⟩ := of_decide_eq_true h
  have hrun : PoolRun 2 tr s := execute_sound hexec
  have hbound := gate_steps_bounded hrun
  rw [hdispatch, hstopped, hspurious] at hbound
  exact ⟨tr, s, hrun, hcount, by omega⟩

/-! ### Inside a call -/

/-- Inside `up_worker_pool_dispatch`, the stop of a failed one included. -/
def MainPc.inDispatch : MainPc → Bool
  | .spawn _ | .idle => false
  | .exitLock c | .setExit c | .exitBroadcast c | .exitUnlock c _ | .storeExitFailed c
  | .cancelStarted c _ | .join c _ _ | .afterStop c => decide (c = .dispatch)
  | _ => true

/-- Inside `up_worker_pool_stop`, before its result is known. -/
def MainPc.inStop : MainPc → Bool
  | .exitLock _ | .setExit _ | .exitBroadcast _ | .exitUnlock _ _ | .storeExitFailed _
  | .cancelStarted _ _ | .join _ _ _ => true
  | _ => false

/-- The stops that a dispatch can still make. -/
def MainPc.stopsLeft : MainPc → ℕ
  | .afterStop _ => 0
  | _ => 1

theorem mainNext_inDispatch {s s' : State n} {c : Choice} {e : Event n}
    (h : mainNext s c = some (e, s')) (hs : s.main.inDispatch = true)
    (hopen : ∀ ok, e ≠ .ret ok) : s'.main.inDispatch = true ∧ e ≠ .dispatch ∧
      (if e.isStopped then 1 else 0) + s'.main.stopsLeft ≤ s.main.stopsLeft := by
  obtain ⟨g, workers, main, broken, retired⟩ := s
  cases mainNext_step h with
  | spawn | spawnFails | spawned | dispatch | poison | destroy =>
    simp [MainPc.inDispatch] at hs
  | «return» | dispatchStopped => exact absurd rfl (hopen _)
  | stopped caller hcaller => exact absurd (of_decide_eq_true hs) hcaller
  | exitLock | exitLockFails | setExit | exitBroadcast | exitBroadcastFails | exitUnlock
  | exitUnlockFailed | storeExitFailed | cancel | cancelFails | cancelSkips | cancelled | join
  | joinFails | joinSkips => exact ⟨hs, by simp, le_rfl⟩
  | joined => exact ⟨hs, by simp, le_rfl⟩
  | _ => exact ⟨rfl, by simp, le_rfl⟩

/-- The pool's calls are the main thread's. -/
theorem workerNext_noCall {i : Fin n} {g g' : Gate n} {w w' : Worker} {c : Choice}
    {e : Event n} (h : workerNext i g w c = some (e, g', w')) :
    e ≠ .dispatch ∧ e.isStopped = false ∧ ∀ ok, e ≠ .ret ok := by
  obtain ⟨pc, seen, started, cancelled⟩ := w
  cases workerNext_step h <;> simp [Event.isStopped]

/-- A dispatch that has not returned makes no other call, and stops the pool once. -/
theorem inDispatch_run {u : List (Event n)} {s s' : State n}
    (h : Execution State.step s u s') (hs : s.main.inDispatch = true)
    (hopen : ∀ ok, .ret ok ∉ u) : s'.main.inDispatch = true ∧ u.count .dispatch = 0 ∧
      u.countP Event.isStopped ≤ 1 := by
  have key : s'.main.inDispatch = true ∧ u.count .dispatch = 0 ∧
      u.countP Event.isStopped + s'.main.stopsLeft ≤ s.main.stopsLeft := by
    refine Execution.history (P := fun e => ∀ ok, e ≠ .ret ok)
      (I := fun u s' => s'.main.inDispatch = true ∧ u.count .dispatch = 0 ∧
        u.countP Event.isStopped + s'.main.stopsLeft ≤ s.main.stopsLeft) ?_ h
      (fun e he ok heq => hopen ok (heq ▸ he)) ⟨hs, rfl, by simp⟩
    rintro u a e b ⟨hin, hnone, hstops⟩ hstep he
    rw [List.count_append, List.countP_append, List.countP_singleton, hnone]
    rcases State.step_cases hstep with ⟨i, c, g', w', hw, rfl⟩ | ⟨c, hm⟩
    · obtain ⟨hdispatch, hstopped, -⟩ := workerNext_noCall hw
      refine ⟨hin, by simp [hdispatch], ?_⟩
      rw [hstopped]
      exact hstops
    · obtain ⟨hin', hdispatch, hstop⟩ := mainNext_inDispatch hm hin he
      exact ⟨hin', by simp [hdispatch], by omega⟩
  have hleft : s.main.stopsLeft ≤ 1 := by
    unfold MainPc.stopsLeft
    split <;> omega
  exact ⟨key.1, key.2.1, by omega⟩

theorem inStop_run {u : List (Event n)} {s s' : State n}
    (h : Execution State.step s u s') (hs : s.main.inStop = true)
    (hopen : ∀ ok, .stopped ok ∉ u) : s'.main.inStop = true ∧ u.count .dispatch = 0 ∧
      u.countP Event.isStopped = 0 := by
  refine Execution.history (P := fun e => ∀ ok, e ≠ .stopped ok)
    (I := fun u s' => s'.main.inStop = true ∧ u.count .dispatch = 0 ∧
      u.countP Event.isStopped = 0) ?_ h
    (fun e he ok heq => hopen ok (heq ▸ he)) ⟨hs, rfl, rfl⟩
  rintro u a e b ⟨hin, hnone, hstops⟩ hstep he
  rw [List.count_append, List.countP_append, List.countP_singleton, hnone, hstops]
  rcases State.step_cases hstep with ⟨i, c, g', w', hw, rfl⟩ | ⟨c, hm⟩
  · obtain ⟨hdispatch, hstopped, -⟩ := workerNext_noCall hw
    exact ⟨hin, by simp [hdispatch], by simp [hstopped]⟩
  · obtain ⟨g, workers, main, broken, retired⟩ := a
    cases mainNext_step hm with
    | exitLock | exitLockFails | setExit | exitBroadcast | exitBroadcastFails | exitUnlock
    | exitUnlockFailed | storeExitFailed | cancel | cancelFails | cancelSkips | cancelled
    | join | joinFails | joinSkips => exact ⟨rfl, by simp, by simp [Event.isStopped]⟩
    | joined => exact absurd rfl (he _)
    | _ => simp [MainPc.inStop] at hin

/-! ### While nothing fails -/

/-- Past a call that failed. -/
def WorkerPc.faulty : WorkerPc → Bool
  | .storeSyncFailed | .notifyUnlock .workerDone false => true
  | pc => pc.failing

def MainPc.faulty : MainPc → Bool
  | .unlockGo false | .storeGoFailed | .exitUnlock _ false | .storeExitFailed _
  | .cancelStarted _ _ => true
  | _ => false

/-- Nothing has failed so far. -/
structure Healthy (s : State n) : Prop where
  synced : s.gate.syncFailed = false
  worker : ∀ i, (s.workers i).pc.faulty = false
  main : s.main.faulty = false

theorem workerNext_healthy {i : Fin n} {g g' : Gate n} {w w' : Worker} {c : Choice}
    {e : Event n} (h : workerNext i g w c = some (e, g', w')) (hclean : ∀ call, e ≠ .fault call)
    (hs : w.pc.faulty = false) :
    w'.pc.faulty = false ∧ g'.syncFailed = g.syncFailed := by
  obtain ⟨pc, seen, started, cancelled⟩ := w
  cases workerNext_step h with
  | cancelOffFails | lockFails | cancelOnFails | waitFails | wakeFailed | waitedFails
  | notifyLockFails | signalFails => exact absurd rfl (hclean _)
  | relockFailed | waitedInVain | reportHolding | reportFree | storeSyncFailed
  | unlockFailed => simp [WorkerPc.faulty, WorkerPc.failing] at hs
  | signal who | notifyLock who =>
    cases who <;> first | exact ⟨rfl, rfl⟩ | simp [WorkerPc.faulty, WorkerPc.failing] at hs
  | notifyUnlock who signalled =>
    cases who <;> cases signalled <;>
      first | exact ⟨rfl, rfl⟩ | simp [WorkerPc.faulty, WorkerPc.failing] at hs
  | _ => exact ⟨rfl, rfl⟩

theorem mainNext_healthy {s s' : State n} {c : Choice} {e : Event n}
    (h : mainNext s c = some (e, s')) (hclean : ∀ call, e ≠ .fault call)
    (hs : s.main.faulty = false) : s'.main.faulty = false ∧
      s'.gate.syncFailed = s.gate.syncFailed := by
  obtain ⟨g, workers, main, broken, retired⟩ := s
  cases mainNext_step h with
  | spawnFails | lockGoFails | broadcastFails | readClockFails | lockDoneFails | timedWaitFails
  | wakeFailed | exitLockFails | exitBroadcastFails | cancelFails | joinFails =>
    exact absurd rfl (hclean _)
  | unlockGoFailed | storeGoFailed | exitUnlockFailed | storeExitFailed | cancel | cancelSkips
  | cancelled => simp [MainPc.faulty] at hs
  | _ => exact ⟨rfl, rfl⟩

theorem poolRun_healthy {tr : List (Event n)} {s : State n} (hrun : PoolRun n tr s)
    (hclean : ∀ call, .fault call ∉ tr) : Healthy s := by
  refine Execution.invariant (P := fun e => ∀ call, e ≠ .fault call) (I := Healthy) ?_ hrun
    (fun e he call heq => hclean call (heq ▸ he)) ⟨rfl, fun _ => rfl, rfl⟩
  rintro a e b hs hstep hne
  rcases State.step_cases hstep with ⟨i, c, g', w', hw, rfl⟩ | ⟨c, hm⟩
  · obtain ⟨hpc, hsync⟩ := workerNext_healthy hw hne (hs.worker i)
    refine ⟨hsync.trans hs.synced, fun j => ?_, hs.main⟩
    by_cases hji : j = i
    · subst hji
      simpa using hpc
    · simpa [hji] using hs.worker j
  · obtain ⟨hmain, hsync⟩ := mainNext_healthy hm hne hs.main
    refine ⟨hsync.trans hs.synced, fun i => ?_, hmain⟩
    rcases mainNext_pc hm i with ⟨hpc, -⟩ | ⟨hpc, -⟩
    · rw [hpc]
      exact hs.worker i
    · rw [hpc]
      rfl

/-- On the way out of a dispatch that will fail. -/
def MainPc.late : MainPc → Bool
  | .relockDone .timedOut | .relockDone .failed | .testTimedOut | .unlockDone false => true
  | .exitLock c | .setExit c | .exitBroadcast c | .exitUnlock c _ | .storeExitFailed c
  | .cancelStarted c _ | .join c _ _ | .afterStop c => decide (c = .dispatch)
  | _ => false

/-- Past the reading of `pending == 0` that ends the wait. -/
def MainPc.counted : MainPc → Bool
  | .unlockDone true | .finalPending | .finalFailed => true
  | _ => false

/-- A dispatch that is going well. -/
structure OnTime (s : State n) : Prop where
  main : s.main.late = false
  counted : s.main.counted = true → s.gate.pending = 0

theorem mainNext_onTime {s s' : State n} {c : Choice} {e : Event n}
    (h : mainNext s c = some (e, s')) (hclean : ∀ call, e ≠ .fault call)
    (htime : e ≠ .timeout) (hs : Healthy s) (hon : OnTime s) : OnTime s' := by
  have hsync := hs.synced
  have hfaulty := hs.main
  have hlate := hon.main
  have hcounted := hon.counted
  obtain ⟨g, workers, main, broken, retired⟩ := s
  cases mainNext_step h with
  | spawnFails | lockGoFails | broadcastFails | readClockFails | lockDoneFails | timedWaitFails
  | wakeFailed | exitLockFails | exitBroadcastFails | cancelFails | joinFails =>
    exact absurd rfl (hclean _)
  | timeout => exact absurd rfl htime
  | unlockGoFailed | storeGoFailed | exitUnlockFailed | storeExitFailed | cancel | cancelSkips
  | cancelled => simp [MainPc.faulty] at hfaulty
  | relockTimedOut | relockFailed | testTimedOut | unlockDoneFailed => simp [MainPc.late] at hlate
  | loadFailed hfailed | testFailed hfailed | finalFailed hfailed =>
    simp only at hsync hfailed
    simp [hsync] at hfailed
  | finalPending hzero => exact absurd (hcounted rfl) hzero
  | testNonePending hzero => exact ⟨rfl, fun _ => hzero⟩
  | finalNonePending hzero => exact ⟨rfl, fun _ => hzero⟩
  | unlockDone => exact ⟨rfl, fun _ => hcounted rfl⟩
  | exitLock | setExit | exitBroadcast | exitUnlock | join | joinSkips | joined =>
    exact ⟨hlate, fun h => by cases h⟩
  | dispatchStopped => simp [MainPc.late] at hlate
  | _ => exact ⟨rfl, fun h => by cases h⟩

theorem OnTime.step {s s' : State n} {e : Event n} (hon : OnTime s) (hgate : GateInv s)
    (hs : Healthy s) (h : s.step e s') (hclean : ∀ call, e ≠ .fault call)
    (htime : e ≠ .timeout) : OnTime s' := by
  rcases State.step_cases h with ⟨i, c, g', w', hw, rfl⟩ | ⟨c, hm⟩
  · refine ⟨hon.main, fun hcounted => ?_⟩
    have hzero := hon.counted hcounted
    cases workerNext_move hw with
    | quiet _ _ hpending | take _ _ _ _ hpending | enter _ _ _ hpending
    | leave _ _ _ hpending => exact hpending.trans hzero
    | done hphase =>
      -- with nothing pending no worker is on its way out
      simp [(hgate.finished hzero i).2] at hphase
  · exact mainNext_onTime hm hclean htime hs hon

theorem onTime_run {tr u : List (Event n)} {s s' : State n} (hrun : PoolRun n tr s)
    (h : Execution State.step s u s') (hon : OnTime s)
    (hclean : ∀ call, .fault call ∉ tr ++ u) (htime : .timeout ∉ u) : OnTime s' := by
  have key : PoolRun n (tr ++ u) s' ∧ OnTime s' := by
    refine Execution.history (P := fun e => (∀ call, e ≠ .fault call) ∧ e ≠ .timeout)
      (I := fun u s' => PoolRun n (tr ++ u) s' ∧
        ((∀ call, .fault call ∉ tr ++ u) → OnTime s')) ?_ h ?_ ?_ |>.imp_right (· hclean)
    · rintro u a e b ⟨hpool, hon⟩ hstep ⟨hne, hnt⟩
      rw [← List.append_assoc]
      refine ⟨hpool.snoc hstep, fun hall => ?_⟩
      have hpre : ∀ call, .fault call ∉ tr ++ u :=
        fun call he => hall call (List.mem_append_left _ he)
      exact (hon hpre).step (poolRun_gateInv hpool) (poolRun_healthy hpool hpre) hstep hne hnt
    · exact fun e he => ⟨fun call heq => hclean call (List.mem_append_right _ (heq ▸ he)),
        fun heq => htime (heq ▸ he)⟩
    · rw [List.append_nil]
      exact ⟨hrun, fun _ => hon⟩
  exact key.2

/-- The next step does not return failure from a dispatch that is going well. -/
theorem OnTime.not_ret_false {s s' : State n} (h : OnTime s) : ¬ s.step (.ret false) s' := by
  intro hstep
  rcases State.step_cases hstep with ⟨i, c, g', w', hw, rfl⟩ | ⟨c, hm⟩
  · exact (workerNext_noCall hw).2.2 false rfl
  · obtain ⟨g, workers, main, broken, retired⟩ := s
    have hlate := h.main
    generalize he : Event.ret false = e at hm
    cases mainNext_step hm with
    | dispatchStopped => simp [MainPc.late] at hlate
    | _ => cases he

theorem lockGo_of_dispatch {s s' : State n} (h : s.step .dispatch s') : s'.main = .lockGo := by
  rcases State.step_cases h with ⟨i, c, g', w', hw, rfl⟩ | ⟨c, hm⟩
  · exact absurd rfl (workerNext_noCall hw).1
  · obtain ⟨g, workers, main, broken, retired⟩ := s
    generalize he : Event.dispatch = e at hm
    cases mainNext_step hm with
    | dispatch => rfl
    | _ => cases he

/-- While the owner is inside a call and nothing has failed, some thread can go on. -/
theorem poolRun_canGoOn {tr : List (Event n)} {s : State n} (hrun : PoolRun n tr s)
    (hclean : ∀ call, .fault call ∉ tr) (hbusy : s.main ≠ .idle) : s.CanGoOn := by
  obtain ⟨hwake, hcancel⟩ := poolRun_wakeInv hrun hclean
  exact canGoOn_of_busy (poolRun_exitInv hrun) (poolRun_lockInv hrun) hwake hcancel hbusy

/-! ### Calls return -/

/-- **Every dispatch returns.**  Whatever fails, a dispatch that has not returned has
seen no more steps than these, spurious wakeups apart.  When nothing fails some
thread can go on until it returns, and it returns 0 unless its wait timed out. -/
theorem dispatch_returns {tr u : List (Event n)} {s : State n}
    (hrun : PoolRun n (tr ++ .dispatch :: u) s) (hopen : ∀ ok, .ret ok ∉ u) :
    stepCount u ≤ 104 * n + 33 + 4 * u.count .spurious ∧
    ((∀ call, .fault call ∉ tr ++ .dispatch :: u) →
      s.CanGoOn ∧ (.timeout ∉ u → ∀ s', ¬ s.step (.ret false) s')) := by
  obtain ⟨s₀, htr, hrest⟩ := Execution.append_iff.mp hrun
  obtain ⟨s₁, hcall, hu⟩ := Execution.cons_iff.mp hrest
  have hmain : s₁.main = .lockGo := lockGo_of_dispatch hcall
  obtain ⟨hin, hnone, hstops⟩ := inDispatch_run hu (by rw [hmain]; rfl) hopen
  refine ⟨?_, fun hclean => ⟨?_, fun htime s' => ?_⟩⟩
  · have hsteps := Execution.steps_le hu
    have hworkers := s₁.sum_workerRank_le
    have hrank : s₁.rank ≤ 98 * n + 24 := by
      unfold State.rank
      rw [hmain]
      simp only [MainPc.rank]
      omega
    have hstop : (6 * n + 9) * u.countP Event.isStopped ≤ 6 * n + 9 :=
      (Nat.mul_le_mul_left _ hstops).trans_eq (Nat.mul_one _)
    rw [hnone] at hsteps
    omega
  · refine poolRun_canGoOn hrun hclean ?_
    rintro hidle
    rw [hidle] at hin
    cases hin
  · have hrun₁ : PoolRun n (tr ++ [.dispatch]) s₁ := htr.snoc hcall
    have hon : OnTime s₁ := ⟨by rw [hmain]; rfl, fun h => by rw [hmain] at h; cases h⟩
    exact (onTime_run hrun₁ hu hon (by simpa using hclean) htime).not_ret_false

/-- The main thread blocked in its wait, with the signal still to come. -/
theorem dispatch_returns_lastDecrement :
    ∃ tr u s, PoolRun 2 (tr ++ .dispatch :: u) s ∧ s.main = .timedWaiting ∧
      stepCount u ≤ 241 ∧ s.CanGoOn ∧ ∀ s', ¬ s.step (.ret false) s' := by
  have hall : (execute State.next (State.initial 2) lastDecrement).any (fun r =>
      decide ((∀ e ∈ r.1, e = .tau ∨ (e.silent = false ∧ e ≠ .ret true ∧ e ≠ .ret false)) ∧
        Event.dispatch ∈ r.1 ∧ r.2.main = .timedWaiting)) = true := by
    decide
  obtain ⟨⟨tr', s⟩, hexec, h⟩ := (Option.any_eq_true _ _).mp hall
  obtain ⟨hcalm, hmem, hmain⟩ := of_decide_eq_true h
  obtain ⟨tr, u, rfl⟩ := List.append_of_mem hmem
  have hrun : PoolRun 2 (tr ++ .dispatch :: u) s := execute_sound hexec
  have hu : ∀ e ∈ u, e = .tau ∨ (e.silent = false ∧ e ≠ .ret true ∧ e ≠ .ret false) :=
    fun e he => hcalm e (List.mem_append_right _ (List.mem_cons_of_mem _ he))
  have hspurious : u.count .spurious = 0 :=
    List.count_eq_zero.mpr fun he => by simpa [Event.silent] using hu _ he
  obtain ⟨hsteps, hgo⟩ := dispatch_returns hrun fun ok he => by
    cases ok <;> simpa using hu _ he
  obtain ⟨hcan, htrue⟩ := hgo fun call he => by simpa [Event.silent] using hcalm _ he
  exact ⟨tr, u, s, hrun, hmain, by omega, hcan,
    htrue fun he => by simpa [Event.silent] using hu _ he⟩

/-- **Every stop comes to its end.**  The same of `up_worker_pool_stop`; when nothing
fails it reaps every thread. -/
theorem stop_returns {tr u : List (Event n)} {s s' : State n} {c : Caller}
    (hrun : PoolRun n tr s) (hmain : s.main = .exitLock c) (hu : Execution State.step s u s')
    (hopen : ∀ ok, .stopped ok ∉ u) :
    stepCount u ≤ 65 * n + 7 + 4 * u.count .spurious ∧
    ((∀ call, .fault call ∉ tr ++ u) → s'.CanGoOn ∧
      ∀ ok s'', s'.step (.stopped ok) s'' → ok = true ∧ ∀ i, (s''.workers i).pc.dead = true) := by
  obtain ⟨hin, hnone, hstops⟩ := inStop_run hu (by rw [hmain]; rfl) hopen
  have hrun' : PoolRun n (tr ++ u) s' := hrun.append hu
  refine ⟨?_, fun hclean => ⟨?_, fun ok s'' hstop => ?_⟩⟩
  · have hsteps := Execution.steps_le hu
    have hworkers := s.sum_workerRank_le
    have hrank : s.rank ≤ 65 * n + 7 := by
      unfold State.rank
      rw [hmain]
      simp only [MainPc.rank]
      omega
    rw [hnone, hstops] at hsteps
    omega
  · refine poolRun_canGoOn hrun' hclean ?_
    rintro hidle
    rw [hidle] at hin
    cases hin
  · have hjoin := poolRun_joinInv hrun' (hclean _)
    have hok : ok = true := by
      rcases State.step_cases hstop with ⟨i, c, g', w', hw, rfl⟩ | ⟨c, hm⟩
      · exact absurd rfl (workerNext_not_stopping hw ok).2
      · obtain ⟨caller, k, hmain', -⟩ := (mainNext_stopping hm).2 ok rfl
        exact hjoin.ok caller k ok hmain'
    subst hok
    exact ⟨rfl, dead_of_stopped (poolRun_reapInv hrun') hstop⟩

/-- Two idle workers, and the owner tears the pool down. -/
def idleDestroyed : List (Thread 2 × Choice) :=
  runs .main 3 ++ runs worker₀ 5 ++ [(.main, .destroy)]

theorem stop_returns_idleDestroyed :
    ∃ tr u s s', PoolRun 2 tr s ∧ Execution State.step s u s' ∧
      s'.main = .join .destroy 0 true ∧ stepCount u ≤ 137 ∧ s'.CanGoOn := by
  have hall : (execute State.next (State.initial 2) idleDestroyed).any (fun r =>
      decide ((∀ e ∈ r.1, e = .tau) ∧ r.2.main = .exitLock .destroy) &&
        (execute State.next r.2 (runs .main 4)).any fun r' =>
          decide ((∀ e ∈ r'.1, e = .tau ∨ e = .exitRequested true) ∧
            r'.2.main = .join .destroy 0 true)) = true := by
    decide
  obtain ⟨⟨tr, s⟩, hexec, h⟩ := (Option.any_eq_true _ _).mp hall
  obtain ⟨h₁, h₂⟩ := Bool.and_eq_true_iff.mp h
  obtain ⟨htr, hmain⟩ := of_decide_eq_true h₁
  obtain ⟨⟨u, s'⟩, hexec', h'⟩ := (Option.any_eq_true _ _).mp h₂
  obtain ⟨hu, hmain'⟩ := of_decide_eq_true h'
  have hrun : PoolRun 2 tr s := execute_sound hexec
  have hrun' : Execution State.step s u s' := execute_sound hexec'
  have hspurious : u.count .spurious = 0 :=
    List.count_eq_zero.mpr fun he => by simpa using hu _ he
  obtain ⟨hsteps, hgo⟩ := stop_returns hrun hmain hrun' fun ok he => by simpa using hu _ he
  refine ⟨tr, u, s, s', hrun, hrun', hmain', by omega, (hgo fun call he => ?_).1⟩
  rcases List.mem_append.mp he with he | he
  · simpa using htr _ he
  · simpa using hu _ he

end AutoUpscale
