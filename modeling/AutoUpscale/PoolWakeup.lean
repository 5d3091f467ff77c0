/-
No wakeup is lost on either side of the gate, and the pool never hangs.

- `LockInv`: who owns the two mutexes can be read off the program counters.
- `WakeInv`: a worker asleep on the go condition has nothing to wake up for, or
  the broadcast is still to come from the thread that holds the gate; a main
  thread asleep with `pending == 0` has a worker on its way to the signal.
- `no_lost_wakeup`: both, and the count, in every state of every run in which
  no call fails; and then some thread can go on whenever the owner is inside a
  dispatch or a stop.

Spurious wakeups and timeouts may happen in the run, but what lets the pool go
on is never one of them: it is a step of `Choice.ok`.
-/
import AutoUpscale.PoolExit

namespace AutoUpscale

open LabelledTrace

variable {n : ℕ}

/-! ### Owning a mutex -/

/-- `lock` names the one thread that holds it, if any does. -/
def Owns {T : Type*} (lock : Option T) (holds : T → Bool) : Prop :=
  ∀ t, lock = some t ↔ holds t = true

/-- What one thread's step may do to a mutex. -/
inductive LockMove {T : Type*} (t : T) (lock lock' : Option T) (held held' : Bool) : Prop
  | keep (hlock : lock' = lock) (hheld : held' = held)
  | acquire (hfree : lock = none) (hlock : lock' = some t) (hheld : held' = true)
  | release (hheld : held = true) (hlock : lock' = none) (hheld' : held' = false)

theorem Owns.step {T : Type*} {t : T} {lock lock' : Option T} {holds holds' : T → Bool}
    (h : Owns lock holds) (hmove : LockMove t lock lock' (holds t) (holds' t))
    (hother : ∀ u, u ≠ t → holds' u = holds u) : Owns lock' holds' := by
  intro u
  by_cases hut : u = t
  · subst hut
    cases hmove with
    | keep hlock hheld => rw [hlock, hheld]; exact h u
    | acquire _ hlock hheld => simp [hlock, hheld]
    | release _ hlock hheld' => simp [hlock, hheld']
  · rw [hother u hut]
    cases hmove with
    | keep hlock _ => rw [hlock]; exact h u
    | acquire hfree hlock _ =>
      have hu := h u
      simp only [hfree, reduceCtorEq, false_iff, Bool.not_eq_true] at hu
      simp [hlock, hu, Ne.symm hut]
    | release hheld hlock _ =>
      have hu := h u
      simp only [(h t).mpr hheld, Option.some.injEq, Ne.symm hut, false_iff,
        Bool.not_eq_true] at hu
      simp [hlock, hu]

/-- Two threads do not hold one mutex. -/
theorem Owns.unique {T : Type*} {lock : Option T} {holds : T → Bool} (h : Owns lock holds)
    {t u : T} (ht : holds t = true) (hu : holds u = true) : t = u := by
  simpa [(h t).mpr ht] using (h u).mpr hu

/-! ### The two mutexes of the gate -/

def WorkerPc.holdsGate : WorkerPc → Bool
  | .enableCancel | .testGo | .condWait | .cancelUnlock | .disableCancel _ | .readGeneration
  | .unlockGate _ | .report true | .notifyLock .failHolding | .notifySignal .failHolding
  | .notifyUnlock .failHolding _ | .unlockFailed => true
  | _ => false

def MainPc.holdsGate : MainPc → Bool
  | .arm | .broadcast | .unlockGo _ | .setExit _ | .exitBroadcast _ | .exitUnlock _ _ => true
  | _ => false

def WorkerPc.holdsDone : WorkerPc → Bool
  | .notifySignal _ | .notifyUnlock _ _ => true
  | _ => false

def MainPc.holdsDone : MainPc → Bool
  | .testFailed | .testPending | .timedWait | .testTimedOut | .unlockDone _ => true
  | _ => false

def State.holdsGate (s : State n) : Thread n → Bool
  | .main => s.main.holdsGate
  | .worker i => (s.workers i).pc.holdsGate

def State.holdsDone (s : State n) : Thread n → Bool
  | .main => s.main.holdsDone
  | .worker i => (s.workers i).pc.holdsDone

theorem workerNext_gateLock {i : Fin n} {g g' : Gate n} {w w' : Worker} {c : Choice}
    {e : Event n} (h : workerNext i g w c = some (e, g', w')) :
    LockMove (Thread.worker i) g.lock g'.lock w.pc.holdsGate w'.pc.holdsGate := by
  obtain ⟨pc, seen, started, cancelled⟩ := w
  cases workerNext_step h with
  | lock hfree | relockWoken hfree | relockFailed hfree | relockCancelled hfree =>
    exact .acquire hfree rfl rfl
  | wait | cancelUnlock | unlockToRun | unlockToExit | unlockFailed => exact .release rfl rfl rfl
  -- a failure report made with the gate in hand keeps it
  | notifyLock who | notifyLockFails who | signal who | signalFails who =>
    cases who <;> exact .keep rfl rfl
  | notifyUnlock who signalled => cases who <;> cases signalled <;> exact .keep rfl rfl
  | _ => exact .keep rfl rfl

theorem workerNext_doneLock {i : Fin n} {g g' : Gate n} {w w' : Worker} {c : Choice}
    {e : Event n} (h : workerNext i g w c = some (e, g', w')) :
    LockMove (Thread.worker i) g.doneLock g'.doneLock w.pc.holdsDone w'.pc.holdsDone := by
  have hresume : ∀ (who : Notifier) (ok : Bool), (who.resume ok).holdsDone = false := by
    intro who ok
    cases who <;> cases ok <;> rfl
  obtain ⟨pc, seen, started, cancelled⟩ := w
  cases workerNext_step h with
  | notifyLock who hfree => exact .acquire hfree rfl rfl
  | notifyLockFails => exact .keep rfl (hresume _ _)
  | notifyUnlock => exact .release rfl rfl (hresume _ _)
  | _ => exact .keep rfl rfl

theorem mainNext_gateLock {s s' : State n} {c : Choice} {e : Event n}
    (h : mainNext s c = some (e, s')) :
    LockMove Thread.main s.gate.lock s'.gate.lock s.main.holdsGate s'.main.holdsGate := by
  obtain ⟨g, workers, main, broken, retired⟩ := s
  cases mainNext_step h with
  | lockGo hfree => exact .acquire hfree rfl rfl
  | exitLock caller hfree => exact .acquire hfree rfl rfl
  | unlockGo | unlockGoFailed | exitUnlock | exitUnlockFailed => exact .release rfl rfl rfl
  | _ => exact .keep rfl rfl

theorem mainNext_doneLock {s s' : State n} {c : Choice} {e : Event n}
    (h : mainNext s c = some (e, s')) :
    LockMove Thread.main s.gate.doneLock s'.gate.doneLock s.main.holdsDone
      s'.main.holdsDone := by
  obtain ⟨g, workers, main, broken, retired⟩ := s
  cases mainNext_step h with
  | lockDone hfree | relockWoken hfree | relockTimedOut hfree | relockFailed hfree =>
    exact .acquire hfree rfl rfl
  | timedWait | unlockDone | unlockDoneFailed => exact .release rfl rfl rfl
  | _ => exact .keep rfl rfl

/-- The mutexes are owned by the threads whose program counters say so, and the
threads still to be created have not started. -/
structure LockInv (s : State n) : Prop where
  gate : Owns s.gate.lock s.holdsGate
  done : Owns s.gate.doneLock s.holdsDone
  fresh : ∀ k, s.main = .spawn k → ∀ i : Fin n, k ≤ i.val → (s.workers i).pc = .unborn
  unborn : ∀ i, (s.workers i).pc = .unborn → (s.workers i).started = false

theorem lockInv_initial : LockInv (State.initial n) := by
  refine ⟨fun t => ?_, fun t => ?_, fun _ _ _ _ => rfl, fun _ _ => rfl⟩ <;>
    cases t <;>
    simp [State.initial, State.holdsGate, State.holdsDone, MainPc.holdsGate, MainPc.holdsDone,
      WorkerPc.holdsGate, WorkerPc.holdsDone]

theorem LockInv.worker {s : State n} {i : Fin n} {c : Choice} {e : Event n} {g' : Gate n}
    {w' : Worker} (hs : LockInv s)
    (h : workerNext i s.gate (s.workers i) c = some (e, g', w')) :
    LockInv { s with gate := g', workers := Function.update s.workers i w' } := by
  set s' : State n := { s with gate := g', workers := Function.update s.workers i w' }
  obtain ⟨-, -, hstarted, halive, hborn⟩ := workerNext_frame h
  have hother : ∀ u : Thread n, u ≠ .worker i →
      s'.holdsGate u = s.holdsGate u ∧ s'.holdsDone u = s.holdsDone u := by
    intro u hu
    cases u with
    | main => exact ⟨rfl, rfl⟩
    | worker j =>
      have hji : j ≠ i := fun h => hu (h ▸ rfl)
      simp [State.holdsGate, State.holdsDone, s', Function.update_of_ne hji]
  refine ⟨hs.gate.step (t := .worker i) ?_ fun u hu => (hother u hu).1,
    hs.done.step (t := .worker i) ?_ fun u hu => (hother u hu).2, fun k hk j hkj => ?_,
    fun j hj => ?_⟩
  · simpa [State.holdsGate, s'] using workerNext_gateLock h
  · simpa [State.holdsDone, s'] using workerNext_doneLock h
  · have hj := hs.fresh k hk j hkj
    by_cases hji : j = i
    · subst hji
      simp [hj, WorkerPc.dead] at halive
    · simpa [s', Function.update_of_ne hji] using hj
  · by_cases hji : j = i
    · subst hji
      simp only [s', Function.update_self] at hj
      exact absurd hj hborn
    · simp only [s', Function.update_of_ne hji] at hj ⊢
      exact hs.unborn j hj

theorem LockInv.main {s s' : State n} {c : Choice} {e : Event n} (hs : LockInv s)
    (h : mainNext s c = some (e, s')) : LockInv s' := by
  have hother : ∀ i, (s'.workers i).pc.holdsGate = (s.workers i).pc.holdsGate ∧
      (s'.workers i).pc.holdsDone = (s.workers i).pc.holdsDone := by
    intro i
    cases mainNext_move h with
    | quiet _ hsame | start _ _ hsame | call _ _ hsame | count _ _ _ hsame
    | «return» _ _ hsame | stop _ _ hsame | stopped _ _ hsame => rw [hsame.pc]; exact ⟨rfl, rfl⟩
    | spawn k _ _ _ _ hk hother _ hmain =>
      by_cases hik : i = k
      · subst hik
        rw [hk.1, hs.fresh i hmain i le_rfl]
        exact ⟨rfl, rfl⟩
      · rw [hother i hik]
        exact ⟨rfl, rfl⟩
    | arm _ _ _ _ hworkers => rw [hworkers]; exact ⟨rfl, rfl⟩
  have hgate : ∀ u : Thread n, u ≠ .main →
      s'.holdsGate u = s.holdsGate u ∧ s'.holdsDone u = s.holdsDone u := by
    intro u hu
    cases u with
    | main => exact absurd rfl hu
    | worker i => exact hother i
  refine ⟨hs.gate.step (mainNext_gateLock h) fun u hu => (hgate u hu).1,
    hs.done.step (mainNext_doneLock h) fun u hu => (hgate u hu).2, fun k hk i hki => ?_,
    fun i hi => ?_⟩
  · obtain ⟨j, rfl, hj, hjn, -, hkeep⟩ := mainNext_spawn h hk
    rw [hkeep i (by rintro rfl; simp at hki)]
    exact hs.fresh j hj i (by omega)
  · rcases mainNext_records h with heq | ⟨k, w, heq, hw⟩
    · rw [heq] at hi ⊢
      exact hs.unborn i hi
    rw [heq] at hi ⊢
    by_cases hik : i = k
    · subst hik
      rw [Function.update_self] at hi ⊢
      rcases hw with ⟨-, hpc, -⟩ | ⟨-, hst⟩ | ⟨hpc, hst⟩
      · simp [hi] at hpc
      · exact hst
      · rw [hst]
        exact hs.unborn i (hpc ▸ hi)
    · rw [Function.update_of_ne hik] at hi ⊢
      exact hs.unborn i hi

theorem LockInv.step {s s' : State n} {e : Event n} (hs : LockInv s) (h : s.step e s') :
    LockInv s' := by
  rcases State.step_cases h with ⟨i, c, g', w', hw, rfl⟩ | ⟨c, hm⟩
  · exact hs.worker hw
  · exact hs.main hm

theorem poolRun_lockInv {tr : List (Event n)} {s : State n} (h : PoolRun n tr s) :
    LockInv s :=
  Execution.invariant (P := fun _ => True) (fun hs hstep _ => LockInv.step hs hstep) h
    (fun _ _ => trivial) lockInv_initial

/-! ### Sleeping and waking -/

/-- No call has failed so far, as far as it can be seen in a worker. -/
def WorkerPc.failing : WorkerPc → Bool
  | .reacquire .failed | .disableCancel false | .report _ | .notifyLock .failHolding
  | .notifyLock .failFree | .notifySignal .failHolding | .notifySignal .failFree
  | .notifyUnlock .failHolding _ | .notifyUnlock .failFree _ | .unlockFailed
  | .ended .failed => true
  | _ => false

/-- About to issue the broadcast on the go condition. -/
def MainPc.broadcasting : MainPc → Bool
  | .broadcast | .exitBroadcast _ => true
  | _ => false

/-- Past the point of a stop where the exit flag is set. -/
def MainPc.exitSet : MainPc → Bool
  | .exitBroadcast _ | .exitUnlock _ _ | .join _ _ _ => true
  | _ => false

/-- About to block in the timed wait, or blocked there with no signal yet. -/
def State.sleeping (s : State n) : Bool :=
  match s.main with
  | .timedWait => true
  | .timedWaiting => s.gate.doneWaiter
  | _ => false

theorem State.sleeping_cases {s : State n} (h : s.sleeping = true) :
    s.main = .timedWait ∨ (s.main = .timedWaiting ∧ s.gate.doneWaiter = true) := by
  unfold State.sleeping at h
  split at h
  · exact .inl ‹_›
  · exact .inr ⟨‹_›, h⟩
  · cases h

/-- Between the final decrement and the done signal. -/
def WorkerPc.signalling : WorkerPc → Bool
  | .notifyLock .workerDone | .notifySignal .workerDone => true
  | _ => false

/-- The invariant of both condition variables while no call fails. -/
structure WakeInv (s : State n) : Prop where
  /-- the predicate of the go condition still holds where the wait is entered -/
  condWait : ∀ i, (s.workers i).pc = .condWait →
    (s.workers i).seenGen = s.gate.generation ∧ s.gate.exitRequested = false
  waiter : ∀ i ∈ s.gate.goWaiters, (s.workers i).pc = .waiting
  go : ∀ i ∈ s.gate.goWaiters, s.main.broadcasting = false →
    (s.workers i).seenGen = s.gate.generation ∧ s.gate.exitRequested = false
  done : s.sleeping = true → s.gate.pending = 0 → ∃ i, (s.workers i).pc.signalling = true
  healthy : ∀ i, (s.workers i).pc.failing = false
  exitSet : s.main.exitSet = true → s.gate.exitRequested = true

/-- What a worker's step does to the two condition variables. -/
structure WakeMove (i : Fin n) (g g' : Gate n) (w w' : Worker) : Prop where
  condWait : w'.pc = .condWait → w'.seenGen = g.generation ∧ g.exitRequested = false
  others : ∀ j, j ≠ i → (j ∈ g'.goWaiters ↔ j ∈ g.goWaiters)
  self : i ∈ g'.goWaiters →
    (w.pc = .condWait ∧ w'.pc = .waiting ∧ w'.seenGen = w.seenGen) ∨
      (i ∈ g.goWaiters ∧ w.pc ≠ .waiting)
  signal : (g'.doneWaiter = g.doneWaiter ∧ (w.pc.signalling = true → w'.pc.signalling = true)) ∨
    (w.pc.holdsDone = true ∧ g'.doneWaiter = false)
  pending : g'.pending = g.pending ∨
    (g'.pending = g.pending - 1 ∧ (g.pending = 1 → w'.pc.signalling = true))
  healthy : w.pc.failing = false → w'.pc.failing = false

/-- At the gate wait, about to block or blocked. -/
def WorkerPc.waits : WorkerPc → Bool
  | .condWait | .waiting => true
  | _ => false

/-- A call that has nothing to do with the condition variables. -/
theorem WakeMove.plain {i : Fin n} {g g' : Gate n} {w w' : Worker} (hpc' : w'.pc.waits = false)
    (hpc : w.pc.waits = false) (hsig : w.pc.signalling = false)
    (hgo : g'.goWaiters = g.goWaiters) (hdone : g'.doneWaiter = g.doneWaiter)
    (hpend : g'.pending = g.pending) (hfail : w.pc.failing = true ∨ w'.pc.failing = false) :
    WakeMove i g g' w w' where
  condWait h := by simp [h, WorkerPc.waits] at hpc'
  others _ _ := by rw [hgo]
  self hi := .inr ⟨hgo ▸ hi, fun h => by simp [h, WorkerPc.waits] at hpc⟩
  signal := .inl ⟨hdone, fun h => by simp [hsig] at h⟩
  pending := .inl hpend
  healthy h := hfail.resolve_left (by simp [h])

/-- The decrement wakes nobody, and the last one leaves a signal due. -/
theorem WakeMove.decrement {i : Fin n} {g : Gate n} {w : Worker} {pc : WorkerPc}
    (hpc : w.pc = .fetchSub) (hlast : g.pending = 1 → pc.signalling = true)
    (hwait : pc.waits = false) (hfail : pc.failing = false) :
    WakeMove i g { g with pending := g.pending - 1 } w (w.goto pc) where
  condWait h := by simp [show pc = .condWait from h, WorkerPc.waits] at hwait
  others _ _ := .rfl
  self hi := .inr ⟨hi, by simp [hpc]⟩
  signal := .inl ⟨rfl, fun h => by simp [hpc, WorkerPc.signalling] at h⟩
  pending := .inr ⟨rfl, hlast⟩
  healthy _ := hfail

/-- A wakeup takes the worker out of the queue. -/
theorem WakeMove.wake {i : Fin n} {g : Gate n} {w : Worker} {how : WaitEnd}
    (hpc : w.pc = .waiting) (hhow : how ≠ .failed) :
    WakeMove i g { g with goWaiters := g.goWaiters.erase i } w (w.goto (.reacquire how)) where
  condWait h := by simp [Worker.goto] at h
  others j hj := by simp [hj]
  self hi := by simp at hi
  signal := .inl ⟨rfl, fun h => by simp [hpc, WorkerPc.signalling] at h⟩
  pending := .inl rfl
  healthy _ := by cases how <;> simp_all [Worker.goto, WorkerPc.failing]

theorem workerNext_wake {i : Fin n} {g g' : Gate n} {w w' : Worker} {c : Choice}
    {e : Event n} (h : workerNext i g w c = some (e, g', w'))
    (hclean : ∀ call, e ≠ .fault call) : WakeMove i g g' w w' := by
  obtain ⟨pc, seen, started, cancelled⟩ := w
  -- first the calls that concern a condition variable, the rest is `plain`
  cases workerNext_step h with
  | wait =>
    exact ⟨by rintro ⟨⟩, fun j hj => by simp [hj], fun _ => .inl ⟨rfl, rfl, rfl⟩,
      .inl ⟨rfl, by rintro ⟨⟩⟩, .inl rfl, fun _ => rfl⟩
  | wake hout =>
    exact ⟨by rintro ⟨⟩, fun _ _ => .rfl, fun h => absurd h hout, .inl ⟨rfl, by rintro ⟨⟩⟩,
      .inl rfl, fun _ => rfl⟩
  | wakeSpurious => exact .wake rfl (by decide)
  | wakeCancelled => exact .wake rfl (by decide)
  | nothingToDo hgo =>
    -- the predicate is false, so the wait is entered
    exact ⟨fun _ => ⟨hgo.1.symm, hgo.2⟩, fun _ _ => .rfl, fun hi => .inr ⟨hi, by rintro ⟨⟩⟩,
      .inl ⟨rfl, by rintro ⟨⟩⟩, .inl rfl, fun _ => rfl⟩
  | lastOut => exact .decrement rfl (fun _ => rfl) rfl rfl
  | out hmore => exact .decrement rfl (fun hone => absurd hone hmore) rfl rfl
  | notifyLock who =>
    cases who
    · exact ⟨by rintro ⟨⟩, fun _ _ => .rfl, fun hi => .inr ⟨hi, by rintro ⟨⟩⟩,
        .inl ⟨rfl, fun _ => rfl⟩, .inl rfl, fun _ => rfl⟩
    · exact .plain rfl rfl rfl rfl rfl rfl (.inl rfl)
    · exact .plain rfl rfl rfl rfl rfl rfl (.inl rfl)
  | signal who =>
    refine ⟨by rintro ⟨⟩, fun _ _ => .rfl, fun hi => .inr ⟨hi, by rintro ⟨⟩⟩, .inr ⟨rfl, rfl⟩,
      .inl rfl, ?_⟩
    cases who <;> simp [Worker.goto, WorkerPc.failing]
  | notifyUnlock who signalled =>
    cases who <;> cases signalled
    · exact .plain rfl rfl rfl rfl rfl rfl (.inr rfl)
    · exact .plain rfl rfl rfl rfl rfl rfl (.inr rfl)
    all_goals exact .plain rfl rfl rfl rfl rfl rfl (.inl rfl)
  | cancelOffFails | lockFails | cancelOnFails | waitFails | wakeFailed | waitedFails
  | notifyLockFails | signalFails => exact absurd rfl (hclean _)
  | relockFailed | waitedInVain | reportHolding | reportFree | unlockFailed =>
    exact .plain rfl rfl rfl rfl rfl rfl (.inl rfl)
  | _ => exact .plain rfl rfl rfl rfl rfl rfl (.inr rfl)

/-- What a step of the main thread does to the two condition variables. -/
structure MainWake (s s' : State n) : Prop where
  predicate : (s'.gate.generation = s.gate.generation ∧
      s'.gate.exitRequested = s.gate.exitRequested) ∨
    (s.main.holdsGate = true ∧ s'.main.broadcasting = true)
  waiters : s'.gate.goWaiters = ∅ ∨
    (s'.gate.goWaiters = s.gate.goWaiters ∧ s.main.broadcasting = false)
  sleeping : s'.sleeping = true →
    s'.gate.pending = s.gate.pending ∧ (s.sleeping = true ∨ s.gate.pending ≠ 0)
  exitSet : s'.main.exitSet = true → s'.gate.exitRequested = true ∨
    (s.main.exitSet = true ∧ s'.gate.exitRequested = s.gate.exitRequested)

/-- A call that has nothing to do with the condition variables. -/
theorem MainWake.plain {s s' : State n} (hgen : s'.gate.generation = s.gate.generation)
    (hexit : s'.gate.exitRequested = s.gate.exitRequested)
    (hgo : s'.gate.goWaiters = s.gate.goWaiters) (hb : s.main.broadcasting = false)
    (hsleep : s'.sleeping = false) (hset : s'.main.exitSet = false) : MainWake s s' where
  predicate := .inl ⟨hgen, hexit⟩
  waiters := .inr ⟨hgo, hb⟩
  sleeping h := by simp [hsleep] at h
  exitSet h := by simp [hset] at h

theorem mainNext_wake {s s' : State n} {c : Choice} {e : Event n}
    (h : mainNext s c = some (e, s')) (hclean : ∀ call, e ≠ .fault call)
    (hcancel : s.main.cancelling = false) : MainWake s s' := by
  obtain ⟨g, workers, main, broken, retired⟩ := s
  -- first the writes of both predicates and the waits, the rest is `plain`
  cases mainNext_step h with
  | arm => exact ⟨.inr ⟨rfl, rfl⟩, .inr ⟨rfl, rfl⟩, nofun, nofun⟩
  | broadcast => exact ⟨.inl ⟨rfl, rfl⟩, .inl rfl, nofun, nofun⟩
  | testPending hzero =>
    exact ⟨.inl ⟨rfl, rfl⟩, .inr ⟨rfl, rfl⟩, fun _ => ⟨rfl, .inr hzero⟩, nofun⟩
  | timedWait => exact ⟨.inl ⟨rfl, rfl⟩, .inr ⟨rfl, rfl⟩, fun _ => ⟨rfl, .inl rfl⟩, nofun⟩
  | setExit => exact ⟨.inr ⟨rfl, rfl⟩, .inr ⟨rfl, rfl⟩, nofun, fun _ => .inl rfl⟩
  | exitBroadcast => exact ⟨.inl ⟨rfl, rfl⟩, .inl rfl, nofun, fun _ => .inr ⟨rfl, rfl⟩⟩
  | exitUnlock | join | joinSkips =>
    exact ⟨.inl ⟨rfl, rfl⟩, .inr ⟨rfl, rfl⟩, nofun, fun _ => .inr ⟨rfl, rfl⟩⟩
  | exitUnlockFailed | storeExitFailed | cancel | cancelFails | cancelSkips | cancelled =>
    cases hcancel
  | spawnFails | lockGoFails | broadcastFails | readClockFails | lockDoneFails | timedWaitFails
  | wakeFailed | exitLockFails | exitBroadcastFails | joinFails => exact absurd rfl (hclean _)
  | _ => exact .plain rfl rfl rfl rfl rfl rfl

/-! ### The invariant holds -/

theorem wakeInv_initial : WakeInv (State.initial n) where
  condWait _ h := by simp [State.initial] at h
  waiter _ h := by simp [State.initial] at h
  go _ h := by simp [State.initial] at h
  done h := by simp [State.initial, State.sleeping] at h
  healthy _ := rfl
  exitSet h := by simp [State.initial, MainPc.exitSet] at h

theorem WakeInv.worker {s : State n} {i : Fin n} {c : Choice} {e : Event n} {g' : Gate n}
    {w' : Worker} (hs : WakeInv s) (hlock : LockInv s)
    (h : workerNext i s.gate (s.workers i) c = some (e, g', w'))
    (hclean : ∀ call, e ≠ .fault call) :
    WakeInv { s with gate := g', workers := Function.update s.workers i w' } := by
  obtain ⟨hgen, hexit, -, -, -⟩ := workerNext_frame h
  have hwake := workerNext_wake h hclean
  set s' : State n := { s with gate := g', workers := Function.update s.workers i w' }
  have hself : s'.workers i = w' := by simp [s']
  have hother : ∀ j, j ≠ i → s'.workers j = s.workers j := by
    intro j hj
    simp [s', Function.update_of_ne hj]
  refine ⟨fun j hj => ?_, fun j hj => ?_, fun j hj hb => ?_, fun hsleep hzero => ?_,
    fun j => ?_, fun hx => hexit.trans (hs.exitSet hx)⟩
  · -- no worker writes the predicate
    change _ = g'.generation ∧ g'.exitRequested = false
    rw [hgen, hexit]
    by_cases hji : j = i
    · subst hji
      rw [hself] at hj ⊢
      exact hwake.condWait hj
    · rw [hother j hji] at hj ⊢
      exact hs.condWait j hj
  · by_cases hji : j = i
    · subst hji
      rw [hself]
      rcases hwake.self hj with ⟨-, hw, -⟩ | ⟨hmem, hne⟩
      · exact hw
      · exact absurd (hs.waiter j hmem) hne
    · rw [hother j hji]
      exact hs.waiter j ((hwake.others j hji).mp hj)
  · change _ = g'.generation ∧ g'.exitRequested = false
    rw [hgen, hexit]
    by_cases hji : j = i
    · subst hji
      rw [hself]
      rcases hwake.self hj with ⟨hpc, -, hseen⟩ | ⟨hmem, hne⟩
      · rw [hseen]
        exact hs.condWait j hpc
      · exact absurd (hs.waiter j hmem) hne
    · rw [hother j hji]
      exact hs.go j ((hwake.others j hji).mp hj) hb
  · rcases hwake.signal with ⟨hdone, hkeep⟩ | ⟨hholds, hdone⟩
    · have hsleep₀ : s.sleeping = true := by
        simpa [State.sleeping, s', hdone] using hsleep
      rcases hwake.pending with hp | ⟨hp, hlast⟩
      · -- a worker that is signalling stays so until the signal is out
        obtain ⟨j, hj⟩ := hs.done hsleep₀ (hp.symm.trans hzero)
        refine ⟨j, ?_⟩
        by_cases hji : j = i
        · subst hji
          rw [hself]
          exact hkeep hj
        · rwa [hother j hji]
      · -- the final decrement: this worker owes the signal
        refine ⟨i, ?_⟩
        rw [hself]
        refine hlast ?_
        change g'.pending = 0 at hzero
        omega
    · -- the main thread holds the done lock until it is blocked
      have hmain : s.holdsDone .main = true := by
        obtain hm | ⟨-, hblocked⟩ := State.sleeping_cases hsleep
        · exact congrArg MainPc.holdsDone hm
        · exact absurd (hdone.symm.trans hblocked) Bool.false_ne_true
      exact absurd (hlock.done.unique (t := .worker i) hholds hmain) nofun
  · by_cases hji : j = i
    · subst hji
      rw [hself]
      exact hwake.healthy (hs.healthy j)
    · rw [hother j hji]
      exact hs.healthy j

theorem WakeInv.main {s s' : State n} {c : Choice} {e : Event n} (hs : WakeInv s)
    (hlock : LockInv s) (hcancel : NoCancel s) (h : mainNext s c = some (e, s'))
    (hclean : ∀ call, e ≠ .fault call) : WakeInv s' := by
  have hwake := mainNext_wake h hclean hcancel.main
  have hpc : ∀ i, (s'.workers i).pc ≠ .disableAtStart →
      (s'.workers i).pc = (s.workers i).pc ∧ (s'.workers i).seenGen = (s.workers i).seenGen :=
    fun i hne => (mainNext_pc h i).resolve_right fun hr => hne hr.1
  -- a worker that is somewhere past its creation is not being created
  have hstay : ∀ i, (s.workers i).pc ≠ .unborn →
      (s'.workers i).pc = (s.workers i).pc ∧ (s'.workers i).seenGen = (s.workers i).seenGen :=
    fun i hne => (mainNext_pc h i).resolve_right fun hr =>
      hne (hlock.fresh i hr.2 i le_rfl)
  refine ⟨fun i hi => ?_, fun i hi => ?_, fun i hi hb => ?_, fun hsleep hzero => ?_,
    fun i => ?_, fun hx => ?_⟩
  · obtain ⟨hp, hseen⟩ := hpc i (by simp [hi])
    rw [hi] at hp
    rcases hwake.predicate with ⟨hgen, hexit⟩ | ⟨hholds, -⟩
    · rw [hseen, hgen, hexit]
      exact hs.condWait i hp.symm
    · have hwholds : s.holdsGate (.worker i) = true := by
        simp [State.holdsGate, ← hp, WorkerPc.holdsGate]
      exact absurd (hlock.gate.unique (t := .main) hholds hwholds) nofun
  · rcases hwake.waiters with hempty | ⟨hsame, -⟩
    · simp [hempty] at hi
    · have hw := hs.waiter i (hsame ▸ hi)
      rw [(hstay i (by simp [hw])).1, hw]
  · rcases hwake.waiters with hempty | ⟨hsame, hb₀⟩
    · simp [hempty] at hi
    rcases hwake.predicate with ⟨hgen, hexit⟩ | ⟨-, hb'⟩
    · have hw := hs.waiter i (hsame ▸ hi)
      rw [(hstay i (by simp [hw])).2, hgen, hexit]
      exact hs.go i (hsame ▸ hi) hb₀
    · simp [hb] at hb'
  · obtain ⟨hp, hsl | hne⟩ := hwake.sleeping hsleep
    · obtain ⟨j, hj⟩ := hs.done hsl (hp.symm.trans hzero)
      refine ⟨j, ?_⟩
      rwa [(hstay j (by rintro hu; simp [hu, WorkerPc.signalling] at hj)).1]
    · exact absurd (hp.symm.trans hzero) hne
  · rcases mainNext_pc h i with ⟨hp, -⟩ | ⟨hp, -⟩
    · rw [hp]
      exact hs.healthy i
    · rw [hp]; rfl
  · rcases hwake.exitSet hx with hset | ⟨hx₀, hsame⟩
    · exact hset
    · exact hsame.trans (hs.exitSet hx₀)

/-- The wakeup invariant in every state of a run in which no call fails. -/
theorem poolRun_wakeInv {tr : List (Event n)} {s : State n} (h : PoolRun n tr s)
    (hclean : ∀ call, .fault call ∉ tr) : WakeInv s ∧ NoCancel s := by
  have key : LockInv s ∧ NoCancel s ∧ WakeInv s := by
    refine Execution.invariant (P := fun e => ∀ call, e ≠ .fault call)
      (I := fun s => LockInv s ∧ NoCancel s ∧ WakeInv s) ?_ h
      (fun e he call heq => hclean call (heq ▸ he))
      ⟨lockInv_initial, ⟨rfl, fun _ => ⟨rfl, rfl⟩⟩, wakeInv_initial⟩
    rintro a e b ⟨hlock, hcancel, hwake⟩ hstep hne
    refine ⟨hlock.step hstep, hcancel.step hstep ⟨hne _, hne _⟩, ?_⟩
    rcases State.step_cases hstep with ⟨i, c, g', w', hw, rfl⟩ | ⟨c, hm⟩
    · exact hwake.worker hlock hw hne
    · exact hwake.main hlock hcancel hm hne
  exact ⟨key.2.2, key.2.1⟩

/-! ### Some thread can go on -/

/-- Some thread stands at a call that can succeed now. -/
def State.CanGoOn (s : State n) : Prop :=
  ∃ t e s', s.next (t, .ok) = some (e, s')

theorem State.canGoOn_worker {s : State n} (i : Fin n)
    (h : (workerNext i s.gate (s.workers i) .ok).isSome) : s.CanGoOn := by
  obtain ⟨r, hr⟩ := Option.isSome_iff_exists.mp h
  refine ⟨.worker i, r.1, { s with gate := r.2.1, workers := Function.update s.workers i r.2.2 }, ?_⟩
  simp [State.next, hr]

theorem State.canGoOn_main {s : State n} (h : (mainNext s .ok).isSome) : s.CanGoOn := by
  obtain ⟨⟨e, s'⟩, hr⟩ := Option.isSome_iff_exists.mp h
  exact ⟨.main, e, s', hr⟩

/-- Whoever holds the done lock can go on. -/
theorem LockInv.canGoOn_of_doneLock {s : State n} (hs : LockInv s)
    (h : s.gate.doneLock ≠ none) : s.CanGoOn := by
  obtain ⟨t, ht⟩ := Option.ne_none_iff_exists'.mp h
  have hholds := (hs.done t).mp ht
  cases t with
  | main =>
    refine State.canGoOn_main ?_
    unfold mainNext
    cases hm : s.main <;> simp_all [State.holdsDone, MainPc.holdsDone]
  | worker i =>
    refine State.canGoOn_worker i ?_
    unfold workerNext
    cases hp : (s.workers i).pc <;> simp_all [State.holdsDone, WorkerPc.holdsDone]

/-- Whoever holds the gate can go on, or waits for one who can. -/
theorem LockInv.canGoOn_of_lock {s : State n} (hs : LockInv s)
    (h : s.gate.lock ≠ none) : s.CanGoOn := by
  by_cases hdone : s.gate.doneLock = none
  swap
  · exact hs.canGoOn_of_doneLock hdone
  obtain ⟨t, ht⟩ := Option.ne_none_iff_exists'.mp h
  have hholds := (hs.gate t).mp ht
  cases t with
  | main =>
    refine State.canGoOn_main ?_
    unfold mainNext
    cases hm : s.main <;> simp_all [State.holdsGate, MainPc.holdsGate]
    split <;> rfl
  | worker i =>
    refine State.canGoOn_worker i ?_
    unfold workerNext
    cases hp : (s.workers i).pc <;> simp_all [State.holdsGate, WorkerPc.holdsGate]
    split <;> rfl

/-- A thread that exists and is not asleep can go on, or waits for one who
can. -/
theorem LockInv.canGoOn_of_awake {s : State n} (hs : LockInv s) {i : Fin n}
    (halive : (s.workers i).pc.dead = false)
    (hawake : (s.workers i).pc = .waiting → i ∉ s.gate.goWaiters) : s.CanGoOn := by
  by_cases hdone : s.gate.doneLock = none
  swap
  · exact hs.canGoOn_of_doneLock hdone
  by_cases hlock : s.gate.lock = none
  swap
  · exact hs.canGoOn_of_lock hlock
  refine State.canGoOn_worker i ?_
  unfold workerNext
  cases hp : (s.workers i).pc <;> simp_all [WorkerPc.dead]
  split <;> rfl

/-- **The pool never hangs.**  While the owner is inside a call of the pool
some thread stands at a call that can succeed. -/
theorem canGoOn_of_busy {s : State n} (hexit : ExitInv s) (hlock : LockInv s)
    (hwake : WakeInv s) (hcancel : NoCancel s) (hbusy : s.main ≠ .idle) : s.CanGoOn := by
  by_cases hdone : s.gate.doneLock = none
  swap
  · exact hlock.canGoOn_of_doneLock hdone
  by_cases hgate : s.gate.lock = none
  swap
  · exact hlock.canGoOn_of_lock hgate
  -- nobody is about to broadcast, the gate being free
  have hquiet : s.main.broadcasting = false := by
    have hfree : s.main.holdsGate = false := by
      simpa [hgate, State.holdsGate] using (hlock.gate .main).mpr
    cases hm : s.main <;> simp_all [MainPc.broadcasting, MainPc.holdsGate]
  cases hm : s.main with
  | timedWaiting =>
    by_cases hsleep : s.gate.doneWaiter = true
    swap
    · exact State.canGoOn_main (by unfold mainNext; simp [hm, hsleep])
    by_cases hzero : s.gate.pending = 0
    · obtain ⟨i, hi⟩ := hwake.done (by simp [State.sleeping, hm, hsleep]) hzero
      refine hlock.canGoOn_of_awake (i := i) ?_ fun hw => ?_
      · cases hp : (s.workers i).pc <;> simp_all [WorkerPc.signalling, WorkerPc.dead]
      · simp [hw, WorkerPc.signalling] at hi
    · -- some worker has not finished, and it is not asleep
      obtain ⟨i, hi⟩ : ∃ i, s.Unfinished i := by
        by_contra hnone
        refine hzero (hexit.gate.pending.trans ?_)
        have : s.unfinished = 0 := Finset.card_eq_zero.mpr
          (Finset.filter_eq_empty_iff.mpr fun i _ hi => hnone ⟨i, hi⟩)
        rw [this]; rfl
      refine hlock.canGoOn_of_awake (i := i) ?_ fun hw hmem => ?_
      · by_contra hdead
        refine (hexit.paid (by simpa using hdead) ?_).1 hi
        have hf := hwake.healthy i
        have hc := (hcancel.worker i).2
        cases hp : (s.workers i).pc with
        | ended how => cases how <;> simp_all [WorkerPc.failing, WorkerPc.cancelling, WorkerPc.lost]
        | _ => rfl
      · have hseen := (hwake.go i hmem hquiet).1
        rcases hi with hne | hbusy
        · exact hne hseen
        · simp [hw, WorkerPc.phase] at hbusy
  | join caller k ok =>
    by_cases hk : k < n
    swap
    · exact State.canGoOn_main (by unfold mainNext; simp [hm, hk])
    by_cases hst : (s.workers ⟨k, hk⟩).started = true
    swap
    · exact State.canGoOn_main (by unfold mainNext; simp [hm, hk, hst])
    by_cases hdead : (s.workers ⟨k, hk⟩).pc.dead = true
    · -- the thread has ended and can be joined
      refine State.canGoOn_main ?_
      cases hp : (s.workers ⟨k, hk⟩).pc with
      | unborn => simp [hlock.unborn _ hp] at hst
      | ended how => unfold mainNext; simp [hm, hk, hst, hp]
      | _ => simp [hp, WorkerPc.dead] at hdead
    · refine hlock.canGoOn_of_awake (i := ⟨k, hk⟩) (by simpa using hdead) fun _ hmem => ?_
      have hset := hwake.exitSet (by simp [hm, MainPc.exitSet])
      simp [(hwake.go _ hmem hquiet).2] at hset
  | idle => exact absurd hm hbusy
  | spawn k =>
    refine State.canGoOn_main ?_
    unfold mainNext
    by_cases hk : k < n <;> simp [hm, hk]
  | cancelStarted caller k =>
    have := hcancel.main
    simp [hm, MainPc.cancelling] at this
  | _ =>
    refine State.canGoOn_main ?_
    unfold mainNext
    simp only [hm, hdone, hgate]
    first
    | rfl
    | (simp; done)
    | (simp only [ne_eq, not_true_eq_false, if_false]; split <;> rfl)

/-! ### The law of the gate -/

/-- **No wakeup is lost on either side of the gate.**  In every state reached
without a failing call: a worker blocked on the go condition although there is
something for it to do gets its broadcast from the main thread, which holds the
gate and is about to issue it; a main thread blocked although nothing is
pending gets its signal from a worker on the way to it; `pending` is the number
of unfinished workers; and while a call of the pool is outstanding some thread
can go on, with no help from a spurious wakeup or a timeout. -/
theorem no_lost_wakeup {tr : List (Event n)} {s : State n} (hrun : PoolRun n tr s)
    (hclean : ∀ call, .fault call ∉ tr) :
    (∀ i, (s.workers i).pc = .waiting → i ∈ s.gate.goWaiters →
      s.gate.generation ≠ (s.workers i).seenGen ∨ s.gate.exitRequested = true →
      s.gate.lock = some .main ∧ (s.main = .broadcast ∨ ∃ c, s.main = .exitBroadcast c)) ∧
    (s.main = .timedWaiting → s.gate.doneWaiter = true → s.gate.pending = 0 →
      ∃ i, (s.workers i).pc = .notifyLock .workerDone ∨
        (s.workers i).pc = .notifySignal .workerDone) ∧
    s.gate.pending = s.unfinished ∧
    (s.main ≠ .idle → s.CanGoOn) := by
  obtain ⟨hwake, hcancel⟩ := poolRun_wakeInv hrun hclean
  have hlock := poolRun_lockInv hrun
  have hexit := poolRun_exitInv hrun
  refine ⟨fun i _ hmem hreason => ?_, fun hm hdone hzero => ?_, hexit.gate.pending,
    canGoOn_of_busy hexit hlock hwake hcancel⟩
  · have hb : s.main.broadcasting = true := by
      by_contra hb
      obtain ⟨hseen, hx⟩ := hwake.go i hmem (by simpa using hb)
      rcases hreason with hne | hx'
      · exact hne hseen.symm
      · simp [hx] at hx'
    have hholds : s.main.holdsGate = true ∧
        (s.main = .broadcast ∨ ∃ c, s.main = .exitBroadcast c) := by
      cases hm : s.main <;> simp_all [MainPc.broadcasting, MainPc.holdsGate]
    exact ⟨(hlock.gate .main).mpr hholds.1, hholds.2⟩
  · obtain ⟨i, hi⟩ := hwake.done (by simp [State.sleeping, hm, hdone]) hzero
    refine ⟨i, ?_⟩
    cases hp : (s.workers i).pc with
    | notifyLock who | notifySignal who => cases who <;> simp_all [WorkerPc.signalling]
    | _ => simp [hp, WorkerPc.signalling] at hi

/-- The main thread is blocked in the timed wait, worker 1 has just driven
`pending` to zero. -/
def lastDecrement : List (Thread 2 × Choice) :=
  runs .main 3 ++ runs worker₀ 5 ++ (.main, .dispatch) :: runs .main 10 ++
    runs worker₀ 6 ++ runs worker₁ 6 ++ runs worker₀ 3 ++ runs worker₁ 4

theorem signal_due_after_lastDecrement :
    ∃ tr s, PoolRun 2 tr s ∧ s.main = .timedWaiting ∧ s.gate.pending = 0 ∧
      (∃ i, (s.workers i).pc = .notifyLock .workerDone ∨
        (s.workers i).pc = .notifySignal .workerDone) ∧ s.CanGoOn := by
  have hall : (execute State.next (State.initial 2) lastDecrement).any (fun r =>
      decide ((∀ e ∈ r.1, e = .tau ∨ e.isMark = true ∨ e.silent = false) ∧
        r.2.main = .timedWaiting ∧ r.2.gate.doneWaiter = true ∧ r.2.gate.pending = 0)) = true := by
    decide
  obtain ⟨⟨tr, s⟩, hexec, h⟩ := (Option.any_eq_true _ _).mp hall
  obtain ⟨htau, hm, hdone, hzero⟩ := of_decide_eq_true h
  change s.main = .timedWaiting at hm
  have hrun : PoolRun 2 tr s := execute_sound hexec
  have hclean : ∀ call, Event.fault call ∉ tr := by
    intro call hmem
    simpa [Event.isMark, Event.silent] using htau _ hmem
  obtain ⟨-, hsignal, -, hgo⟩ := no_lost_wakeup hrun hclean
  exact ⟨tr, s, hrun, hm, hzero, hsignal hm hdone hzero, hgo (by simp [hm])⟩

end AutoUpscale
