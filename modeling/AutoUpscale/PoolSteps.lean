/-
What one step of the dispatch gate can do, call by call.

`workerNext` and `mainNext` decide what a call does from its outcome.  Here are
the same steps as two relations, one constructor for each call and outcome with
the condition it is taken under.

- `workerNext_step`, `mainNext_step`: every step is one of them.
-/
import AutoUpscale.PoolGate

namespace AutoUpscale

variable {n : ℕ}

/-- The steps of worker `i` at each program counter. -/
inductive WorkerStep (i : Fin n) (g : Gate n) (w : Worker) :
    WorkerPc → Event n → Gate n → Worker → Prop
  | cancelOff : WorkerStep i g w .disableAtStart .tau g (w.goto .lockGate)
  | cancelOffFails :
      WorkerStep i g w .disableAtStart (.fault .setCancelState) g (w.goto (.report false))
  | lock (hfree : g.lock = none) :
      WorkerStep i g w .lockGate .tau { g with lock := some (.worker i) } (w.goto .enableCancel)
  | lockFails : WorkerStep i g w .lockGate (.fault .gateLock) g (w.goto (.report false))
  | cancelOn : WorkerStep i g w .enableCancel .tau g (w.goto .testGo)
  | cancelOnFails :
      WorkerStep i g w .enableCancel (.fault .setCancelState) g (w.goto (.disableCancel false))
  | nothingToDo (hgo : g.generation = w.seenGen ∧ g.exitRequested = false) :
      WorkerStep i g w .testGo .tau g (w.goto .condWait)
  | go (hgo : ¬ (g.generation = w.seenGen ∧ g.exitRequested = false)) :
      WorkerStep i g w .testGo .tau g (w.goto (.disableCancel true))
  | wait : WorkerStep i g w .condWait .tau
      { g with lock := none, goWaiters := insert i g.goWaiters } (w.goto .waiting)
  | waitFails : WorkerStep i g w .condWait (.fault .goWait) g (w.goto (.disableCancel false))
  | wake (hout : i ∉ g.goWaiters) : WorkerStep i g w .waiting .tau g (w.goto (.reacquire .woken))
  | wakeSpurious : WorkerStep i g w .waiting .spurious
      { g with goWaiters := g.goWaiters.erase i } (w.goto (.reacquire .woken))
  | wakeFailed : WorkerStep i g w .waiting (.fault .goWait)
      { g with goWaiters := g.goWaiters.erase i } (w.goto (.reacquire .failed))
  | wakeCancelled (hcancelled : w.cancelled = true) : WorkerStep i g w .waiting .tau
      { g with goWaiters := g.goWaiters.erase i } (w.goto (.reacquire .cancelled))
  | relockWoken (hfree : g.lock = none) : WorkerStep i g w (.reacquire .woken) .tau
      { g with lock := some (.worker i) } (w.goto .testGo)
  | relockFailed (hfree : g.lock = none) : WorkerStep i g w (.reacquire .failed) .tau
      { g with lock := some (.worker i) } (w.goto (.disableCancel false))
  | relockCancelled (hfree : g.lock = none) : WorkerStep i g w (.reacquire .cancelled) .tau
      { g with lock := some (.worker i) } (w.goto .cancelUnlock)
  | cancelUnlock : WorkerStep i g w .cancelUnlock .tau
      { g with lock := none } (w.goto (.ended .cancelled))
  | waited : WorkerStep i g w (.disableCancel true) .tau g (w.goto .readGeneration)
  | waitedInVain : WorkerStep i g w (.disableCancel false) .tau g (w.goto (.report true))
  | waitedFails (waitOk : Bool) :
      WorkerStep i g w (.disableCancel waitOk) (.fault .setCancelState) g (w.goto (.report true))
  | readGeneration : WorkerStep i g w .readGeneration .tau g
      { w with
        pc := .unlockGate (decide (g.generation ≠ w.seenGen))
        seenGen := g.generation }
  | unlockToRun : WorkerStep i g w (.unlockGate true) .tau { g with lock := none } (w.goto .callRun)
  | unlockToExit : WorkerStep i g w (.unlockGate false) .tau
      { g with lock := none } (w.goto (.ended .exited))
  | enter : WorkerStep i g w .callRun (.enter i w.seenGen) g (w.goto .running)
  | leave : WorkerStep i g w .running (.leave i) g (w.goto .fetchSub)
  | lastOut (hone : g.pending = 1) : WorkerStep i g w .fetchSub .tau
      { g with pending := g.pending - 1 } (w.goto (.notifyLock .workerDone))
  | out (hmore : g.pending ≠ 1) : WorkerStep i g w .fetchSub .tau
      { g with pending := g.pending - 1 } (w.goto .lockGate)
  | reportHolding : WorkerStep i g w (.report true) .tau
      { g with syncFailed := true } (w.goto (.notifyLock .failHolding))
  | reportFree : WorkerStep i g w (.report false) .tau
      { g with syncFailed := true } (w.goto (.notifyLock .failFree))
  | notifyLock (who : Notifier) (hfree : g.doneLock = none) :
      WorkerStep i g w (.notifyLock who) .tau
        { g with doneLock := some (.worker i) } (w.goto (.notifySignal who))
  | notifyLockFails (who : Notifier) :
      WorkerStep i g w (.notifyLock who) (.fault .doneLock) g (w.goto (who.resume false))
  | signal (who : Notifier) : WorkerStep i g w (.notifySignal who) .tau
      { g with doneWaiter := false } (w.goto (.notifyUnlock who true))
  | signalFails (who : Notifier) : WorkerStep i g w (.notifySignal who) (.fault .doneSignal)
      { g with syncFailed := true } (w.goto (.notifyUnlock who false))
  | notifyUnlock (who : Notifier) (signalled : Bool) :
      WorkerStep i g w (.notifyUnlock who signalled) .tau
        { g with doneLock := none } (w.goto (who.resume signalled))
  | storeSyncFailed : WorkerStep i g w .storeSyncFailed .tau
      { g with syncFailed := true } (w.goto .lockGate)
  | unlockFailed : WorkerStep i g w .unlockFailed .tau
      { g with lock := none } (w.goto (.ended .failed))

theorem workerNext_step {i : Fin n} {g g' : Gate n} {w w' : Worker} {c : Choice}
    {e : Event n} (h : workerNext i g w c = some (e, g', w')) : WorkerStep i g w w.pc e g' w' := by
  obtain ⟨pc, seen, started, cancelled⟩ := w
  unfold workerNext at h
  cases pc <;> simp only at h
  case reacquire how =>
    split at h <;> cases h
    rename_i hfree
    cases how
    · exact .relockWoken hfree.2
    · exact .relockFailed hfree.2
    · exact .relockCancelled hfree.2
  case disableCancel waitOk =>
    split at h <;> cases h
    · cases waitOk
      · exact .waitedInVain
      · exact .waited
    · exact .waitedFails waitOk
  case unlockGate run =>
    split at h <;> cases h
    cases run
    · exact .unlockToExit
    · exact .unlockToRun
  case report holding =>
    split at h <;> cases h
    cases holding
    · exact .reportFree
    · exact .reportHolding
  case fetchSub =>
    split at h <;> cases h
    by_cases hone : g.pending = 1
    · simp only [if_pos hone]
      exact .lastOut hone
    · simp only [if_neg hone]
      exact .out hone
  all_goals (repeat' split at h)
  all_goals first
    | (cases h; done)
    | (cases h; constructor; done)
    | (cases h; constructor; assumption)

/-- The steps of the main thread at each program counter. -/
inductive MainStep (s : State n) : MainPc → Event n → State n → Prop
  | spawn (k : ℕ) (hk : k < n) : MainStep s (.spawn k) .tau
      ((s.setWorker ⟨k, hk⟩
        { s.workers ⟨k, hk⟩ with
          pc := .disableAtStart, seenGen := s.gate.generation, started := true }).goto
        (.spawn (k + 1)))
  | spawnFails (k : ℕ) (hk : k < n) : MainStep s (.spawn k) (.fault .create)
      { s with retired := true, main := .exitLock .destroy }
  | spawned (k : ℕ) (hk : n ≤ k) : MainStep s (.spawn k) .tau (s.goto .idle)
  | dispatch (hflags : s.broken = false ∧ s.retired = false) :
      MainStep s .idle .dispatch (s.goto .lockGo)
  | poison : MainStep s .idle .tau (s.poison .poison)
  | destroy : MainStep s .idle .tau { s with retired := true, main := .exitLock .destroy }
  | lockGo (hfree : s.gate.lock = none) : MainStep s .lockGo .tau
      (s.setGate { s.gate with lock := some .main } .arm)
  | lockGoFails : MainStep s .lockGo (.fault .dispatchLock) (s.poison .dispatch)
  | arm : MainStep s .arm (.arm (s.gate.generation + 1))
      (s.setGate { s.gate with pending := n, generation := s.gate.generation + 1 } .broadcast)
  | broadcast : MainStep s .broadcast .tau
      (s.setGate { s.gate with goWaiters := ∅ } (.unlockGo true))
  | broadcastFails : MainStep s .broadcast (.fault .goBroadcast) (s.goto (.unlockGo false))
  | unlockGo : MainStep s (.unlockGo true) .tau
      (s.setGate { s.gate with lock := none } .loadFailed)
  | unlockGoFailed : MainStep s (.unlockGo false) .tau
      (s.setGate { s.gate with lock := none } .storeGoFailed)
  | storeGoFailed : MainStep s .storeGoFailed .tau
      ({ s with gate := { s.gate with syncFailed := true } }.poison .dispatch)
  | loadFailed (hfailed : s.gate.syncFailed = true) :
      MainStep s .loadFailed .tau (s.poison .dispatch)
  | loadHealthy (hfailed : s.gate.syncFailed = false) :
      MainStep s .loadFailed .tau (s.goto .readClock)
  | readClock : MainStep s .readClock .tau (s.goto .lockDone)
  | readClockFails : MainStep s .readClock (.fault .clock) (s.poison .dispatch)
  | lockDone (hfree : s.gate.doneLock = none) : MainStep s .lockDone .tau
      (s.setGate { s.gate with doneLock := some .main } .testFailed)
  | lockDoneFails : MainStep s .lockDone (.fault .doneLock) (s.poison .dispatch)
  | testFailed (hfailed : s.gate.syncFailed = true) :
      MainStep s .testFailed .tau (s.goto (.unlockDone false))
  | testHealthy (hfailed : s.gate.syncFailed = false) :
      MainStep s .testFailed .tau (s.goto .testPending)
  | testNonePending (hzero : s.gate.pending = 0) :
      MainStep s .testPending .tau (s.goto (.unlockDone true))
  | testPending (hzero : s.gate.pending ≠ 0) : MainStep s .testPending .tau (s.goto .timedWait)
  | timedWait : MainStep s .timedWait .tau
      (s.setGate { s.gate with doneLock := none, doneWaiter := true } .timedWaiting)
  | timedWaitFails : MainStep s .timedWait (.fault .timedWait) (s.goto (.unlockDone false))
  | wake (hout : s.gate.doneWaiter = false) :
      MainStep s .timedWaiting .tau (s.goto (.relockDone .woken))
  | wakeSpurious : MainStep s .timedWaiting .spurious
      (s.setGate { s.gate with doneWaiter := false } (.relockDone .woken))
  | timeout : MainStep s .timedWaiting .timeout
      (s.setGate { s.gate with doneWaiter := false } (.relockDone .timedOut))
  | wakeFailed : MainStep s .timedWaiting (.fault .timedWait)
      (s.setGate { s.gate with doneWaiter := false } (.relockDone .failed))
  | relockWoken (hfree : s.gate.doneLock = none) : MainStep s (.relockDone .woken) .tau
      (s.setGate { s.gate with doneLock := some .main } .testFailed)
  | relockTimedOut (hfree : s.gate.doneLock = none) : MainStep s (.relockDone .timedOut) .tau
      (s.setGate { s.gate with doneLock := some .main } .testTimedOut)
  | relockFailed (hfree : s.gate.doneLock = none) : MainStep s (.relockDone .failed) .tau
      (s.setGate { s.gate with doneLock := some .main } (.unlockDone false))
  | testTimedOut : MainStep s .testTimedOut .tau
      (s.goto (.unlockDone (decide (s.gate.pending = 0))))
  | unlockDone : MainStep s (.unlockDone true) .tau
      ({ s with gate := { s.gate with doneLock := none } }.goto .finalPending)
  | unlockDoneFailed : MainStep s (.unlockDone false) .tau
      ({ s with gate := { s.gate with doneLock := none } }.poison .dispatch)
  | finalPending (hzero : s.gate.pending ≠ 0) :
      MainStep s .finalPending .tau (s.poison .dispatch)
  | finalNonePending (hzero : s.gate.pending = 0) :
      MainStep s .finalPending .tau (s.goto .finalFailed)
  | finalFailed (hfailed : s.gate.syncFailed = true) :
      MainStep s .finalFailed .tau (s.poison .dispatch)
  | return (hfailed : s.gate.syncFailed = false) :
      MainStep s .finalFailed (.ret true) (s.goto .idle)
  | exitLock (caller : Caller) (hfree : s.gate.lock = none) : MainStep s (.exitLock caller) .tau
      (s.setGate { s.gate with lock := some .main } (.setExit caller))
  | exitLockFails (caller : Caller) : MainStep s (.exitLock caller) (.fault .exitLock)
      (s.goto (.storeExitFailed caller))
  | setExit (caller : Caller) : MainStep s (.setExit caller) .tau
      (s.setGate { s.gate with exitRequested := true } (.exitBroadcast caller))
  | exitBroadcast (caller : Caller) : MainStep s (.exitBroadcast caller) .tau
      (s.setGate { s.gate with goWaiters := ∅ } (.exitUnlock caller true))
  | exitBroadcastFails (caller : Caller) :
      MainStep s (.exitBroadcast caller) (.fault .exitBroadcast) (s.goto (.exitUnlock caller false))
  | exitUnlock (caller : Caller) : MainStep s (.exitUnlock caller true) (.exitRequested true)
      (s.setGate { s.gate with lock := none } (.join caller 0 true))
  | exitUnlockFailed (caller : Caller) : MainStep s (.exitUnlock caller false) .tau
      (s.setGate { s.gate with lock := none } (.storeExitFailed caller))
  | storeExitFailed (caller : Caller) :
      MainStep s (.storeExitFailed caller) (.exitRequested false)
        { s with
          gate := { s.gate with syncFailed := true }
          broken := true
          main := .cancelStarted caller 0 }
  | cancel (caller : Caller) (k : ℕ) (hk : k < n)
      (hstarted : (s.workers ⟨k, hk⟩).started = true) : MainStep s (.cancelStarted caller k) .tau
        ((s.setWorker ⟨k, hk⟩ { s.workers ⟨k, hk⟩ with cancelled := true }).goto
          (.cancelStarted caller (k + 1)))
  | cancelFails (caller : Caller) (k : ℕ) (hk : k < n)
      (hstarted : (s.workers ⟨k, hk⟩).started = true) :
      MainStep s (.cancelStarted caller k) (.fault .cancel)
        (s.goto (.cancelStarted caller (k + 1)))
  | cancelSkips (caller : Caller) (k : ℕ) (hk : k < n)
      (hstarted : (s.workers ⟨k, hk⟩).started = false) :
      MainStep s (.cancelStarted caller k) .tau (s.goto (.cancelStarted caller (k + 1)))
  | cancelled (caller : Caller) (k : ℕ) (hk : n ≤ k) :
      MainStep s (.cancelStarted caller k) .tau (s.goto (.join caller 0 true))
  | join (caller : Caller) (k : ℕ) (ok : Bool) (hk : k < n) (how : EndKind)
      (hstarted : (s.workers ⟨k, hk⟩).started = true)
      (hended : (s.workers ⟨k, hk⟩).pc = .ended how) : MainStep s (.join caller k ok) .tau
        ((s.setWorker ⟨k, hk⟩ { s.workers ⟨k, hk⟩ with started := false }).goto
          (.join caller (k + 1) ok))
  | joinFails (caller : Caller) (k : ℕ) (ok : Bool) (hk : k < n)
      (hstarted : (s.workers ⟨k, hk⟩).started = true) :
      MainStep s (.join caller k ok) (.fault .join)
        { s with broken := true, main := .join caller (k + 1) false }
  | joinSkips (caller : Caller) (k : ℕ) (ok : Bool) (hk : k < n)
      (hstarted : (s.workers ⟨k, hk⟩).started = false) :
      MainStep s (.join caller k ok) .tau (s.goto (.join caller (k + 1) ok))
  | joined (caller : Caller) (k : ℕ) (ok : Bool) (hk : n ≤ k) :
      MainStep s (.join caller k ok) (.stopped ok) (s.goto (.afterStop caller))
  | dispatchStopped : MainStep s (.afterStop .dispatch) (.ret false) (s.goto .idle)
  | stopped (caller : Caller) (hcaller : caller ≠ .dispatch) :
      MainStep s (.afterStop caller) .tau (s.goto .idle)

theorem mainNext_step {s s' : State n} {c : Choice} {e : Event n}
    (h : mainNext s c = some (e, s')) : MainStep s s.main e s' := by
  obtain ⟨g, workers, main, broken, retired⟩ := s
  unfold mainNext at h
  cases main <;> simp only at h
  case unlockGo ok =>
    split at h <;> cases h
    cases ok
    · exact .unlockGoFailed
    · exact .unlockGo
  case loadFailed =>
    split at h <;> cases h
    cases hf : g.syncFailed
    · exact .loadHealthy hf
    · exact .loadFailed hf
  case testFailed =>
    split at h <;> cases h
    cases hf : g.syncFailed
    · exact .testHealthy hf
    · exact .testFailed hf
  case testPending =>
    split at h <;> cases h
    by_cases hzero : g.pending = 0
    · rw [if_pos hzero]
      exact .testNonePending hzero
    · rw [if_neg hzero]
      exact .testPending hzero
  case finalPending =>
    split at h <;> cases h
    by_cases hzero : g.pending = 0
    · rw [if_neg (not_not.mpr hzero)]
      exact .finalNonePending hzero
    · rw [if_pos hzero]
      exact .finalPending hzero
  case relockDone how =>
    split at h <;> cases h
    rename_i hfree
    cases how
    · exact .relockWoken hfree.2
    · exact .relockTimedOut hfree.2
    · exact .relockFailed hfree.2
  case unlockDone ok =>
    split at h <;> cases h
    cases ok
    · exact .unlockDoneFailed
    · exact .unlockDone
  case exitUnlock caller ok =>
    cases ok <;> simp only [if_true, Bool.false_eq_true, if_false] at h <;> split at h <;> cases h
    · exact .exitUnlockFailed caller
    · exact .exitUnlock caller
  all_goals (repeat' split at h)
  all_goals first
    | (cases h; done)
    | (cases h; constructor; done)
    | (cases h
       constructor <;>
         first
         | assumption
         | exact not_lt.mp ‹_›
         | exact Bool.eq_false_iff.mpr ‹_›)
end AutoUpscale
