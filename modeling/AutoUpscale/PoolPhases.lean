/-
What one step of the dispatch gate can do, and the invariants that follow.

The program counters are read through two coarser views: `WorkerPc.phase` says
where a worker stands with its current generation, `State.stage` where the main
thread stands with its current dispatch.  `workerNext_move` and `mainNext_move`
list everything a step can do to phases, stages, generation and `pending`;
every invariant below is a case analysis over these two lists.

- `GateInv`: `pending` counts the unfinished workers, a worker only works on
  the current generation, and outside a dispatch that is armed or being stopped
  nothing is pending.
- `poolRun_gateInv`: it holds in every reachable state.
-/
import AutoUpscale.PoolSteps

namespace AutoUpscale

open LabelledTrace

variable {n : ℕ}

/-! ### Phases and stages -/

/-- Where a worker stands with the generation it has seen: not working, to
call `run`, inside `run`, to count itself out. -/
inductive Phase
  | idle | due | inside | leaving
  deriving DecidableEq

def WorkerPc.phase : WorkerPc → Phase
  | .unlockGate true | .callRun => .due
  | .running => .inside
  | .fetchSub => .leaving
  | _ => .idle

/-- A thread that does not exist: never created, or ended. -/
def WorkerPc.dead : WorkerPc → Bool
  | .unborn | .ended _ => true
  | _ => false

/-- Where the main thread stands: `called` is a dispatch that has not armed the
gate, `armed` one that has, `counted` one that has read `pending == 0` at its
end; `over` is an owner that can dispatch no more. -/
inductive Stage
  | spawning | ready | called | armed | counted | stopping | over
  deriving DecidableEq

def State.stage (s : State n) : Stage :=
  match s.main with
  | .spawn _ => .spawning
  | .idle => if s.broken || s.retired then .over else .ready
  | .lockGo | .arm => .called
  | .broadcast | .unlockGo _ | .storeGoFailed | .loadFailed | .readClock | .lockDone
  | .testFailed | .testPending | .timedWait | .timedWaiting | .relockDone _ | .testTimedOut
  | .unlockDone _ | .finalPending => .armed
  | .finalFailed => .counted
  | .exitLock _ | .setExit _ | .exitBroadcast _ | .exitUnlock _ _ | .storeExitFailed _
  | .cancelStarted _ _ | .join _ _ _ | .afterStop _ => .stopping

/-- Events that say nothing about dispatches. -/
def Event.silent : Event n → Bool
  | .tau | .spurious | .timeout | .fault _ | .exitRequested _ | .stopped _ => true
  | _ => false

/-- Worker `i` has not finished the current generation. -/
def State.Unfinished (s : State n) (i : Fin n) : Prop :=
  (s.workers i).seenGen ≠ s.gate.generation ∨ (s.workers i).pc.phase ≠ .idle

instance (s : State n) (i : Fin n) : Decidable (s.Unfinished i) :=
  inferInstanceAs (Decidable (_ ∨ _))

/-! ### What a step can do -/

/-- What a worker's step does to its own phase and to `pending`. -/
inductive WorkerMove (i : Fin n) (g : Gate n) (w : Worker) (e : Event n) (g' : Gate n)
    (w' : Worker) : Prop
  | quiet (hphase : w'.pc.phase = w.pc.phase) (hseen : w'.seenGen = w.seenGen)
      (hpending : g'.pending = g.pending) (he : e.silent = true)
  | take (hphase : w.pc.phase = .idle) (hphase' : w'.pc.phase = .due)
      (hseen : w.seenGen ≠ g.generation) (hseen' : w'.seenGen = g.generation)
      (hpending : g'.pending = g.pending) (he : e.silent = true)
  | enter (hphase : w.pc.phase = .due) (hphase' : w'.pc.phase = .inside)
      (hseen : w'.seenGen = w.seenGen) (hpending : g'.pending = g.pending)
      (he : e = .enter i w.seenGen)
  | leave (hphase : w.pc.phase = .inside) (hphase' : w'.pc.phase = .leaving)
      (hseen : w'.seenGen = w.seenGen) (hpending : g'.pending = g.pending)
      (he : e = .leave i)
  | done (hphase : w.pc.phase = .leaving) (hphase' : w'.pc.phase = .idle)
      (hseen : w'.seenGen = w.seenGen) (hpending : g'.pending = g.pending - 1)
      (he : e.silent = true)

/-- What no step of a worker does. -/
structure WorkerFrame (g g' : Gate n) (w w' : Worker) : Prop where
  generation : g'.generation = g.generation
  exitRequested : g'.exitRequested = g.exitRequested
  started : w'.started = w.started
  alive : w.pc.dead = false
  born : w'.pc ≠ .unborn

theorem Notifier.phase_resume (who : Notifier) (ok : Bool) :
    (who.resume ok).phase = .idle := by
  cases who <;> cases ok <;> rfl

theorem Notifier.resume_ne_unborn (who : Notifier) (ok : Bool) : who.resume ok ≠ .unborn := by
  cases who <;> cases ok <;> simp [Notifier.resume]

theorem workerNext_frame {i : Fin n} {g g' : Gate n} {w w' : Worker} {c : Choice}
    {e : Event n} (h : workerNext i g w c = some (e, g', w')) : WorkerFrame g g' w w' := by
  obtain ⟨pc, seen, started, cancelled⟩ := w
  cases workerNext_step h with
  | notifyLockFails | notifyUnlock => exact ⟨rfl, rfl, rfl, rfl, Notifier.resume_ne_unborn _ _⟩
  | _ => exact ⟨rfl, rfl, rfl, rfl, WorkerPc.noConfusion⟩

theorem workerNext_move {i : Fin n} {g g' : Gate n} {w w' : Worker} {c : Choice}
    {e : Event n} (h : workerNext i g w c = some (e, g', w')) : WorkerMove i g w e g' w' := by
  obtain ⟨pc, seen, started, cancelled⟩ := w
  cases workerNext_step h with
  | readGeneration =>
    by_cases hgen : g.generation = seen
    · refine .quiet ?_ hgen rfl rfl
      simp [hgen, WorkerPc.phase]
    · refine .take rfl ?_ (Ne.symm hgen) rfl rfl rfl
      simp [hgen, WorkerPc.phase]
  | enter => exact .enter rfl rfl rfl rfl rfl
  | leave => exact .leave rfl rfl rfl rfl rfl
  | lastOut | out => exact .done rfl rfl rfl rfl rfl
  | notifyLockFails | notifyUnlock => exact .quiet (Notifier.phase_resume _ _) rfl rfl rfl
  -- every other call is made outside the work on a generation
  | _ => exact .quiet rfl rfl rfl rfl

/-- Generation, `pending` and the workers' work are as before. -/
structure State.SameWork (s s' : State n) : Prop where
  generation : s'.gate.generation = s.gate.generation
  pending : s'.gate.pending = s.gate.pending
  pc : ∀ i, (s'.workers i).pc = (s.workers i).pc
  seenGen : ∀ i, (s'.workers i).seenGen = (s.workers i).seenGen

/-- What a step of the main thread does to its stage and to the work. -/
inductive MainMove (s : State n) (e : Event n) (s' : State n) : Prop
  | quiet (hstage : s'.stage = s.stage) (hsame : s.SameWork s') (he : e.silent = true)
  | spawn (k : Fin n) (hstage : s.stage = .spawning) (hstage' : s'.stage = .spawning)
      (hgen : s'.gate.generation = s.gate.generation)
      (hpending : s'.gate.pending = s.gate.pending)
      (hk : (s'.workers k).pc = .disableAtStart ∧
        (s'.workers k).seenGen = s.gate.generation)
      (hother : ∀ i, i ≠ k → s'.workers i = s.workers i) (he : e.silent = true)
      (hmain : s.main = .spawn k)
  | start (hmain : ∃ k, n ≤ k ∧ s.main = .spawn k)
      (hstage' : s'.stage = .ready ∨ s'.stage = .over) (hsame : s.SameWork s')
      (he : e.silent = true)
  | call (hstage : s.stage = .ready) (hstage' : s'.stage = .called) (hsame : s.SameWork s')
      (he : e = .dispatch)
  | arm (hstage : s.stage = .called) (hstage' : s'.stage = .armed)
      (hgen : s'.gate.generation = s.gate.generation + 1) (hpending : s'.gate.pending = n)
      (hworkers : s'.workers = s.workers) (he : e = .arm (s.gate.generation + 1))
  | count (hstage : s.stage = .armed) (hstage' : s'.stage = .counted)
      (hzero : s.gate.pending = 0) (hsame : s.SameWork s') (he : e.silent = true)
  | return (hstage : s.stage = .counted) (hstage' : s'.stage = .ready ∨ s'.stage = .over)
      (hsame : s.SameWork s') (he : e = .ret true)
  | stop (hstage : s.stage ≠ .stopping) (hstage' : s'.stage = .stopping)
      (hsame : s.SameWork s') (he : e.silent = true)
  | stopped (hmain : ∃ c, s.main = .afterStop c)
      (hstage' : s'.stage = .over ∨ (s.broken = false ∧ s.retired = false))
      (hsame : s.SameWork s') (he : e.silent = true ∨ e = .ret false)

theorem stage_idle (s : State n) :
    (s.goto .idle).stage = .ready ∨ (s.goto .idle).stage = .over := by
  by_cases h : s.broken || s.retired <;> simp [State.stage, State.goto, h]

theorem stage_idle_over (s : State n) :
    (s.goto .idle).stage = .over ∨ (s.broken = false ∧ s.retired = false) := by
  by_cases h : s.broken || s.retired
  · exact .inl (by simp [State.stage, State.goto, h])
  · exact .inr (by simpa using h)

theorem stage_idle_ne_stopping (s : State n) : (s.goto .idle).stage ≠ .stopping := by
  rcases stage_idle s with h | h <;> simp [h]

theorem State.SameWork.of_eq {s s' : State n}
    (hgen : s'.gate.generation = s.gate.generation)
    (hpending : s'.gate.pending = s.gate.pending) (hworkers : s'.workers = s.workers) :
    s.SameWork s' :=
  ⟨hgen, hpending, fun i => by rw [hworkers], fun i => by rw [hworkers]⟩

/-- Marking a thread started, cancelled or joined is not work. -/
theorem State.SameWork.setWorker (s : State n) (pc : MainPc) (k : Fin n) {w : Worker}
    (hpc : w.pc = (s.workers k).pc) (hseen : w.seenGen = (s.workers k).seenGen) :
    s.SameWork ((s.setWorker k w).goto pc) := by
  refine ⟨rfl, rfl, fun i => ?_, fun i => ?_⟩ <;>
  · by_cases hik : i = k
    · subst hik
      simpa [State.setWorker, State.goto]
    · simp [State.setWorker, State.goto, Function.update_of_ne hik]

theorem mainNext_move {s s' : State n} {c : Choice} {e : Event n}
    (h : mainNext s c = some (e, s')) : MainMove s e s' := by
  obtain ⟨g, workers, main, broken, retired⟩ := s
  cases mainNext_step h with
  | spawn k hk =>
    refine .spawn ⟨k, hk⟩ rfl rfl rfl rfl ?_ ?_ rfl rfl
    · simp [State.setWorker, State.goto]
    · intro i hik
      simp [State.setWorker, State.goto, Function.update_of_ne hik]
  | spawned k hk => exact .start ⟨k, hk, rfl⟩ (stage_idle _) (.of_eq rfl rfl rfl) rfl
  | dispatch hflags =>
    refine .call ?_ rfl (.of_eq rfl rfl rfl) rfl
    simp only at hflags
    simp [State.stage, hflags.1, hflags.2]
  | poison | destroy =>
    refine .stop ?_ rfl (.of_eq rfl rfl rfl) rfl
    by_cases h : broken || retired <;> simp [State.stage, h]
  | arm => exact .arm rfl rfl rfl rfl rfl rfl
  | finalNonePending hzero => exact .count rfl rfl hzero (.of_eq rfl rfl rfl) rfl
  | «return» => exact .return rfl (stage_idle _) (.of_eq rfl rfl rfl) rfl
  | spawnFails | lockGoFails | storeGoFailed | loadFailed | readClockFails | lockDoneFails
  | unlockDoneFailed | finalPending | finalFailed =>
    exact .stop (by simp [State.stage]) rfl (.of_eq rfl rfl rfl) rfl
  | cancel | join => exact .quiet rfl (State.SameWork.setWorker _ _ _ rfl rfl) rfl
  | dispatchStopped =>
    exact .stopped ⟨_, rfl⟩ (stage_idle_over _) (.of_eq rfl rfl rfl) (.inr rfl)
  | stopped => exact .stopped ⟨_, rfl⟩ (stage_idle_over _) (.of_eq rfl rfl rfl) (.inl rfl)
  -- everywhere else the call keeps the stage
  | _ => exact .quiet rfl (.of_eq rfl rfl rfl) rfl

/-- A pool that is being stopped is broken or retired. -/
theorem mainNext_flagged {s s' : State n} {c : Choice} {e : Event n}
    (h : mainNext s c = some (e, s'))
    (hs : s.stage = .stopping → s.broken = true ∨ s.retired = true)
    (hs' : s'.stage = .stopping) : s'.broken = true ∨ s'.retired = true := by
  obtain ⟨g, workers, main, broken, retired⟩ := s
  cases mainNext_step h with
  | spawnFails | destroy => exact .inr rfl
  | poison | lockGoFails | storeGoFailed | loadFailed | readClockFails | lockDoneFails
  | unlockDoneFailed | finalPending | finalFailed | storeExitFailed | joinFails => exact .inl rfl
  | spawned | «return» | dispatchStopped | stopped => exact absurd hs' (stage_idle_ne_stopping _)
  | exitLock | exitLockFails | setExit | exitBroadcast | exitBroadcastFails | exitUnlock
  | exitUnlockFailed | cancel | cancelFails | cancelSkips | cancelled | join | joinSkips
  | joined => exact hs rfl
  | _ => exact absurd hs' (by simp [State.stage, State.goto, State.setGate, State.setWorker])

/-- Every step is one worker's or the main thread's. -/
theorem State.step_cases {s s' : State n} {e : Event n} (h : s.step e s') :
    (∃ i c g' w', workerNext i s.gate (s.workers i) c = some (e, g', w') ∧
      s' = { s with gate := g', workers := Function.update s.workers i w' }) ∨
    ∃ c, mainNext s c = some (e, s') := by
  obtain ⟨⟨t, c⟩, h⟩ := h
  cases t with
  | main => exact .inr ⟨c, h⟩
  | worker i =>
    obtain ⟨⟨e', g', w'⟩, hw, he⟩ := Option.map_eq_some_iff.mp h
    obtain ⟨rfl, rfl⟩ : e' = e ∧ _ = s' := by simpa using he
    exact .inl ⟨i, c, g', w', hw, rfl⟩

/-! ### The counting invariant -/

theorem unfinished_of_sameWork {s s' : State n} (h : s.SameWork s') (i : Fin n) :
    s'.Unfinished i ↔ s.Unfinished i := by
  unfold State.Unfinished
  rw [h.pc, h.seenGen, h.generation]

/-- The number of workers that have not finished the current generation. -/
def State.unfinished (s : State n) : ℕ :=
  (Finset.univ.filter fun i => s.Unfinished i).card

/-- Stages in which no worker has anything to do. -/
def Stage.drained : Stage → Bool
  | .spawning | .ready | .called | .counted => true
  | _ => false

/-- The invariant of the done side: `pending` counts the unfinished workers, a
worker works on no other generation than the current one, and nothing is
pending where the owner relies on it. -/
structure GateInv (s : State n) : Prop where
  pending : s.gate.pending = s.unfinished
  current : ∀ i, (s.workers i).pc.phase ≠ .idle →
    (s.workers i).seenGen = s.gate.generation
  drained : s.stage.drained = true → s.gate.pending = 0
  flagged : s.stage = .stopping → s.broken = true ∨ s.retired = true

theorem GateInv.finished {s : State n} (hs : GateInv s) (h : s.gate.pending = 0)
    (i : Fin n) :
    (s.workers i).seenGen = s.gate.generation ∧ (s.workers i).pc.phase = .idle := by
  have hcard : s.unfinished = 0 := by exact_mod_cast hs.pending.symm.trans h
  have hi := Finset.filter_eq_empty_iff.mp (Finset.card_eq_zero.mp hcard) (Finset.mem_univ i)
  simpa [State.Unfinished] using hi

theorem gateInv_initial : GateInv (State.initial n) := by
  refine ⟨?_, fun i h => absurd rfl h, fun _ => rfl, fun h => by simp [State.initial, State.stage] at h⟩
  symm
  simp [State.unfinished, State.Unfinished, State.initial, WorkerPc.phase]

/-- `pending` after worker `i` is done: one unfinished worker fewer. -/
theorem unfinished_done {s s' : State n} {i : Fin n} (hi : s.Unfinished i)
    (hi' : ¬ s'.Unfinished i) (hother : ∀ j, j ≠ i → (s'.Unfinished j ↔ s.Unfinished j)) :
    (s'.unfinished : ℤ) = s.unfinished - 1 := by
  have herase : (Finset.univ.filter fun j => s'.Unfinished j)
      = (Finset.univ.filter fun j => s.Unfinished j).erase i := by
    ext j
    by_cases hji : j = i
    · subst hji
      simp [hi']
    · simp [hji, hother j hji]
  have hmem : i ∈ Finset.univ.filter fun j => s.Unfinished j := by simpa using hi
  have hpos := Finset.card_pos.mpr ⟨i, hmem⟩
  unfold State.unfinished
  rw [herase, Finset.card_erase_of_mem hmem]
  omega

theorem unfinished_congr {s s' : State n}
    (h : ∀ i, s'.Unfinished i ↔ s.Unfinished i) : s'.unfinished = s.unfinished := by
  unfold State.unfinished
  congr 1
  ext i
  simp [h i]

theorem GateInv.worker {s : State n} {i : Fin n} {c : Choice} {e : Event n} {g' : Gate n}
    {w' : Worker} (hs : GateInv s)
    (h : workerNext i s.gate (s.workers i) c = some (e, g', w')) :
    GateInv { s with gate := g', workers := Function.update s.workers i w' } := by
  obtain ⟨hgen, -, -, -, -⟩ := workerNext_frame h
  have hmove := workerNext_move h
  generalize hw : s.workers i = w at h hmove
  have hcurrent := hs.current i
  rw [hw] at hcurrent
  set s' : State n := { s with gate := g', workers := Function.update s.workers i w' }
  have hother : ∀ j, j ≠ i → (s'.Unfinished j ↔ s.Unfinished j) := by
    intro j hj
    simp [s', State.Unfinished, Function.update_of_ne hj, hgen]
  -- what worker i itself contributes before and after
  have hself : s.Unfinished i ↔ w.seenGen ≠ s.gate.generation ∨ w.pc.phase ≠ .idle := by
    rw [State.Unfinished, hw]
  have hself' : s'.Unfinished i ↔ w'.seenGen ≠ s.gate.generation ∨ w'.pc.phase ≠ .idle := by
    simp [s', State.Unfinished, hgen]
  have hkeep : (s'.Unfinished i ↔ s.Unfinished i) → g'.pending = s.gate.pending →
      g'.pending = s'.unfinished ∧ (s.stage.drained = true → g'.pending = 0) := by
    intro hiff hp
    refine ⟨?_, fun hd => hp.trans (hs.drained hd)⟩
    have hall : ∀ j, s'.Unfinished j ↔ s.Unfinished j := by
      intro j
      by_cases hj : j = i
      · exact hj ▸ hiff
      · exact hother j hj
    rw [hp, hs.pending, unfinished_congr hall]
  have hcur' : (w'.pc.phase ≠ .idle → w'.seenGen = s.gate.generation) →
      ∀ j, (s'.workers j).pc.phase ≠ .idle → (s'.workers j).seenGen = s'.gate.generation := by
    intro hw' j hj
    by_cases hji : j = i
    · subst hji
      simp only [s', Function.update_self] at hj ⊢
      rw [hgen]
      exact hw' hj
    · simp only [s', Function.update_of_ne hji] at hj ⊢
      rw [hgen]
      exact hs.current j hj
  have hflag := hs.flagged
  cases hmove with
  | quiet hphase hseen hp he =>
    obtain ⟨hpend, hdr⟩ := hkeep (by rw [hself, hself', hphase, hseen]) hp
    exact ⟨hpend, hcur' (by rw [hphase, hseen]; exact hcurrent), hdr, hflag⟩
  | take hphase hphase' hseen hseen' hp he =>
    obtain ⟨hpend, hdr⟩ := hkeep (by simp [hself, hself', hphase', hseen]) hp
    exact ⟨hpend, hcur' fun _ => hseen', hdr, hflag⟩
  | enter hphase hphase' hseen hp he =>
    obtain ⟨hpend, hdr⟩ := hkeep (by simp [hself, hself', hphase, hphase']) hp
    exact ⟨hpend, hcur' fun _ => hseen.trans (hcurrent (by simp [hphase])), hdr, hflag⟩
  | leave hphase hphase' hseen hp he =>
    obtain ⟨hpend, hdr⟩ := hkeep (by simp [hself, hself', hphase, hphase']) hp
    exact ⟨hpend, hcur' fun _ => hseen.trans (hcurrent (by simp [hphase])), hdr, hflag⟩
  | done hphase hphase' hseen hp he =>
    have hgen' := hseen.trans (hcurrent (by simp [hphase]))
    have hi : s.Unfinished i := hself.mpr (.inr (by simp [hphase]))
    have hi' : ¬ s'.Unfinished i := by simp [hself', hphase', hgen']
    refine ⟨?_, hcur' fun hne => absurd hphase' hne, fun hd => ?_, hflag⟩
    · change g'.pending = s'.unfinished
      rw [unfinished_done hi hi' hother, hp, hs.pending]
    · -- nobody is counting down while nothing is pending
      exact absurd (hs.finished (hs.drained hd) i).2 (by simp [hw, hphase])

theorem GateInv.sameWork {s s' : State n} (hs : GateInv s) (h : s.SameWork s')
    (hdrained : s'.stage.drained = true → s.gate.pending = 0)
    (hflagged : s'.stage = .stopping → s'.broken = true ∨ s'.retired = true) : GateInv s' := by
  refine ⟨?_, fun i => ?_, fun hd => h.pending.trans (hdrained hd), hflagged⟩
  · rw [h.pending, hs.pending, unfinished_congr (unfinished_of_sameWork h)]
  · rw [h.pc, h.seenGen, h.generation]
    exact hs.current i

theorem GateInv.main {s s' : State n} {c : Choice} {e : Event n} (hs : GateInv s)
    (h : mainNext s c = some (e, s')) : GateInv s' := by
  have hflagged := mainNext_flagged h hs.flagged
  cases mainNext_move h with
  | quiet hstage hsame _ =>
    exact hs.sameWork hsame (fun hd => hs.drained (by rwa [← hstage])) hflagged
  | spawn k hstage hstage' hgen hpending hk hother _ =>
    have hzero := hs.drained (by rw [hstage]; rfl)
    have hfinished := hs.finished hzero
    have hfinished' : ∀ i, (s'.workers i).seenGen = s'.gate.generation ∧
        (s'.workers i).pc.phase = .idle := by
      intro i
      by_cases hik : i = k
      · subst hik
        exact ⟨by rw [hk.2, hgen], by rw [hk.1]; rfl⟩
      · rw [hother i hik, hgen]
        exact hfinished i
    refine ⟨?_, fun i _ => (hfinished' i).1, fun _ => hpending.trans hzero, hflagged⟩
    rw [hpending, hs.pending, unfinished_congr fun i => ?_]
    simp [State.Unfinished, hfinished i, hfinished' i]
  | start hmain _ hsame _ =>
    obtain ⟨k, -, hk⟩ := hmain
    exact hs.sameWork hsame (fun _ => hs.drained (by simp [State.stage, hk, Stage.drained]))
      hflagged
  | call hstage _ hsame _ =>
    exact hs.sameWork hsame (fun _ => hs.drained (by rw [hstage]; rfl)) hflagged
  | arm hstage hstage' hgen hpending hworkers _ =>
    have hfinished := hs.finished (hs.drained (by rw [hstage]; rfl))
    refine ⟨?_, fun i hi => ?_, fun hd => ?_, hflagged⟩
    · have hall : ∀ i, s'.Unfinished i := fun i => .inl (by
        rw [hworkers, hgen, (hfinished i).1]
        simp)
      simp [hpending, State.unfinished, hall]
    · rw [hworkers] at hi
      exact absurd (hfinished i).2 hi
    · rw [hstage'] at hd
      exact absurd hd (by decide)
  | count _ _ hzero hsame _ => exact hs.sameWork hsame (fun _ => hzero) hflagged
  | «return» hstage _ hsame _ =>
    exact hs.sameWork hsame (fun _ => hs.drained (by rw [hstage]; rfl)) hflagged
  | stop _ hstage' hsame _ =>
    exact hs.sameWork hsame (fun hd => absurd hd (by rw [hstage']; decide)) hflagged
  | stopped hmain hstage' hsame _ =>
    -- a stopped pool does not become ready again
    obtain ⟨c, hc⟩ := hmain
    have hflag := hs.flagged (by simp [State.stage, hc])
    rcases hstage' with hover | ⟨hb, hr⟩
    · exact hs.sameWork hsame (fun hd => absurd hd (by rw [hover]; decide)) hflagged
    · simp [hb, hr] at hflag

theorem GateInv.step {s s' : State n} {e : Event n} (hs : GateInv s) (h : s.step e s') :
    GateInv s' := by
  rcases State.step_cases h with ⟨i, c, g', w', hw, rfl⟩ | ⟨c, hm⟩
  · exact hs.worker hw
  · exact hs.main hm

theorem poolRun_gateInv {tr : List (Event n)} {s : State n} (h : PoolRun n tr s) :
    GateInv s :=
  Execution.invariant (P := fun _ => True) (fun hs hstep _ => GateInv.step hs hstep) h
    (fun _ _ => trivial) gateInv_initial

end AutoUpscale
