/-
An exit request drains the armed frame, and runs nothing twice.

After `up_pool_gate_request_exit` has succeeded the gate is never armed again,
so what a worker still runs is decided by where it stood at the request
(`State.Owes`): the generation it has not seen or not yet run, once, and
nothing else.

- `exit_drains_armed_frame`: the law for every run, whatever failed before the
  request or fails after it; when the stop after it reports success and no
  worker was lost, the armed generation is complete and every thread has ended.

`ExitInv` is the invariant behind it: a worker leaves the gate with nothing to
run only when the exit flag is set, and then it has seen the last generation.
-/
import AutoUpscale.PoolDispatch

namespace AutoUpscale

open LabelledTrace

variable {n : ℕ}

/-! ### Leaving the gate -/

/-- About to leave `up_pool_gate_wait_for_go` without a failure. -/
def WorkerPc.leaving : WorkerPc → Bool
  | .disableCancel true | .readGeneration => true
  | _ => false

/-- Told to end by `up_pool_gate_wait_for_go`. -/
def WorkerPc.exiting : WorkerPc → Bool
  | .unlockGate false | .ended .exited => true
  | _ => false

/-- A worker that leaves the gate wait has a new generation or the exit flag to
show for it, and one that ends regularly has seen everything. -/
structure LeavesWell (g : Gate n) (w : Worker) : Prop where
  leaving : w.pc.leaving = true → w.seenGen ≠ g.generation ∨ g.exitRequested = true
  exiting : w.pc.exiting = true → w.seenGen = g.generation ∧ g.exitRequested = true

theorem LeavesWell.elsewhere {g : Gate n} {w : Worker} (h : w.pc.leaving = false)
    (h' : w.pc.exiting = false) : LeavesWell g w :=
  ⟨fun hl => by simp [h] at hl, fun he => by simp [h'] at he⟩

theorem Notifier.resume_elsewhere (who : Notifier) (ok : Bool) :
    (who.resume ok).leaving = false ∧ (who.resume ok).exiting = false := by
  cases who <;> cases ok <;> exact ⟨rfl, rfl⟩

theorem LeavesWell.step {i : Fin n} {g g' : Gate n} {w w' : Worker} {c : Choice}
    {e : Event n} (hw : LeavesWell g w) (h : workerNext i g w c = some (e, g', w')) :
    LeavesWell g' w' := by
  obtain ⟨pc, seen, started, cancelled⟩ := w
  cases workerNext_step h with
  | go hgo =>
    refine ⟨fun _ => ?_, fun h => absurd h (by simp [Worker.goto, WorkerPc.exiting])⟩
    by_cases hgen : g.generation = seen
    · exact .inr (by simpa [hgen] using hgo)
    · exact .inl (Ne.symm hgen)
  | waited =>
    exact ⟨fun _ => hw.leaving rfl, fun h => absurd h (by simp [Worker.goto, WorkerPc.exiting])⟩
  | readGeneration =>
    refine ⟨fun h => by simp [WorkerPc.leaving] at h, fun h => ⟨rfl, ?_⟩⟩
    by_cases hgen : g.generation = seen
    · exact (hw.leaving rfl).resolve_left fun hne => hne hgen.symm
    · simp [hgen, WorkerPc.exiting] at h
  | unlockToExit =>
    exact ⟨fun h => absurd h (by simp [Worker.goto, WorkerPc.leaving]), fun _ => hw.exiting rfl⟩
  | notifyLockFails | notifyUnlock =>
    exact .elsewhere (Notifier.resume_elsewhere _ _).1 (Notifier.resume_elsewhere _ _).2
  -- no other call hands over to the way out
  | _ => exact .elsewhere rfl rfl

/-- Once the exit flag is set the pool is being stopped or over; it is only set
by a stop. -/
theorem mainNext_exitRequested {s s' : State n} {c : Choice} {e : Event n}
    (h : mainNext s c = some (e, s')) :
    (s.gate.exitRequested = true → s'.gate.exitRequested = true) ∧
      (s'.gate.exitRequested = true → s.gate.exitRequested = true ∨ s.stage = .stopping) := by
  obtain ⟨g, workers, main, broken, retired⟩ := s
  cases mainNext_step h with
  | setExit => exact ⟨fun _ => rfl, fun _ => .inr rfl⟩
  | _ => exact ⟨id, .inl⟩

/-! ### The invariant -/

/-- The spawn loop has created the threads before its index. -/
theorem mainNext_spawn {s s' : State n} {c : Choice} {e : Event n} {k : ℕ}
    (h : mainNext s c = some (e, s')) (hk : s'.main = .spawn k) :
    ∃ j, k = j + 1 ∧ s.main = .spawn j ∧ ∃ hj : j < n, (s'.workers ⟨j, hj⟩).pc ≠ .unborn ∧
      ∀ i, i ≠ ⟨j, hj⟩ → s'.workers i = s.workers i := by
  obtain ⟨g, workers, main, broken, retired⟩ := s
  cases mainNext_step h with
  | spawn j hj =>
    cases hk
    refine ⟨j, rfl, rfl, hj, by simp [State.goto, State.setWorker], fun i hi => ?_⟩
    simp [State.goto, State.setWorker, Function.update_of_ne hi]
  | _ => cases hk

/-- A stage in which the pool will not be armed any more. -/
def Stage.closing : Stage → Bool
  | .stopping | .over => true
  | _ => false

/-- The invariant of the exit side. -/
structure ExitInv (s : State n) : Prop where
  gate : GateInv s
  closing : s.gate.exitRequested = true → s.stage.closing = true
  leaves : ∀ i, LeavesWell s.gate (s.workers i)
  unborn : ∀ i, (s.workers i).pc = .unborn →
    (s.workers i).seenGen = s.gate.generation ∧ (s.stage = .spawning ∨ s.stage.closing = true)
  spawned : ∀ k, s.main = .spawn k → ∀ i : Fin n, i.val < k → (s.workers i).pc ≠ .unborn

/-- A closing pool stays closed. -/
theorem GateInv.closing_step {s s' : State n} {e : Event n} (hs : GateInv s)
    (h : s.step e s') (hc : s.stage.closing = true) : s'.stage.closing = true := by
  have hne : ∀ st, st.closing = false → s.stage ≠ st := by
    rintro st hst rfl
    simp [hst] at hc
  rcases State.step_cases h with ⟨i, c, g', w', hw, rfl⟩ | ⟨c, hm⟩
  · exact hc
  cases mainNext_move hm with
  | quiet hstage => rwa [hstage]
  | spawn _ hstage => exact absurd hstage (hne _ rfl)
  | start hmain =>
    obtain ⟨k, -, hk⟩ := hmain
    exact absurd (by simp [State.stage, hk]) (hne .spawning rfl)
  | call hstage | arm hstage | count hstage | «return» hstage => exact absurd hstage (hne _ rfl)
  | stop _ hstage' => rw [hstage']; rfl
  | stopped hmain hstage' =>
    obtain ⟨caller, hcaller⟩ := hmain
    have hflag := hs.flagged (by simp [State.stage, hcaller])
    rcases hstage' with hover | ⟨hb, hr⟩
    · rw [hover]; rfl
    · simp [hb, hr] at hflag

theorem exitInv_initial : ExitInv (State.initial n) := by
  refine ⟨gateInv_initial, fun h => by simp [State.initial] at h,
    fun i => .elsewhere rfl rfl, fun i _ => ⟨rfl, .inl rfl⟩, fun k hk i hi => ?_⟩
  obtain rfl : 0 = k := by simpa [State.initial] using hk
  omega

theorem ExitInv.worker {s : State n} {i : Fin n} {c : Choice} {e : Event n} {g' : Gate n}
    {w' : Worker} (hs : ExitInv s)
    (h : workerNext i s.gate (s.workers i) c = some (e, g', w')) :
    ExitInv { s with gate := g', workers := Function.update s.workers i w' } := by
  obtain ⟨hgen, hexit, -, -, hborn⟩ := workerNext_frame h
  refine ⟨hs.gate.worker h, fun he => hs.closing (hexit ▸ he), fun j => ?_, fun j hj => ?_,
    fun k hk j hjk => ?_⟩
  all_goals by_cases hji : j = i
  · subst hji
    simpa using (hs.leaves j).step h
  · have hj := hs.leaves j
    refine ⟨fun hl => ?_, fun he => ?_⟩
    all_goals
      simp only [Function.update_of_ne hji] at *
      rw [hgen, hexit]
    · exact hj.leaving hl
    · exact hj.exiting he
  · subst hji
    simp only [Function.update_self] at hj
    exact absurd hj hborn
  · simp only [Function.update_of_ne hji] at hj ⊢
    rw [hgen]
    exact hs.unborn j hj
  · subst hji
    simpa using hborn
  · simp only [Function.update_of_ne hji]
    exact hs.spawned k hk j hjk

theorem LeavesWell.of_eq {g g' : Gate n} {w w' : Worker} (hw : LeavesWell g w)
    (hpc : w'.pc = w.pc) (hseen : w'.seenGen = w.seenGen)
    (hgen : g'.generation = g.generation)
    (hexit : g.exitRequested = true → g'.exitRequested = true) : LeavesWell g' w' := by
  refine ⟨fun h => ?_, fun h => ?_⟩
  · rw [hseen, hgen]
    exact (hw.leaving (hpc ▸ h)).imp_right hexit
  · rw [hseen, hgen]
    exact (hw.exiting (hpc ▸ h)).imp_right hexit

theorem ExitInv.leaves_main {s s' : State n} {c : Choice} {e : Event n} (hs : ExitInv s)
    (hm : mainNext s c = some (e, s')) (i : Fin n) : LeavesWell s'.gate (s'.workers i) := by
  have hexit := (mainNext_exitRequested hm).1
  cases mainNext_move hm with
  | quiet _ hsame | start _ _ hsame | call _ _ hsame | count _ _ _ hsame
  | «return» _ _ hsame | stop _ _ hsame | stopped _ _ hsame =>
    exact (hs.leaves i).of_eq (hsame.pc i) (hsame.seenGen i) hsame.generation hexit
  | spawn k _ _ hgen _ hk hother =>
    by_cases hik : i = k
    · subst hik
      exact .elsewhere (by rw [hk.1]; rfl) (by rw [hk.1]; rfl)
    · rw [hother i hik]
      exact (hs.leaves i).of_eq rfl rfl hgen hexit
  | arm hstage _ hgen _ hworkers =>
    -- everybody has seen the old generation, and nobody was told to end
    have hseen := (hs.gate.finished (hs.gate.drained (by rw [hstage]; rfl)) i).1
    have hnoexit : s.gate.exitRequested ≠ true := by
      intro he
      have := hs.closing he
      simp [hstage, Stage.closing] at this
    rw [hworkers]
    refine ⟨fun _ => .inl ?_, fun h => absurd ((hs.leaves i).exiting h).2 hnoexit⟩
    rw [hseen, hgen]
    simp

theorem ExitInv.unborn_main {s s' : State n} {c : Choice} {e : Event n} (hs : ExitInv s)
    (hm : mainNext s c = some (e, s')) (i : Fin n) (hi : (s'.workers i).pc = .unborn) :
    (s'.workers i).seenGen = s'.gate.generation ∧
      (s'.stage = .spawning ∨ s'.stage.closing = true) := by
  have hkeep : ∀ h : s.SameWork s', (s.workers i).pc = .unborn ∧
      (s'.workers i).seenGen = s'.gate.generation := by
    intro h
    rw [h.pc] at hi
    rw [h.seenGen, h.generation]
    exact ⟨hi, (hs.unborn i hi).1⟩
  have hnot : (s.workers i).pc = .unborn → ¬ (s.stage ≠ .spawning ∧ s.stage.closing = false) := by
    rintro hu ⟨hsp, hc⟩
    rcases (hs.unborn i hu).2 with h | h
    · exact hsp h
    · simp [h] at hc
  have hclosing := hs.gate.closing_step ⟨(.main, c), hm⟩
  cases mainNext_move hm with
  | quiet hstage hsame =>
    obtain ⟨hu, hseen⟩ := hkeep hsame
    rw [hstage]
    exact ⟨hseen, (hs.unborn i hu).2⟩
  | spawn k hstage hstage' hgen _ hk hother =>
    by_cases hik : i = k
    · subst hik
      simp [hk.1] at hi
    · rw [hother i hik] at hi ⊢
      rw [hgen]
      exact ⟨(hs.unborn i hi).1, .inl hstage'⟩
  | start hmain _ hsame =>
    obtain ⟨k, hnk, hk⟩ := hmain
    exact absurd (hkeep hsame).1 (hs.spawned k hk i (by omega))
  | call hstage _ hsame | count hstage _ _ hsame | «return» hstage _ hsame =>
    exact absurd ⟨by simp [hstage], by simp [hstage, Stage.closing]⟩ (hnot (hkeep hsame).1)
  | arm hstage _ _ _ hworkers =>
    rw [hworkers] at hi
    exact absurd ⟨by simp [hstage], by simp [hstage, Stage.closing]⟩ (hnot hi)
  | stop _ hstage' hsame => exact ⟨(hkeep hsame).2, .inr (by rw [hstage']; rfl)⟩
  | stopped hmain _ hsame =>
    obtain ⟨caller, hcaller⟩ := hmain
    exact ⟨(hkeep hsame).2, .inr (hclosing (by simp [State.stage, hcaller, Stage.closing]))⟩

theorem ExitInv.step {s s' : State n} {e : Event n} (hs : ExitInv s) (h : s.step e s') :
    ExitInv s' := by
  rcases State.step_cases h with ⟨i, c, g', w', hw, rfl⟩ | ⟨c, hm⟩
  · exact hs.worker hw
  refine ⟨hs.gate.main hm, fun he => ?_, hs.leaves_main hm, hs.unborn_main hm, ?_⟩
  · refine hs.gate.closing_step h ?_
    rcases (mainNext_exitRequested hm).2 he with he | hstage
    · exact hs.closing he
    · rw [hstage]; rfl
  · intro k hk i hik
    obtain ⟨j, rfl, hj, hjn, hborn, hother⟩ := mainNext_spawn hm hk
    by_cases hij : i = ⟨j, hjn⟩
    · rwa [hij]
    · rw [hother i hij]
      refine hs.spawned j hj i ?_
      have : i.val ≠ j := fun h => hij (Fin.ext h)
      omega

theorem poolRun_exitInv {tr : List (Event n)} {s : State n} (h : PoolRun n tr s) :
    ExitInv s :=
  Execution.invariant (P := fun _ => True) (fun hs hstep _ => ExitInv.step hs hstep) h
    (fun _ _ => trivial) exitInv_initial

/-! ### Cancellation -/

/-- The main thread has not taken the cancelling way out of an exit request. -/
def MainPc.cancelling : MainPc → Bool
  | .exitUnlock _ false | .storeExitFailed _ | .cancelStarted _ _ => true
  | _ => false

def WorkerPc.cancelling : WorkerPc → Bool
  | .reacquire .cancelled | .cancelUnlock | .ended .cancelled => true
  | _ => false

/-- No exit request has failed, so nobody was cancelled. -/
structure NoCancel (s : State n) : Prop where
  main : s.main.cancelling = false
  worker : ∀ i, (s.workers i).cancelled = false ∧ (s.workers i).pc.cancelling = false

theorem Notifier.resume_not_cancelling (who : Notifier) (ok : Bool) :
    (who.resume ok).cancelling = false := by
  cases who <;> cases ok <;> rfl

theorem workerNext_noCancel {i : Fin n} {g g' : Gate n} {w w' : Worker} {c : Choice}
    {e : Event n} (h : workerNext i g w c = some (e, g', w')) (hw : w.cancelled = false)
    (hpc : w.pc.cancelling = false) : w'.cancelled = false ∧ w'.pc.cancelling = false := by
  obtain ⟨pc, seen, started, cancelled⟩ := w
  cases workerNext_step h with
  | wakeCancelled hcancelled => exact absurd (hw.symm.trans hcancelled) Bool.false_ne_true
  | relockCancelled | cancelUnlock => cases hpc
  | notifyLockFails | notifyUnlock => exact ⟨hw, Notifier.resume_not_cancelling _ _⟩
  | _ => exact ⟨hw, rfl⟩

theorem mainNext_noCancel {s s' : State n} {c : Choice} {e : Event n}
    (h : mainNext s c = some (e, s')) (he : e ≠ .fault .exitLock ∧ e ≠ .fault .exitBroadcast)
    (hs : s.main.cancelling = false) : s'.main.cancelling = false ∧
      ∀ i, (s'.workers i).cancelled = (s.workers i).cancelled := by
  obtain ⟨g, workers, main, broken, retired⟩ := s
  have hset : ∀ (k : Fin n) (w : Worker), w.cancelled = (workers k).cancelled →
      ∀ i, (Function.update workers k w i).cancelled = (workers i).cancelled := by
    intro k w hw i
    by_cases hik : i = k
    · subst hik
      simpa using hw
    · rw [Function.update_of_ne hik]
  cases mainNext_step h with
  | exitLockFails => exact absurd rfl he.1
  | exitBroadcastFails => exact absurd rfl he.2
  | exitUnlockFailed | storeExitFailed | cancel | cancelFails | cancelSkips | cancelled => cases hs
  | spawn | join => exact ⟨rfl, hset _ _ rfl⟩
  | _ => exact ⟨rfl, fun _ => rfl⟩

/-- What a step of the main thread leaves of a worker: its position and the
generation it has seen, unless the thread is just being created. -/
theorem mainNext_pc {s s' : State n} {c : Choice} {e : Event n}
    (h : mainNext s c = some (e, s')) (i : Fin n) :
    ((s'.workers i).pc = (s.workers i).pc ∧ (s'.workers i).seenGen = (s.workers i).seenGen) ∨
      ((s'.workers i).pc = .disableAtStart ∧ s.main = .spawn i) := by
  cases mainNext_move h with
  | quiet _ hsame | start _ _ hsame | call _ _ hsame | count _ _ _ hsame
  | «return» _ _ hsame | stop _ _ hsame | stopped _ _ hsame =>
    exact .inl ⟨hsame.pc i, hsame.seenGen i⟩
  | spawn k _ _ _ _ hk hother _ hmain =>
    by_cases hik : i = k
    · subst hik
      exact .inr ⟨hk.1, hmain⟩
    · exact .inl (by rw [hother i hik]; exact ⟨rfl, rfl⟩)
  | arm _ _ _ _ hworkers => exact .inl (by rw [hworkers]; exact ⟨rfl, rfl⟩)

theorem NoCancel.step {s s' : State n} {e : Event n} (hs : NoCancel s) (h : s.step e s')
    (he : e ≠ .fault .exitLock ∧ e ≠ .fault .exitBroadcast) : NoCancel s' := by
  rcases State.step_cases h with ⟨i, c, g', w', hw, rfl⟩ | ⟨c, hm⟩
  · refine ⟨hs.main, fun j => ?_⟩
    by_cases hji : j = i
    · subst hji
      simpa using workerNext_noCancel hw (hs.worker j).1 (hs.worker j).2
    · simpa [Function.update_of_ne hji] using hs.worker j
  · obtain ⟨hmain, hcancelled⟩ := mainNext_noCancel hm he hs.main
    refine ⟨hmain, fun i => ⟨(hcancelled i).trans (hs.worker i).1, ?_⟩⟩
    rcases mainNext_pc hm i with ⟨hpc, -⟩ | ⟨hpc, -⟩
    · rw [hpc]
      exact (hs.worker i).2
    · rw [hpc]; rfl

theorem poolRun_noCancel {tr : List (Event n)} {s : State n} (h : PoolRun n tr s)
    (hok : ∀ e ∈ tr, e ≠ .fault .exitLock ∧ e ≠ .fault .exitBroadcast) : NoCancel s :=
  Execution.invariant (P := fun e => e ≠ .fault .exitLock ∧ e ≠ .fault .exitBroadcast)
    (I := NoCancel) (fun hs hstep he => hs.step hstep he) h hok ⟨rfl, fun _ => ⟨rfl, rfl⟩⟩

/-! ### What is still to run -/

/-- Worker `i` has still to call `run` for the current generation. -/
def State.Owes (s : State n) (i : Fin n) : Prop :=
  (s.workers i).seenGen ≠ s.gate.generation ∨ (s.workers i).pc.phase = .due

instance (s : State n) (i : Fin n) : Decidable (s.Owes i) :=
  inferInstanceAs (Decidable (_ ∨ _))

/-- In a closing pool a worker pays what it owes, and only that. -/
theorem owes_step {s s' : State n} {e : Event n} (hs : GateInv s)
    (hc : s.stage.closing = true) (h : s.step e s') (i : Fin n) :
    (if e.entryOf i then 1 else 0) + (if s'.Owes i then 1 else 0) =
      if s.Owes i then 1 else 0 := by
  have hnotarm : e.isArm = false := by
    by_cases hd : e = .dispatch
    · rw [hd]; rfl
    · exact (State.step_called h (by rintro hst; simp [hst, Stage.closing] at hc) hd).2
  have hgen := State.step_generation h hnotarm
  have hcur := hs.current i
  have hkeep : (s'.workers i).pc.phase = (s.workers i).pc.phase →
      (s'.workers i).seenGen = (s.workers i).seenGen → (s'.Owes i ↔ s.Owes i) := by
    intro hphase hseen
    simp only [State.Owes, hgen, hphase, hseen]
  rcases State.step_worker h i with ⟨hmove, -⟩ | ⟨hpc, hseen, he, -⟩ | ⟨hsp, -⟩
  · cases hmove with
    | quiet hphase hseen _ he => simp [(Event.silent_counts he i).1, hkeep hphase hseen]
    | take hphase hphase' hseen _ _ he =>
      simp [State.Owes, (Event.silent_counts he i).1, hphase', hseen]
    | enter hphase hphase' hseen _ he =>
      subst he
      simp [State.Owes, hgen, Event.entryOf, hphase, hphase', hseen, hcur (by simp [hphase])]
    | leave hphase hphase' hseen _ he =>
      subst he
      simp [State.Owes, hgen, Event.entryOf, hphase, hphase', hseen, hcur (by simp [hphase])]
    | done hphase hphase' hseen _ he =>
      simp [State.Owes, hgen, (Event.silent_counts he i).1, hphase, hphase', hseen,
        hcur (by simp [hphase])]
  · simp [he, hkeep (by rw [hpc]) hseen]
  · simp [hsp, Stage.closing] at hc

theorem owes_run {post : List (Event n)} {s₁ s : State n} (h : Execution State.step s₁ post s)
    (hinv : GateInv s₁) (hc : s₁.stage.closing = true) (i : Fin n) :
    entries i post + (if s.Owes i then 1 else 0) = if s₁.Owes i then 1 else 0 := by
  have key : GateInv s ∧ s.stage.closing = true ∧
      entries i post + (if s.Owes i then 1 else 0) = if s₁.Owes i then 1 else 0 := by
    refine Execution.history (P := fun _ => True)
      (I := fun tr s => GateInv s ∧ s.stage.closing = true ∧
        entries i tr + (if s.Owes i then 1 else 0) = if s₁.Owes i then 1 else 0)
      ?_ h (fun _ _ => trivial) ⟨hinv, hc, by simp [entries]⟩
    rintro pre a e b ⟨hinv, hc, hcount⟩ hstep -
    refine ⟨hinv.step hstep, hinv.closing_step hstep hc, ?_⟩
    rw [entries_snoc, ← hcount, ← owes_step hinv hc hstep i]
    omega
  exact key.2.2

/-! ### The law of exit -/

/-- The calls of the stopping side that an event shows. -/
theorem mainNext_stopping {s s' : State n} {c : Choice} {e : Event n}
    (h : mainNext s c = some (e, s')) :
    (∀ ok, e = .exitRequested ok → s'.stage = .stopping) ∧
      ∀ ok, e = .stopped ok → ∃ caller k, s.main = .join caller k ok ∧ n ≤ k ∧
        s'.workers = s.workers := by
  obtain ⟨g, workers, main, broken, retired⟩ := s
  cases mainNext_step h with
  | exitUnlock | storeExitFailed => exact ⟨fun _ _ => rfl, nofun⟩
  | joined caller k ok hk =>
    refine ⟨nofun, fun ok' hok => ?_⟩
    cases hok
    exact ⟨_, _, rfl, hk, rfl⟩
  | _ => exact ⟨nofun, nofun⟩

theorem workerNext_not_stopping {i : Fin n} {g g' : Gate n} {w w' : Worker} {c : Choice}
    {e : Event n} (h : workerNext i g w c = some (e, g', w')) (ok : Bool) :
    e ≠ .exitRequested ok ∧ e ≠ .stopped ok := by
  obtain ⟨pc, seen, started, cancelled⟩ := w
  cases workerNext_step h <;> exact ⟨nofun, nofun⟩

theorem stage_of_exitRequested {s s' : State n} {ok : Bool}
    (h : s.step (.exitRequested ok) s') : s'.stage = .stopping := by
  rcases State.step_cases h with ⟨i, c, g', w', hw, rfl⟩ | ⟨c, hm⟩
  · exact absurd rfl (workerNext_not_stopping hw ok).1
  · exact (mainNext_stopping hm).1 ok rfl

/-- After a stop that reported success no thread of the pool exists. -/
theorem dead_of_stopped {s s' : State n} (hs : ReapInv s) (h : s.step (.stopped true) s')
    (i : Fin n) : (s'.workers i).pc.dead = true := by
  rcases State.step_cases h with ⟨j, c, g', w', hw, rfl⟩ | ⟨c, hm⟩
  · exact absurd rfl (workerNext_not_stopping hw true).2
  · obtain ⟨caller, k, hjoin, hk, hworkers⟩ := (mainNext_stopping hm).2 true rfl
    rw [hworkers]
    exact hs.dead i (hs.joined caller k hjoin i (by omega))

/-- The thread ended because a call of its own failed, or by cancellation. -/
def WorkerPc.lost : WorkerPc → Bool
  | .ended .failed | .ended .cancelled => true
  | _ => false

/-- A thread that is gone and was not lost owes nothing. -/
theorem ExitInv.paid {s : State n} (hs : ExitInv s) {i : Fin n}
    (hdead : (s.workers i).pc.dead = true) (hlost : (s.workers i).pc.lost = false) :
    ¬ s.Unfinished i ∧ ¬ s.Owes i := by
  have hidle := WorkerPc.phase_of_dead hdead
  suffices hseen : (s.workers i).seenGen = s.gate.generation by
    simp [State.Unfinished, State.Owes, hseen, hidle]
  generalize hpc : (s.workers i).pc = pc at *
  cases pc with
  | unborn => exact (hs.unborn i hpc).1
  | ended how =>
    cases how with
    | exited => exact ((hs.leaves i).exiting (by rw [hpc]; rfl)).1
    | failed | cancelled => cases hlost
  | _ => simp [WorkerPc.dead] at hdead

/-- **An exit request drains the armed frame.**  After a request that succeeds,
every worker whose thread ends without having failed or been cancelled has run
what it still owed at the request, once, and nothing else.  When a stop then
reports success and no worker was lost, nothing is pending and every thread has
ended.  Where no exit request of the run fails nobody is cancelled. -/
theorem exit_drains_armed_frame {pre post : List (Event n)} {s₀ s₁ s : State n}
    (hpre : PoolRun n pre s₀) (hexit : s₀.step (.exitRequested true) s₁)
    (hpost : Execution State.step s₁ post s) :
    (∀ i, (s.workers i).pc.dead = true → (s.workers i).pc.lost = false →
      entries i post = if s₁.Owes i then 1 else 0) ∧
    (∀ mid, post = mid ++ [.stopped true] → (∀ i, (s.workers i).pc.lost = false) →
      s.gate.pending = 0 ∧ ∀ i, (s.workers i).pc.dead = true) ∧
    ((∀ e ∈ pre ++ post, e ≠ .fault .exitLock ∧ e ≠ .fault .exitBroadcast) →
      ∀ i, (s.workers i).pc ≠ .ended .cancelled) := by
  have hrun : PoolRun n (pre ++ .exitRequested true :: post) s :=
    hpre.append (Execution.cons_iff.mpr ⟨s₁, hexit, hpost⟩)
  have hinv := poolRun_exitInv hrun
  refine ⟨fun i hdead hlost => ?_, ?_, fun hok i hi => ?_⟩
  · have howes := owes_run hpost (poolRun_gateInv (hpre.snoc hexit))
      (by rw [stage_of_exitRequested hexit]; rfl) i
    rw [if_neg (hinv.paid hdead hlost).2] at howes
    exact howes
  · rintro mid rfl hlost
    obtain ⟨s₂, hmid, hstop⟩ := Execution.snoc_iff.mp hpost
    have hrun₂ : PoolRun n (pre ++ .exitRequested true :: mid) s₂ :=
      hpre.append (Execution.cons_iff.mpr ⟨s₁, hexit, hmid⟩)
    have hdead := dead_of_stopped (poolRun_reapInv hrun₂) hstop
    refine ⟨?_, hdead⟩
    have hnone : s.unfinished = 0 := by
      refine Finset.card_eq_zero.mpr (Finset.filter_eq_empty_iff.mpr fun i _ => ?_)
      exact (hinv.paid (hdead i) (hlost i)).1
    rw [hinv.gate.pending, hnone]
    rfl
  · have hcancel : NoCancel s := by
      refine poolRun_noCancel hrun fun e he => ?_
      rcases List.mem_append.mp he with he | he
      · exact hok e (List.mem_append_left _ he)
      rcases List.mem_cons.mp he with rfl | he
      · exact ⟨nofun, nofun⟩
      · exact hok e (List.mem_append_right _ he)
    have := (hcancel.worker i).2
    simp [hi, WorkerPc.cancelling] at this

/-- The two workers of the schedules. -/
def worker₀ : Thread 2 := .worker ⟨0, Nat.zero_lt_two⟩

@[inherit_doc worker₀]
def worker₁ : Thread 2 := .worker ⟨1, Nat.one_lt_two⟩

/-- Worker 0 sleeps, worker 1 has not got to the gate yet; the broadcast of the
dispatch fails and the main thread is about to unlock the gate after its exit
request. -/
def failedBroadcast : List (Thread 2 × Choice) :=
  runs .main 3 ++ runs worker₀ 5 ++ (.main, .dispatch) :: runs .main 2 ++
    (.main, .fail) :: runs .main 5

/-- Both workers run what is armed and end, the main thread joins them. -/
def drain : List (Thread 2 × Choice) :=
  runs worker₀ 15 ++ runs worker₁ 19 ++ runs .main 3

theorem failedBroadcast_drained :
    ∃ pre post s₀ s₁ s, PoolRun 2 pre s₀ ∧ .fault .goBroadcast ∈ pre ∧
      s₀.step (.exitRequested true) s₁ ∧ Execution State.step s₁ post s ∧
      (∀ i, entries i post = 1) ∧ s.gate.pending = 0 := by
  have hall : (execute State.next (State.initial 2) failedBroadcast).any (fun r₀ =>
      (State.next r₀.2 (.main, .ok)).any fun r₁ =>
        (execute State.next r₁.2 drain).any fun r =>
          decide (r₁.1 = .exitRequested true ∧ .fault .goBroadcast ∈ r₀.1 ∧
            (∀ i, r₁.2.Owes i) ∧ (∀ i, (r.2.workers i).pc = .ended .exited) ∧
            r.1 = r.1.dropLast ++ [.stopped true])) = true := by decide
  obtain ⟨⟨pre, s₀⟩, hpre, h⟩ := (Option.any_eq_true _ _).mp hall
  obtain ⟨⟨e, s₁⟩, hexit, h⟩ := (Option.any_eq_true _ _).mp h
  obtain ⟨⟨post, s⟩, hpost, h⟩ := (Option.any_eq_true _ _).mp h
  obtain ⟨rfl, hfault, howes, hended, hlast⟩ := of_decide_eq_true h
  have hpre' : PoolRun 2 pre s₀ := execute_sound hpre
  have hpost' : Execution State.step s₁ post s := execute_sound hpost
  have hlaw := exit_drains_armed_frame hpre' ⟨_, hexit⟩ hpost'
  refine ⟨pre, post, s₀, s₁, s, hpre', hfault, ⟨_, hexit⟩, hpost', fun i => ?_, ?_⟩
  · rw [hlaw.1 i (by rw [hended i]; rfl) (by rw [hended i]; rfl), if_pos (howes i)]
  · exact (hlaw.2.1 _ hlast fun i => by rw [hended i]; rfl).1

end AutoUpscale
