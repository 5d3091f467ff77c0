/-
A dispatch runs every worker exactly once and returns when all are quiet.

The statements are about the trace of a run, in which `enter i g` and `leave i`
bracket one call of `ops->run` by worker `i`.

- `dispatch_runs_each_worker_once`: the law of `up_worker_pool_dispatch`, for
  every run in which no join fails: a dispatch that returns 0 has each worker's
  one call behind it, no worker is called twice between two arms of the gate,
  and after any return nothing runs until the next dispatch.

The induction behind the first half starts at the last `arm`
(`AfterArm`); the second half rests on `State.Still`, which only an arm ends.
-/
import AutoUpscale.PoolPhases

namespace AutoUpscale

open LabelledTrace

variable {n : ℕ}

/-! ### Counting calls of `run` in a trace -/

def Event.entryOf (i : Fin n) : Event n → Bool
  | .enter j _ => decide (j = i)
  | _ => false

def Event.exitOf (i : Fin n) : Event n → Bool
  | .leave j => decide (j = i)
  | _ => false

def Event.isArm : Event n → Bool
  | .arm _ => true
  | _ => false

/-- The events of the dispatching thread. -/
def Event.isMark : Event n → Bool
  | .dispatch | .arm _ | .ret _ => true
  | _ => false

/-- How often worker `i` enters `run` in `tr`. -/
def entries (i : Fin n) (tr : List (Event n)) : ℕ :=
  tr.countP (Event.entryOf i)

/-- How often worker `i` returns from `run` in `tr`. -/
def exits (i : Fin n) (tr : List (Event n)) : ℕ :=
  tr.countP (Event.exitOf i)

theorem entries_snoc (i : Fin n) (tr : List (Event n)) (e : Event n) :
    entries i (tr ++ [e]) = entries i tr + if e.entryOf i then 1 else 0 := by
  simp [entries, List.countP_append, List.countP_cons]

theorem exits_snoc (i : Fin n) (tr : List (Event n)) (e : Event n) :
    exits i (tr ++ [e]) = exits i tr + if e.exitOf i then 1 else 0 := by
  simp [exits, List.countP_append, List.countP_cons]

theorem Event.silent_counts {e : Event n} (h : e.silent = true) (i : Fin n) :
    e.entryOf i = false ∧ e.exitOf i = false := by
  cases e <;> simp_all [Event.silent, Event.entryOf, Event.exitOf]

theorem Event.silent_not_mark {e : Event n} (h : e.silent = true) : e.isMark = false := by
  cases e <;> simp_all [Event.silent, Event.isMark]

theorem Event.not_arm_of_not_mark {e : Event n} (h : e.isMark = false) : e.isArm = false := by
  cases e <;> simp_all [Event.isMark, Event.isArm]

/-- A worker's part in a step: its state is as before and the event is not one
of its calls, or it moved itself. -/
theorem State.step_worker {s s' : State n} {e : Event n} (h : s.step e s') (i : Fin n) :
    (WorkerMove i s.gate (s.workers i) e s'.gate (s'.workers i) ∧
        (s.workers i).pc.dead = false) ∨
      ((s'.workers i).pc = (s.workers i).pc ∧ (s'.workers i).seenGen = (s.workers i).seenGen ∧
        e.entryOf i = false ∧ e.exitOf i = false) ∨
      (s.stage = .spawning ∧ (s'.workers i).pc = .disableAtStart ∧
        (s'.workers i).seenGen = s'.gate.generation ∧
        e.entryOf i = false ∧ e.exitOf i = false) := by
  rcases State.step_cases h with ⟨j, c, g', w', hw, rfl⟩ | ⟨c, hm⟩
  · by_cases hij : i = j
    · subst hij
      left
      refine ⟨?_, (workerNext_frame hw).alive⟩
      simpa using workerNext_move hw
    · right; left
      refine ⟨by simp [Function.update_of_ne hij], by simp [Function.update_of_ne hij], ?_⟩
      cases workerNext_move hw with
      | quiet _ _ _ he => exact Event.silent_counts he i
      | take _ _ _ _ _ he => exact Event.silent_counts he i
      | enter _ _ _ _ he => subst he; simp [Event.entryOf, Event.exitOf, Ne.symm hij]
      | leave _ _ _ _ he => subst he; simp [Event.entryOf, Event.exitOf, Ne.symm hij]
      | done _ _ _ _ he => exact Event.silent_counts he i
  · right
    cases mainNext_move hm with
    | quiet _ hsame he => exact .inl ⟨hsame.pc i, hsame.seenGen i, Event.silent_counts he i⟩
    | spawn k hstage _ hgen _ hk hother he =>
      by_cases hik : i = k
      · subst hik
        exact .inr ⟨hstage, hk.1, by rw [hk.2, hgen], Event.silent_counts he i⟩
      · exact .inl ⟨by rw [hother i hik], by rw [hother i hik], Event.silent_counts he i⟩
    | start _ _ hsame he => exact .inl ⟨hsame.pc i, hsame.seenGen i, Event.silent_counts he i⟩
    | call _ _ hsame he => subst he; exact .inl ⟨hsame.pc i, hsame.seenGen i, rfl, rfl⟩
    | arm _ _ _ _ hworkers he =>
      subst he; exact .inl ⟨by rw [hworkers], by rw [hworkers], rfl, rfl⟩
    | count _ _ _ hsame he =>
      exact .inl ⟨hsame.pc i, hsame.seenGen i, Event.silent_counts he i⟩
    | «return» _ _ hsame he => subst he; exact .inl ⟨hsame.pc i, hsame.seenGen i, rfl, rfl⟩
    | stop _ _ hsame he => exact .inl ⟨hsame.pc i, hsame.seenGen i, Event.silent_counts he i⟩
    | stopped _ _ hsame he =>
      refine .inl ⟨hsame.pc i, hsame.seenGen i, ?_⟩
      rcases he with he | rfl
      · exact Event.silent_counts he i
      · exact ⟨rfl, rfl⟩

/-- Worker `i` is inside `run` exactly when it has entered once more than it
has left. -/
theorem entries_eq_exits {tr : List (Event n)} {s : State n} (h : PoolRun n tr s) (i : Fin n) :
    entries i tr = exits i tr + if (s.workers i).pc.phase = .inside then 1 else 0 := by
  have key : GateInv s ∧
      entries i tr = exits i tr + if (s.workers i).pc.phase = .inside then 1 else 0 := by
    refine Execution.history (P := fun _ => True)
      (I := fun tr s => GateInv s ∧ entries i tr =
        exits i tr + if (s.workers i).pc.phase = .inside then 1 else 0)
      ?_ h (fun _ _ => trivial) ⟨gateInv_initial, rfl⟩
    rintro pre a e b ⟨hinv, hcount⟩ hstep -
    refine ⟨hinv.step hstep, ?_⟩
    rw [entries_snoc, exits_snoc, hcount]
    rcases State.step_worker hstep i with ⟨hmove, -⟩ | ⟨hpc, -, he, hx⟩ | ⟨hsp, hpc, -, he, hx⟩
    · cases hmove with
      | quiet hphase _ _ he =>
        obtain ⟨he, hx⟩ := Event.silent_counts he i
        simp [he, hx, hphase]
      | take hphase hphase' _ _ _ he =>
        obtain ⟨he, hx⟩ := Event.silent_counts he i
        simp [he, hx, hphase, hphase']
      | enter hphase hphase' _ _ he =>
        subst he
        simp [Event.entryOf, Event.exitOf, hphase, hphase']
      | leave hphase hphase' _ _ he =>
        subst he
        simp [Event.entryOf, Event.exitOf, hphase, hphase']
      | done hphase hphase' _ _ he =>
        obtain ⟨he, hx⟩ := Event.silent_counts he i
        simp [he, hx, hphase, hphase']
    · simp [he, hx, hpc]
    · -- a thread is only created where nobody is at work
      have hidle := (hinv.finished (hinv.drained (by rw [hsp]; rfl)) i).2
      have hborn : (b.workers i).pc.phase = .idle := by rw [hpc]; rfl
      simp [he, hx, hborn, hidle]
  exact key.2

/-! ### Between an arm and the next -/

theorem mainNext_afterStop_stage {s s' : State n} {c : Choice} {e : Event n}
    {caller : Caller} (h : mainNext s c = some (e, s')) (hc : s.main = .afterStop caller) :
    s'.stage = .ready ∨ s'.stage = .over := by
  have hstep := mainNext_step h
  rw [hc] at hstep
  cases hstep with
  | dispatchStopped | stopped => exact stage_idle s

/-- No thread is created once the pool has started. -/
theorem State.step_stage {s s' : State n} {e : Event n} (h : s.step e s')
    (hs : s.stage ≠ .spawning) : s'.stage ≠ .spawning := by
  rcases State.step_cases h with ⟨i, c, g', w', hw, rfl⟩ | ⟨c, hm⟩
  · exact hs
  · cases mainNext_move hm with
    | quiet hstage _ _ => rwa [hstage]
    | spawn _ hstage => exact absurd hstage hs
    | start hmain =>
      obtain ⟨k, -, hk⟩ := hmain
      exact absurd (by simp [State.stage, hk]) hs
    | call _ hstage' | arm _ hstage' | count _ hstage' | stop _ hstage' => simp [hstage']
    | «return» _ hstage' => rcases hstage' with h | h <;> simp [h]
    | stopped hmain hstage' =>
      rcases hstage' with h | ⟨hb, hr⟩
      · simp [h]
      · obtain ⟨caller, hc⟩ := hmain
        rcases mainNext_afterStop_stage hm hc with h | h <;> simp [h]

theorem State.step_generation {s s' : State n} {e : Event n} (h : s.step e s')
    (he : e.isArm = false) : s'.gate.generation = s.gate.generation := by
  rcases State.step_cases h with ⟨i, c, g', w', hw, rfl⟩ | ⟨c, hm⟩
  · exact (workerNext_frame hw).generation
  · cases mainNext_move hm with
    | quiet _ hsame | start _ _ hsame | call _ _ hsame | count _ _ _ hsame
    | «return» _ _ hsame | stop _ _ hsame | stopped _ _ hsame => exact hsame.generation
    | spawn _ _ _ hgen => exact hgen
    | arm _ _ _ _ _ heq => simp [heq, Event.isArm] at he

/-- What holds after the events `mid` that follow an arm for generation `g`:
worker `i` has entered once iff it has taken the generation and is past the
call of `run`, and has left once iff it is past the return. -/
structure AfterArm (g : UInt64) (mid : List (Event n)) (s : State n) : Prop where
  inv : GateInv s
  stage : s.stage ≠ .spawning
  generation : s.gate.generation = g
  entries : ∀ i, AutoUpscale.entries i mid =
    if (s.workers i).seenGen = g ∧ (s.workers i).pc.phase ≠ .due then 1 else 0
  exits : ∀ i, AutoUpscale.exits i mid =
    if (s.workers i).seenGen = g ∧ (s.workers i).pc.phase ≠ .due ∧
      (s.workers i).pc.phase ≠ .inside then 1 else 0
  only : ∀ i g', Event.enter i g' ∈ mid → g' = g

theorem AfterArm.start {s s' : State n} {g : UInt64} (hinv : GateInv s)
    (h : s.step (.arm g) s') : AfterArm g [] s' := by
  have hinv' := hinv.step h
  rcases State.step_cases h with ⟨i, c, g', w', hw, rfl⟩ | ⟨c, hm⟩
  · cases workerNext_move hw with
    | quiet _ _ _ he | take _ _ _ _ _ he | done _ _ _ _ he => simp [Event.silent] at he
    | enter _ _ _ _ he | leave _ _ _ _ he => cases he
  cases mainNext_move hm with
  | quiet _ _ he | spawn _ _ _ _ _ _ _ he | start _ _ _ he | count _ _ _ _ he
  | stop _ _ _ he => simp [Event.silent] at he
  | call _ _ _ he | «return» _ _ _ he => cases he
  | stopped _ _ _ he => rcases he with he | he <;> simp [Event.silent] at he
  | arm hstage hstage' hgen _ hworkers he =>
    obtain rfl : g = s.gate.generation + 1 := by simpa using he
    have hseen : ∀ i, (s'.workers i).seenGen ≠ s.gate.generation + 1 := by
      intro i
      rw [hworkers, (hinv.finished (hinv.drained (by rw [hstage]; rfl)) i).1]
      simp
    exact ⟨hinv', by simp [hstage'], hgen, fun i => by simp [AutoUpscale.entries, hseen i],
      fun i => by simp [AutoUpscale.exits, hseen i], by simp⟩

/-- What one step adds to the entries and exits of worker `i`. -/
theorem AfterArm.step_counts {s s' : State n} {g : UInt64} {mid : List (Event n)} {e : Event n}
    (hs : AfterArm g mid s) (h : s.step e s') (i : Fin n) :
    (AutoUpscale.entries i (mid ++ [e]) =
      if (s'.workers i).seenGen = g ∧ (s'.workers i).pc.phase ≠ .due then 1 else 0) ∧
    AutoUpscale.exits i (mid ++ [e]) =
      if (s'.workers i).seenGen = g ∧ (s'.workers i).pc.phase ≠ .due ∧
        (s'.workers i).pc.phase ≠ .inside then 1 else 0 := by
  rw [entries_snoc, exits_snoc, hs.entries i, hs.exits i]
  rcases State.step_worker h i with ⟨hmove, -⟩ | ⟨hpc, hseen, hent, hx⟩ | ⟨hsp, -⟩
  · -- a worker past the gate has the generation of the arm
    have hcur := hs.inv.current i
    rw [hs.generation] at hcur
    cases hmove with
    | quiet hphase hseen _ he =>
      obtain ⟨hent, hx⟩ := Event.silent_counts he i
      simp [hent, hx, hphase, hseen]
    | take hphase hphase' hseen _ _ he =>
      rw [hs.generation] at hseen
      obtain ⟨hent, hx⟩ := Event.silent_counts he i
      simp [hent, hx, hphase', hseen]
    | enter hphase hphase' hseen _ he =>
      subst he
      simp [Event.entryOf, Event.exitOf, hphase, hphase', hseen, hcur (by simp [hphase])]
    | leave hphase hphase' hseen _ he =>
      subst he
      simp [Event.entryOf, Event.exitOf, hphase, hphase', hseen, hcur (by simp [hphase])]
    | done hphase hphase' hseen _ he =>
      obtain ⟨hent, hx⟩ := Event.silent_counts he i
      simp [hent, hx, hphase, hphase', hseen]
  · simp [hent, hx, hpc, hseen]
  · exact absurd hsp hs.stage

theorem AfterArm.step {s s' : State n} {g : UInt64} {mid : List (Event n)} {e : Event n}
    (hs : AfterArm g mid s) (h : s.step e s') (he : e.isArm = false) :
    AfterArm g (mid ++ [e]) s' := by
  have hgen := (State.step_generation h he).trans hs.generation
  refine ⟨hs.inv.step h, State.step_stage h hs.stage, hgen, fun i => (hs.step_counts h i).1,
    fun i => (hs.step_counts h i).2, ?_⟩
  intro i g' hmem
  rcases List.mem_append.mp hmem with hmem | hmem
  · exact hs.only i g' hmem
  -- the last event is an entry: its worker has the current generation
  obtain rfl : Event.enter i g' = e := by simpa using hmem
  rcases State.step_worker h i with ⟨hmove, -⟩ | ⟨-, -, hent, -⟩ | ⟨-, -, -, hent, -⟩
  · cases hmove with
    | quiet _ _ _ he | take _ _ _ _ _ he | done _ _ _ _ he => simp [Event.silent] at he
    | enter hphase _ _ _ he =>
      obtain rfl : g' = (s.workers i).seenGen := by simpa using he
      rw [hs.inv.current i (by simp [hphase]), hs.generation]
    | leave _ _ _ _ he => cases he
  · simp [Event.entryOf] at hent
  · simp [Event.entryOf] at hent

/-- The induction over everything that follows an arm, up to the next. -/
theorem afterArm_of_run (pre : List (Event n)) {mid : List (Event n)} {g : UInt64} {s : State n}
    (h : PoolRun n (pre ++ .arm g :: mid) s) (hmid : ∀ e ∈ mid, e.isArm = false) :
    AfterArm g mid s := by
  obtain ⟨s₁, hpre, hrest⟩ := Execution.append_iff.mp h
  obtain ⟨s₂, harm, hmid'⟩ := Execution.cons_iff.mp hrest
  exact Execution.history (P := fun e => e.isArm = false)
    (fun hs hstep he => hs.step hstep he) hmid' hmid
    (AfterArm.start (poolRun_gateInv hpre) harm)

/-! ### After a return -/

/-- No worker has anything to run: each is gone or done with the current
generation. -/
def State.Still (s : State n) : Prop :=
  ∀ i, (s.workers i).pc.dead = true ∨
    ((s.workers i).seenGen = s.gate.generation ∧ (s.workers i).pc.phase = .idle)

theorem WorkerPc.phase_of_dead {pc : WorkerPc} (h : pc.dead = true) : pc.phase = .idle := by
  cases pc <;> simp_all [WorkerPc.dead, WorkerPc.phase]

theorem GateInv.still {s : State n} (hs : GateInv s) (h : s.gate.pending = 0) : s.Still :=
  fun i => .inr (hs.finished h i)

/-- Only an arm wakes a still pool, and no worker enters `run` in one. -/
theorem State.Still.step {s s' : State n} {e : Event n} (hs : s.Still) (h : s.step e s')
    (he : e.isArm = false) : s'.Still ∧ ∀ i, e.entryOf i = false := by
  have hgen := State.step_generation h he
  suffices hall : ∀ i, ((s'.workers i).pc.dead = true ∨
      ((s'.workers i).seenGen = s'.gate.generation ∧ (s'.workers i).pc.phase = .idle)) ∧
      e.entryOf i = false from ⟨fun i => (hall i).1, fun i => (hall i).2⟩
  intro i
  rcases State.step_worker h i with
    ⟨hmove, halive⟩ | ⟨hpc, hseen, hent, -⟩ | ⟨-, hpc, hseen, hent, -⟩
  · obtain ⟨hsg, hidle⟩ := (hs i).resolve_left (by simp [halive])
    cases hmove with
    | quiet hphase hseen _ he =>
      refine ⟨.inr ⟨?_, hphase.trans hidle⟩, (Event.silent_counts he i).1⟩
      rw [hseen, hsg, hgen]
    | take _ _ hseen => exact absurd hsg hseen
    | enter hphase | leave hphase | done hphase => simp [hidle] at hphase
  · refine ⟨?_, hent⟩
    rw [hpc, hseen, hgen]
    exact hs i
  · exact ⟨.inr ⟨hseen, by rw [hpc]; rfl⟩, hent⟩

/-- A thread whose record is not marked started does not exist; the join loop
has unmarked every record before its index unless a join failed. -/
structure ReapInv (s : State n) : Prop where
  dead : ∀ i, (s.workers i).started = false → (s.workers i).pc.dead = true
  joined : ∀ c k, s.main = .join c k true →
    ∀ i : Fin n, i.val < k → (s.workers i).started = false

theorem reapInv_initial : ReapInv (State.initial n) :=
  ⟨fun _ _ => rfl, fun c k h => by simp [State.initial] at h⟩

/-- How the main thread touches thread records. -/
theorem mainNext_records {s s' : State n} {c : Choice} {e : Event n}
    (h : mainNext s c = some (e, s')) :
    s'.workers = s.workers ∨
      ∃ k w, s'.workers = Function.update s.workers k w ∧
        ((s.stage = .spawning ∧ w.pc = .disableAtStart ∧ w.started = true) ∨
          (w.pc.dead = true ∧ w.started = false) ∨
          (w.pc = (s.workers k).pc ∧ w.started = (s.workers k).started)) := by
  obtain ⟨g, workers, main, broken, retired⟩ := s
  cases mainNext_step h with
  | spawn => exact .inr ⟨_, _, rfl, .inl ⟨rfl, rfl, rfl⟩⟩
  | cancel => exact .inr ⟨_, _, rfl, .inr (.inr ⟨rfl, rfl⟩)⟩
  | join caller k ok hk how _ hended =>
    exact .inr ⟨_, _, rfl, .inr (.inl ⟨by simp only at hended; simp [hended, WorkerPc.dead], rfl⟩)⟩
  | _ => exact .inl rfl

/-- How the main thread comes to the index of the join loop. -/
theorem mainNext_join {s s' : State n} {c : Choice} {e : Event n} {caller : Caller} {k : ℕ}
    {ok : Bool} (h : mainNext s c = some (e, s')) (hk : s'.main = .join caller k ok) :
    (k = 0 ∧ ok = true) ∨ ∃ j, k = j + 1 ∧
      ((s.main = .join caller j ok ∧ e = .tau ∧
        ∀ hj : j < n, (s'.workers ⟨j, hj⟩).started = false) ∨
      (ok = false ∧ e = .fault .join)) := by
  obtain ⟨g, workers, main, broken, retired⟩ := s
  cases mainNext_step h with
  | exitUnlock | cancelled =>
    cases hk
    exact .inl ⟨rfl, rfl⟩
  | join caller' j ok' hj =>
    cases hk
    exact .inr ⟨j, rfl, .inl ⟨rfl, rfl, fun _ => by simp [State.setWorker, State.goto]⟩⟩
  | joinFails caller' j =>
    cases hk
    exact .inr ⟨j, rfl, .inr ⟨rfl, rfl⟩⟩
  | joinSkips caller' j ok' hj hstarted =>
    cases hk
    exact .inr ⟨j, rfl, .inl ⟨rfl, rfl, fun _ => hstarted⟩⟩
  | _ => cases hk

/-- The record of a worker is unmarked only once its thread has ended. -/
theorem ReapInv.step {s s' : State n} {e : Event n} (hs : ReapInv s) (h : s.step e s') :
    ReapInv s' := by
  rcases State.step_cases h with ⟨i, c, g', w', hw, rfl⟩ | ⟨c, hm⟩
  · obtain ⟨-, -, hstarted, halive, -⟩ := workerNext_frame hw
    have hkeep : ∀ j, (Function.update s.workers i w' j).started = (s.workers j).started := by
      intro j
      by_cases hji : j = i
      · subst hji
        simpa using hstarted
      · rw [Function.update_of_ne hji]
    refine ⟨fun j hj => ?_, fun c k hmain j hjk => (hkeep j).trans (hs.joined c k hmain j hjk)⟩
    change (Function.update s.workers i w' j).started = false at hj
    rw [hkeep] at hj
    by_cases hji : j = i
    · subst hji
      simp [hs.dead j hj] at halive
    · simpa [Function.update_of_ne hji] using hs.dead j hj
  · have hdead : ∀ j, (s'.workers j).started = false → (s'.workers j).pc.dead = true := by
      intro j hj
      rcases mainNext_records hm with heq | ⟨k, w, heq, hw⟩
      · rw [heq] at hj ⊢
        exact hs.dead j hj
      by_cases hjk : j = k
      · subst hjk
        rw [heq, Function.update_self] at hj ⊢
        rcases hw with ⟨-, -, hst⟩ | ⟨hd, -⟩ | ⟨hpc, hst⟩
        · simp [hst] at hj
        · exact hd
        · rw [hpc]
          exact hs.dead j (hst ▸ hj)
      · rw [heq, Function.update_of_ne hjk] at hj ⊢
        exact hs.dead j hj
    refine ⟨hdead, fun caller k hmain i hik => ?_⟩
    rcases mainNext_join hm hmain with ⟨rfl, -⟩ | ⟨j, rfl, ⟨hjoin, -, hlast⟩ | ⟨hok, -⟩⟩
    · omega
    · -- the records before j were unmarked already
      by_cases hij : i.val = j
      · subst hij
        exact hlast i.isLt
      have hi := hs.joined caller j hjoin i (by omega)
      rcases mainNext_records hm with heq | ⟨k, w, heq, hw⟩
      · rwa [heq]
      by_cases hik : i = k
      · subst hik
        rw [heq, Function.update_self]
        rcases hw with ⟨hsp, -⟩ | ⟨-, hst⟩ | ⟨-, hst⟩
        · simp [State.stage, hjoin] at hsp
        · exact hst
        · rwa [hst]
      · rwa [heq, Function.update_of_ne hik]
    · simp at hok

theorem mainNext_afterStop {s s' : State n} {c : Choice} {e : Event n} {caller : Caller}
    (h : mainNext s c = some (e, s')) (hc : s'.main = .afterStop caller) :
    ∃ k ok, s.main = .join caller k ok ∧ n ≤ k ∧ s'.workers = s.workers ∧ e = .stopped ok := by
  obtain ⟨g, workers, main, broken, retired⟩ := s
  cases mainNext_step h with
  | joined caller' k ok hk =>
    cases hc
    exact ⟨_, _, rfl, hk, rfl, rfl⟩
  | _ => cases hc

theorem poolRun_reapInv {tr : List (Event n)} {s : State n} (h : PoolRun n tr s) :
    ReapInv s :=
  Execution.invariant (P := fun _ => True) (fun hs hstep _ => ReapInv.step hs hstep) h
    (fun _ _ => trivial) reapInv_initial

/-- Without a failing join the stop inside a dispatch reports success. -/
structure JoinInv (s : State n) : Prop where
  reap : ReapInv s
  ok : ∀ c k ok, s.main = .join c k ok → ok = true
  after : ∀ c, s.main = .afterStop c → ∀ i, (s.workers i).started = false

theorem JoinInv.step {s s' : State n} {e : Event n} (hs : JoinInv s) (h : s.step e s')
    (he : e ≠ .fault .join) : JoinInv s' := by
  have hreap := hs.reap.step h
  rcases State.step_cases h with ⟨i, c, g', w', hw, rfl⟩ | ⟨c, hm⟩
  · refine ⟨hreap, hs.ok, fun c hc j => ?_⟩
    change (Function.update s.workers i w' j).started = false
    by_cases hji : j = i
    · subst hji
      rw [Function.update_self, (workerNext_frame hw).started]
      exact hs.after c hc j
    · rw [Function.update_of_ne hji]
      exact hs.after c hc j
  · refine ⟨hreap, fun caller k ok hmain => ?_, fun caller hmain i => ?_⟩
    · rcases mainNext_join hm hmain with ⟨-, hok⟩ | ⟨j, -, ⟨hjoin, -⟩ | ⟨-, hf⟩⟩
      · exact hok
      · exact hs.ok caller j ok hjoin
      · exact absurd hf he
    · obtain ⟨k, ok, hjoin, hk, hworkers, -⟩ := mainNext_afterStop hm hmain
      obtain rfl := hs.ok caller k ok hjoin
      rw [hworkers]
      exact hs.reap.joined caller k hjoin i (by omega)

theorem poolRun_joinInv {tr : List (Event n)} {s : State n} (h : PoolRun n tr s)
    (hjoin : .fault .join ∉ tr) : JoinInv s :=
  Execution.invariant (P := fun e => e ≠ .fault .join)
    (fun hs hstep he => hs.step hstep he) h (fun e he heq => hjoin (heq ▸ he))
    ⟨reapInv_initial, fun c k ok h => by simp [State.initial] at h,
      fun c h => by simp [State.initial] at h⟩

/-- When a dispatch returns, nothing is left to run. -/
theorem still_of_ret {s s' : State n} {ok : Bool} (hinv : GateInv s) (hs : JoinInv s)
    (h : s.step (.ret ok) s') : s'.Still := by
  have hinv' := hinv.step h
  rcases State.step_cases h with ⟨i, c, g', w', hw, rfl⟩ | ⟨c, hm⟩
  · cases workerNext_move hw with
    | quiet _ _ _ he | take _ _ _ _ _ he | done _ _ _ _ he => simp [Event.silent] at he
    | enter _ _ _ _ he | leave _ _ _ _ he => cases he
  cases mainNext_move hm with
  | quiet _ _ he | spawn _ _ _ _ _ _ _ he | start _ _ _ he | count _ _ _ _ he
  | stop _ _ _ he => simp [Event.silent] at he
  | call _ _ _ he | arm _ _ _ _ _ he => cases he
  | «return» hstage _ hsame _ =>
    refine hinv'.still ?_
    rw [hsame.pending]
    exact hinv.drained (by rw [hstage]; rfl)
  | stopped hmain _ hsame _ =>
    obtain ⟨caller, hc⟩ := hmain
    intro i
    left
    rw [hsame.pc]
    exact hs.reap.dead i (hs.after caller hc i)

/-! ### The dispatches of a trace -/

/-- What the trace says of the dispatch the main thread is in. -/
def DispatchTrace (tr : List (Event n)) (s : State n) : Prop :=
  (s.stage = .called → ∃ p q, tr = p ++ .dispatch :: q ∧ ∀ e ∈ q, e.isMark = false) ∧
  (s.stage = .armed ∨ s.stage = .counted → ∃ p q g r,
    tr = p ++ .dispatch :: (q ++ .arm g :: r) ∧ ∀ e ∈ q ++ r, e.isMark = false)

theorem DispatchTrace.quiet {tr : List (Event n)} {s s' : State n} {e : Event n}
    (hs : DispatchTrace tr s) (hcalled : s'.stage = .called → s.stage = .called)
    (harmed : s'.stage = .armed ∨ s'.stage = .counted → s.stage = .armed ∨ s.stage = .counted)
    (he : e.isMark = false) : DispatchTrace (tr ++ [e]) s' := by
  refine ⟨fun h => ?_, fun h => ?_⟩
  · obtain ⟨p, q, rfl, hq⟩ := hs.1 (hcalled h)
    refine ⟨p, q ++ [e], by simp, ?_⟩
    simpa [or_imp, forall_and, he] using hq
  · obtain ⟨p, q, g, r, rfl, hqr⟩ := hs.2 (harmed h)
    refine ⟨p, q, g, r ++ [e], by simp, ?_⟩
    rw [← List.append_assoc]
    intro e' he'
    rcases List.mem_append.mp he' with h' | h'
    · exact hqr e' h'
    · rw [List.mem_singleton.mp h', he]

theorem DispatchTrace.step {tr : List (Event n)} {s s' : State n} {e : Event n}
    (hs : DispatchTrace tr s) (h : s.step e s') : DispatchTrace (tr ++ [e]) s' := by
  rcases State.step_cases h with ⟨i, c, g', w', hw, rfl⟩ | ⟨c, hm⟩
  · refine hs.quiet id id ?_
    cases workerNext_move hw with
    | quiet _ _ _ he | take _ _ _ _ _ he | done _ _ _ _ he => exact Event.silent_not_mark he
    | enter _ _ _ _ he | leave _ _ _ _ he => rw [he]; rfl
  cases mainNext_move hm with
  | quiet hstage _ he =>
    exact hs.quiet (by rw [hstage]; exact id) (by rw [hstage]; exact id)
      (Event.silent_not_mark he)
  | call _ hstage' _ he =>
    refine ⟨fun _ => ⟨tr, [], by simp [he], by simp⟩, fun h => ?_⟩
    simp [hstage'] at h
  | arm hstage hstage' _ _ _ he =>
    refine ⟨fun h => by simp [hstage'] at h, fun _ => ?_⟩
    obtain ⟨p, q, rfl, hq⟩ := hs.1 hstage
    exact ⟨p, q, s.gate.generation + 1, [], by simp [he], by simpa using hq⟩
  | count hstage hstage' _ _ he =>
    refine hs.quiet (fun h => ?_) (fun _ => .inl hstage) (Event.silent_not_mark he)
    simp [hstage'] at h
  | spawn _ _ hstage' | stop _ hstage' =>
    exact ⟨fun h => by simp [hstage'] at h, fun h => by simp [hstage'] at h⟩
  | start _ hstage' | «return» _ hstage' =>
    rcases hstage' with hstage' | hstage' <;>
      exact ⟨fun h => by simp [hstage'] at h, fun h => by simp [hstage'] at h⟩
  | stopped hmain hstage' =>
    have hstage'' : s'.stage = .ready ∨ s'.stage = .over := by
      obtain ⟨caller, hc⟩ := hmain
      exact mainNext_afterStop_stage hm hc
    rcases hstage'' with hstage' | hstage' <;>
      exact ⟨fun h => by simp [hstage'] at h, fun h => by simp [hstage'] at h⟩

theorem poolRun_dispatchTrace {tr : List (Event n)} {s : State n} (h : PoolRun n tr s) :
    DispatchTrace tr s :=
  Execution.history (P := fun _ => True) (fun hs hstep _ => DispatchTrace.step hs hstep) h
    (fun _ _ => trivial)
    ⟨fun h => by simp [State.initial, State.stage] at h,
      fun h => by simp [State.initial, State.stage] at h⟩

/-! ### The law of dispatch -/

/-- What a trace of the pool promises about `up_worker_pool_dispatch`. -/
structure DispatchLaw (tr : List (Event n)) : Prop where
  /-- A dispatch that returns 0 has armed the gate once, and after that every
  worker has entered and left `run` once, for that generation. -/
  each : ∀ pre post, tr = pre ++ .ret true :: post →
    ∃ p q g r, pre = p ++ .dispatch :: (q ++ .arm g :: r) ∧
      (∀ e ∈ q ++ r, e.isMark = false) ∧
      ∀ i, entries i r = 1 ∧ .enter i g ∈ r ∧ exits i r = 1
  /-- Between an arm and the next no worker enters `run` twice, or for another
  generation. -/
  once : ∀ pre g mid post, tr = pre ++ .arm g :: (mid ++ post) →
    (∀ e ∈ mid, e.isArm = false) →
    ∀ i, entries i mid ≤ 1 ∧ ∀ g', .enter i g' ∈ mid → g' = g
  /-- Before the first arm no worker enters `run`. -/
  unarmed : ∀ mid post, tr = mid ++ post → (∀ e ∈ mid, e.isArm = false) →
    ∀ i, entries i mid = 0
  /-- When a dispatch returns, whatever it returns, no worker is inside `run`,
  and none enters it before the next dispatch. -/
  quiet : ∀ pre ok post, tr = pre ++ .ret ok :: post → ∀ i,
    entries i pre = exits i pre ∧
    ∀ mid rest, post = mid ++ rest → .dispatch ∉ mid → entries i mid = 0

theorem still_run {mid : List (Event n)} {s s' : State n}
    (h : Execution State.step s mid s') (hs : s.Still) (hmid : ∀ e ∈ mid, e.isArm = false)
    (i : Fin n) : entries i mid = 0 := by
  have key : s'.Still ∧ entries i mid = 0 := by
    refine Execution.history (P := fun e => e.isArm = false)
      (I := fun tr s => s.Still ∧ entries i tr = 0) ?_ h hmid ⟨hs, rfl⟩
    rintro pre a e b ⟨hstill, hzero⟩ hstep he
    obtain ⟨hstill', hent⟩ := hstill.step hstep he
    exact ⟨hstill', by simp [entries_snoc, hzero, hent i]⟩
  exact key.2

/-- Only a dispatch call leads to an arm. -/
theorem State.step_called {s s' : State n} {e : Event n} (h : s.step e s')
    (hs : s.stage ≠ .called) (he : e ≠ .dispatch) : s'.stage ≠ .called ∧ e.isArm = false := by
  have hsilent : e.silent = true → e.isArm = false :=
    fun h => Event.not_arm_of_not_mark (Event.silent_not_mark h)
  rcases State.step_cases h with ⟨i, c, g', w', hw, rfl⟩ | ⟨c, hm⟩
  · refine ⟨hs, ?_⟩
    cases workerNext_move hw with
    | quiet _ _ _ he | take _ _ _ _ _ he | done _ _ _ _ he => exact hsilent he
    | enter _ _ _ _ he | leave _ _ _ _ he => rw [he]; rfl
  cases mainNext_move hm with
  | quiet hstage _ he => exact ⟨by rwa [hstage], hsilent he⟩
  | spawn _ _ hstage' _ _ _ _ he | count _ hstage' _ _ he | stop _ hstage' _ he =>
    exact ⟨by simp [hstage'], hsilent he⟩
  | start _ hstage' _ he =>
    exact ⟨by rcases hstage' with h | h <;> simp [h], hsilent he⟩
  | call _ _ _ heq => exact absurd heq he
  | arm hstage => exact absurd hstage hs
  | «return» _ hstage' _ heq =>
    exact ⟨by rcases hstage' with h | h <;> simp [h], by rw [heq]; rfl⟩
  | stopped hmain _ _ he =>
    obtain ⟨caller, hc⟩ := hmain
    refine ⟨by rcases mainNext_afterStop_stage hm hc with h | h <;> simp [h], ?_⟩
    rcases he with he | heq
    · exact hsilent he
    · rw [heq]; rfl

theorem quiet_until_dispatch {mid : List (Event n)} {s s' : State n}
    (h : Execution State.step s mid s') (hs : s.Still) (hstage : s.stage ≠ .called)
    (hmid : .dispatch ∉ mid) (i : Fin n) : entries i mid = 0 := by
  have key : s'.Still ∧ s'.stage ≠ .called ∧ entries i mid = 0 := by
    refine Execution.history (P := fun e => e ≠ .dispatch)
      (I := fun tr s => s.Still ∧ s.stage ≠ .called ∧ entries i tr = 0) ?_ h
      (fun e he heq => hmid (heq ▸ he)) ⟨hs, hstage, rfl⟩
    rintro pre a e b ⟨hstill, hcalled, hzero⟩ hstep he
    obtain ⟨hcalled', harm⟩ := State.step_called hstep hcalled he
    obtain ⟨hstill', hent⟩ := hstill.step hstep harm
    exact ⟨hstill', hcalled', by simp [entries_snoc, hzero, hent i]⟩
  exact key.2.2

/-- A return comes from a counted barrier or from the stop of a failed
dispatch, and leaves the owner between two dispatches. -/
theorem stage_of_ret {s s' : State n} {ok : Bool} (h : s.step (.ret ok) s') :
    (ok = true → s.stage = .counted) ∧ s'.stage ≠ .called := by
  rcases State.step_cases h with ⟨i, c, g', w', hw, rfl⟩ | ⟨c, hm⟩
  · cases workerNext_move hw with
    | quiet _ _ _ he | take _ _ _ _ _ he | done _ _ _ _ he => simp [Event.silent] at he
    | enter _ _ _ _ he | leave _ _ _ _ he => cases he
  cases mainNext_move hm with
  | quiet _ _ he | spawn _ _ _ _ _ _ _ he | start _ _ _ he | count _ _ _ _ he
  | stop _ _ _ he => simp [Event.silent] at he
  | call _ _ _ he | arm _ _ _ _ _ he => cases he
  | «return» hstage hstage' _ _ =>
    exact ⟨fun _ => hstage, by rcases hstage' with h | h <;> simp [h]⟩
  | stopped hmain _ _ he =>
    obtain ⟨caller, hc⟩ := hmain
    refine ⟨fun hok => ?_, by rcases mainNext_afterStop_stage hm hc with h | h <;> simp [h]⟩
    rcases he with he | he <;> simp [hok, Event.silent] at he

/-- **A dispatch runs every worker exactly once and returns only when the
workers are quiet.**  For every number of workers and every run in which no
join fails, whatever other calls fail. -/
theorem dispatch_runs_each_worker_once {tr : List (Event n)} {s : State n}
    (hrun : PoolRun n tr s) (hjoin : .fault .join ∉ tr) : DispatchLaw tr := by
  refine ⟨?_, ?_, ?_, ?_⟩
  · rintro pre post rfl
    obtain ⟨s₁, hpre, hrest⟩ := Execution.append_iff.mp hrun
    obtain ⟨s₂, hret, -⟩ := Execution.cons_iff.mp hrest
    have hcounted : s₁.stage = .counted := (stage_of_ret hret).1 rfl
    obtain ⟨p, q, g, r, rfl, hqr⟩ := (poolRun_dispatchTrace hpre).2 (.inr hcounted)
    have hr : ∀ e ∈ r, e.isArm = false :=
      fun e he => Event.not_arm_of_not_mark (hqr e (List.mem_append_right _ he))
    have hafter : AfterArm g r s₁ := by
      refine afterArm_of_run (p ++ .dispatch :: q) ?_ hr
      rwa [List.append_assoc, List.cons_append]
    refine ⟨p, q, g, r, rfl, hqr, fun i => ?_⟩
    obtain ⟨hseen, hidle⟩ := hafter.inv.finished
      (hafter.inv.drained (by rw [hcounted]; rfl)) i
    rw [hafter.generation] at hseen
    have hone : entries i r = 1 := by rw [hafter.entries i]; simp [hseen, hidle]
    refine ⟨hone, ?_, by rw [hafter.exits i]; simp [hseen, hidle]⟩
    -- the one entry carries the generation of the arm
    obtain ⟨e, he, hent⟩ := List.countP_pos_iff.mp (by rw [← entries, hone]; exact one_pos)
    cases e with
    | enter j g' =>
      obtain rfl : j = i := by simpa [Event.entryOf] using hent
      rwa [hafter.only j g' he] at he
    | _ => simp [Event.entryOf] at hent
  · rintro pre g mid post rfl hmid i
    obtain ⟨s₁, hpre, -⟩ := Execution.append_iff.mp
      (show PoolRun n ((pre ++ .arm g :: mid) ++ post) s by simpa using hrun)
    have hafter := afterArm_of_run _ hpre hmid
    refine ⟨?_, hafter.only i⟩
    rw [hafter.entries i]
    split <;> omega
  · rintro mid post rfl hmid i
    obtain ⟨s₁, hpre, -⟩ := Execution.append_iff.mp hrun
    exact still_run hpre (gateInv_initial.still rfl) hmid i
  · rintro pre ok post rfl i
    obtain ⟨s₁, hpre, hrest⟩ := Execution.append_iff.mp hrun
    obtain ⟨s₂, hret, hpost⟩ := Execution.cons_iff.mp hrest
    have hjoin' : JoinInv s₁ :=
      poolRun_joinInv hpre fun he => hjoin (List.mem_append_left _ he)
    have hstill := still_of_ret (poolRun_gateInv hpre) hjoin' hret
    constructor
    · -- nobody is inside run once the return is in the trace
      have hcount := entries_eq_exits (hpre.snoc hret) i
      have hidle : (s₂.workers i).pc.phase = .idle :=
        (hstill i).elim WorkerPc.phase_of_dead And.right
      rw [entries_snoc, exits_snoc] at hcount
      simpa [Event.entryOf, Event.exitOf, hidle] using hcount
    · rintro mid rest rfl hmid
      obtain ⟨s₃, hmid', -⟩ := Execution.append_iff.mp hpost
      exact quiet_until_dispatch hmid' hstill (stage_of_ret hret).2 hmid i

/-- Two workers and one dispatch: worker 0 is asleep when the gate is armed,
worker 1 arrives late and signals the completion. -/
def lateArrival : List (Thread 2 × Choice) :=
  runs .main 3 ++ runs (.worker 0) 5 ++ (.main, .dispatch) :: runs .main 10 ++
    runs (.worker 0) 6 ++ runs (.worker 1) 6 ++ runs (.worker 0) 3 ++ runs (.worker 1) 7 ++
    runs .main 7

theorem dispatch_law_lateArrival :
    ∃ tr s, PoolRun 2 tr s ∧ .ret true ∈ tr ∧ DispatchLaw tr := by
  have hrun : (execute State.next (State.initial 2) lateArrival).any
      (fun r => decide (.ret true ∈ r.1 ∧ .fault .join ∉ r.1)) = true := by decide
  obtain ⟨⟨tr, s⟩, hexec, htr⟩ := (Option.any_eq_true _ _).mp hrun
  obtain ⟨hret, hjoin⟩ := of_decide_eq_true htr
  have hpool : PoolRun 2 tr s := execute_sound hexec
  exact ⟨tr, s, hpool, hret, dispatch_runs_each_worker_once hpool hjoin⟩

end AutoUpscale
