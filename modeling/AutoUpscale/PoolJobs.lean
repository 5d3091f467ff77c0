/-
What the workers do to memory while the dispatch gate runs.

`PoolGate` knows when a worker is inside `ops->run`, not what it does there.
Here a worker inside `run` works through a list of atomic actions on one shared
memory, its job, an action at a time and between any steps of the other
threads; the owner gets the memory and the jobs ready while it has the pool to
itself.

- `JobStep`, `JobRun`: the gate's transition system with memory.
- `CallInv`: how far the jobs of the current dispatch are, worker by worker.
- `dispatch_runs_jobs`: a dispatch that returns 0 has run every job to its end,
  in some order of their actions and from the memory it was called with; one
  that fails with all threads joined has run each job wholly or not at all.
- `exists_jobRun`: jobs take nothing from the gate, every run of it is one with
  jobs.
-/
import AutoUpscale.DisjointParallel
import AutoUpscale.PoolProgress

namespace AutoUpscale

open DisjointParallel LabelledTrace

variable {n : ℕ} {Act A V : Type*}

/-! ### The gate with memory -/

/-- A state of the gate, the memory, what each worker is to do at its next call
of `run` and what it still has to do in the present one. -/
structure JobState (n : ℕ) (Act A V : Type*) where
  gate : State n
  memory : A → V
  job : Fin n → List Act
  left : Fin n → List Act

inductive JobEvent (n : ℕ)
  | gate (e : Event n)
  | work (i : Fin n)
  | owner
  deriving DecidableEq

/-- One step: a thread's at the gate, an action of a worker inside `run`, or the
owner preparing the next frame.  A worker returns from `run` when its job is
done. -/
inductive JobStep (run : Act → (A → V) → A → V) (d : JobState n Act A V) :
    JobEvent n → JobState n Act A V → Prop
  | gate (e : Event n) (s : State n) (h : d.gate.step e s)
      (hleave : ∀ i, e = .leave i → d.left i = []) :
      JobStep run d (.gate e)
        { d with gate := s, left := fun i => if e.entryOf i then d.job i else d.left i }
  | work (i : Fin n) (act : Act) (rest : List Act) (hin : (d.gate.workers i).pc = .running)
      (hleft : d.left i = act :: rest) :
      JobStep run d (.work i)
        { d with memory := run act d.memory, left := Function.update d.left i rest }
  | owner (memory : A → V) (job : Fin n → List Act) (hidle : d.gate.main = .idle) :
      JobStep run d .owner { d with memory := memory, job := job }

/-- A run of a fresh pool on a memory, with any first jobs. -/
def JobRun (run : Act → (A → V) → A → V) (tr : List (JobEvent n)) (d : JobState n Act A V) :
    Prop :=
  ∃ memory job, Execution (JobStep run) ⟨State.initial n, memory, job, fun _ => []⟩ tr d

/-- The gate's own events of a run with jobs. -/
def JobEvent.ofGate : JobEvent n → Option (Event n)
  | .gate e => some e
  | _ => none

variable {run : Act → (A → V) → A → V}

/-- Without the jobs a run is one of the gate. -/
theorem JobStep.gate_run {d d' : JobState n Act A V} {tr : List (JobEvent n)}
    (h : Execution (JobStep run) d tr d') :
    Execution State.step d.gate (tr.filterMap JobEvent.ofGate) d'.gate := by
  induction h with
  | refl => exact .refl
  | snoc _ hstep ih =>
    rw [List.filterMap_append]
    cases hstep with
    | gate e s hs => exact ih.snoc hs
    | work | owner =>
      rw [show List.filterMap JobEvent.ofGate [_] = ([] : List (Event n)) from rfl,
        List.append_nil]
      exact ih

theorem JobRun.poolRun {d : JobState n Act A V} {tr : List (JobEvent n)} (h : JobRun run tr d) :
    PoolRun n (tr.filterMap JobEvent.ofGate) d.gate := by
  obtain ⟨memory, job, hrun⟩ := h
  exact JobStep.gate_run hrun

/-! ### During a dispatch -/

/-- What worker `i` has to do of its job for the current generation. -/
def JobState.todo (d : JobState n Act A V) (i : Fin n) : List Act :=
  if (d.gate.workers i).seenGen ≠ d.gate.gate.generation ∨
      (d.gate.workers i).pc.phase = .due then d.job i
  else if (d.gate.workers i).pc.phase = .inside then d.left i
  else []

/-- The jobs of a dispatch that began with `job` in memory `m`: none has begun,
as the gate has not been armed, or each is where its worker is. -/
inductive CallInv (run : Act → (A → V) → A → V) (job : Fin n → List Act) (m : A → V)
    (d : JobState n Act A V) : Prop
  | waiting (hstill : d.gate.Still) (hmemory : d.memory = m)
      (hstage : d.gate.stage ≠ .armed ∧ d.gate.stage ≠ .counted)
  | working (hpart : Partway run job m d.todo d.memory) (hstage : d.gate.stage ≠ .called)

theorem stage_of_inDispatch {s : State n} (h : s.main.inDispatch = true) :
    s.stage ≠ .spawning ∧ s.stage ≠ .ready := by
  obtain ⟨g, workers, main, broken, retired⟩ := s
  cases main with
  | spawn | idle => cases h
  | _ => exact ⟨Stage.noConfusion, Stage.noConfusion⟩

/-- Only an arm and the actions themselves change what a worker has to do. -/
theorem JobState.todo_gate {d : JobState n Act A V} {e : Event n} {s : State n}
    (hinv : GateInv d.gate) (hspawn : d.gate.stage ≠ .spawning) (h : d.gate.step e s)
    (harm : e.isArm = false) (hleave : ∀ i, e = .leave i → d.left i = []) :
    JobState.todo { d with
      gate := s, left := fun i => if e.entryOf i then d.job i else d.left i } = d.todo := by
  have hgen := State.step_generation h harm
  funext i
  have hcur := hinv.current i
  simp only [JobState.todo]
  rcases State.step_worker h i with ⟨hmove, -⟩ | ⟨hpc, hseen, he, -⟩ | ⟨hsp, -⟩
  · cases hmove with
    | quiet hphase hseen _ he =>
      rw [hphase, hseen, hgen, (Event.silent_counts he i).1, if_neg Bool.false_ne_true]
    | take hphase hphase' hseen hseen' _ he => simp [hphase', hseen]
    | enter hphase hphase' hseen _ he =>
      subst he
      have hseen' := hseen.trans (hcur (by simp [hphase]))
      simp [hphase, hphase', hseen', hgen, Event.entryOf]
    | leave hphase hphase' hseen _ he =>
      have hpast := hcur (by simp [hphase])
      have hseen' := hseen.trans hpast
      simp [hphase, hphase', hseen', hgen, hpast, hleave i he]
    | done hphase hphase' hseen _ he =>
      have hpast := hcur (by simp [hphase])
      have hseen' := hseen.trans hpast
      simp [hphase, hphase', hseen', hgen, hpast]
  · rw [hpc, hseen, hgen, he, if_neg Bool.false_ne_true]
  · exact absurd hsp hspawn

/-- A dispatch in progress. -/
structure InCall (run : Act → (A → V) → A → V) (job : Fin n → List Act) (m : A → V)
    (d : JobState n Act A V) : Prop where
  gate : GateInv d.gate
  main : d.gate.main.inDispatch = true
  same : d.job = job
  call : CallInv run job m d

namespace InCall

variable {job : Fin n → List Act} {m : A → V} {d d' : JobState n Act A V}

/-- The gate is armed where nobody is at work, and then every job is to be done. -/
theorem armed {g : UInt64} {s : State n} (h : InCall run job m d) (hs : d.gate.step (.arm g) s) :
    Partway run job m (JobState.todo { d with gate := s }) d.memory ∧ s.stage = .armed := by
  rcases State.step_cases hs with ⟨i, c, g', w', hw, rfl⟩ | ⟨c, hm⟩
  · cases workerNext_move hw with
    | quiet _ _ _ he | take _ _ _ _ _ he | done _ _ _ _ he => simp [Event.silent] at he
    | enter _ _ _ _ he | leave _ _ _ _ he => cases he
  cases mainNext_move hm with
  | quiet _ _ he | spawn _ _ _ _ _ _ _ he | start _ _ _ he | count _ _ _ _ he
  | stop _ _ _ he => simp [Event.silent] at he
  | call _ _ _ he | «return» _ _ _ he => cases he
  | stopped _ _ _ he => rcases he with he | he <;> simp [Event.silent] at he
  | arm hstage hstage' hgen _ hworkers _ =>
    refine ⟨?_, hstage'⟩
    have hfinished := h.gate.finished (h.gate.drained (by rw [hstage]; rfl))
    have htodo : JobState.todo { d with gate := s } = job := by
      funext i
      have hnew : (s.workers i).seenGen ≠ s.gate.generation := by
        rw [hworkers, hgen, (hfinished i).1]
        simp
      simp only [JobState.todo, if_pos (Or.inl hnew), h.same]
    cases h.call with
    | waiting _ hmemory =>
      rw [htodo, hmemory]
      exact .start
    | working _ hcalled => exact absurd hstage hcalled

/-- The stages a dispatch comes to without arming the gate. -/
theorem stage_step {e : Event n} {s : State n} (h : InCall run job m d) (hs : d.gate.step e s)
    (harm : e.isArm = false) :
    (d.gate.stage ≠ .armed ∧ d.gate.stage ≠ .counted → s.stage ≠ .armed ∧ s.stage ≠ .counted) ∧
      (d.gate.stage ≠ .called → s.stage ≠ .called) := by
  obtain ⟨hspawning, hready⟩ := stage_of_inDispatch h.main
  rcases State.step_cases hs with ⟨i, c, g', w', hw, rfl⟩ | ⟨c, hm⟩
  · exact ⟨id, id⟩
  cases mainNext_move hm with
  | quiet hstage => rw [hstage]; exact ⟨id, id⟩
  | spawn _ hstage => exact absurd hstage hspawning
  | start hmain =>
    obtain ⟨k, -, hk⟩ := hmain
    exact absurd (by simp [State.stage, hk]) hspawning
  | call hstage => exact absurd hstage hready
  | arm _ _ _ _ _ he => simp [he, Event.isArm] at harm
  | count hstage hstage' => exact ⟨fun hne => absurd hstage hne.1, fun _ => by simp [hstage']⟩
  | «return» _ hstage' => rcases hstage' with hstage' | hstage' <;> simp [hstage']
  | stop _ hstage' => simp [hstage']
  | stopped hmain =>
    obtain ⟨caller, hc⟩ := hmain
    rcases mainNext_afterStop_stage hm hc with hstage' | hstage' <;> simp [hstage']

theorem gate_step {e : Event n} {s : State n} (h : InCall run job m d) (hs : d.gate.step e s)
    (hleave : ∀ i, e = .leave i → d.left i = []) :
    CallInv run job m { d with
      gate := s, left := fun i => if e.entryOf i then d.job i else d.left i } := by
  cases harm : e.isArm with
  | true =>
    -- only now the jobs are handed out
    cases e with
    | arm g =>
      obtain ⟨hpart, hstage⟩ := h.armed hs
      exact .working hpart (by simp [hstage])
    | _ => cases harm
  | false =>
    obtain ⟨hidle, hcalled⟩ := h.stage_step hs harm
    cases h.call with
    | waiting hstill hmemory hstage =>
      exact .waiting (hstill.step hs harm).1 hmemory (hidle hstage)
    | working hpart hstage =>
      refine .working ?_ (hcalled hstage)
      rw [JobState.todo_gate h.gate (stage_of_inDispatch h.main).1 hs harm hleave]
      exact hpart

theorem work_step {i : Fin n} {act : Act} {rest : List Act} (h : InCall run job m d)
    (hin : (d.gate.workers i).pc = .running) (hleft : d.left i = act :: rest) :
    CallInv run job m { d with
      memory := run act d.memory, left := Function.update d.left i rest } := by
  have hphase : (d.gate.workers i).pc.phase = .inside := by
    rw [hin]
    rfl
  cases h.call with
  | waiting hstill =>
    -- nobody is inside before the arm
    rcases hstill i with hdead | ⟨-, hidle⟩
    · rw [WorkerPc.phase_of_dead hdead] at hphase
      cases hphase
    · rw [hidle] at hphase
      cases hphase
  | working hpart hstage =>
    have hseen := h.gate.current i (by simp [hphase])
    have htodo : d.todo i = act :: rest := by
      simp [JobState.todo, hseen, hphase, hleft]
    have hnext : JobState.todo { d with
        memory := run act d.memory, left := Function.update d.left i rest } =
        Function.update d.todo i rest := by
      funext j
      by_cases hji : j = i
      · subst hji
        simp [JobState.todo, hseen, hphase]
      · rw [Function.update_of_ne hji]
        simp only [JobState.todo, Function.update_of_ne hji]
    refine .working ?_ hstage
    rw [hnext]
    exact hpart.act i act rest htodo

theorem step {e : JobEvent n} (h : InCall run job m d) (hs : JobStep run d e d')
    (hopen : ∀ ok, e ≠ .gate (.ret ok)) : InCall run job m d' := by
  cases hs with
  | gate e s hs hleave =>
    refine ⟨h.gate.step hs, ?_, h.same, h.gate_step hs hleave⟩
    exact (inDispatch_run (.single hs) h.main fun ok hok => hopen ok (by simp_all)).1
  | work i act rest hin hleft => exact ⟨h.gate, h.main, h.same, h.work_step hin hleft⟩
  | owner memory job hidle =>
    have hmain := h.main
    rw [hidle] at hmain
    cases hmain

/-- A worker that is gone or done has done its job for the generation or has not
begun it. -/
theorem todo_of_still (h : d.gate.Still) (hsame : d.job = job) (i : Fin n) :
    d.todo i = [] ∨ d.todo i = job i := by
  have hidle : (d.gate.workers i).pc.phase = .idle := by
    rcases h i with hdead | ⟨-, hidle⟩
    · exact WorkerPc.phase_of_dead hdead
    · exact hidle
  by_cases hseen : (d.gate.workers i).seenGen = d.gate.gate.generation
  · left
    simp [JobState.todo, hseen, hidle]
  · right
    simp [JobState.todo, hseen, hsame]

/-- What the memory holds when the dispatch returns. -/
theorem returns {ok : Bool} {s : State n} (h : InCall run job m d)
    (hs : d.gate.step (.ret ok) s) :
    ∃ left, Partway run job m left d.memory ∧ (ok = true → ∀ i, left i = []) ∧
      (JoinInv d.gate → ∀ i, left i = [] ∨ left i = job i) := by
  rcases State.step_cases hs with ⟨i, c, g', w', hw, rfl⟩ | ⟨c, hm⟩
  · exact absurd rfl ((workerNext_noCall hw).2.2 ok)
  cases mainNext_move hm with
  | quiet _ _ he | spawn _ _ _ _ _ _ _ he | start _ _ _ he | count _ _ _ _ he
  | stop _ _ _ he => simp [Event.silent] at he
  | call _ _ _ he | arm _ _ _ _ _ he => cases he
  | «return» hstage =>
    cases h.call with
    | waiting _ _ hne => exact absurd hstage hne.2
    | working hpart =>
      have hnil : ∀ i, d.todo i = [] := by
        intro i
        obtain ⟨hseen, hidle⟩ := h.gate.finished (h.gate.drained (by rw [hstage]; rfl)) i
        simp [JobState.todo, hseen, hidle]
      exact ⟨d.todo, hpart, fun _ => hnil, fun _ i => .inl (hnil i)⟩
  | stopped hmain _ _ he =>
    have hfalse : ok = false := by
      rcases he with he | he
      · cases he
      · simpa using he
    subst hfalse
    have hstill : JoinInv d.gate → d.gate.Still := by
      intro hjoin i
      obtain ⟨caller, hc⟩ := hmain
      exact .inl (hjoin.reap.dead i (hjoin.after caller hc i))
    cases h.call with
    | waiting _ hmemory =>
      exact ⟨job, hmemory ▸ .start, by simp, fun _ i => .inr rfl⟩
    | working hpart =>
      exact ⟨d.todo, hpart, by simp, fun hjoin => todo_of_still (hstill hjoin) h.same⟩

end InCall

/-- The dispatch begins with nobody at work. -/
theorem JobStep.call {d d₁ : JobState n Act A V} (hinv : GateInv d.gate)
    (h : JobStep run d (.gate .dispatch) d₁) : InCall run d.job d.memory d₁ := by
  cases h with
  | gate _ s hs hleave =>
    have hmain := lockGo_of_dispatch hs
    have hstage : s.stage = .called := by simp [State.stage, hmain]
    have hinv' := hinv.step hs
    exact ⟨hinv', by simp [hmain, MainPc.inDispatch], rfl,
      .waiting (hinv'.still (hinv'.drained (by simp [hstage, Stage.drained]))) rfl
        (by simp [hstage])⟩

/-- Where the jobs of a dispatch are when it returns. -/
theorem jobs_at_return {pre mid : List (JobEvent n)} {d d₁ d₂ d' : JobState n Act A V}
    {ok : Bool} (hpre : JobRun run pre d) (hcall : JobStep run d (.gate .dispatch) d₁)
    (hmid : Execution (JobStep run) d₁ mid d₂) (hopen : ∀ ok, .gate (.ret ok) ∉ mid)
    (hret : JobStep run d₂ (.gate (.ret ok)) d') :
    ∃ left, Partway run d.job d.memory left d'.memory ∧ (ok = true → ∀ i, left i = []) ∧
      (.gate (.fault .join) ∉ pre ++ mid → ∀ i, left i = [] ∨ left i = d.job i) := by
  have hin : InCall run d.job d.memory d₂ :=
    Execution.invariant (P := fun e => ∀ ok, e ≠ .gate (.ret ok))
      (fun h hs he => h.step hs he) hmid (fun e he ok heq => hopen ok (heq ▸ he))
      (JobStep.call (poolRun_gateInv hpre.poolRun) hcall)
  have hjoin : .gate (.fault .join) ∉ pre ++ mid → JoinInv d₂.gate := by
    intro hno
    obtain ⟨memory, job, hrun⟩ := hpre
    have hall : JobRun run (pre ++ [.gate .dispatch] ++ mid) d₂ :=
      ⟨memory, job, (hrun.snoc hcall).append hmid⟩
    refine poolRun_joinInv hall.poolRun fun hmem => hno ?_
    obtain ⟨e, he, heq⟩ := List.mem_filterMap.mp hmem
    cases e with
    | gate e =>
      obtain rfl : e = _ := by simpa [JobEvent.ofGate] using heq
      simpa using he
    | _ => cases heq
  cases hret with
  | gate _ s hs hleave =>
    obtain ⟨left, hpart, hok, hfail⟩ := hin.returns hs
    exact ⟨left, hpart, hok, fun hno => hfail (hjoin hno)⟩

/-! ### Every run of the gate is one with jobs -/

/-- A worker inside `run` can do what is left of its job at once. -/
theorem JobState.drain (run : Act → (A → V) → A → V) (d : JobState n Act A V) {i : Fin n}
    (hin : (d.gate.workers i).pc = .running) : ∃ u d', Execution (JobStep run) d u d' ∧
      (∀ e ∈ u, e = .work i) ∧ d'.gate = d.gate ∧ d'.job = d.job ∧
      d'.left = Function.update d.left i [] := by
  generalize hleft : d.left i = left
  induction left generalizing d with
  | nil => exact ⟨[], d, .refl, by simp, rfl, rfl, by rw [← hleft, Function.update_eq_self]⟩
  | cons act rest ih =>
    obtain ⟨u, d', hrun, hu, hgate, hjob, hleft'⟩ := ih { d with
      memory := run act d.memory, left := Function.update d.left i rest } hin (by simp)
    refine ⟨.work i :: u, d', ?_, by simpa using hu, hgate, hjob, ?_⟩
    · exact Execution.cons_iff.mpr ⟨_, .work i act rest hin hleft, hrun⟩
    · rw [hleft', Function.update_idem]

theorem running_of_enter {s s' : State n} {i : Fin n} {g : UInt64} (h : s.step (.enter i g) s') :
    (s'.workers i).pc = .running := by
  rcases State.step_cases h with ⟨j, c, g', w', hw, rfl⟩ | ⟨c, hm⟩
  · generalize he : Event.enter i g = e at hw
    have hstep := workerNext_step hw
    generalize (s.workers j).pc = pc at hstep
    cases hstep with
    | enter =>
      cases he
      simp [Worker.goto]
    | _ => cases he
  · cases mainNext_move hm with
    | quiet _ _ he | spawn _ _ _ _ _ _ _ he | start _ _ _ he | count _ _ _ _ he
    | stop _ _ _ he => simp [Event.silent] at he
    | call _ _ _ he | «return» _ _ _ he | arm _ _ _ _ _ he => cases he
    | stopped _ _ _ he => rcases he with he | he <;> simp [Event.silent] at he

/-- A step of the gate, followed by the whole job of a worker it lets in. -/
theorem JobState.follow (run : Act → (A → V) → A → V) (d : JobState n Act A V)
    (hleft : ∀ i, d.left i = []) {e : Event n} {s : State n} (h : d.gate.step e s) :
    ∃ d₁ u d', JobStep run d (.gate e) d₁ ∧ Execution (JobStep run) d₁ u d' ∧
      (∀ e ∈ u, ∃ i, e = .work i) ∧ d'.gate = s ∧ d'.job = d.job ∧
      (∀ i, d'.left i = []) := by
  have hstep : JobStep run d (.gate e) _ := .gate e s h fun i _ => hleft i
  by_cases hent : ∃ i g, e = .enter i g
  · obtain ⟨i, g, rfl⟩ := hent
    obtain ⟨u, d', hrun, hu, hgate, hjob, hleft'⟩ := JobState.drain run
      { d with gate := s, left := fun j => if (Event.enter i g).entryOf j then d.job j else d.left j }
      (running_of_enter h)
    refine ⟨_, u, d', hstep, hrun, fun e he => ⟨i, hu e he⟩, hgate, hjob, fun j => ?_⟩
    rw [hleft']
    by_cases hji : j = i
    · rw [hji, Function.update_self]
    · rw [Function.update_of_ne hji]
      simp [Event.entryOf, Ne.symm hji, hleft j]
  · refine ⟨_, [], _, hstep, .refl, by simp, rfl, rfl, fun j => ?_⟩
    have he : e.entryOf j = false := by
      cases e with
      | enter i g => exact absurd ⟨i, g, rfl⟩ hent
      | _ => rfl
    simp [he, hleft j]

theorem work_ofGate {u : List (JobEvent n)} (h : ∀ e ∈ u, ∃ i, e = .work i) :
    u.filterMap JobEvent.ofGate = [] := by
  refine List.filterMap_eq_nil_iff.mpr fun e he => ?_
  obtain ⟨i, rfl⟩ := h e he
  rfl

/-- Jobs take nothing from the gate. -/
theorem exists_jobRun (run : Act → (A → V) → A → V) (d : JobState n Act A V)
    (hleft : ∀ i, d.left i = []) {tr : List (Event n)} {s : State n}
    (h : Execution State.step d.gate tr s) : ∃ u d', Execution (JobStep run) d u d' ∧
      u.filterMap JobEvent.ofGate = tr ∧ d'.gate = s ∧ d'.job = d.job ∧
      ∀ i, d'.left i = [] := by
  induction h with
  | refl => exact ⟨[], d, .refl, rfl, rfl, rfl, hleft⟩
  | @snoc tr s' e s'' _ hstep ih =>
    obtain ⟨u, d', hrun, hu, rfl, hjob, hleft'⟩ := ih
    obtain ⟨d₁, v, d'', hone, hrest, hv, hgate, hjob', hleft''⟩ := d'.follow run hleft' hstep
    refine ⟨u ++ .gate e :: v, d'', ?_, ?_, hgate, hjob'.trans hjob, hleft''⟩
    · exact hrun.append (Execution.cons_iff.mpr ⟨d₁, hone, hrest⟩)
    · rw [List.filterMap_append, hu, List.filterMap_cons, work_ofGate hv]
      rfl

theorem idle_of_dispatch {s s' : State n} (h : s.step .dispatch s') : s.main = .idle := by
  rcases State.step_cases h with ⟨i, c, g', w', hw, rfl⟩ | ⟨c, hm⟩
  · exact absurd rfl (workerNext_noCall hw).1
  · obtain ⟨g, workers, main, broken, retired⟩ := s
    generalize he : Event.dispatch = e at hm
    cases mainNext_step hm with
    | dispatch => rfl
    | _ => cases he

/-- A dispatch of any two jobs on any memory that returns 0, one worker being late. -/
theorem exists_lateArrival (run : Act → (A → V) → A → V) (memory : A → V)
    (job : Fin 2 → List Act) : ∃ pre mid, ∃ d d₁ d₂ d' : JobState 2 Act A V,
      JobRun run pre d ∧ d.memory = memory ∧ d.job = job ∧
      JobStep run d (.gate .dispatch) d₁ ∧ Execution (JobStep run) d₁ mid d₂ ∧
      (∀ ok, .gate (.ret ok) ∉ mid) ∧ JobStep run d₂ (.gate (.ret true)) d' := by
  have hall : (execute State.next (State.initial 2) lateArrival).any (fun r =>
      decide (r.1 = r.1.take 8 ++ .dispatch :: ((r.1.drop 9).dropLast ++ [.ret true]) ∧
        ∀ ok, .ret ok ∉ (r.1.drop 9).dropLast)) = true := by decide
  obtain ⟨⟨tr, s⟩, hexec, h⟩ := (Option.any_eq_true _ _).mp hall
  obtain ⟨hsplit, hopen⟩ := of_decide_eq_true h
  have hrun : PoolRun 2 tr s := execute_sound hexec
  change tr = _ at hsplit
  rw [hsplit] at hrun
  obtain ⟨s₁, hpre, hrest⟩ := Execution.append_iff.mp hrun
  obtain ⟨s₂, hcall, hrest⟩ := Execution.cons_iff.mp hrest
  obtain ⟨s₃, hmid, hret⟩ := Execution.snoc_iff.mp hrest
  obtain ⟨u, d₀, hu, -, rfl, -, hleft⟩ := exists_jobRun run
    ⟨State.initial 2, memory, job, fun _ => []⟩ (fun _ => rfl) hpre
  -- the owner prepares the frame, then each part of the run with the jobs
  set d : JobState 2 Act A V := { d₀ with memory := memory, job := job } with hd
  have howner : JobStep run d₀ .owner d := .owner memory job (idle_of_dispatch hcall)
  obtain ⟨d₁, v, d₂, hdispatch, hv, hvwork, rfl, -, hleft₂⟩ := d.follow run hleft hcall
  obtain ⟨w, d₃, hw, hwgate, rfl, -, hleft₃⟩ := exists_jobRun run d₂ hleft₂ hmid
  obtain ⟨d', -, -, hreturn, -⟩ := d₃.follow run hleft₃ hret
  refine ⟨u ++ [.owner], v ++ w, d, d₁, d₃, d', ⟨_, _, hu.snoc howner⟩, rfl, rfl, hdispatch,
    hv.append hw, fun ok hok => ?_, hreturn⟩
  rcases List.mem_append.mp hok with hok | hok
  · obtain ⟨i, hi⟩ := hvwork _ hok
    cases hi
  · refine hopen ok ?_
    rw [← hwgate]
    exact List.mem_filterMap.mpr ⟨_, hok, rfl⟩

/-! ### What a dispatch leaves -/

/-- **A dispatch runs the jobs.**  One that returns 0 leaves what the jobs leave
in some order of their actions, all run to their ends, from the memory it was
called with.  Whatever it returns, when every join of the run succeeded each job
has been run wholly or not at all, and nothing else has touched the memory. -/
theorem dispatch_runs_jobs {pre mid : List (JobEvent n)} {d d₁ d₂ d' : JobState n Act A V}
    {ok : Bool} (hpre : JobRun run pre d) (hcall : JobStep run d (.gate .dispatch) d₁)
    (hmid : Execution (JobStep run) d₁ mid d₂) (hopen : ∀ ok, .gate (.ret ok) ∉ mid)
    (hret : JobStep run d₂ (.gate (.ret ok)) d') :
    (ok = true → Interleaving run d.job d.memory d'.memory) ∧
      ∃ left, Partway run d.job d.memory left d'.memory ∧
        (.gate (.fault .join) ∉ pre ++ mid → ∀ i, left i = [] ∨ left i = d.job i) := by
  obtain ⟨left, hpart, hok, hfail⟩ := jobs_at_return hpre hcall hmid hopen hret
  exact ⟨fun h => hpart.interleaving (hok h), left, hpart, hfail⟩

/-- Two workers mark their own cell. -/
theorem dispatch_runs_jobs_lateArrival :
    ∃ d d' : JobState 2 (Fin 2) (Fin 2) Bool, d.job = (fun i => [i]) ∧
      Interleaving (fun i m => Function.update m i true) d.job d.memory d'.memory := by
  obtain ⟨pre, mid, d, d₁, d₂, d', hpre, -, hjob, hcall, hmid, hopen, hret⟩ :=
    exists_lateArrival (fun i m => Function.update m i true) (fun _ => false) fun i => [i]
  exact ⟨d, d', hjob, (dispatch_runs_jobs hpre hcall hmid hopen hret).1 rfl⟩

end AutoUpscale
