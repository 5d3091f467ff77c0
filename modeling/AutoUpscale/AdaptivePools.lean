/-
What a run of the adaptive unsharp mask keeps.

* `Kept`: the plane that trial pools are made for, and any property of pools that
  creation gives and sharpening keeps.
* `run_tuner`: the tuner makes a run of its own, one observation a frame at most.
-/
import AutoUpscale.AdaptiveOwnership

namespace AutoUpscale.Adaptive

open UsmSystem

variable {Pool Plane : Type*} {s : UsmSystem Pool Plane} {env : FrameEnv Pool Plane}
  {Good : Pool → Prop} {c : UsmConfig} {threads : Pool → ℤ}

/-- The arguments of `up_usm_pool_create` that do not change. -/
def UsmAdaptive.geometry (a : UsmAdaptive) : ℤ × ℤ × ℤ := (a.width, a.height, a.stripeRows)

/-- The calls of a frame create `Good` pools for the planned plane, and leave them
`Good`. -/
structure KeepsPools (Good : Pool → Prop) (c : UsmConfig) (env : FrameEnv Pool Plane) :
    Prop where
  create : ∀ {n p}, env.create n c.width c.height c.stripeMin = some p → Good p
  apply : ∀ {h p amountQ8 plane}, Good p → Good (env.apply h p amountQ8 plane).pool

/-- Adaptation works on the planned plane, and every live pool is `Good`. -/
structure Kept (Good : Pool → Prop) (c : UsmConfig) (s : UsmSystem Pool Plane) : Prop where
  geometry : s.adaptive.enabled = true → s.adaptive.geometry = (c.width, c.height, c.stripeMin)
  pools : ∀ {k p}, s.heap k = some p → Good p

/-! ### The operations -/

theorem good_update {heap : ℕ → Option Pool} (h : ∀ {k p}, heap k = some p → Good p)
    {o : Option Pool} (ho : ∀ {p}, o = some p → Good p) (k : ℕ) {j : ℕ} {q : Pool}
    (hq : Function.update heap k o j = some q) : Good q := by
  rw [Function.update_apply] at hq
  split at hq
  · exact ho hq
  · exact h hq

theorem Kept.setAdaptive (h : Kept Good c s) {a : UsmAdaptive}
    (ha : a.enabled = true → s.adaptive.enabled = true)
    (hgeometry : a.geometry = s.adaptive.geometry) : Kept Good c (s.setAdaptive a) :=
  ⟨fun hon => hgeometry.trans (h.geometry (ha hon)), h.pools⟩

theorem Kept.addPool (h : Kept Good c s) {p : Pool} (hp : Good p) (e : Event) :
    Kept Good c (s.addPool p e) :=
  ⟨h.geometry, good_update h.pools (fun hq => Option.some.inj hq ▸ hp) s.next⟩

theorem Kept.destroyPool (h : Kept Good c s) (k : Option ℕ) : Kept Good c (s.destroyPool k) := by
  unfold UsmSystem.destroyPool
  split
  · exact h
  rename_i k
  split
  · exact ⟨h.geometry, h.pools⟩
  · exact ⟨h.geometry, good_update h.pools (fun hq => by cases hq) k⟩

theorem Kept.applyPool (h : Kept Good c s) (henv : KeepsPools Good c env) (amountQ8 : ℤ)
    (k : Option ℕ) : Kept Good c (s.applyPool env amountQ8 k).2 := by
  unfold UsmSystem.applyPool
  split
  · exact h
  rename_i k
  split
  · exact ⟨h.geometry, h.pools⟩
  · rename_i p hp
    exact ⟨h.geometry,
      good_update h.pools (fun hq => Option.some.inj hq ▸ henv.apply (h.pools hp)) k⟩

theorem destroyPool_adaptive (s : UsmSystem Pool Plane) (k : Option ℕ) :
    (s.destroyPool k).adaptive = s.adaptive := by
  unfold UsmSystem.destroyPool
  split
  · rfl
  · split <;> rfl

theorem applyPool_adaptive (s : UsmSystem Pool Plane) (env : FrameEnv Pool Plane) (amountQ8 : ℤ)
    (k : Option ℕ) : (s.applyPool env amountQ8 k).2.adaptive = s.adaptive := by
  unfold UsmSystem.applyPool
  split
  · rfl
  · split <;> rfl

/-! ### The calls of `usm_adaptive.h` -/

theorem Kept.clearTrial (h : Kept Good c s) : Kept Good c (usmAdaptiveClearTrial s) :=
  (h.destroyPool s.adaptive.trial).setAdaptive id rfl

theorem Kept.stop (h : Kept Good c s) : Kept Good c (usmAdaptiveStop s) :=
  h.clearTrial.setAdaptive nofun rfl

theorem Kept.begin (h : Kept Good c s) (clock : Option Timespec) :
    Kept Good c (usmAdaptiveBegin s clock) := by
  obtain ⟨_, _, _, hbegin⟩ := usmAdaptiveBegin_eq s clock
  rw [hbegin]
  exact h.setAdaptive id rfl

theorem Kept.takeStart (h : Kept Good c s) (clock : Option Timespec) :
    Kept Good c (usmAdaptiveTakeStart s clock).2 := by
  unfold usmAdaptiveTakeStart
  split
  · exact h
  · exact h.setAdaptive id rfl

theorem Kept.select (h : Kept Good c s) (hon : s.adaptive.enabled = true)
    (henv : KeepsPools Good c env) (best : Option ℕ) :
    Kept Good c (usmAdaptiveSelect s env best).2 := by
  unfold usmAdaptiveSelect
  split
  · exact h
  split
  · exact h
  have hclear := h.clearTrial
  have hadaptive : (usmAdaptiveClearTrial s).adaptive =
      { s.adaptive with trial := none, trialCount := 0 } := by
    simp [usmAdaptiveClearTrial, UsmSystem.setAdaptive, destroyPool_adaptive]
  dsimp only
  split
  · exact hclear.stop
  · rename_i p hp
    -- the trial is made for the plane that adaptation works on
    have hgeometry := h.geometry hon
    simp only [UsmAdaptive.geometry, Prod.mk.injEq] at hgeometry
    obtain ⟨hwidth, hheight, hrows⟩ := hgeometry
    rw [hadaptive, hwidth, hheight, hrows] at hp
    exact (hclear.addPool (henv.create hp) _).setAdaptive id rfl

theorem Kept.choose (h : Kept Good c s) (henv : KeepsPools Good c env) :
    Kept Good c (usmAdaptiveChoose s env).2.2 := by
  have h₀ : Kept Good c (s.setAdaptive { s.adaptive with retained := false }) :=
    h.setAdaptive id rfl
  unfold usmAdaptiveChoose
  dsimp only
  by_cases hon : s.adaptive.enabled = true
  · have hselect := h₀.select hon henv s.pool
    simp only [UsmSystem.setAdaptive, hon, if_true] at hselect ⊢
    split
    · exact hselect.takeStart env.startClock
    · exact hselect
  · simp only [UsmSystem.setAdaptive, hon] at h₀ ⊢
    exact h₀

theorem Kept.accept (h : Kept Good c s) (elapsed : Float) :
    Kept Good c (usmAdaptiveAccept s elapsed) := by
  have hobserved : Kept Good c (s.observed elapsed) := h.setAdaptive id rfl
  unfold usmAdaptiveAccept
  dsimp only
  split
  · split
    · exact hobserved.clearTrial
    · exact hobserved
  · have hdestroy := hobserved.destroyPool s.pool
    exact ⟨hdestroy.geometry, hdestroy.pools⟩

theorem Kept.recover (h : Kept Good c s) (henv : KeepsPools Good c env) (best : Option ℕ)
    (status : UsmStatus) (amountQ8 : ℤ) :
    Kept Good c (usmAdaptiveRecover s env best status amountQ8).2 := by
  unfold usmAdaptiveRecover
  dsimp only
  split
  · exact h.stop.setAdaptive id rfl
  · exact h.stop.applyPool henv amountQ8 best

theorem Kept.finish (h : Kept Good c s) (henv : KeepsPools Good c env) (amountQ8 : ℤ)
    (selected : Option ℕ) (start : Option Timespec) :
    Kept Good c (usmAdaptiveFinish threads s env amountQ8 selected start).2 := by
  have hused := h.applyPool henv amountQ8 selected
  unfold usmAdaptiveFinish
  dsimp only
  split
  · exact hused.recover henv _ _ amountQ8
  split
  · exact hused
  split
  · exact Kept.stop ⟨hused.geometry, hused.pools⟩
  split
  · exact hused.stop
  · exact hused.accept _

theorem Kept.disable (h : Kept Good c s) : Kept Good c (disableUsm s) := by
  have hstop := Kept.stop (s := { s with amountQ8 := 0 }) ⟨h.geometry, h.pools⟩
  have hdestroy := hstop.destroyPool (usmAdaptiveStop { s with amountQ8 := 0 }).pool
  exact ⟨hdestroy.geometry, hdestroy.pools⟩

/-! ### Runs -/

/-- The environment of a frame. -/
def Step.Keeps (Good : Pool → Prop) (c : UsmConfig) : Step Pool Plane → Prop
  | .frame _ env => KeepsPools Good c env
  | _ => True

theorem Kept.step (h : Kept Good c s) {st : Step Pool Plane} (hst : st.Keeps Good c) :
    Kept Good c (step threads s st) := by
  cases st with
  | start clock => exact h.begin clock
  | frame plane env =>
    have hplane : Kept Good c { s with plane := plane } := ⟨h.geometry, h.pools⟩
    have hcall : Kept Good c
        (usmAdaptiveApply threads { s with plane := plane } env s.amountQ8).2 := by
      rw [usmAdaptiveApply_eq]
      exact (hplane.choose hst).finish hst _ _ _
    show Kept Good c (applyUsmIfEnabled threads { s with plane := plane } env).2
    cases applyUsmIfEnabled_exit threads { s with plane := plane } env with
    | off _ hout =>
      rw [hout]
      exact hplane
    | kept _ _ _ hout =>
      rw [hout]
      exact hcall
    | disabled _ _ _ _ hout =>
      rw [hout]
      exact hcall.disable
  | disable => exact h.disable

theorem Kept.run (h : Kept Good c s) {steps : List (Step Pool Plane)}
    (hsteps : ∀ st ∈ steps, st.Keeps Good c) : Kept Good c (run threads s steps) := by
  induction steps generalizing s with
  | nil => exact h
  | cons st steps ih =>
    exact ih (h.step (hsteps st (.head _))) fun st' hst' => hsteps st' (.tail _ hst')

/-! ### The tuner of a run -/

theorem usmAdaptiveClearTrial_tuner (s : UsmSystem Pool Plane) :
    (usmAdaptiveClearTrial s).adaptive.tuner = s.adaptive.tuner := by
  show (s.destroyPool s.adaptive.trial).adaptive.tuner = s.adaptive.tuner
  rw [destroyPool_adaptive]

theorem usmAdaptiveStop_tuner (s : UsmSystem Pool Plane) :
    (usmAdaptiveStop s).adaptive.tuner = s.adaptive.tuner :=
  usmAdaptiveClearTrial_tuner s

theorem usmAdaptiveSelect_tuner (s : UsmSystem Pool Plane) (env : FrameEnv Pool Plane)
    (best : Option ℕ) : (usmAdaptiveSelect s env best).2.adaptive.tuner = s.adaptive.tuner := by
  unfold usmAdaptiveSelect
  split
  · rfl
  split
  · rfl
  dsimp only
  split
  · exact (usmAdaptiveStop_tuner _).trans (usmAdaptiveClearTrial_tuner s)
  · exact usmAdaptiveClearTrial_tuner s

theorem usmAdaptiveChoose_tuner (s : UsmSystem Pool Plane) (env : FrameEnv Pool Plane) :
    (usmAdaptiveChoose s env).2.2.adaptive.tuner = s.adaptive.tuner := by
  have hselect := usmAdaptiveSelect_tuner
    (s.setAdaptive { s.adaptive with retained := false }) env s.pool
  unfold usmAdaptiveChoose usmAdaptiveTakeStart
  dsimp only
  split_ifs
  all_goals first | exact hselect | rfl

theorem usmAdaptiveAccept_tuner (s : UsmSystem Pool Plane) (elapsed : Float) :
    (usmAdaptiveAccept s elapsed).adaptive.tuner =
      workerTunerObserve s.adaptive.tuner (some elapsed) := by
  unfold usmAdaptiveAccept
  dsimp only
  split_ifs
  · exact usmAdaptiveClearTrial_tuner _
  · rfl
  · show ((s.observed elapsed).destroyPool s.pool).adaptive.tuner = _
    rw [destroyPool_adaptive]
    rfl

/-- The tuner stays, or observes one frame. -/
def Observes (t t' : WorkerTuner Float) : Prop := t' = t ∨ ∃ elapsed, t' = workerTunerObserve t elapsed

theorem usmAdaptiveApply_observes (threads : Pool → ℤ) (s : UsmSystem Pool Plane)
    (env : FrameEnv Pool Plane) (amountQ8 : ℤ) :
    Observes s.adaptive.tuner (usmAdaptiveApply threads s env amountQ8).2.adaptive.tuner := by
  rw [usmAdaptiveApply_eq]
  set u := (usmAdaptiveChoose s env).2.2
  set selected := (usmAdaptiveChoose s env).1
  have hused : (u.applyPool env amountQ8 selected).2.adaptive.tuner = s.adaptive.tuner :=
    (congrArg UsmAdaptive.tuner (applyPool_adaptive u env amountQ8 selected)).trans
      (usmAdaptiveChoose_tuner s env)
  unfold usmAdaptiveFinish
  dsimp only
  split
  · unfold usmAdaptiveRecover
    dsimp only
    split
    · exact .inl ((usmAdaptiveStop_tuner _).trans hused)
    · exact .inl ((congrArg UsmAdaptive.tuner (applyPool_adaptive _ _ _ _)).trans
        ((usmAdaptiveStop_tuner _).trans hused))
  split
  · exact .inl hused
  split
  · exact .inl ((usmAdaptiveStop_tuner _).trans hused)
  split
  · exact .inl ((usmAdaptiveStop_tuner _).trans hused)
  · exact .inr ⟨_, (usmAdaptiveAccept_tuner _ _).trans (by rw [hused])⟩

theorem disableUsm_tuner (s : UsmSystem Pool Plane) :
    (disableUsm s).adaptive.tuner = s.adaptive.tuner :=
  (congrArg UsmAdaptive.tuner (destroyPool_adaptive _ _)).trans
    (usmAdaptiveStop_tuner { s with amountQ8 := 0 })

theorem step_observes (threads : Pool → ℤ) (s : UsmSystem Pool Plane) (st : Step Pool Plane) :
    Observes s.adaptive.tuner (step threads s st).adaptive.tuner := by
  cases st with
  | start clock =>
    show Observes s.adaptive.tuner (usmAdaptiveBegin s clock).adaptive.tuner
    obtain ⟨_, _, _, hbegin⟩ := usmAdaptiveBegin_eq s clock
    rw [hbegin]
    exact .inl rfl
  | frame plane env =>
    have hcall := usmAdaptiveApply_observes threads { s with plane := plane } env s.amountQ8
    show Observes _ (applyUsmIfEnabled threads { s with plane := plane } env).2.adaptive.tuner
    cases applyUsmIfEnabled_exit threads { s with plane := plane } env with
    | off _ hout =>
      rw [hout]
      exact .inl rfl
    | kept _ _ _ hout =>
      rw [hout]
      exact hcall
    | disabled _ _ _ _ hout =>
      rw [hout, disableUsm_tuner]
      exact hcall
  | disable => exact .inl (disableUsm_tuner s)

/-- **The tuner of the filter's run is in a run of its own.** -/
theorem run_tuner (threads : Pool → ℤ) (s : UsmSystem Pool Plane) (steps : List (Step Pool Plane)) :
    ∃ elapsed, (run threads s steps).adaptive.tuner = tunerRun s.adaptive.tuner elapsed := by
  induction steps generalizing s with
  | nil => exact ⟨[], rfl⟩
  | cons st steps ih =>
    obtain ⟨rest, hrest⟩ := ih (step threads s st)
    obtain hsame | ⟨elapsed, hobserve⟩ := step_observes threads s st
    · exact ⟨rest, hrest.trans (by rw [hsame])⟩
    · exact ⟨elapsed :: rest, hrest.trans (by rw [hobserve]; rfl)⟩

/-! ### The start of a run -/

theorem initAdaptiveUsm_geometry (c : UsmConfig) (n : ℤ)
    (hon : (initAdaptiveUsm c n).enabled = true) :
    (initAdaptiveUsm c n).geometry = (c.width, c.height, c.stripeMin) := by
  unfold initAdaptiveUsm at hon ⊢
  split at hon
  · cases hon
  rename_i hadaptive
  rw [if_neg hadaptive]
  split at hon
  · cases hon
  rename_i hthreads
  rw [if_neg hthreads]
  rfl

/-- `InitUsmPool` has made the first pool. -/
theorem initUsmPool_some {create : ℤ → ℤ → ℤ → ℤ → Option Pool} {plane : Plane}
    (hpool : (initUsmPool c create plane).pool ≠ none) :
    ∃ p, create c.initialThreads c.width c.height c.stripeMin = some p ∧
      (initUsmPool c create plane).pool = some 0 ∧
      (initUsmPool c create plane).heap 0 = some p ∧
      (initUsmPool c create plane).adaptive = initAdaptiveUsm c c.initialThreads ∧
      (initUsmPool c create plane).log = [.created 0] := by
  unfold initUsmPool at hpool ⊢
  dsimp only at hpool ⊢
  split at hpool
  · exact absurd rfl hpool
  rename_i hgo
  rw [if_neg hgo]
  split at hpool
  · exact absurd rfl hpool
  · rename_i p hp
    rw [hp]
    exact ⟨p, rfl, rfl, rfl, rfl, rfl⟩

theorem initUsmPool_kept {create : ℤ → ℤ → ℤ → ℤ → Option Pool}
    (hcreate : ∀ {n p}, create n c.width c.height c.stripeMin = some p → Good p) (plane : Plane) :
    Kept Good c (initUsmPool c create plane) := by
  unfold initUsmPool
  dsimp only
  split
  · exact ⟨nofun, nofun⟩
  split
  · exact ⟨nofun, nofun⟩
  · rename_i p hp
    exact ⟨initAdaptiveUsm_geometry c c.initialThreads,
      good_update (fun {_ _} => nofun) (fun hq => Option.some.inj hq ▸ hcreate hp) 0⟩

end AutoUpscale.Adaptive
