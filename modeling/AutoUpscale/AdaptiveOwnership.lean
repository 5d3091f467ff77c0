/-
Who owns the pools of the adaptive unsharp mask.

`Fate` is the life of one pool as an automaton over the log; `Owns` ties it to the
state.  The tuner's phase says which of the two pools may be live and how many
workers they run (`AdaptiveInv`).

* **`adaptive_pool_ownership`** — over every run from `InitUsmPool`.
* `uncertain_baseline_leaves_enabled` — a call that fails on the baseline reports
  it before the check of its worker count; the filter then disables sharpening.
-/
import AutoUpscale.LabelledTrace
import AutoUpscale.UsmAdaptive

namespace AutoUpscale.Adaptive

open LabelledTrace UsmSystem

/-! ### The life of a pool -/

/-- A pool comes from `InitUsmPool` or as a trial; a trial is dropped or promoted,
and a pool in use is retired. -/
inductive Fate
  | unborn | trial | dropped
  | inUse (promoted : Bool)
  | retired (promoted : Bool)
  deriving DecidableEq, Repr

/-- What an event does to the pool it names. -/
def Fate.next : Fate → Event → Option Fate
  | .unborn, .created _ => some (.inUse false)
  | .unborn, .trialCreated _ => some .trial
  | .trial, .applied _ _ => some .trial
  | .trial, .promoted _ => some (.inUse true)
  | .trial, .destroyed _ => some .dropped
  | .inUse promoted, .applied _ _ => some (.inUse promoted)
  | .inUse promoted, .destroyed _ => some (.retired promoted)
  | _, _ => none

/-- The pool an event names. -/
def Event.handle : Event → Option ℕ
  | .created h => some h
  | .trialCreated h => some h
  | .applied h _ => some h
  | .promoted h => some h
  | .destroyed h => some h
  | _ => none

/-- What an event means for the pool with handle `h`. -/
def fateStep (h : ℕ) (f : Fate) (e : Event) : Option Fate :=
  if e = .fault then none else if e.handle = some h then f.next e else some f

variable {Pool Plane : Type*}

/-- The state shows the fate of `h`. -/
def UsmSystem.Shows (s : UsmSystem Pool Plane) (h : ℕ) : Fate → Prop
  | .unborn => s.next ≤ h
  | .trial => s.adaptive.trial = some h
  | .inUse _ => s.pool = some h
  | .dropped => h < s.next ∧ s.pool ≠ some h ∧ s.adaptive.trial ≠ some h
  | .retired _ => h < s.next ∧ s.pool ≠ some h ∧ s.adaptive.trial ≠ some h

/-- The live pools are the one in use and the trial, and every pool has lived a
proper life. -/
structure Owns (s : UsmSystem Pool Plane) : Prop where
  live : ∀ h, (s.heap h).isSome = true ↔ s.pool = some h ∨ s.adaptive.trial = some h
  below : ∀ h, s.pool = some h ∨ s.adaptive.trial = some h → h < s.next
  apart : ∀ h, s.pool = some h → s.adaptive.trial ≠ some h
  fate : ∀ h, ∃ f, replay (fateStep h) .unborn s.log = some f ∧ s.Shows h f

variable {s s' : UsmSystem Pool Plane}

/-- One event that every fate allows. -/
theorem fate_snoc {e : Event} (h : Owns s) (hlog : s'.log = s.log ++ [e])
    (hstep : ∀ k f, s.Shows k f → ∃ f', fateStep k f e = some f' ∧ s'.Shows k f') (k : ℕ) :
    ∃ f, replay (fateStep k) .unborn s'.log = some f ∧ s'.Shows k f := by
  obtain ⟨f, hreplay, hshows⟩ := h.fate k
  obtain ⟨f', hf', hshows'⟩ := hstep k f hshows
  refine ⟨f', ?_, hshows'⟩
  rw [hlog]
  exact replay_trans hreplay (by simp [hf'])

theorem Owns.heap_of_pool (h : Owns s) {b : ℕ} (hb : s.pool = some b) : ∃ p, s.heap b = some p :=
  Option.isSome_iff_exists.mp ((h.live b).mpr (.inl hb))

theorem Owns.heap_of_trial (h : Owns s) {t : ℕ} (ht : s.adaptive.trial = some t) :
    ∃ p, s.heap t = some p :=
  Option.isSome_iff_exists.mp ((h.live t).mpr (.inr ht))

theorem Owns.fate_of_trial (h : Owns s) {t : ℕ} {f : Fate} (ht : s.adaptive.trial = some t)
    (hf : s.Shows t f) : f = .trial := by
  cases f with
  | unborn => exact absurd (h.below t (.inr ht)) (not_lt.mpr hf)
  | trial => rfl
  | inUse => exact absurd ht (h.apart t hf)
  | dropped => exact absurd ht hf.2.2
  | retired => exact absurd ht hf.2.2

theorem Owns.fate_of_pool (h : Owns s) {b : ℕ} {f : Fate} (hb : s.pool = some b)
    (hf : s.Shows b f) : ∃ promoted, f = .inUse promoted := by
  cases f with
  | unborn => exact absurd (h.below b (.inl hb)) (not_lt.mpr hf)
  | trial => exact absurd hf (h.apart b hb)
  | inUse promoted => exact ⟨promoted, rfl⟩
  | dropped => exact absurd hb hf.2.1
  | retired => exact absurd hb hf.2.1

theorem Owns.fate_of_next (h : Owns s) {f : Fate} (hf : s.Shows s.next f) : f = .unborn := by
  cases f with
  | unborn => rfl
  | trial => exact absurd (h.below _ (.inr hf)) (lt_irrefl _)
  | inUse => exact absurd (h.below _ (.inl hf)) (lt_irrefl _)
  | dropped => exact absurd hf.1 (lt_irrefl _)
  | retired => exact absurd hf.1 (lt_irrefl _)

/-- The fields of the tuner and the clock do not matter here. -/
theorem Owns.congr (h : Owns s) (hheap : s'.heap = s.heap) (hnext : s'.next = s.next)
    (hpool : s'.pool = s.pool) (htrial : s'.adaptive.trial = s.adaptive.trial)
    (hlog : s'.log = s.log) : Owns s' := by
  refine ⟨?_, ?_, ?_, fun k => ?_⟩
  · rw [hheap, hpool, htrial]
    exact h.live
  · rw [hnext, hpool, htrial]
    exact h.below
  · rw [hpool, htrial]
    exact h.apart
  · obtain ⟨f, hreplay, hshows⟩ := h.fate k
    refine ⟨f, hlog ▸ hreplay, ?_⟩
    cases f <;> simpa [Shows, hnext, hpool, htrial] using hshows

theorem Owns.setAmount (h : Owns s) (amountQ8 : ℤ) : Owns { s with amountQ8 := amountQ8 } :=
  h.congr rfl rfl rfl rfl rfl

/-- A remark in the log. -/
theorem Owns.remark (h : Owns s) {e : Event} (he : e = .mismatch ∨ e = .disabled) :
    Owns { s with log := s.log ++ [e] } := by
  refine ⟨h.live, h.below, h.apart, fate_snoc h rfl fun k f hshows => ⟨f, ?_, ?_⟩⟩
  · rcases he with rfl | rfl <;> rfl
  · cases f <;> exact hshows

/-- Using a live pool. -/
theorem Owns.applied (h : Owns s) {k : ℕ} (hk : (s.heap k).isSome = true) (p : Pool)
    (plane : Plane) (status : UsmStatus) :
    Owns { s with
      heap := Function.update s.heap k (some p), plane := plane
      log := s.log ++ [.applied k status] } := by
  refine ⟨fun j => ?_, h.below, h.apart, fate_snoc h rfl fun j f hshows => ⟨f, ?_, ?_⟩⟩
  · by_cases hj : j = k
    · subst hj
      simpa using (h.live j).mp hk
    · simpa [Function.update_of_ne hj] using h.live j
  · by_cases hj : k = j
    · subst hj
      rcases (h.live k).mp hk with hb | ht
      · obtain ⟨promoted, rfl⟩ := h.fate_of_pool hb hshows
        simp [fateStep, Event.handle, Fate.next]
      · obtain rfl := h.fate_of_trial ht hshows
        simp [fateStep, Event.handle, Fate.next]
    · simp [fateStep, Event.handle, hj]
  · cases f <;> exact hshows

/-- Dropping the trial. -/
theorem Owns.dropTrial (h : Owns s) {t : ℕ} (ht : s.adaptive.trial = some t) {a : UsmAdaptive}
    (ha : a.trial = none) :
    Owns { s with
      heap := Function.update s.heap t none, adaptive := a, log := s.log ++ [.destroyed t] } := by
  have hpt : s.pool ≠ some t := fun hp => h.apart t hp ht
  refine ⟨fun j => ?_, fun j hj => ?_, fun j _ => by simp [ha], fate_snoc h rfl fun j f hshows => ?_⟩
  · have hlive := h.live j
    by_cases hj : j = t
    · subst hj
      simp [ha, hpt]
    · rw [ht] at hlive
      simpa [Function.update_of_ne hj, ha, Ne.symm hj] using hlive
  · exact h.below j (.inl (hj.resolve_right (by simp [ha])))
  · by_cases hj : t = j
    · subst hj
      refine ⟨.dropped, ?_, h.below t (.inr ht), hpt, by simp [ha]⟩
      obtain rfl := h.fate_of_trial ht hshows
      simp [fateStep, Event.handle, Fate.next]
    · refine ⟨f, by simp [fateStep, Event.handle, hj], ?_⟩
      cases f with
      | trial => exact absurd (Option.some.inj (ht.symm.trans hshows)) hj
      | unborn => exact hshows
      | inUse => exact hshows
      | dropped => exact ⟨hshows.1, hshows.2.1, by simp [ha]⟩
      | retired => exact ⟨hshows.1, hshows.2.1, by simp [ha]⟩

/-- A new trial, where there was none. -/
theorem Owns.addTrial (h : Owns s) (ht : s.adaptive.trial = none) (p : Pool) {a : UsmAdaptive}
    (ha : a.trial = some s.next) :
    Owns ((s.addPool p (.trialCreated s.next)).setAdaptive a) := by
  have hnext : s.pool ≠ some s.next := fun hp => absurd (h.below _ (.inl hp)) (lt_irrefl _)
  refine ⟨fun j => ?_, fun j hj => ?_, fun j hj => ?_, fate_snoc h rfl fun j f hshows => ?_⟩
  · have hlive := h.live j
    by_cases hj : j = s.next
    · subst hj
      simp [addPool, setAdaptive, ha]
    · rw [ht] at hlive
      simpa [addPool, setAdaptive, Function.update_of_ne hj, ha, Ne.symm hj] using hlive
  · show j < s.next + 1
    rcases hj with hj | hj
    · exact (h.below j (.inl hj)).trans (Nat.lt_succ_self _)
    · obtain rfl : s.next = j := Option.some.inj (ha.symm.trans hj)
      exact Nat.lt_succ_self _
  · intro hj'
    obtain rfl : s.next = j := Option.some.inj (ha.symm.trans hj')
    exact hnext hj
  · by_cases hj : s.next = j
    · subst hj
      refine ⟨.trial, ?_, ha⟩
      obtain rfl := h.fate_of_next hshows
      simp [fateStep, Event.handle, Fate.next]
    · have hother : a.trial ≠ some j := by simp [ha, hj]
      refine ⟨f, by simp [fateStep, Event.handle, hj], ?_⟩
      cases f with
      | unborn =>
        have hle : s.next ≤ j := hshows
        exact Nat.lt_of_le_of_ne hle hj
      | trial => exact absurd hshows (by simp [Shows, ht])
      | inUse => exact hshows
      | dropped => exact ⟨hshows.1.trans (Nat.lt_succ_self _), hshows.2.1, hother⟩
      | retired => exact ⟨hshows.1.trans (Nat.lt_succ_self _), hshows.2.1, hother⟩

/-- The pool in use goes, and nothing follows it. -/
theorem Owns.retire (h : Owns s) {b : ℕ} (hb : s.pool = some b) (ht : s.adaptive.trial = none) :
    Owns { s with
      heap := Function.update s.heap b none, pool := none, log := s.log ++ [.destroyed b] } := by
  refine ⟨fun j => ?_, fun j hj => ?_, fun j hj => (by cases hj), fate_snoc h rfl
    fun j f hshows => ?_⟩
  · have hlive := h.live j
    by_cases hj : j = b
    · subst hj
      simp [ht]
    · rw [hb, ht] at hlive
      simpa [Function.update_of_ne hj, ht, Ne.symm hj] using hlive
  · exact h.below j (.inr (hj.resolve_left (by simp)))
  · by_cases hj : b = j
    · subst hj
      obtain ⟨promoted, rfl⟩ := h.fate_of_pool hb hshows
      exact ⟨.retired promoted, by simp [fateStep, Event.handle, Fate.next], h.below b (.inl hb),
        by simp, by simp [ht]⟩
    · refine ⟨f, by simp [fateStep, Event.handle, hj], ?_⟩
      cases f with
      | unborn => exact hshows
      | trial => exact hshows
      | inUse => exact absurd (Option.some.inj (hb.symm.trans hshows)) hj
      | dropped => exact ⟨hshows.1, by simp, hshows.2.2⟩
      | retired => exact ⟨hshows.1, by simp, hshows.2.2⟩

/-- The trial takes the place of a pool that goes. -/
theorem Owns.promote (h : Owns s) {b t : ℕ} (hb : s.pool = some b)
    (ht : s.adaptive.trial = some t) {a : UsmAdaptive} (ha : a.trial = none) :
    Owns { s with
      heap := Function.update s.heap b none, pool := some t, adaptive := a
      log := s.log ++ [.destroyed b] ++ [.promoted t] } := by
  have hbt : b ≠ t := fun heq => h.apart b hb (heq ▸ ht)
  have hltb := h.below b (.inl hb)
  have hltt := h.below t (.inr ht)
  refine ⟨fun j => ?_, fun j hj => ?_, fun j _ => by simp [ha], fun j => ?_⟩
  · have hlive := h.live j
    by_cases hj : j = b
    · subst hj
      simp [ha, Ne.symm hbt]
    · rw [hb, ht] at hlive
      simpa [Function.update_of_ne hj, ha, Ne.symm hj] using hlive
  · obtain rfl : t = j := Option.some.inj (hj.resolve_right (by simp [ha]))
    exact hltt
  · obtain ⟨f, hreplay, hshows⟩ := h.fate j
    have hboth : ∃ f', (fateStep j f (.destroyed b)).bind (fun g => fateStep j g (.promoted t)) =
        some f' ∧ ({ s with
          heap := Function.update s.heap b none, pool := some t, adaptive := a
          log := s.log ++ [.destroyed b] ++ [.promoted t] } : UsmSystem Pool Plane).Shows j f' := by
      by_cases hjb : b = j
      · subst hjb
        obtain ⟨promoted, rfl⟩ := h.fate_of_pool hb hshows
        exact ⟨.retired promoted, by simp [fateStep, Event.handle, Fate.next, hbt.symm], hltb,
          by simpa using hbt.symm, by simp [ha]⟩
      by_cases hjt : t = j
      · subst hjt
        obtain rfl := h.fate_of_trial ht hshows
        exact ⟨.inUse true, by simp [fateStep, Event.handle, Fate.next, hbt], rfl⟩
      · refine ⟨f, by simp [fateStep, Event.handle, hjb, hjt], ?_⟩
        cases f with
        | unborn => exact hshows
        | trial => exact absurd (Option.some.inj (ht.symm.trans hshows)) hjt
        | inUse => exact absurd (Option.some.inj (hb.symm.trans hshows)) hjb
        | dropped => exact ⟨hshows.1, by simpa using hjt, by simp [ha]⟩
        | retired => exact ⟨hshows.1, by simpa using hjt, by simp [ha]⟩
    obtain ⟨f', hf', hshows'⟩ := hboth
    refine ⟨f', ?_, hshows'⟩
    rw [List.append_assoc]
    exact replay_trans hreplay (by simpa using hf')

/-! ### Dropping the trial and stopping -/

/-- `s'` is `s` without its trial. -/
structure Cleared (s s' : UsmSystem Pool Plane) : Prop where
  owns : Owns s'
  pool : s'.pool = s.pool
  plane : s'.plane = s.plane
  trial : s'.adaptive.trial = none
  count : s'.adaptive.trialCount = 0
  heap : ∀ b, s.pool = some b → s'.heap b = s.heap b
  log : ∃ new, s'.log = s.log ++ new ∧ ∀ e ∈ new, ∃ k, e = .destroyed k

theorem Cleared.effectiveThreads (h : Cleared s s') (threads : Pool → ℤ) :
    s'.effectiveThreads threads s'.pool = s.effectiveThreads threads s.pool := by
  rw [h.pool]
  cases hb : s.pool with
  | none => rfl
  | some b => simp only [UsmSystem.effectiveThreads, Option.bind_some, h.heap b hb]

theorem usmAdaptiveClearTrial_cleared (h : Owns s) :
    Cleared s (usmAdaptiveClearTrial s) ∧ (usmAdaptiveClearTrial s).adaptive =
      { s.adaptive with trial := none, trialCount := 0 } := by
  unfold usmAdaptiveClearTrial
  cases ht : s.adaptive.trial with
  | none =>
    refine ⟨⟨h.congr rfl rfl rfl ht.symm rfl, rfl, rfl, rfl, rfl, fun _ _ => rfl, [], ?_, ?_⟩, rfl⟩
    · simp [destroyPool, setAdaptive]
    · simp
  | some t =>
    obtain ⟨p, hp⟩ := h.heap_of_trial ht
    simp only [destroyPool, hp]
    refine ⟨⟨h.dropTrial ht rfl, rfl, rfl, rfl, rfl, fun b hb => ?_, [.destroyed t], rfl,
      by simp⟩, rfl⟩
    have hbt : b ≠ t := fun heq => h.apart b hb (heq ▸ ht)
    exact Function.update_of_ne hbt _ _

theorem usmAdaptiveStop_cleared (h : Owns s) :
    Cleared s (usmAdaptiveStop s) ∧ (usmAdaptiveStop s).adaptive =
      { s.adaptive with
        trial := none, trialCount := 0, enabled := false, stopped := true
        framePending := false } := by
  obtain ⟨⟨howns, hpool, hplane, htrial, hcount, hheap, hlog⟩, heq⟩ :=
    usmAdaptiveClearTrial_cleared h
  unfold usmAdaptiveStop
  refine ⟨⟨howns.congr rfl rfl rfl ?_ rfl, hpool, hplane, ?_, ?_, hheap, hlog⟩, ?_⟩
  all_goals simp [setAdaptive, heq]

/-! ### How the tuner moves -/

/-- What one observation does to the phase and the counts. -/
inductive TunerMove (t t' : WorkerTuner Float) : Prop
  | stay (hbest : t'.best = t.best) (hphase : t'.phase = t.phase)
      (hcandidate : t'.candidate = t.candidate)
  | leave (hbest : t'.best = t.best) (hphase : t.phase = .base)
      (hphase' : t'.phase = .trial ∨ t'.phase = .settled)
  | confirm (hbest : t'.best = t.best) (hphase : t.phase = .trial) (hphase' : t'.phase = .confirm)
      (hcandidate : t'.candidate = t.candidate)
  | accept (hbest : t'.best = t.candidate) (hphase : t.phase = .confirm)
      (hphase' : t'.phase = .base)
  | reject (hbest : t'.best = t.best) (hphase : t.phase = .confirm) (hphase' : t'.phase = .base)
  | restart (hbest : t'.best = t.best) (hphase : t.phase = .settled) (hphase' : t'.phase = .base)

theorem tunerClose_move {t : WorkerTuner Float} (h : TunerInv t) (elapsed : Float) :
    TunerMove t (tunerClose t elapsed) := by
  have hend := tunerClose_end h elapsed
  generalize tunerClose t elapsed = u at hend ⊢
  cases hend with
  | settle hphase => exact .leave rfl hphase (.inr rfl)
  | start hphase => exact .leave rfl hphase (.inl rfl)
  | confirm hphase => exact .confirm rfl hphase rfl rfl
  | accept hphase => exact .accept rfl hphase rfl
  | reject hphase => exact .reject rfl hphase rfl
  | stay => exact .stay rfl rfl rfl
  | restart hphase => exact .restart rfl hphase rfl

theorem workerTunerObserve_move {t : WorkerTuner Float} (h : TunerInv t) (elapsed : Option Float) :
    TunerMove t (workerTunerObserve t elapsed) := by
  obtain hignored | ⟨e, rfl, he⟩ := ignored_or_valid elapsed
  · rw [workerTunerObserve_ignored hignored]
    exact .stay rfl rfl rfl
  obtain ⟨-, heq⟩ | ⟨-, -, -, s, -, heq⟩ | ⟨-, -, s, -, heq⟩ :=
    workerTunerObserve_cases he h.used_lt
  · rw [heq]
    exact .stay rfl rfl rfl
  · rw [heq]
    exact .stay rfl rfl rfl
  · rw [heq]
    -- the countdown is no part of a move
    have hmove := tunerClose_move (h.setRemaining (t.remaining - 1)) (tunerMedian s)
    cases hmove with
    | stay h1 h2 h3 => exact .stay h1 h2 h3
    | leave h1 h2 h3 => exact .leave h1 h2 h3
    | confirm h1 h2 h3 h4 => exact .confirm h1 h2 h3 h4
    | accept h1 h2 h3 => exact .accept h1 h2 h3
    | reject h1 h2 h3 => exact .reject h1 h2 h3
    | restart h1 h2 h3 => exact .restart h1 h2 h3

/-! ### The invariant -/

section Invariant

variable (threads : Pool → ℤ)

/-- How pools and tuner agree while adaptation is on; `unknown` is a pool whose
worker count has not been checked. -/
structure Running (s : UsmSystem Pool Plane) (unknown : Option ℕ) : Prop where
  tuner : TunerInv s.adaptive.tuner
  trial : ∀ t, s.adaptive.trial = some t →
    (s.adaptive.tuner.phase = .trial ∨ s.adaptive.tuner.phase = .confirm) ∧
    s.adaptive.trialCount = s.adaptive.tuner.candidate ∧
    (unknown ≠ some t → s.effectiveThreads threads (some t) = s.adaptive.tuner.candidate)
  /-- A confirmation has its trial pool. -/
  confirm : s.adaptive.tuner.phase = .confirm → s.adaptive.trial ≠ none
  best : s.adaptive.tuner.phase ≠ .base → unknown ≠ s.pool →
    s.effectiveThreads threads s.pool = s.adaptive.tuner.best

/-- What holds between two steps. -/
structure AdaptiveInv (s : UsmSystem Pool Plane) : Prop where
  owns : Owns s
  count : s.adaptive.trial = none → s.adaptive.trialCount = 0
  off : s.adaptive.enabled = false → s.adaptive.trial = none
  stopped : s.adaptive.stopped = true → s.adaptive.enabled = false
  noPool : s.pool = none → s.adaptive.enabled = false
  running : s.adaptive.enabled = true → Running threads s none

end Invariant

variable {threads : Pool → ℤ}

/-- Adaptation is off. -/
theorem AdaptiveInv.of_off (h : Owns s) (hoff : s.adaptive.enabled = false)
    (htrial : s.adaptive.trial = none) (hcount : s.adaptive.trialCount = 0) :
    AdaptiveInv threads s :=
  ⟨h, fun _ => hcount, fun _ => htrial, fun _ => hoff, fun _ => hoff,
    fun hon => absurd (hoff.symm.trans hon) (by decide)⟩

/-- A trial pool has the size it was created for. -/
theorem AdaptiveInv.trialSize (h : AdaptiveInv threads s) (t : ℕ)
    (ht : s.adaptive.trial = some t) :
    s.effectiveThreads threads (some t) = s.adaptive.trialCount := by
  have hon : s.adaptive.enabled = true := by
    by_contra hoff
    exact absurd (ht.symm.trans (h.off (by simpa using hoff))) nofun
  obtain ⟨-, hcount, hsize⟩ := (h.running hon).trial t ht
  exact (hsize nofun).trans hcount.symm

/-- The frame's own flags are no part of the invariant. -/
theorem AdaptiveInv.flags (h : AdaptiveInv threads s) (retained framePending frameTimed : Bool)
    (frameStart : Timespec) (plane : Plane) :
    AdaptiveInv threads
      { s with
        plane := plane
        adaptive := { s.adaptive with
          retained := retained, framePending := framePending, frameTimed := frameTimed
          frameStart := frameStart } } :=
  ⟨h.owns.congr rfl rfl rfl rfl rfl, h.count, h.off, h.stopped, h.noPool, fun hon =>
    ⟨(h.running hon).tuner, (h.running hon).trial, (h.running hon).confirm, (h.running hon).best⟩⟩

/-- The start of a frame sets its clock, and nothing else. -/
theorem usmAdaptiveBegin_eq (s : UsmSystem Pool Plane) (clock : Option Timespec) :
    ∃ framePending frameTimed frameStart, usmAdaptiveBegin s clock =
      s.setAdaptive { s.adaptive with
        framePending := framePending, frameTimed := frameTimed, frameStart := frameStart } := by
  unfold usmAdaptiveBegin
  split
  · exact ⟨s.adaptive.framePending, s.adaptive.frameTimed, s.adaptive.frameStart, rfl⟩
  · cases clock with
    | none => exact ⟨true, false, s.adaptive.frameStart, rfl⟩
    | some start => exact ⟨true, true, start, rfl⟩

/-! ### Choosing the pool of a frame -/

/-- The first half of `up_usm_adaptive_apply`: the pool, the start of the frame. -/
def usmAdaptiveChoose (s : UsmSystem Pool Plane) (env : FrameEnv Pool Plane) :
    Option ℕ × Option Timespec × UsmSystem Pool Plane :=
  let s := s.setAdaptive { s.adaptive with retained := false }
  let select := if s.adaptive.enabled then usmAdaptiveSelect s env s.pool else (s.pool, s)
  let take := if select.2.adaptive.enabled then usmAdaptiveTakeStart select.2 env.startClock
    else (none, select.2)
  (select.1, take.1, take.2)

/-- The second half, from the pool's work on. -/
def usmAdaptiveFinish (threads : Pool → ℤ) (s : UsmSystem Pool Plane) (env : FrameEnv Pool Plane)
    (amountQ8 : ℤ) (selected : Option ℕ) (start : Option Timespec) :
    UsmStatus × UsmSystem Pool Plane :=
  let r := s.applyPool env amountQ8 selected
  let status := r.1
  let s := r.2
  if status ≠ .ok ∧ selected ≠ s.pool then usmAdaptiveRecover s env s.pool status amountQ8
  else if status ≠ .ok ∨ s.adaptive.enabled = false then (status, s)
  else if s.effectiveThreads threads selected ≠ s.adaptive.tuner.current then
    (status, usmAdaptiveStop { s with log := s.log ++ [.mismatch] })
  else
    match start.bind fun start => usmAdaptiveElapsed start env.endClock with
    | none => (status, usmAdaptiveStop s)
    | some elapsed => (status, usmAdaptiveAccept s elapsed)

theorem usmAdaptiveApply_eq (threads : Pool → ℤ) (s : UsmSystem Pool Plane)
    (env : FrameEnv Pool Plane) (amountQ8 : ℤ) :
    usmAdaptiveApply threads s env amountQ8 =
      usmAdaptiveFinish threads (usmAdaptiveChoose s env).2.2 env amountQ8
        (usmAdaptiveChoose s env).1 (usmAdaptiveChoose s env).2.1 := rfl

/-- The choice of `selected` takes `s` to `s'`: the pool in use, or the trial that
the tuner asks for. -/
structure Chosen (threads : Pool → ℤ) (s s' : UsmSystem Pool Plane) (selected : Option ℕ) :
    Prop where
  owns : Owns s'
  pool : s'.pool = s.pool
  heap : ∀ b, s.pool = some b → s'.heap b = s.heap b
  plane : s'.plane = s.plane
  tuner : s'.adaptive.tuner = s.adaptive.tuner
  count : s'.adaptive.trial = none → s'.adaptive.trialCount = 0
  off : s'.adaptive.enabled = false → s'.adaptive.trial = none
  stopped : s'.adaptive.stopped = true → s'.adaptive.enabled = false
  retained : s'.adaptive.retained = false
  log : ∃ new, s'.log = s.log ++ new ∧ ∀ e ∈ new, ∃ k, e = .destroyed k ∨ e = .trialCreated k
  usable :
    (selected = s.pool ∧ (s'.adaptive.enabled = true →
      s'.adaptive.tuner.current = s'.adaptive.tuner.best ∧ Running threads s' none)) ∨
    (∃ t, selected = some t ∧ s'.adaptive.trial = some t ∧ s'.adaptive.enabled = true ∧
      s'.adaptive.tuner.phase = .trial ∧ Running threads s' selected)

/-- Another count than the best one is asked for in a trial only. -/
theorem trial_of_current_ne {t : WorkerTuner Float} (h : TunerInv t) (hne : t.current ≠ t.best) :
    t.phase = .trial := by
  by_contra hphase
  exact hne (h.current_eq hphase)

/-- The pool in use, or the trial of an earlier frame: nothing happens. -/
theorem AdaptiveInv.chosen (h : AdaptiveInv threads s) (hretained : s.adaptive.retained = false)
    {selected : Option ℕ}
    (husable : (selected = s.pool ∧ (s.adaptive.enabled = true →
        s.adaptive.tuner.current = s.adaptive.tuner.best ∧ Running threads s none)) ∨
      (∃ t, selected = some t ∧ s.adaptive.trial = some t ∧ s.adaptive.enabled = true ∧
        s.adaptive.tuner.phase = .trial ∧ Running threads s selected)) :
    Chosen threads s s selected :=
  ⟨h.owns, rfl, fun _ _ => rfl, rfl, rfl, h.count, h.off, h.stopped, hretained,
    ⟨[], (List.append_nil _).symm, by simp⟩, husable⟩

/-- No trial is to be had: adaptation ends on the pool in use. -/
theorem AdaptiveInv.stop_chosen (h : AdaptiveInv threads s)
    (hretained : s.adaptive.retained = false) :
    Chosen threads s (usmAdaptiveStop (usmAdaptiveClearTrial s)) s.pool := by
  obtain ⟨hclear, heq⟩ := usmAdaptiveClearTrial_cleared h.owns
  obtain ⟨hstop, hseq⟩ := usmAdaptiveStop_cleared hclear.owns
  obtain ⟨new, hlog, hnew⟩ := hclear.log
  obtain ⟨new', hlog', hnew'⟩ := hstop.log
  refine ⟨hstop.owns, hstop.pool.trans hclear.pool, fun b hb => ?_,
    hstop.plane.trans hclear.plane, by rw [hseq, heq], fun _ => hstop.count,
    fun _ => hstop.trial, by rw [hseq]; exact fun _ => rfl, by rw [hseq, heq]; exact hretained,
    ⟨new ++ new', by rw [hlog', hlog, List.append_assoc], fun e he => ?_⟩,
    .inl ⟨rfl, fun hon => ?_⟩⟩
  · rw [hstop.heap b (hclear.pool.trans hb), hclear.heap b hb]
  · rcases List.mem_append.mp he with he | he
    · exact (hnew e he).imp fun _ => .inl
    · exact (hnew' e he).imp fun _ => .inl
  · rw [hseq] at hon
    cases hon

/-- The trial of another count goes, and a new one comes, not yet checked. -/
theorem AdaptiveInv.create_chosen (h : AdaptiveInv threads s) (hon : s.adaptive.enabled = true)
    (hretained : s.adaptive.retained = false) (hphase : s.adaptive.tuner.phase = .trial)
    {s₁ : UsmSystem Pool Plane} (hs₁ : s₁ = usmAdaptiveClearTrial s) (p : Pool) :
    Chosen threads s
      ((s₁.addPool p (.trialCreated s₁.next)).setAdaptive
        { s₁.adaptive with
          trial := some s₁.next, trialCount := s₁.adaptive.tuner.current })
      (some s₁.next) := by
  have hrun := h.running hon
  obtain ⟨b, hb⟩ : ∃ b, s.pool = some b := Option.ne_none_iff_exists'.mp fun hpool =>
    absurd (h.noPool hpool) (by simp [hon])
  obtain ⟨hclear, heq⟩ := usmAdaptiveClearTrial_cleared h.owns
  rw [← hs₁] at hclear heq
  obtain ⟨new, hlog, hnew⟩ := hclear.log
  have hb₁ : s₁.pool = some b := hclear.pool.trans hb
  -- the new handle is fresh, so the pool in use keeps its place in the heap
  have hheap : ∀ b, s.pool = some b →
      Function.update s₁.heap s₁.next (some p) b = s.heap b := by
    intro b hb
    have hlt := hclear.owns.below b (.inl (hclear.pool.trans hb))
    rw [Function.update_of_ne hlt.ne, hclear.heap b hb]
  refine ⟨hclear.owns.addTrial hclear.trial p rfl, hclear.pool, hheap, hclear.plane, ?_, nofun,
    fun hoff => ?_, ?_, ?_, ⟨new ++ [.trialCreated s₁.next], ?_, fun e he => ?_⟩,
    .inr ⟨s₁.next, rfl, rfl, ?_, ?_, ?_⟩⟩
  · simp [heq, addPool, setAdaptive]
  · have hoff : s₁.adaptive.enabled = false := hoff
    rw [heq] at hoff
    exact absurd (hon.symm.trans hoff) (by decide)
  · simpa [heq, addPool, setAdaptive] using h.stopped
  · simpa [heq, addPool, setAdaptive] using hretained
  · simp [addPool, setAdaptive, hlog]
  · rcases List.mem_append.mp he with he | he
    · exact (hnew e he).imp fun _ => .inl
    · exact ⟨s₁.next, .inr (List.mem_singleton.mp he)⟩
  · simpa [heq, addPool, setAdaptive] using hon
  · simpa [heq, addPool, setAdaptive] using hphase
  · refine ⟨by simpa [heq, addPool, setAdaptive] using hrun.tuner, fun t ht => ?_,
      fun hp => nofun, fun hp _ => ?_⟩
    · obtain rfl : s₁.next = t := Option.some.inj ht
      refine ⟨.inl (by simpa [heq, addPool, setAdaptive] using hphase), ?_,
        fun hne => absurd rfl hne⟩
      simpa [heq, addPool, setAdaptive] using hrun.tuner.current_trial hphase
    · have hbest := hrun.best (by rw [hphase]; decide) (by rw [hb]; nofun)
      simpa [effectiveThreads, addPool, setAdaptive, heq, hb, hb₁, hheap b hb] using hbest

theorem usmAdaptiveSelect_chosen (h : AdaptiveInv threads s) (hon : s.adaptive.enabled = true)
    (hretained : s.adaptive.retained = false) (env : FrameEnv Pool Plane) :
    Chosen threads s (usmAdaptiveSelect s env s.pool).2 (usmAdaptiveSelect s env s.pool).1 := by
  have hrun := h.running hon
  unfold usmAdaptiveSelect
  by_cases hbest : s.adaptive.tuner.current = s.adaptive.tuner.best
  · rw [if_pos hbest]
    exact h.chosen hretained (.inl ⟨rfl, fun _ => ⟨hbest, hrun⟩⟩)
  rw [if_neg hbest]
  -- the tuner asks for another count in a trial only
  have hphase := trial_of_current_ne hrun.tuner hbest
  have hpos := (hrun.tuner.candidate (.inl hphase)).2.1
  have hcurrent := hrun.tuner.current_trial hphase
  by_cases hcount : s.adaptive.trialCount = s.adaptive.tuner.current
  · -- the trial was created on an earlier frame
    rw [if_pos hcount]
    obtain ⟨t, ht⟩ : ∃ t, s.adaptive.trial = some t := by
      refine Option.ne_none_iff_exists'.mp fun hnone => ?_
      have := h.count hnone
      omega
    refine h.chosen hretained (.inr ⟨t, ht, ht, hon, hphase, hrun.tuner, fun t' ht' => ?_,
      hrun.confirm, fun hp _ => ?_⟩)
    · obtain ⟨h1, h2, h3⟩ := hrun.trial t' ht'
      exact ⟨h1, h2, fun _ => h3 nofun⟩
    · refine hrun.best hp fun hpool => ?_
      exact absurd (h.noPool hpool.symm) (by simp [hon])
  rw [if_neg hcount]
  cases hcreate : env.create (usmAdaptiveClearTrial s).adaptive.tuner.current
      (usmAdaptiveClearTrial s).adaptive.width (usmAdaptiveClearTrial s).adaptive.height
      (usmAdaptiveClearTrial s).adaptive.stripeRows with
  | none =>
    simp only [hcreate]
    exact h.stop_chosen hretained
  | some p =>
    simp only [hcreate]
    exact h.create_chosen hon hretained hphase rfl p

theorem usmAdaptiveTakeStart_chosen {selected : Option ℕ} (h : Chosen threads s s' selected)
    (clock : Option Timespec) :
    Chosen threads s (usmAdaptiveTakeStart s' clock).2 selected := by
  unfold usmAdaptiveTakeStart
  split
  · exact h
  · refine ⟨h.owns.congr rfl rfl rfl rfl rfl, h.pool, h.heap, h.plane, h.tuner, h.count, h.off,
      h.stopped, h.retained, h.log, h.usable.imp ?_ ?_⟩
    · rintro ⟨hsel, hrun⟩
      refine ⟨hsel, fun hon => ⟨(hrun hon).1, ?_⟩⟩
      exact ⟨(hrun hon).2.tuner, (hrun hon).2.trial, (hrun hon).2.confirm, (hrun hon).2.best⟩
    · rintro ⟨t, hsel, ht, hon, hphase, hrun⟩
      exact ⟨t, hsel, ht, hon, hphase, hrun.tuner, hrun.trial, hrun.confirm, hrun.best⟩

theorem usmAdaptiveChoose_chosen (h : AdaptiveInv threads s) (env : FrameEnv Pool Plane) :
    Chosen threads s (usmAdaptiveChoose s env).2.2 (usmAdaptiveChoose s env).1 := by
  -- forgetting the last frame's verdict
  set s₀ := s.setAdaptive { s.adaptive with retained := false } with hs₀
  have h₀ : AdaptiveInv threads s₀ := h.flags false s.adaptive.framePending
    s.adaptive.frameTimed s.adaptive.frameStart s.plane
  have hselect : Chosen threads s
      (if s₀.adaptive.enabled then usmAdaptiveSelect s₀ env s₀.pool else (s₀.pool, s₀)).2
      (if s₀.adaptive.enabled then usmAdaptiveSelect s₀ env s₀.pool else (s₀.pool, s₀)).1 := by
    by_cases hon : s₀.adaptive.enabled = true
    · rw [if_pos hon]
      obtain ⟨h1, h2, h3, h4, h5, h6, h7, h8, h9, h10, h11⟩ :=
        usmAdaptiveSelect_chosen h₀ hon rfl env
      exact ⟨h1, h2, h3, h4, h5, h6, h7, h8, h9, h10, h11⟩
    · rw [if_neg hon]
      exact ⟨h₀.owns, rfl, fun _ _ => rfl, rfl, rfl, h₀.count, h₀.off, h₀.stopped, rfl,
        ⟨[], (List.append_nil _).symm, by simp⟩, .inl ⟨rfl, fun hon' => absurd hon' hon⟩⟩
  unfold usmAdaptiveChoose
  dsimp only
  rw [← hs₀]
  generalize (if s₀.adaptive.enabled then usmAdaptiveSelect s₀ env s₀.pool else (s₀.pool, s₀)) = c
    at hselect ⊢
  split
  · exact usmAdaptiveTakeStart_chosen hselect env.startClock
  · exact hselect

/-! ### The work of the chosen pool -/

/-- The state once pool `k` has worked. -/
def UsmSystem.used (s : UsmSystem Pool Plane) (k : ℕ) (r : UsmReply Pool Plane) :
    UsmSystem Pool Plane :=
  { s with
    heap := Function.update s.heap k (some r.pool)
    plane := r.plane
    log := s.log ++ [.applied k r.status] }

theorem applyPool_live {k : ℕ} {p : Pool} (hk : s.heap k = some p) (env : FrameEnv Pool Plane)
    (amountQ8 : ℤ) : s.applyPool env amountQ8 (some k) =
      ((env.apply k p amountQ8 s.plane).status, s.used k (env.apply k p amountQ8 s.plane)) := by
  simp [applyPool, hk, UsmSystem.used]

theorem Owns.used (h : Owns s) {k : ℕ} {p : Pool} (hk : s.heap k = some p)
    (r : UsmReply Pool Plane) : Owns (s.used k r) :=
  h.applied (by simp [hk]) r.pool r.plane r.status

/-- A trial that has worked and goes leaves the pool in use as it was. -/
theorem Owns.heap_stop_used (h : Owns s) {b k : ℕ} {p : Pool} (hb : s.pool = some b)
    (hk : s.heap k = some p) (hne : s.pool ≠ some k) (r : UsmReply Pool Plane) :
    ∃ q, s.heap b = some q ∧ (usmAdaptiveStop (s.used k r)).heap b = some q := by
  obtain ⟨hclear, -⟩ := usmAdaptiveStop_cleared (h.used hk r)
  obtain ⟨q, hq⟩ := h.heap_of_pool hb
  have hbk : b ≠ k := fun heq => hne (heq ▸ hb)
  exact ⟨q, hq, (hclear.heap b hb).trans ((Function.update_of_ne hbk _ _).trans hq)⟩

/-- The ways a frame ends, in the order of the source, once pool `k` has replied
`r` to the state `s`. -/
inductive FinishExit (threads : Pool → ℤ) (s : UsmSystem Pool Plane) (env : FrameEnv Pool Plane)
    (amountQ8 : ℤ) (k : ℕ) (r : UsmReply Pool Plane) (out : UsmStatus × UsmSystem Pool Plane) :
    Prop
  | trialUncertain (hne : s.pool ≠ some k) (hstatus : r.status = .outputUncertain)
      (hout : out = (.outputUncertain, (usmAdaptiveStop (s.used k r)).setAdaptive
        { (usmAdaptiveStop (s.used k r)).adaptive with retained := true }))
  | trialFailed (hne : s.pool ≠ some k) (hstatus : r.status = .failedUnchanged)
      (hout : out = (usmAdaptiveStop (s.used k r)).applyPool env amountQ8 s.pool)
  | failed (heq : s.pool = some k) (hstatus : r.status ≠ .ok)
      (hout : out = (r.status, s.used k r))
  | off (hstatus : r.status = .ok) (hoff : s.adaptive.enabled = false)
      (hout : out = (.ok, s.used k r))
  | mismatch (hstatus : r.status = .ok) (hon : s.adaptive.enabled = true)
      (hthreads : threads r.pool ≠ s.adaptive.tuner.current)
      (hout : out = (.ok, usmAdaptiveStop
        { s.used k r with log := (s.used k r).log ++ [.mismatch] }))
  | untimed (hstatus : r.status = .ok) (hon : s.adaptive.enabled = true)
      (hthreads : threads r.pool = s.adaptive.tuner.current)
      (hout : out = (.ok, usmAdaptiveStop (s.used k r)))
  | accepted (elapsed : Float) (hpos : elapsed > 0.0) (hstatus : r.status = .ok)
      (hon : s.adaptive.enabled = true) (hthreads : threads r.pool = s.adaptive.tuner.current)
      (hout : out = (.ok, usmAdaptiveAccept (s.used k r) elapsed))

theorem usmAdaptiveElapsed_pos {start : Timespec} {clock : Option Timespec} {elapsed : Float}
    (h : usmAdaptiveElapsed start clock = some elapsed) : elapsed > 0.0 := by
  unfold usmAdaptiveElapsed at h
  split at h
  · cases h
  · dsimp only at h
    split at h
    · rename_i hpos
      rw [← Option.some.inj h]
      exact hpos.2
    · cases h

theorem usmAdaptiveFinish_exit (threads : Pool → ℤ) {k : ℕ} {p : Pool} (hk : s.heap k = some p)
    (env : FrameEnv Pool Plane) (amountQ8 : ℤ) (start : Option Timespec) :
    FinishExit threads s env amountQ8 k (env.apply k p amountQ8 s.plane)
      (usmAdaptiveFinish threads s env amountQ8 (some k) start) := by
  set r := env.apply k p amountQ8 s.plane with hr
  have hthreads : (s.used k r).effectiveThreads threads (some k) = threads r.pool := by
    simp [effectiveThreads, UsmSystem.used]
  obtain ⟨out, hout⟩ : ∃ out, out = usmAdaptiveFinish threads s env amountQ8 (some k) start :=
    ⟨_, rfl⟩
  rw [← hout]
  unfold usmAdaptiveFinish at hout
  rw [applyPool_live hk env amountQ8, ← hr] at hout
  dsimp only at hout
  -- a trial that fails
  by_cases hrecover : r.status ≠ .ok ∧ some k ≠ (s.used k r).pool
  · rw [if_pos hrecover] at hout
    have hne : s.pool ≠ some k := fun heq => hrecover.2 heq.symm
    unfold usmAdaptiveRecover at hout
    by_cases huncertain : r.status = .outputUncertain
    · simp only [huncertain, if_true] at hout
      exact .trialUncertain hne huncertain hout
    · simp only [huncertain, if_false] at hout
      have hstatus : r.status = .failedUnchanged := by
        cases hs : r.status with
        | ok => exact absurd hs hrecover.1
        | failedUnchanged => rfl
        | outputUncertain => exact absurd hs huncertain
      exact .trialFailed hne hstatus hout
  rw [if_neg hrecover] at hout
  by_cases hok : r.status = .ok
  -- the pool in use fails, and there is nothing to recover with
  swap
  · rw [if_pos (.inl hok)] at hout
    have heq : s.pool = some k := by
      by_contra hne
      exact hrecover ⟨hok, fun heq => hne heq.symm⟩
    exact .failed heq hok hout
  cases hon : s.adaptive.enabled with
  | false =>
    rw [if_pos (.inr hon), hok] at hout
    exact .off hok hon hout
  | true =>
    have hgo : ¬ (r.status ≠ .ok ∨ (s.used k r).adaptive.enabled = false) := by
      rintro (hne | hoff)
      · exact hne hok
      · exact absurd (hon.symm.trans hoff) (by decide)
    have hcurrent : (s.used k r).adaptive.tuner.current = s.adaptive.tuner.current := rfl
    rw [if_neg hgo, hthreads, hok, hcurrent] at hout
    by_cases heq : threads r.pool = s.adaptive.tuner.current
    swap
    · rw [if_pos heq] at hout
      exact .mismatch hok hon heq hout
    rw [if_neg (not_not.mpr heq)] at hout
    cases helapsed : start.bind fun start => usmAdaptiveElapsed start env.endClock with
    | none =>
      rw [helapsed] at hout
      exact .untimed hok hon heq hout
    | some elapsed =>
      rw [helapsed] at hout
      obtain ⟨start', -, hel⟩ := Option.bind_eq_some_iff.mp helapsed
      exact .accepted elapsed (usmAdaptiveElapsed_pos hel) hok hon heq hout

/-! ### A verified frame -/

/-- Adaptation is on, and the chosen pool has run the workers the tuner asked for. -/
structure Checked (threads : Pool → ℤ) (s : UsmSystem Pool Plane) : Prop where
  owns : Owns s
  on : s.adaptive.enabled = true
  pool : s.pool ≠ none
  count : s.adaptive.trial = none → s.adaptive.trialCount = 0
  stopped : s.adaptive.stopped = false
  running : Running threads s none
  best : s.effectiveThreads threads s.pool = s.adaptive.tuner.best
  trial : s.adaptive.tuner.phase = .trial → s.adaptive.trial ≠ none

theorem effectiveThreads_used (s : UsmSystem Pool Plane) (k : ℕ) (r : UsmReply Pool Plane) :
    (s.used k r).effectiveThreads threads (some k) = threads r.pool := by
  simp [effectiveThreads, UsmSystem.used]

theorem effectiveThreads_used_of_ne {h : Option ℕ} {k : ℕ} (hne : h ≠ some k)
    (r : UsmReply Pool Plane) :
    (s.used k r).effectiveThreads threads h = s.effectiveThreads threads h := by
  cases h with
  | none => rfl
  | some j =>
    have hjk : j ≠ k := fun heq => hne (heq ▸ rfl)
    simp [effectiveThreads, UsmSystem.used, Function.update_of_ne hjk]

theorem Chosen.checked {k : ℕ} {p : Pool} (h : Chosen threads s s' (some k))
    (hk : s'.heap k = some p) (hpool : s.pool ≠ none) (hon : s'.adaptive.enabled = true)
    {r : UsmReply Pool Plane} (hthreads : threads r.pool = s'.adaptive.tuner.current) :
    Checked threads (s'.used k r) := by
  have hstopped : s'.adaptive.stopped = false := by
    by_contra hs
    exact absurd (hon.symm.trans (h.stopped (by simpa using hs))) (by decide)
  have howns := h.owns.used hk r
  have hpool' : s'.pool ≠ none := by rwa [h.pool]
  rcases h.usable with ⟨hsel, hrun⟩ | ⟨t, hsel, ht, -, hphase, hrun⟩
  · obtain ⟨hcurrent, htuner, htrial, hconfirm, -⟩ := hrun hon
    have hb : s'.pool = some k := h.pool.trans hsel.symm
    have hbest : (s'.used k r).effectiveThreads threads s'.pool = s'.adaptive.tuner.best := by
      rw [hb, effectiveThreads_used, hthreads, hcurrent]
    refine ⟨howns, hon, hpool', h.count, hstopped, ⟨htuner, fun t ht => ?_, hconfirm,
      fun _ _ => hbest⟩, hbest, fun hphase => ?_⟩
    · obtain ⟨h1, h2, h3⟩ := htrial t ht
      have htk : some t ≠ some k := fun heq => h.owns.apart k hb (heq ▸ ht)
      refine ⟨h1, h2, fun hne => ?_⟩
      rw [effectiveThreads_used_of_ne htk]
      exact h3 hne
    · have hne := (htuner.candidate (.inl hphase)).1
      exact absurd (hcurrent.symm.trans (htuner.current_trial hphase)) hne.symm
  · obtain rfl : k = t := Option.some.inj hsel
    have hbk : s'.pool ≠ some k := fun hb => h.owns.apart k hb ht
    have hbest : (s'.used k r).effectiveThreads threads s'.pool = s'.adaptive.tuner.best := by
      rw [effectiveThreads_used_of_ne hbk]
      exact hrun.best (by rw [hphase]; decide) hbk.symm
    refine ⟨howns, hon, hpool', h.count, hstopped, ⟨hrun.tuner, fun t ht' => ?_, hrun.confirm,
      fun _ _ => hbest⟩, hbest, fun _ => ?_⟩
    · obtain ⟨h1, h2, -⟩ := hrun.trial t ht'
      obtain rfl : k = t := Option.some.inj (ht.symm.trans ht')
      refine ⟨h1, h2, fun _ => ?_⟩
      rw [effectiveThreads_used, hthreads]
      exact hrun.tuner.current_trial hphase
    · show s'.adaptive.trial ≠ none
      rw [ht]
      nofun

/-- What accepting a timing does to a verified frame. -/
structure AcceptLaw (threads : Pool → ℤ) (s s' : UsmSystem Pool Plane) : Prop where
  inv : AdaptiveInv threads s'
  pool : s'.pool ≠ none
  best : s'.effectiveThreads threads s'.pool = s'.adaptive.tuner.best
  plane : s'.plane = s.plane
  retained : s'.adaptive.retained = s.adaptive.retained
  log : ∃ new, s'.log = s.log ++ new ∧ ∀ e ∈ new, ∃ k, e = .destroyed k ∨ e = .promoted k
  /-- Another best count comes with the pool of the trial. -/
  promoted : s'.adaptive.tuner.best ≠ s.adaptive.tuner.best → ∃ b t, s.pool = some b ∧
    s.adaptive.trial = some t ∧ s'.pool = some t ∧ s'.heap t = s.heap t ∧
    s'.log = s.log ++ [.destroyed b, .promoted t]

/-- The state with the frame's timing observed. -/
def UsmSystem.observed (s : UsmSystem Pool Plane) (elapsed : Float) : UsmSystem Pool Plane :=
  s.setAdaptive { s.adaptive with tuner := workerTunerObserve s.adaptive.tuner (some elapsed) }

theorem Owns.observed {s : UsmSystem Pool Plane} (h : Owns s) (elapsed : Float) :
    Owns (s.observed elapsed) :=
  h.congr rfl rfl rfl rfl rfl

section Accept

variable {elapsed : Float}

/-- The pools stay, and the tuner moves on its best count. -/
theorem Checked.stay (h : Checked threads s)
    (hbest : (s.observed elapsed).adaptive.tuner.best = s.adaptive.tuner.best)
    (hphase : ¬ (s.adaptive.tuner.phase = .confirm ∧
      (s.observed elapsed).adaptive.tuner.phase = .base))
    (htrial : ∀ t, s.adaptive.trial = some t →
      ((s.observed elapsed).adaptive.tuner.phase = .trial ∨
        (s.observed elapsed).adaptive.tuner.phase = .confirm) ∧
      (s.observed elapsed).adaptive.tuner.candidate = s.adaptive.tuner.candidate)
    (hconfirm : (s.observed elapsed).adaptive.tuner.phase = .confirm → s.adaptive.trial ≠ none) :
    AcceptLaw threads s (usmAdaptiveAccept s elapsed) := by
  have heq : usmAdaptiveAccept s elapsed = s.observed elapsed := by
    unfold usmAdaptiveAccept
    exact (if_pos hbest).trans (if_neg hphase)
  have hbest' : (s.observed elapsed).effectiveThreads threads (s.observed elapsed).pool =
      (s.observed elapsed).adaptive.tuner.best := h.best.trans hbest.symm
  rw [heq]
  refine ⟨⟨h.owns.congr rfl rfl rfl rfl rfl, h.count,
    fun hoff => absurd (h.on.symm.trans hoff) (by decide),
    fun hs => absurd (h.stopped.symm.trans hs) (by decide), fun hp => absurd hp h.pool,
    fun _ => ⟨workerTunerObserve_inv h.running.tuner (some elapsed), fun t ht => ?_, hconfirm,
      fun _ _ => hbest'⟩⟩, h.pool, hbest', rfl, rfl, ⟨[], (List.append_nil _).symm, by simp⟩,
    fun hne => absurd hbest hne⟩
  obtain ⟨hphase, hcand⟩ := htrial t ht
  obtain ⟨-, h2, h3⟩ := h.running.trial t ht
  exact ⟨hphase, h2.trans hcand.symm, fun hne => (h3 hne).trans hcand.symm⟩

/-- A confirmation without its gain drops the trial. -/
theorem Checked.reject (h : Checked threads s)
    (hbest : (s.observed elapsed).adaptive.tuner.best = s.adaptive.tuner.best)
    (hphase : s.adaptive.tuner.phase = .confirm)
    (hphase' : (s.observed elapsed).adaptive.tuner.phase = .base) :
    AcceptLaw threads s (usmAdaptiveAccept s elapsed) := by
  have heq : usmAdaptiveAccept s elapsed = usmAdaptiveClearTrial (s.observed elapsed) := by
    unfold usmAdaptiveAccept
    exact (if_pos hbest).trans (if_pos ⟨hphase, hphase'⟩)
  obtain ⟨hclear, hadaptive⟩ := usmAdaptiveClearTrial_cleared
    (h.owns.observed elapsed)
  obtain ⟨new, hlog, hnew⟩ := hclear.log
  obtain ⟨b, hb⟩ := Option.ne_none_iff_exists'.mp h.pool
  have hpool : (usmAdaptiveClearTrial (s.observed elapsed)).pool = some b := hclear.pool.trans hb
  have htuner : (usmAdaptiveClearTrial (s.observed elapsed)).adaptive.tuner =
      (s.observed elapsed).adaptive.tuner := by rw [hadaptive]
  have hbest' : (usmAdaptiveClearTrial (s.observed elapsed)).effectiveThreads threads
      (usmAdaptiveClearTrial (s.observed elapsed)).pool =
        (usmAdaptiveClearTrial (s.observed elapsed)).adaptive.tuner.best := by
    rw [htuner, hbest, ← h.best]
    exact hclear.effectiveThreads threads
  rw [heq]
  refine ⟨⟨hclear.owns, fun _ => hclear.count, fun _ => hclear.trial, ?_, ?_, fun _ =>
    ⟨htuner ▸ workerTunerObserve_inv h.running.tuner (some elapsed), fun t ht => ?_, fun hc => ?_,
      fun _ _ => hbest'⟩⟩, ?_, hbest', hclear.plane, by rw [hadaptive]; rfl,
    ⟨new, hlog, fun e he => (hnew e he).imp fun _ => .inl⟩,
    fun hne => absurd (by rw [htuner]; exact hbest) hne⟩
  · rw [hadaptive]
    exact fun hs => absurd (h.stopped.symm.trans hs) (by decide)
  · exact fun hp => absurd (hpool.symm.trans hp) nofun
  · exact absurd (hclear.trial.symm.trans ht) nofun
  · rw [htuner, hphase'] at hc
    cases hc
  · rw [hpool]
    nofun

/-- A confirmed gain puts the trial in the place of the pool in use. -/
theorem Checked.accept (h : Checked threads s)
    (hbest : (s.observed elapsed).adaptive.tuner.best = s.adaptive.tuner.candidate)
    (hphase : s.adaptive.tuner.phase = .confirm)
    (hphase' : (s.observed elapsed).adaptive.tuner.phase = .base) :
    AcceptLaw threads s (usmAdaptiveAccept s elapsed) := by
  obtain ⟨b, hb⟩ := Option.ne_none_iff_exists'.mp h.pool
  obtain ⟨t, ht⟩ := Option.ne_none_iff_exists'.mp (h.running.confirm hphase)
  obtain ⟨p, hp⟩ := h.owns.heap_of_pool hb
  obtain ⟨-, -, hsize⟩ := h.running.trial t ht
  have htb : t ≠ b := fun heq => h.owns.apart b hb (heq ▸ ht)
  have hne : (s.observed elapsed).adaptive.tuner.best ≠ s.adaptive.tuner.best := by
    rw [hbest]
    exact (h.running.tuner.candidate (.inr hphase)).1
  set s' : UsmSystem Pool Plane :=
    { s with
      heap := Function.update s.heap b none, pool := some t
      adaptive := { (s.observed elapsed).adaptive with trial := none, trialCount := 0 }
      log := s.log ++ [.destroyed b] ++ [.promoted t] } with hs'
  have heq : usmAdaptiveAccept s elapsed = s' := by
    unfold usmAdaptiveAccept
    refine (if_neg hne).trans ?_
    simp [destroyPool, hb, ht, hp, hs', setAdaptive, UsmSystem.observed]
  have htheap : s'.heap t = s.heap t := Function.update_of_ne htb _ _
  have hbest' : s'.effectiveThreads threads s'.pool = s'.adaptive.tuner.best := by
    calc s'.effectiveThreads threads (some t)
        = s.effectiveThreads threads (some t) := by
          simp only [effectiveThreads, Option.bind_some, htheap]
      _ = s.adaptive.tuner.candidate := hsize nofun
      _ = s'.adaptive.tuner.best := hbest.symm
  rw [heq]
  refine ⟨⟨h.owns.promote hb ht rfl, fun _ => rfl, fun _ => rfl,
    fun hs => absurd (h.stopped.symm.trans hs) (by decide), nofun,
    fun _ => ⟨workerTunerObserve_inv h.running.tuner (some elapsed), nofun,
      fun hc => absurd (hphase'.symm.trans hc) (by decide), fun _ _ => hbest'⟩⟩, nofun, hbest',
    rfl, rfl, ⟨[.destroyed b, .promoted t], by simp [hs'], by simp⟩,
    fun _ => ⟨b, t, hb, ht, rfl, htheap, by simp [hs']⟩⟩

theorem usmAdaptiveAccept_law (h : Checked threads s) (elapsed : Float) :
    AcceptLaw threads s (usmAdaptiveAccept s elapsed) := by
  -- in these phases there is no trial pool
  have hnone {phase : TunerPhase} (hphase : s.adaptive.tuner.phase = phase)
      (hout : phase = .base ∨ phase = .settled) {t : ℕ} (ht : s.adaptive.trial = some t) :
      False := by
    rcases (h.running.trial t ht).1 with hp | hp <;> rw [hphase] at hp <;>
      rcases hout with rfl | rfl <;> cases hp
  cases workerTunerObserve_move h.running.tuner (some elapsed) with
  | stay hbest hphase hcandidate =>
    refine h.stay hbest ?_ (fun t ht => ⟨?_, hcandidate⟩) fun hc => ?_
    · rintro ⟨hc, hb⟩
      exact absurd (hc.symm.trans (hphase.symm.trans hb)) (by decide)
    · exact (h.running.trial t ht).1.imp hphase.trans hphase.trans
    · exact h.running.confirm (hphase.symm.trans hc)
  | leave hbest hphase hphase' =>
    refine h.stay hbest ?_ (fun t ht => (hnone hphase (.inl rfl) ht).elim) fun hc => ?_
    · rw [hphase]
      nofun
    · exact hphase'.elim (fun hp => absurd (hp.symm.trans hc) (by decide))
        fun hp => absurd (hp.symm.trans hc) (by decide)
  | confirm hbest hphase hphase' hcandidate =>
    refine h.stay hbest ?_ (fun t ht => ⟨.inr hphase', hcandidate⟩) fun _ => h.trial hphase
    rw [hphase]
    nofun
  | accept hbest hphase hphase' => exact h.accept hbest hphase hphase'
  | reject hbest hphase hphase' => exact h.reject hbest hphase hphase'
  | restart hbest hphase hphase' =>
    refine h.stay hbest ?_ (fun t ht => (hnone hphase (.inr rfl) ht).elim) fun hc => ?_
    · rw [hphase]
      nofun
    · exact absurd (hphase'.symm.trans hc) (by decide)

end Accept

/-! ### One call -/

/-- What holds after a call of `up_usm_adaptive_apply`. -/
structure CallLaw (threads : Pool → ℤ) (s : UsmSystem Pool Plane)
    (out : UsmStatus × UsmSystem Pool Plane) : Prop where
  owns : Owns out.2
  pool : out.2.pool ≠ none
  inv : out.1 = .ok ∨ out.2.adaptive.enabled = false → AdaptiveInv threads out.2
  retained : out.2.adaptive.retained = true → out.2.adaptive.enabled = false
  best : out.1 = .ok → out.2.adaptive.enabled = true →
    out.2.effectiveThreads threads out.2.pool = out.2.adaptive.tuner.best
  trialSize : ∀ t, out.2.adaptive.trial = some t →
    out.2.effectiveThreads threads (some t) = out.2.adaptive.trialCount
  /-- A new best count comes with a pool of that size, from the trial. -/
  promoted : out.2.adaptive.tuner.best ≠ s.adaptive.tuner.best → ∃ b t new,
    s.pool = some b ∧ out.2.pool = some t ∧ t ≠ b ∧
    out.2.log = s.log ++ new ++ [.destroyed b, .promoted t] ∧
    out.2.effectiveThreads threads (some t) = out.2.adaptive.tuner.best

/-- Adaptation is off, and the pool in use is still there. -/
theorem CallLaw.of_off {out : UsmStatus × UsmSystem Pool Plane} (howns : Owns out.2)
    (hpool : out.2.pool ≠ none) (hoff : out.2.adaptive.enabled = false)
    (htrial : out.2.adaptive.trial = none) (hcount : out.2.adaptive.trialCount = 0)
    (htuner : out.2.adaptive.tuner = s.adaptive.tuner) : CallLaw threads s out :=
  ⟨howns, hpool, fun _ => .of_off howns hoff htrial hcount, fun _ => hoff,
    fun _ hon => absurd (hoff.symm.trans hon) (by decide),
    fun _ ht => absurd (htrial.symm.trans ht) nofun,
    fun hne => absurd (congrArg WorkerTuner.best htuner) hne⟩

theorem usmAdaptiveStop_callLaw {u : UsmSystem Pool Plane} (h : Owns u) (hpool : u.pool ≠ none)
    (htuner : u.adaptive.tuner = s.adaptive.tuner) (status : UsmStatus) :
    CallLaw threads s (status, usmAdaptiveStop u) := by
  obtain ⟨hclear, hadaptive⟩ := usmAdaptiveStop_cleared h
  exact .of_off hclear.owns (hclear.pool ▸ hpool) (by rw [hadaptive]) hclear.trial hclear.count
    (by rw [hadaptive, htuner])

/-- The chosen pool is live. -/
theorem Chosen.live {selected : Option ℕ} (h : Chosen threads s s' selected)
    (hpool : s.pool ≠ none) : ∃ k p, selected = some k ∧ s'.heap k = some p := by
  rcases h.usable with ⟨hsel, -⟩ | ⟨t, hsel, ht, -⟩
  · obtain ⟨b, hb⟩ := Option.ne_none_iff_exists'.mp hpool
    obtain ⟨p, hp⟩ := h.owns.heap_of_pool (h.pool.trans hb)
    exact ⟨b, p, hsel.trans hb, hp⟩
  · obtain ⟨p, hp⟩ := h.owns.heap_of_trial ht
    exact ⟨t, p, hsel, hp⟩

theorem finish_callLaw {k : ℕ} {p : Pool} (h : Chosen threads s s' (some k))
    (hk : s'.heap k = some p) (hpool : s.pool ≠ none) {env : FrameEnv Pool Plane} {amountQ8 : ℤ}
    {r : UsmReply Pool Plane} {out : UsmStatus × UsmSystem Pool Plane}
    (hexit : FinishExit threads s' env amountQ8 k r out) : CallLaw threads s out := by
  have hused := h.owns.used hk r
  have hpool' : s'.pool ≠ none := h.pool ▸ hpool
  cases hexit with
  | trialUncertain _ _ hout =>
    obtain ⟨hclear, hadaptive⟩ := usmAdaptiveStop_cleared hused
    rw [hout]
    refine .of_off (hclear.owns.congr rfl rfl rfl rfl rfl) (hclear.pool.trans_ne hpool') ?_
      hclear.trial hclear.count ?_
    · show (usmAdaptiveStop (s'.used k r)).adaptive.enabled = false
      rw [hadaptive]
    · show (usmAdaptiveStop (s'.used k r)).adaptive.tuner = s.adaptive.tuner
      rw [hadaptive]
      exact h.tuner
  | trialFailed _ _ hout =>
    -- the pool in use takes the frame over
    obtain ⟨hclear, hadaptive⟩ := usmAdaptiveStop_cleared hused
    obtain ⟨b, hb⟩ := Option.ne_none_iff_exists'.mp hpool'
    obtain ⟨q, hq⟩ := hclear.owns.heap_of_pool (hclear.pool.trans hb)
    rw [hout, hb, applyPool_live hq]
    refine .of_off (hclear.owns.used hq _) (hclear.pool.trans_ne hpool') ?_ hclear.trial
      hclear.count ?_
    · show (usmAdaptiveStop (s'.used k r)).adaptive.enabled = false
      rw [hadaptive]
    · show (usmAdaptiveStop (s'.used k r)).adaptive.tuner = s.adaptive.tuner
      rw [hadaptive]
      exact h.tuner
  | failed heq hstatus hout =>
    rw [hout]
    refine ⟨hused, hpool', fun hor => ?_, fun hr => ?_, fun hok => absurd hok hstatus,
      fun t ht => ?_, fun hne => absurd (congrArg WorkerTuner.best h.tuner) hne⟩
    · have hoff := hor.resolve_left hstatus
      exact .of_off hused hoff (h.off hoff) (h.count (h.off hoff))
    · exact absurd (h.retained.symm.trans hr) (by decide)
    · -- the trial was idle
      have htk : some t ≠ some k := fun htk => h.owns.apart k heq (htk ▸ ht)
      have hon : s'.adaptive.enabled = true := by
        by_contra hoff
        exact absurd (ht.symm.trans (h.off (by simpa using hoff))) nofun
      rw [effectiveThreads_used_of_ne htk]
      rcases h.usable with ⟨-, hrun⟩ | ⟨t', hsel, ht', -⟩
      · obtain ⟨-, hcount, hsize⟩ := (hrun hon).2.trial t ht
        exact (hsize nofun).trans hcount.symm
      · obtain rfl : k = t' := Option.some.inj hsel
        exact absurd ht' (h.owns.apart k heq)
  | off _ hoff hout =>
    rw [hout]
    exact .of_off hused hpool' hoff (h.off hoff) (h.count (h.off hoff)) h.tuner
  | mismatch _ _ _ hout =>
    rw [hout]
    exact usmAdaptiveStop_callLaw (hused.remark (.inl rfl)) hpool' h.tuner _
  | untimed _ _ _ hout =>
    rw [hout]
    exact usmAdaptiveStop_callLaw hused hpool' h.tuner _
  | accepted elapsed _ _ hon hthreads hout =>
    have hlaw := usmAdaptiveAccept_law (h.checked hk hpool hon hthreads) elapsed
    obtain ⟨new, hnew, -⟩ := h.log
    rw [hout]
    refine ⟨hlaw.inv.owns, hlaw.pool, fun _ => hlaw.inv, fun hr => ?_, fun _ _ => hlaw.best,
      hlaw.inv.trialSize, fun hne => ?_⟩
    · exact absurd ((hlaw.retained.trans h.retained).symm.trans hr) (by decide)
    · obtain ⟨b, t, hb, ht, ht', -, hlog⟩ := hlaw.promoted fun heq => hne
        (heq.trans (congrArg WorkerTuner.best h.tuner))
      refine ⟨b, t, new ++ [.applied k r.status], h.pool.symm.trans hb, ht', fun heq => ?_, ?_, ?_⟩
      · exact h.owns.apart b hb (heq ▸ ht)
      · have hused : (s'.used k r).log = s'.log ++ [.applied k r.status] := rfl
        rw [hlog, hused, hnew, ← List.append_assoc]
      · rw [← ht']
        exact hlaw.best

theorem usmAdaptiveApply_callLaw (h : AdaptiveInv threads s) (hpool : s.pool ≠ none)
    (env : FrameEnv Pool Plane) (amountQ8 : ℤ) :
    CallLaw threads s (usmAdaptiveApply threads s env amountQ8) := by
  have hchosen := usmAdaptiveChoose_chosen h env
  obtain ⟨k, p, hsel, hk⟩ := hchosen.live hpool
  rw [usmAdaptiveApply_eq, hsel]
  rw [hsel] at hchosen
  exact finish_callLaw hchosen hk hpool (usmAdaptiveFinish_exit threads hk env amountQ8 _)

/-! ### Every step -/

theorem disableUsm_inv (h : Owns s) : AdaptiveInv threads (disableUsm s) := by
  obtain ⟨hclear, hadaptive⟩ := usmAdaptiveStop_cleared
    (h.setAmount 0)
  unfold disableUsm
  dsimp only
  set u := usmAdaptiveStop { s with amountQ8 := 0 } with hu
  cases hb : u.pool with
  | none =>
    refine .of_off ?_ (by rw [destroyPool, hadaptive]) hclear.trial hclear.count
    have := hclear.owns.remark (.inr rfl)
    exact this.congr rfl rfl hb.symm rfl rfl
  | some b =>
    obtain ⟨p, hp⟩ := hclear.owns.heap_of_pool hb
    simp only [destroyPool, hp]
    exact .of_off ((hclear.owns.retire hb hclear.trial).remark (.inr rfl)) (by rw [hadaptive])
      hclear.trial hclear.count

theorem usmAdaptiveBegin_inv (h : AdaptiveInv threads s) (clock : Option Timespec) :
    AdaptiveInv threads (usmAdaptiveBegin s clock) := by
  obtain ⟨framePending, frameTimed, frameStart, hbegin⟩ := usmAdaptiveBegin_eq s clock
  rw [hbegin]
  exact h.flags s.adaptive.retained framePending frameTimed frameStart s.plane

/-- What `ApplyUsmIfEnabled` does with `call`, the pass over the pool in use:
nothing while the mask is off; it leaves a pass that works or retains its pool;
and any other failure switches the mask off. -/
inductive ApplyExit (s : UsmSystem Pool Plane) (call out : UsmStatus × UsmSystem Pool Plane) :
    Prop
  | off (hoff : s.amountQ8 ≤ 0 ∨ s.pool = none) (hout : out = (.ok, s))
  | kept (hamount : 0 < s.amountQ8) (hpool : s.pool ≠ none)
      (hcall : call.1 = .ok ∨ call.2.adaptive.retained = true) (hout : out = call)
  | disabled (hamount : 0 < s.amountQ8) (hpool : s.pool ≠ none) (hfail : call.1 ≠ .ok)
      (hretained : call.2.adaptive.retained = false) (hout : out = (call.1, disableUsm call.2))

theorem applyUsmIfEnabled_exit (threads : Pool → ℤ) (s : UsmSystem Pool Plane)
    (env : FrameEnv Pool Plane) :
    ApplyExit s (usmAdaptiveApply threads s env s.amountQ8) (applyUsmIfEnabled threads s env) := by
  by_cases hoff : s.amountQ8 ≤ 0 ∨ s.pool = none
  · exact .off hoff (if_pos hoff)
  have hamount : 0 < s.amountQ8 := not_le.mp fun hle => hoff (.inl hle)
  have hpool : s.pool ≠ none := fun hn => hoff (.inr hn)
  have hout : applyUsmIfEnabled threads s env = _ := if_neg hoff
  dsimp only at hout
  by_cases hfail : (usmAdaptiveApply threads s env s.amountQ8).1 ≠ .ok
  · rw [if_pos hfail] at hout
    cases hretained : (usmAdaptiveApply threads s env s.amountQ8).2.adaptive.retained with
    | true => exact .kept hamount hpool (.inr hretained) (hout.trans (if_pos hretained))
    | false =>
      rw [hretained] at hout
      exact .disabled hamount hpool hfail hretained hout
  · rw [if_neg hfail] at hout
    exact .kept hamount hpool (.inl (not_not.mp hfail)) hout

theorem applyUsmIfEnabled_inv (h : AdaptiveInv threads s) (env : FrameEnv Pool Plane) :
    AdaptiveInv threads (applyUsmIfEnabled threads s env).2 := by
  cases applyUsmIfEnabled_exit threads s env with
  | off hoff hout =>
    rw [hout]
    exact h
  | kept _ hpool hcall hout =>
    have hlaw := usmAdaptiveApply_callLaw h hpool env s.amountQ8
    rw [hout]
    exact hlaw.inv (hcall.imp_right hlaw.retained)
  | disabled _ hpool _ _ hout =>
    rw [hout]
    exact disableUsm_inv (usmAdaptiveApply_callLaw h hpool env s.amountQ8).owns

theorem step_inv (h : AdaptiveInv threads s) (st : Step Pool Plane) :
    AdaptiveInv threads (step threads s st) := by
  cases st with
  | start clock => exact usmAdaptiveBegin_inv h clock
  | frame plane env =>
    exact applyUsmIfEnabled_inv (h.flags s.adaptive.retained s.adaptive.framePending
      s.adaptive.frameTimed s.adaptive.frameStart plane) env
  | disable => exact disableUsm_inv h.owns

theorem run_inv (h : AdaptiveInv threads s) (steps : List (Step Pool Plane)) :
    AdaptiveInv threads (run threads s steps) := by
  induction steps generalizing s with
  | nil => exact h
  | cons st steps ih => exact ih (step_inv h st)

/-- A tuner that starts has no best pool to answer for. -/
theorem initAdaptiveUsm_running (c : UsmConfig) (n : ℤ) :
    (initAdaptiveUsm c n).trial = none ∧ (initAdaptiveUsm c n).trialCount = 0 ∧
      (initAdaptiveUsm c n).stopped = false ∧ (initAdaptiveUsm c n).tuner.phase = .base ∧
      ((initAdaptiveUsm c n).enabled = true → TunerInv (initAdaptiveUsm c n).tuner) := by
  unfold initAdaptiveUsm
  split
  · exact ⟨rfl, rfl, rfl, rfl, nofun⟩
  split
  · exact ⟨rfl, rfl, rfl, rfl, nofun⟩
  · exact ⟨rfl, rfl, rfl, rfl, fun _ => workerTunerInit_inv _ _⟩

theorem initUsmPool_inv (c : UsmConfig) (create : ℤ → ℤ → ℤ → ℤ → Option Pool) (plane : Plane) :
    AdaptiveInv threads (initUsmPool c create plane) := by
  have hempty : Owns ({ adaptive := zeroAdaptive, pool := none, amountQ8 := 0
                        heap := fun _ => none, next := 0, plane := plane, log := [] } :
      UsmSystem Pool Plane) :=
    ⟨by simp [zeroAdaptive], by simp [zeroAdaptive], nofun, fun h => ⟨.unborn, rfl, Nat.zero_le h⟩⟩
  have hoff : AdaptiveInv threads _ := .of_off hempty rfl rfl rfl
  unfold initUsmPool
  dsimp only
  split
  · exact hoff
  split
  · exact hoff
  obtain ⟨htrial, hcount, hstopped, hphase, htuner⟩ := initAdaptiveUsm_running c c.initialThreads
  refine ⟨⟨fun h => ?_, fun h hor => ?_, fun h _ => ?_, fun h => ?_⟩, fun _ => hcount,
    fun _ => htrial, fun hs => absurd (hstopped.symm.trans hs) (by decide), nofun,
    fun hon => ⟨htuner hon, fun t ht => absurd (htrial.symm.trans ht) nofun,
      fun hc => absurd (hphase.symm.trans hc) (by decide), fun hp => absurd hphase hp⟩⟩
  · by_cases hh : h = 0
    · simp [addPool, hh]
    · simp [addPool, Function.update_of_ne hh, htrial, Ne.symm hh]
  · obtain rfl : 0 = h := Option.some.inj (hor.resolve_right (by simp [htrial]))
    exact Nat.zero_lt_one
  · simp [htrial]
  · by_cases hh : 0 = h
    · exact ⟨.inUse false, by simp [addPool, fateStep, Event.handle, Fate.next, hh],
        congrArg some hh⟩
    · exact ⟨.unborn, by simp [addPool, fateStep, Event.handle, hh],
        Nat.one_le_iff_ne_zero.mpr (Ne.symm hh)⟩

/-! ### The law -/

/-- An event that every fate counts by itself. -/
theorem fate_count {h : ℕ} {log : List Event} {f : Fate} {e : Event} {m : Fate → ℕ}
    (hm : ∀ {a l b}, fateStep h a l = some b → m a + (if l == e then 1 else 0) = m b)
    (hzero : m .unborn = 0) (hlog : replay (fateStep h) .unborn log = some f) :
    log.count e = m f := by
  have hbalance := replay_balance (m := m) (p := fun l => l == e) (q := fun _ => false)
    (fun hstep => by simpa using hm hstep) hlog
  simpa [hzero, List.count] using hbalance

/-- How often the pool of a fate was promoted, and destroyed. -/
def Fate.promotions : Fate → ℕ
  | .inUse promoted => promoted.toNat
  | .retired promoted => promoted.toNat
  | _ => 0

def Fate.destructions : Fate → ℕ
  | .dropped => 1
  | .retired _ => 1
  | _ => 0

/-- How often it was created as a trial. -/
def Fate.trials : Fate → ℕ
  | .trial => 1
  | .dropped => 1
  | f => f.promotions

theorem fateStep_measure {h : ℕ} {e : Event} {m : Fate → ℕ} (he : e.handle = some h)
    (hm : ∀ {a l b}, a.next l = some b → l.handle = some h →
      m a + (if l == e then 1 else 0) = m b) {a b : Fate} {l : Event}
    (hstep : fateStep h a l = some b) : m a + (if l == e then 1 else 0) = m b := by
  unfold fateStep at hstep
  split at hstep
  · cases hstep
  split at hstep
  · rename_i hl
    exact hm hstep hl
  · rename_i hl
    obtain rfl := Option.some.inj hstep
    have hne : l ≠ e := fun heq => hl (heq ▸ he)
    simp [hne]

theorem fate_counts {h : ℕ} {log : List Event} {f : Fate}
    (hlog : replay (fateStep h) .unborn log = some f) :
    log.count (.trialCreated h) = f.trials ∧ log.count (.promoted h) = f.promotions ∧
      log.count (.destroyed h) = f.destructions := by
  refine ⟨fate_count (fateStep_measure rfl ?_) rfl hlog,
    fate_count (fateStep_measure rfl ?_) rfl hlog, fate_count (fateStep_measure rfl ?_) rfl hlog⟩
  all_goals
    intro a l b hstep hl
    cases a <;> cases l <;> cases hstep <;> obtain rfl := Option.some.inj hl <;>
      simp [Fate.trials, Fate.promotions, Fate.destructions]

theorem fault_not_mem {h : ℕ} {log : List Event} {f f' : Fate}
    (hlog : replay (fateStep h) f log = some f') : Event.fault ∉ log := by
  intro hmem
  obtain ⟨pre, post, rfl⟩ := List.append_of_mem hmem
  obtain ⟨a, b, -, hstep, -⟩ := replay_split hlog
  simp [fateStep] at hstep

/-- What a call of `up_usm_adaptive_apply` leaves. -/
structure CallOwnership (threads : Pool → ℤ) (s : UsmSystem Pool Plane)
    (out : UsmStatus × UsmSystem Pool Plane) : Prop where
  pool : ∃ b, out.2.pool = some b ∧ (out.2.heap b).isSome = true
  noFault : .fault ∉ out.2.log
  best : out.1 = .ok → out.2.adaptive.enabled = true →
    out.2.effectiveThreads threads out.2.pool = out.2.adaptive.tuner.best
  trialSize : ∀ t, out.2.adaptive.trial = some t →
    out.2.effectiveThreads threads (some t) = out.2.adaptive.trialCount
  promoted : out.2.adaptive.tuner.best ≠ s.adaptive.tuner.best → ∃ b t new,
    s.pool = some b ∧ out.2.pool = some t ∧ t ≠ b ∧
    out.2.log = s.log ++ new ++ [.destroyed b, .promoted t] ∧
    out.2.effectiveThreads threads (some t) = out.2.adaptive.tuner.best

/-- The ownership of the pools in a state `s` of a run from `s₀`. -/
structure OwnershipLaw (threads : Pool → ℤ) (s₀ s : UsmSystem Pool Plane) : Prop where
  /-- Only `DisableUsm` takes the pool away. -/
  notNull : s₀.pool ≠ none → s.pool = none → .disabled ∈ s.log
  /-- No pool is used or destroyed after its end. -/
  noFault : .fault ∉ s.log
  live : ∀ h, (s.heap h).isSome = true ↔ s.pool = some h ∨ s.adaptive.trial = some h
  atMostTwo : ∀ hs : List ℕ, hs.Nodup → (∀ h ∈ hs, (s.heap h).isSome = true) → hs.length ≤ 2
  /-- A trial pool is pending, or was dropped once, or was promoted once. -/
  trials : ∀ h, .trialCreated h ∈ s.log → s.log.count (.trialCreated h) = 1 ∧
    ((s.adaptive.trial = some h ∧ s.log.count (.promoted h) = 0 ∧
        s.log.count (.destroyed h) = 0) ∨
      (s.heap h = none ∧ s.log.count (.promoted h) = 0 ∧ s.log.count (.destroyed h) = 1) ∨
      (s.adaptive.trial ≠ some h ∧ s.log.count (.promoted h) = 1 ∧
        s.log.count (.destroyed h) = if s.pool = some h then 0 else 1))
  /-- Every pool that is gone was destroyed once. -/
  destroyed : ∀ h < s.next,
    s.log.count (.destroyed h) = if (s.heap h).isSome then 0 else 1
  trialSize : ∀ t, s.adaptive.trial = some t →
    s.effectiveThreads threads (some t) = s.adaptive.trialCount
  stopped : s.adaptive.stopped = true → s.adaptive.trial = none
  call : s.pool ≠ none → ∀ env amountQ8,
    CallOwnership threads s (usmAdaptiveApply threads s env amountQ8)
  /-- A frame that sharpens and leaves adaptation on has run the best count. -/
  frame : s.pool ≠ none → 0 < s.amountQ8 → ∀ plane env,
    let u := step threads s (.frame plane env)
    u.adaptive.enabled = true → u.effectiveThreads threads u.pool = u.adaptive.tuner.best

theorem Owns.noFault (h : Owns s) : Event.fault ∉ s.log := by
  obtain ⟨f, hf, -⟩ := h.fate 0
  exact fault_not_mem hf

theorem Owns.atMostTwo (h : Owns s) {hs : List ℕ} (hnodup : hs.Nodup)
    (hlive : ∀ h ∈ hs, (s.heap h).isSome = true) : hs.length ≤ 2 := by
  have hsub : hs ⊆ s.pool.toList ++ s.adaptive.trial.toList := by
    intro j hj
    rcases (h.live j).mp (hlive j hj) with hb | ht
    · simp [hb]
    · simp [ht]
  have hle := (List.subperm_of_subset hnodup hsub).length_le
  have hone (o : Option ℕ) : o.toList.length ≤ 1 := by cases o <;> simp
  have := hone s.pool
  have := hone s.adaptive.trial
  rw [List.length_append] at hle
  omega

theorem Owns.isSome_iff (h : Owns s) {k : ℕ} {f : Fate} (hf : s.Shows k f) :
    (s.heap k).isSome = true ↔ f = .trial ∨ ∃ promoted, f = .inUse promoted := by
  rw [h.live k]
  constructor
  · rintro (hb | ht)
    · exact .inr (h.fate_of_pool hb hf)
    · exact .inl (h.fate_of_trial ht hf)
  · rintro (rfl | ⟨promoted, rfl⟩)
    · exact .inr hf
    · exact .inl hf

theorem Owns.destroyed (h : Owns s) {k : ℕ} (hk : k < s.next) :
    s.log.count (.destroyed k) = if (s.heap k).isSome then 0 else 1 := by
  obtain ⟨f, hreplay, hshows⟩ := h.fate k
  have hlive := h.isSome_iff hshows
  rw [(fate_counts hreplay).2.2]
  cases f with
  | unborn => exact absurd hk (not_lt.mpr hshows)
  | trial => simp [hlive.mpr (.inl rfl), Fate.destructions]
  | inUse promoted => simp [hlive.mpr (.inr ⟨promoted, rfl⟩), Fate.destructions]
  | dropped => rw [if_neg (by simp [hlive]), Fate.destructions]
  | retired promoted => rw [if_neg (by simp [hlive]), Fate.destructions]

theorem Owns.trials (h : Owns s) {k : ℕ} (hk : .trialCreated k ∈ s.log) :
    s.log.count (.trialCreated k) = 1 ∧
      ((s.adaptive.trial = some k ∧ s.log.count (.promoted k) = 0 ∧
          s.log.count (.destroyed k) = 0) ∨
        (s.heap k = none ∧ s.log.count (.promoted k) = 0 ∧ s.log.count (.destroyed k) = 1) ∨
        (s.adaptive.trial ≠ some k ∧ s.log.count (.promoted k) = 1 ∧
          s.log.count (.destroyed k) = if s.pool = some k then 0 else 1)) := by
  obtain ⟨f, hreplay, hshows⟩ := h.fate k
  obtain ⟨htrials, hpromoted, hdestroyed⟩ := fate_counts hreplay
  have hpos : 0 < f.trials := htrials ▸ List.count_pos_iff.mpr hk
  have hlive := h.isSome_iff hshows
  rw [htrials, hpromoted, hdestroyed]
  cases f with
  | unborn => cases hpos
  | trial => exact ⟨rfl, .inl ⟨hshows, rfl, rfl⟩⟩
  | dropped =>
    refine ⟨rfl, .inr (.inl ⟨?_, rfl, rfl⟩)⟩
    by_contra hsome
    simpa using hlive.mp (Option.ne_none_iff_isSome.mp hsome)
  | inUse promoted =>
    cases promoted with
    | false => cases hpos
    | true =>
      refine ⟨rfl, .inr (.inr ⟨h.apart k hshows, rfl, ?_⟩)⟩
      rw [if_pos (show s.pool = some k from hshows)]
      rfl
  | retired promoted =>
    cases promoted with
    | false => cases hpos
    | true =>
      refine ⟨rfl, .inr (.inr ⟨hshows.2.2, rfl, ?_⟩)⟩
      rw [if_neg hshows.2.1, Fate.destructions]

theorem step_notNull (h : AdaptiveInv threads s) (hnull : s.pool = none → .disabled ∈ s.log)
    (st : Step Pool Plane) :
    (step threads s st).pool = none → .disabled ∈ (step threads s st).log := by
  cases st with
  | start clock =>
    show (usmAdaptiveBegin s clock).pool = none → _ ∈ (usmAdaptiveBegin s clock).log
    obtain ⟨_, _, _, hbegin⟩ := usmAdaptiveBegin_eq s clock
    rw [hbegin]
    exact hnull
  | frame plane env =>
    show (applyUsmIfEnabled threads { s with plane := plane } env).2.pool = none →
      _ ∈ (applyUsmIfEnabled threads { s with plane := plane } env).2.log
    have hinv : AdaptiveInv threads { s with plane := plane } :=
      h.flags s.adaptive.retained s.adaptive.framePending s.adaptive.frameTimed
        s.adaptive.frameStart plane
    cases applyUsmIfEnabled_exit threads { s with plane := plane } env with
    | off _ hout =>
      rw [hout]
      exact hnull
    | kept _ hpool _ hout =>
      rw [hout]
      intro hn
      exact absurd hn (usmAdaptiveApply_callLaw hinv hpool env s.amountQ8).pool
    | disabled _ _ _ _ hout =>
      rw [hout]
      intro _
      exact List.mem_append_right _ (.head _)
  | disable => exact fun _ => List.mem_append_right _ (.head _)

theorem run_notNull (h : AdaptiveInv threads s) (hnull : s.pool = none → .disabled ∈ s.log)
    (steps : List (Step Pool Plane)) :
    (run threads s steps).pool = none → .disabled ∈ (run threads s steps).log := by
  induction steps generalizing s with
  | nil => exact hnull
  | cons st steps ih => exact ih (step_inv h st) (step_notNull h hnull st)

theorem disableUsm_off (h : Owns s) : (disableUsm s).adaptive.enabled = false := by
  by_contra hon
  have hinv : AdaptiveInv (fun _ => 0) (disableUsm s) := disableUsm_inv h
  exact hon (hinv.noPool rfl)

theorem frame_best (h : AdaptiveInv threads s) (hpool : s.pool ≠ none) (hamount : 0 < s.amountQ8)
    (plane : Plane) (env : FrameEnv Pool Plane)
    (hon : (step threads s (.frame plane env)).adaptive.enabled = true) :
    (step threads s (.frame plane env)).effectiveThreads threads
      (step threads s (.frame plane env)).pool =
        (step threads s (.frame plane env)).adaptive.tuner.best := by
  have hlaw := usmAdaptiveApply_callLaw (h.flags s.adaptive.retained s.adaptive.framePending
    s.adaptive.frameTimed s.adaptive.frameStart plane) hpool env s.amountQ8
  have hstep : step threads s (.frame plane env)
      = (applyUsmIfEnabled threads { s with plane := plane } env).2 := rfl
  rw [hstep] at hon ⊢
  cases applyUsmIfEnabled_exit threads { s with plane := plane } env with
  | off hoff _ =>
    rcases hoff with hle | hn
    · exact absurd hamount (not_lt.mpr hle)
    · exact absurd hn hpool
  | kept _ _ hcall hout =>
    rw [hout] at hon ⊢
    rcases hcall with hok | hretained
    · exact hlaw.best hok hon
    · exact absurd ((hlaw.retained hretained).symm.trans hon) (by decide)
  | disabled _ _ _ _ hout =>
    rw [hout] at hon
    exact absurd ((disableUsm_off hlaw.owns).symm.trans hon) (by decide)

/-- **Ownership of the adaptive pools.**

`threads` is what `up_usm_pool_effective_threads` reports, `create` how the first
pool comes about, `steps` any frames, clocks and failures. -/
theorem adaptive_pool_ownership (threads : Pool → ℤ) (c : UsmConfig)
    (create : ℤ → ℤ → ℤ → ℤ → Option Pool) (plane : Plane) (steps : List (Step Pool Plane)) :
    OwnershipLaw threads (initUsmPool c create plane)
      (run threads (initUsmPool c create plane) steps) := by
  have hinit : AdaptiveInv threads (initUsmPool c create plane) := initUsmPool_inv c create plane
  have h := run_inv hinit steps
  refine
    { notNull := fun hpool => run_notNull hinit (fun hn => absurd hn hpool) steps
      noFault := h.owns.noFault
      live := h.owns.live
      atMostTwo := fun hs => h.owns.atMostTwo
      trials := fun k => h.owns.trials
      destroyed := fun k => h.owns.destroyed
      trialSize := h.trialSize
      stopped := fun hs => h.off (h.stopped hs)
      call := fun hpool env amountQ8 => ?_
      frame := fun hpool hamount plane env => frame_best h hpool hamount plane env }
  have hcall := usmAdaptiveApply_callLaw h hpool env amountQ8
  obtain ⟨b, hb⟩ := Option.ne_none_iff_exists'.mp hcall.pool
  exact ⟨⟨b, hb, (hcall.owns.live b).mpr (.inl hb)⟩, hcall.owns.noFault, hcall.best,
    hcall.trialSize, hcall.promoted⟩

/-- Two of four workers can be spawned, and then the gate fails. -/
def halfStarted : UsmPoolOutcome where
  alloc := true
  scratch := 4096
  outcome _ :=
    { start := ⟨true, true, true, true, fun _ => true, fun i => decide (i < 2),
        ⟨true, fun _ => true⟩⟩
      gateOk := false
      stop := ⟨true, fun _ => true⟩ }
  finish _ r := r.memory
  startClock := some ⟨1, 0⟩
  endClock := some ⟨1, 1000⟩

/-- The first frame's pool comes up with two workers of four and fails; the call
returns with adaptation still on. -/
theorem uncertain_baseline_leaves_enabled :
    let c : UsmConfig := ⟨100, fourcc 'I' '4' '2' '0', 0, 8, 16, 32, 8, 1⟩
    let env := usmPoolEnv 0 16 halfStarted
    let s := initUsmPool c env.create (fun _ => 0)
    let out := usmAdaptiveApply UsmPool.nThreads s env s.amountQ8
    s.pool = some 0 ∧ 0 < s.amountQ8 ∧ out.1 = .outputUncertain ∧
      out.2.adaptive.enabled = true ∧ out.2.effectiveThreads UsmPool.nThreads out.2.pool = 2 ∧
      out.2.adaptive.tuner.best = 4 := by
  decide +kernel

end AutoUpscale.Adaptive
