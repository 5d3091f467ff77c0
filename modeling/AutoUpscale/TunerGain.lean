/-
The tuner moves its best count only on a verified gain.

The history of a run lists every valid observation with the phase and the count
in force when it was taken, and whether it was discarded.  `Progress` says how
the tuner's state stands in its history: which observations make up the current
window and, in a trial or a confirmation, which windows came right before.

- `observe_progress`: one observation keeps it.
- `best_changes_on_verified_gain`: a run changes the best count only after a base,
  a trial and a confirmation window in a row, with the gain between their medians.
-/
import AutoUpscale.WorkerTuner

namespace AutoUpscale

/-! ### The history of a run -/

/-- A valid observation: the phase and count in force, and whether it is a
warm-up discard. -/
structure Observation where
  phase : TunerPhase
  current : ℤ
  discarded : Bool
  elapsed : ℚ
  deriving DecidableEq, Repr

/-- The observation of `elapsed` in state `t`, if it is a valid one. -/
def tunerObservation (t : WorkerTuner ℚ) : Option ℚ → List Observation
  | none => []
  | some e => if e ≤ 0 then [] else [⟨t.phase, t.current, decide (0 < t.warmup), e⟩]

theorem tunerObservation_of_pos (t : WorkerTuner ℚ) {e : ℚ} (he : 0 < e) :
    tunerObservation t (some e) = [⟨t.phase, t.current, decide (0 < t.warmup), e⟩] :=
  if_neg (not_le.mpr he)

/-- A timing that is missing or not positive is no observation. -/
theorem tunerObservation_ignored (t : WorkerTuner ℚ) {elapsed : Option ℚ}
    (h : ∀ e, elapsed = some e → e ≤ 0) : tunerObservation t elapsed = [] := by
  cases elapsed with
  | none => rfl
  | some e => exact if_pos (h e rfl)

/-- The valid observations of a run, oldest first. -/
def tunerHistory (t : WorkerTuner ℚ) : List (Option ℚ) → List Observation
  | [] => []
  | e :: rest => tunerObservation t e ++ tunerHistory (workerTunerObserve t e) rest

theorem tunerHistory_concat (t : WorkerTuner ℚ) (es : List (Option ℚ)) (e : Option ℚ) :
    tunerHistory t (es ++ [e]) = tunerHistory t es ++ tunerObservation (tunerRun t es) e := by
  induction es generalizing t with
  | nil => simp [tunerHistory, tunerRun]
  | cons e' rest ih =>
    rw [List.cons_append]
    unfold tunerHistory
    rw [ih, List.append_assoc]
    rfl

/-- Samples taken in one phase on one count. -/
def Taken (phase : TunerPhase) (count : ℤ) (window : List Observation) : Prop :=
  ∀ o ∈ window, o.phase = phase ∧ o.current = count ∧ o.discarded = false

/-- Warm-up discards in one phase on one count. -/
def Discarded (phase : TunerPhase) (count : ℤ) (warmup : List Observation) : Prop :=
  ∀ o ∈ warmup, o.phase = phase ∧ o.current = count ∧ o.discarded = true

/-- The median of a window. -/
def windowMedian (window : List Observation) : ℚ := tunerMedian (window.map (·.elapsed))

theorem Taken.concat {phase : TunerPhase} {count : ℤ} {window : List Observation}
    (h : Taken phase count window) (e : ℚ) :
    Taken phase count (window ++ [⟨phase, count, false, e⟩]) := by
  intro o ho
  obtain ho | ho := List.mem_append.mp ho
  · exact h o ho
  · rw [List.mem_singleton.mp ho]
    exact ⟨rfl, rfl, rfl⟩

theorem Discarded.concat {phase : TunerPhase} {count : ℤ} {warmup : List Observation}
    (h : Discarded phase count warmup) (e : ℚ) :
    Discarded phase count (warmup ++ [⟨phase, count, true, e⟩]) := by
  intro o ho
  obtain ho | ho := List.mem_append.mp ho
  · exact h o ho
  · rw [List.mem_singleton.mp ho]
    exact ⟨rfl, rfl, rfl⟩

/-! ### How the state stands in its history -/

/-- A base window of the best count closes `before`, and its median is
`baseUs`. -/
def BaseRecorded (t : WorkerTuner ℚ) (before : List Observation) : Prop :=
  ∃ older base, before = older ++ base ∧ base.length = tunerSamples ∧
    Taken .base t.best base ∧ t.baseUs = windowMedian base ∧ 0 < t.baseUs

/-- A base window, two discards and a trial window of the candidate close
`before`; a trial that was cut short was too slow. -/
def TrialRecorded (t : WorkerTuner ℚ) (before : List Observation) : Prop :=
  ∃ older warmup trial, before = older ++ warmup ++ trial ∧ BaseRecorded t older ∧
    warmup.length = tunerWarmup ∧ Discarded .trial t.candidate warmup ∧
    Taken .trial t.candidate trial ∧ t.trialUs = windowMedian trial ∧
    (trial.length = tunerSamples ∨ t.baseUs * (15 / 10) < t.trialUs)

/-- The current window: its discards, its samples, and what came before it. -/
structure Progress (t : WorkerTuner ℚ) (before warmup taken : List Observation) : Prop where
  samples : (taken.map (·.elapsed)).Perm t.samples
  positive : ∀ o ∈ taken, 0 < o.elapsed
  taken : Taken t.phase t.current taken
  discarded : Discarded t.phase t.current warmup
  /-- A trial and a confirmation start on two discards. -/
  warmup : t.phase = .trial ∨ t.phase = .confirm → warmup.length + t.warmup = tunerWarmup
  base : t.phase = .trial → BaseRecorded t before
  trial : t.phase = .confirm → TrialRecorded t before

/-- The tuner's state stands in the history of its run. -/
def StandsIn (t : WorkerTuner ℚ) (history : List Observation) : Prop :=
  ∃ before warmup taken, history = before ++ warmup ++ taken ∧ Progress t before warmup taken

/-- A window that has just been opened, with nothing in it. -/
theorem StandsIn.fresh {t : WorkerTuner ℚ} {history : List Observation} (hsamples : t.samples = [])
    (hwarm : t.phase = .trial ∨ t.phase = .confirm → t.warmup = tunerWarmup)
    (hbase : t.phase = .trial → BaseRecorded t history)
    (htrial : t.phase = .confirm → TrialRecorded t history) : StandsIn t history := by
  refine ⟨history, [], [], by simp, ?_⟩
  exact
    { samples := by rw [hsamples]; exact .refl _
      positive := nofun
      taken := nofun
      discarded := nofun
      warmup := fun h => by rw [List.length_nil, Nat.zero_add]; exact hwarm h
      base := hbase
      trial := htrial }

theorem workerTunerInit_standsIn (initial limit : ℤ) :
    StandsIn (workerTunerInit initial limit) [] :=
  StandsIn.fresh rfl (by rintro (h | h) <;> cases h) nofun nofun

/-- The recheck countdown plays no part in it. -/
theorem Progress.setRemaining {t : WorkerTuner ℚ} {before warmup taken : List Observation}
    (h : Progress t before warmup taken) (r : ℕ) :
    Progress { t with remaining := r } before warmup taken :=
  ⟨h.samples, h.positive, h.taken, h.discarded, h.warmup, h.base, h.trial⟩

/-! ### One observation -/

section Close

variable {t : WorkerTuner ℚ} {before warmup taken : List Observation} {e : ℚ}

/-- The window as it closes: the samples so far and the last one. -/
theorem window_median (h : Progress t before warmup taken) :
    tunerMedian (t.samples ++ [e]) =
      windowMedian (taken ++ [⟨t.phase, t.current, false, e⟩]) := by
  unfold windowMedian
  rw [List.map_append]
  exact (tunerMedian_perm (h.samples.append_right [e])).symm

theorem window_length (h : Progress t before warmup taken) : taken.length = t.used := by
  rw [← List.length_map (f := fun o : Observation => o.elapsed)]
  exact h.samples.length_eq

theorem window_pos (h : Progress t before warmup taken) (he : 0 < e)
    (hlen : 2 ≤ taken.length + 1) :
    0 < windowMedian (taken ++ [⟨t.phase, t.current, false, e⟩]) := by
  refine tunerMedian_pos ?_ ?_
  · intro u hu
    rw [List.map_append] at hu
    obtain hu | hu := List.mem_append.mp hu
    · obtain ⟨o, ho, rfl⟩ := List.mem_map.mp hu
      exact h.positive o ho
    · rw [List.mem_singleton.mp hu]
      exact he
  · rw [List.length_map, List.length_append]
    exact hlen

/-- Where a window of a valid tuner ends, its history grows by the last sample
and the next state stands in it. -/
theorem close_progress (hinv : TunerInv t) (h : Progress t before warmup taken) (he : 0 < e)
    (hwarm : t.warmup = 0)
    (hend : t.used + 1 = 16 ∨ TrialTooSlow t (t.samples ++ [e])) :
    StandsIn (tunerClose t (tunerMedian (t.samples ++ [e])))
      (before ++ warmup ++ (taken ++ [⟨t.phase, t.current, false, e⟩])) := by
  have hlen := window_length h
  have hmedian := window_median (e := e) h
  have htaken := h.taken.concat e
  generalize hw : taken ++ [(⟨t.phase, t.current, false, e⟩ : Observation)] = window at *
  have hwlen : window.length = t.used + 1 := by
    rw [← hw, List.length_append, hlen]
    rfl
  have hstep := tunerClose_end hinv (tunerMedian (t.samples ++ [e]))
  generalize tunerClose t (tunerMedian (t.samples ++ [e])) = u at hstep ⊢
  cases hstep with
  | settle => exact StandsIn.fresh rfl (by rintro (h | h) <;> cases h) nofun nofun
  | start hphase hcurrent =>
    -- a full window of the best count, which `baseUs` remembers
    have h16 : t.used + 1 = 16 := hend.resolve_right fun hslow => by
      have := hslow.1
      rw [hphase] at this
      cases this
    refine StandsIn.fresh rfl (fun _ => rfl) (fun _ => ?_) nofun
    refine ⟨before ++ warmup, window, rfl, hwlen.trans h16, ?_, hmedian, ?_⟩
    · rw [hphase, hcurrent] at htaken
      exact htaken
    · rw [hmedian, ← hw]
      exact window_pos h he (by omega)
  | confirm hphase hcurrent =>
    -- the candidate's window follows, after its discards
    refine StandsIn.fresh rfl (fun _ => rfl) nofun (fun _ => ?_)
    have hwarmup := h.warmup (.inl hphase)
    rw [hphase, hcurrent] at htaken
    have hdiscarded := h.discarded
    rw [hphase, hcurrent] at hdiscarded
    refine ⟨before, warmup, window, rfl, h.base hphase, by omega, hdiscarded, htaken, hmedian, ?_⟩
    obtain h16 | hslow := hend
    · exact .inl (hwlen.trans h16)
    · exact .inr (trialTooSlow_iff.mp hslow).2.2
  -- accepted, rejected or monitored, the next window has nothing before it
  | accept => exact StandsIn.fresh rfl (by rintro (h | h) <;> cases h) nofun nofun
  | reject => exact StandsIn.fresh rfl (by rintro (h | h) <;> cases h) nofun nofun
  | stay _ hphase =>
    have hsettled : ∀ {phase : TunerPhase}, t.phase = phase → phase = .settled :=
      fun h => h.symm.trans hphase
    exact StandsIn.fresh rfl (by rintro (h | h) <;> cases hsettled h)
      (fun h => by cases hsettled h) (fun h => by cases hsettled h)
  | restart => exact StandsIn.fresh rfl (by rintro (h | h) <;> cases h) nofun nofun

end Close

theorem observe_progress {t : WorkerTuner ℚ} {history : List Observation} (hinv : TunerInv t)
    (h : StandsIn t history) (elapsed : Option ℚ) :
    StandsIn (workerTunerObserve t elapsed) (history ++ tunerObservation t elapsed) := by
  by_cases hvalid : ∃ e, elapsed = some e ∧ 0 < e
  · obtain ⟨e, rfl, he⟩ := hvalid
    obtain ⟨before, warmup, taken, rfl, hprog⟩ := h
    rw [tunerObservation_of_pos t he]
    obtain ⟨hwarm, heq⟩ | ⟨hwarm, hused, -, s, hperm, heq⟩ | ⟨hwarm, hend, heq⟩ :=
      workerTunerObserve_exact he hinv.used_lt
    · -- a discard: the window has no sample yet
      have hempty : taken = [] := by
        have := window_length hprog
        rw [WorkerTuner.used, hinv.warmup_empty hwarm] at this
        exact List.length_eq_zero_iff.mp this
      rw [heq, decide_eq_true hwarm, hempty, List.append_nil, List.append_assoc]
      refine ⟨before, warmup ++ [⟨t.phase, t.current, true, e⟩], [], by simp, ?_⟩
      exact
        { samples := by rw [← hempty]; exact hprog.samples
          positive := nofun
          taken := nofun
          discarded := hprog.discarded.concat e
          warmup := fun hphase => by
            have := hprog.warmup hphase
            simp only [List.length_append, List.length_singleton]
            omega
          base := hprog.base
          trial := hprog.trial }
    · -- one more sample of the window
      rw [heq, decide_eq_false (by omega), List.append_assoc]
      refine ⟨before, warmup, taken ++ [⟨t.phase, t.current, false, e⟩], rfl, ?_⟩
      exact
        { samples := by
            rw [List.map_append]
            exact (hprog.samples.append_right [e]).trans hperm.symm
          positive := by
            intro o ho
            obtain ho | ho := List.mem_append.mp ho
            · exact hprog.positive o ho
            · rw [List.mem_singleton.mp ho]
              exact he
          taken := hprog.taken.concat e
          discarded := hprog.discarded
          warmup := hprog.warmup
          base := hprog.base
          trial := hprog.trial }
    · -- the sample that ends it
      rw [heq, decide_eq_false (by omega), List.append_assoc]
      exact close_progress (hinv.setRemaining _) (hprog.setRemaining _) he hwarm hend
  · have hignored : ∀ e, elapsed = some e → e ≤ 0 :=
      fun e heq => not_lt.mp fun he => hvalid ⟨e, heq, he⟩
    rw [tunerObservation_ignored t hignored, workerTunerObserve_nonpos hignored, List.append_nil]
    exact h

/-- The state of every run stands in its history. -/
theorem tunerRun_standsIn {t : WorkerTuner ℚ} (hinv : TunerInv t) (es : List (Option ℚ))
    {history : List Observation} (h : StandsIn t history) :
    StandsIn (tunerRun t es) (history ++ tunerHistory t es) := by
  induction es generalizing t history with
  | nil => simpa [tunerRun, tunerHistory] using h
  | cons e rest ih =>
    have hnext := ih (workerTunerObserve_inv hinv e) (observe_progress hinv h e)
    rw [List.append_assoc] at hnext
    exact hnext

/-! ### The gain behind a change -/

/-- The history ends in a base window on `a`, a trial window on `b` and a
confirmation window on `a`, sixteen samples each and two discards before the
last two; the trial's median is under 95% of both others. -/
def EndsInVerifiedGain (history : List Observation) (a b : ℤ) : Prop :=
  ∃ older base warmup₁ trial warmup₂ confirm,
    history = older ++ base ++ warmup₁ ++ trial ++ warmup₂ ++ confirm ∧
    base.length = 16 ∧ Taken .base a base ∧
    warmup₁.length = 2 ∧ Discarded .trial b warmup₁ ∧
    trial.length = 16 ∧ Taken .trial b trial ∧
    warmup₂.length = 2 ∧ Discarded .confirm a warmup₂ ∧
    confirm.length = 16 ∧ Taken .confirm a confirm ∧
    windowMedian trial < min (windowMedian base) (windowMedian confirm) * (95 / 100)

/-- A window that changes the best count is a confirmed gain. -/
theorem tunerClose_best {t : WorkerTuner ℚ} (hinv : TunerInv t) {elapsed : ℚ}
    (hchange : (tunerClose t elapsed).best ≠ t.best) :
    t.phase = .confirm ∧ VerifiedGain t elapsed ∧
      (tunerClose t elapsed).best = t.candidate := by
  have hend := tunerClose_end hinv elapsed
  generalize tunerClose t elapsed = u at hchange hend ⊢
  cases hend with
  | accept hphase _ _ hgain => exact ⟨hphase, hgain, rfl⟩
  | settle => exact absurd rfl hchange
  | start => exact absurd rfl hchange
  | confirm => exact absurd rfl hchange
  | reject => exact absurd rfl hchange
  | stay => exact absurd rfl hchange
  | restart => exact absurd rfl hchange

/-- One observation that changes the best count. -/
theorem observe_change {t : WorkerTuner ℚ} {history : List Observation} (hinv : TunerInv t)
    (h : StandsIn t history) {elapsed : Option ℚ}
    (hchange : (workerTunerObserve t elapsed).best ≠ t.best) :
    t.phase = .confirm ∧ t.used = 15 ∧
      EndsInVerifiedGain (history ++ tunerObservation t elapsed) t.best
        (workerTunerObserve t elapsed).best := by
  by_cases hvalid : ∃ e, elapsed = some e ∧ 0 < e
  swap
  · rw [workerTunerObserve_nonpos fun e heq => not_lt.mp fun he => hvalid ⟨e, heq, he⟩] at hchange
    exact absurd rfl hchange
  obtain ⟨e, rfl, he⟩ := hvalid
  obtain ⟨-, heq⟩ | ⟨-, -, -, s, -, heq⟩ | ⟨hwarm, hend, heq⟩ :=
    workerTunerObserve_exact he hinv.used_lt
  · rw [heq] at hchange
    exact absurd rfl hchange
  · rw [heq] at hchange
    exact absurd rfl hchange
  rw [heq] at hchange ⊢
  obtain ⟨hphase, hgain, hbest⟩ := tunerClose_best (hinv.setRemaining (t.remaining - 1)) hchange
  rw [hbest]
  change t.phase = .confirm at hphase
  have hcurrent := hinv.current_eq (by rw [hphase]; decide)
  have h16 : t.used + 1 = 16 := hend.resolve_right fun hslow => by
    have hp := hslow.1
    rw [hphase] at hp
    cases hp
  obtain ⟨before, warmup, taken, rfl, hprog⟩ := h
  obtain ⟨mid, warmup₁, trial, rfl, ⟨older, base, rfl, hbaseLen, hbase, hbaseUs, hbasePos⟩, hlen₁,
    hdisc₁, htrial, htrialUs, hfull⟩ := hprog.trial hphase
  have hlen₂ := hprog.warmup (.inr hphase)
  have htaken := hprog.taken.concat e
  have hmedian := window_median (e := e) hprog
  have hwlen := window_length hprog
  have hgain : t.trialUs < min t.baseUs (tunerMedian (t.samples ++ [e])) * (95 / 100) :=
    verifiedGain_iff.mp hgain
  have hlow : t.trialUs < t.baseUs * (95 / 100) := hgain.trans_le (by gcongr; exact min_le_left _ _)
  -- a trial that was cut short ran over 1.5 times the base
  have htrialLen : trial.length = 16 := hfull.resolve_right fun hslow => by linarith
  refine ⟨hphase, by omega, older, base, warmup₁, trial, warmup,
    taken ++ [⟨t.phase, t.current, false, e⟩], ?_, hbaseLen, hbase, hlen₁, hdisc₁, htrialLen, htrial,
    by unfold tunerWarmup at hlen₂; omega, ?_, ?_, ?_, ?_⟩
  · rw [tunerObservation_of_pos t he, decide_eq_false (by omega), List.append_assoc _ taken]
  · have hdisc₂ := hprog.discarded
    rwa [hphase, hcurrent] at hdisc₂
  · rw [List.length_append, List.length_singleton]
    omega
  · rwa [hphase, hcurrent] at htaken ⊢
  · rw [← htrialUs, ← hbaseUs, ← hmedian]
    exact hgain

/-- **The best count moves only on a verified gain.**  In every state of every run
the counts are in range and agree with the phase; and an observation changes the
best count only at the end of a confirmation window, when the run's history ends
in a base, a trial and a confirmation window of sixteen samples each with the
gain between their medians. -/
theorem best_changes_on_verified_gain (initial limit : ℤ) (es : List (Option ℚ))
    (elapsed : Option ℚ) :
    let t := tunerRun (workerTunerInit initial limit) es
    ((1 ≤ t.best ∧ t.best ≤ t.limit) ∧ (1 ≤ t.current ∧ t.current ≤ t.limit) ∧ t.limit ≤ 64 ∧
      t.used < 16 ∧ (t.phase = .trial → t.current = t.candidate ∧ t.candidate ≠ t.best) ∧
      (t.phase ≠ .trial → t.current = t.best)) ∧
    ((workerTunerObserve t elapsed).best ≠ t.best → t.phase = .confirm ∧ t.used = 15 ∧
      EndsInVerifiedGain (tunerHistory (workerTunerInit initial limit) (es ++ [elapsed])) t.best
        (workerTunerObserve t elapsed).best) := by
  intro t
  have hinv : TunerInv t := tunerRun_inv (workerTunerInit_inv initial limit) es
  have hstands : StandsIn t (tunerHistory (workerTunerInit initial limit) es) := by
    have := tunerRun_standsIn (workerTunerInit_inv initial limit) es
      (workerTunerInit_standsIn initial limit)
    rwa [List.nil_append] at this
  refine ⟨⟨⟨hinv.best_pos, hinv.best_le⟩, ?_, hinv.limit_le, hinv.used_lt, ?_, hinv.current_eq⟩,
    fun hchange => ?_⟩
  · by_cases hphase : t.phase = .trial
    · rw [hinv.current_trial hphase]
      exact (hinv.candidate (.inl hphase)).2
    · rw [hinv.current_eq hphase]
      exact ⟨hinv.best_pos, hinv.best_le⟩
  · exact fun hphase => ⟨hinv.current_trial hphase, (hinv.candidate (.inl hphase)).1⟩
  · rw [tunerHistory_concat]
    exact observe_change hinv hstands hchange

/-- Two workers at 100 µs, one at 80 µs: a run that ends one sample before the
change. -/
def gainSamples : List (Option ℚ) :=
  List.replicate 18 (some 100) ++ List.replicate 18 (some 80) ++ List.replicate 17 (some 100)

theorem gainSamples_change :
    (tunerRun (workerTunerInit 2 4) gainSamples).best = 2 ∧
      (workerTunerObserve (tunerRun (workerTunerInit 2 4) gainSamples) (some 100)).best = 1 := by
  decide +kernel

theorem best_changes_on_verified_gain_two :
    EndsInVerifiedGain (tunerHistory (workerTunerInit 2 4) (gainSamples ++ [some 100])) 2 1 := by
  obtain ⟨-, hchange⟩ := best_changes_on_verified_gain 2 4 gainSamples (some 100)
  obtain ⟨htwo, hone⟩ := gainSamples_change
  obtain ⟨-, -, hgain⟩ := hchange (by rw [htwo, hone]; decide)
  rwa [htwo, hone] at hgain

end AutoUpscale
