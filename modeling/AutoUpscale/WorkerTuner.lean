/-
The worker tuner (`src/worker_tuner.h`).

`workerTunerObserve` takes one timing; a window of sixteen of them (or a trial
cut short after four) ends in `tunerWindow`.  The timings are of any type `R`
with the operations the code uses: the tuner of the filter is the one over
`Float`, whose arithmetic is that of `double`, and the one over `ℚ` is exact.
`none` stands for a value that is not finite where `R` has none, and `samples` is
the filled part of the sample array, so `used` is its length.

- `workerTunerObserve_cases`: what one observation can do, in any arithmetic.
- `workerTunerObserve_exact`: the same for exact timings, whose median forgets
  the order of the samples.
- `TunerInv`, `tunerRun_inv`: the counts stay in range and agree with the phase
  in every state a run reaches.
-/
import AutoUpscale.ArraySort
import AutoUpscale.ScalerContext

namespace AutoUpscale

/-! ### Timings -/

/-- What the tuner does with its timings: it tests that they are finite, compares,
adds, multiplies and divides them, and has literals for them. -/
class Timing (R : Type) extends OfScientific R, LT R, LE R, Add R, Mul R, Div R where
  decLt : DecidableLT R
  decLe : DecidableLE R
  isFinite : R → Bool

attribute [reducible, instance] Timing.decLt Timing.decLe

/-- `double` -/
instance : Timing Float where
  decLt := inferInstance
  decLe := inferInstance
  isFinite := Float.isFinite

/-- Exact timings. -/
instance : Timing ℚ where
  decLt := inferInstance
  decLe := inferInstance
  isFinite _ := true

/-! ### State -/

/-- `UP_TUNER_SAMPLES`, `UP_TUNER_WARMUP`, `UP_TUNER_RECHECK_FRAMES`,
`UP_TUNER_COOLDOWN_FRAMES` -/
def tunerSamples : ℕ := 16
def tunerWarmup : ℕ := 2
def tunerRecheckFrames : ℕ := 16384
def tunerCooldownFrames : ℕ := 256

/-- `up_tuner_phase_t` -/
inductive TunerPhase
  | base | trial | confirm | settled
  deriving DecidableEq, Repr

/-- `up_worker_tuner_t` -/
structure WorkerTuner (R : Type) where
  limit : ℤ
  best : ℤ
  current : ℤ
  candidate : ℤ
  cursor : ℤ
  warmup : ℕ
  remaining : ℕ
  drift : ℕ
  changes : ℕ
  samples : List R
  baseUs : R
  trialUs : R
  steadyUs : R
  phase : TunerPhase
  deriving DecidableEq, Repr

variable {R : Type}

/-- `used` -/
def WorkerTuner.used (t : WorkerTuner R) : ℕ := t.samples.length

/-! ### The tuner -/

variable [Timing R]

/-- `up_worker_tuner_init` -/
def workerTunerInit (initial limit : ℤ) : WorkerTuner R :=
  let limit := if limit < 1 then 1 else limit
  let limit := if limit > threadsMax then threadsMax else limit
  let initial := if initial < 1 then 1 else initial
  let initial := if initial > limit then limit else initial
  { limit := limit, best := initial, current := initial, candidate := 0, cursor := 0
    warmup := tunerWarmup, remaining := 0, drift := 0, changes := 0, samples := []
    baseUs := 0.0, trialUs := 0.0, steadyUs := 0.0, phase := .base }

/-- The `counts` table of `up_tuner_next_count`. -/
def tunerCounts : List ℤ := [1, 2, 4, 8, 12, 16, 24, 32, 48, 64]

/-- `up_tuner_next_count` -/
def tunerNextCount (previous limit : ℤ) : ℤ :=
  if previous ≥ limit then 0
  else
    match tunerCounts.find? fun c => decide (c > previous) with
    | some c => if c < limit then c else limit
    | none => 0

/-- `up_tuner_median`; the sorted values replace the samples. -/
def tunerMedian (values : List R) : R :=
  let sorted := ArraySort.sort values
  sorted.getD (values.length / 2 - 1) 0.0 / 2.0 + sorted.getD (values.length / 2) 0.0 / 2.0

/-- `up_tuner_settle` -/
def tunerSettle (t : WorkerTuner R) (elapsed : R) : WorkerTuner R :=
  { t with
    phase := .settled
    current := t.best
    steadyUs := elapsed
    remaining := tunerRecheckFrames
    drift := 0 }

/-- The cursor `up_tuner_begin_trial` moves to: the next count that is not the
best one. -/
def tunerNextCursor (t : WorkerTuner R) : ℤ :=
  let cursor := tunerNextCount t.cursor t.limit
  if cursor = t.best then tunerNextCount cursor t.limit else cursor

/-- `up_tuner_begin_trial` -/
def tunerBeginTrial (t : WorkerTuner R) (elapsed : R) : WorkerTuner R :=
  let t := { t with cursor := tunerNextCursor t }
  if t.cursor = 0 then tunerSettle t elapsed
  else
    { t with baseUs := elapsed, candidate := t.cursor, current := t.cursor, phase := .trial }

/-- `up_tuner_confirm` -/
def tunerConfirm (t : WorkerTuner R) (elapsed : R) : WorkerTuner R :=
  let reference := if t.baseUs < elapsed then t.baseUs else elapsed
  let t :=
    if t.trialUs < reference * 0.95 then
      { t with best := t.candidate, changes := (t.changes + 1) % 2 ^ 32 }
    else t
  { t with current := t.best, phase := .base }

/-- `up_tuner_monitor` -/
def tunerMonitor (t : WorkerTuner R) (elapsed : R) : WorkerTuner R :=
  if t.remaining > tunerRecheckFrames - tunerCooldownFrames then t
  else
    let shifted := elapsed > t.steadyUs * 1.35 ∨ elapsed < t.steadyUs * 0.65
    let t := { t with drift := if shifted then t.drift + 1 else 0 }
    if t.remaining > 0 ∧ t.drift < 3 then t
    else { t with cursor := 0, phase := .base, drift := 0 }

/-- `up_tuner_window` -/
def tunerWindow (t : WorkerTuner R) (elapsed : R) : WorkerTuner R :=
  match t.phase with
  | .base => tunerBeginTrial t elapsed
  | .trial => { t with trialUs := elapsed, current := t.best, phase := .confirm }
  | .confirm => tunerConfirm t elapsed
  | .settled => tunerMonitor t elapsed

/-- `up_tuner_trial_too_slow`: the returned flag and the tuner, whose samples are
sorted where the median is taken. -/
def tunerTrialTooSlow (t : WorkerTuner R) : Bool × WorkerTuner R :=
  if t.phase = .trial ∧ t.used = 4 then
    (decide (tunerMedian t.samples > t.baseUs * 1.5),
      { t with samples := ArraySort.sort t.samples })
  else (false, t)

/-- `up_worker_tuner_observe` once the sample is stored.  The second operand of
the `&&`, which may sort the samples, runs on a short window only. -/
def tunerSampleTaken (t : WorkerTuner R) : WorkerTuner R :=
  let slow := if t.used < tunerSamples then tunerTrialTooSlow t else (false, t)
  let t := slow.2
  if t.used < tunerSamples ∧ slow.1 = false then t
  else
    let previous := t.current
    let t := tunerWindow t (tunerMedian t.samples)
    let t := { t with samples := [] }
    if previous ≠ t.current then { t with warmup := tunerWarmup } else t

/-- `up_worker_tuner_observe`; `none` is an elapsed time that is not finite, for the
arithmetic that has no such value. -/
def workerTunerObserve (t : WorkerTuner R) (elapsed : Option R) : WorkerTuner R :=
  match elapsed with
  | none => t
  | some elapsed =>
    if Timing.isFinite elapsed = false ∨ elapsed ≤ 0.0 then t
    else if t.warmup > 0 then { t with warmup := t.warmup - 1 }
    else
      let t := if t.remaining > 0 then { t with remaining := t.remaining - 1 } else t
      tunerSampleTaken { t with samples := t.samples ++ [elapsed] }

/-- The tuner after a sequence of observations. -/
def tunerRun (t : WorkerTuner R) (elapsed : List (Option R)) : WorkerTuner R :=
  elapsed.foldl workerTunerObserve t

/-! ### The median -/

theorem tunerMedian_perm {l l' : List ℚ} (h : l.Perm l') : tunerMedian l = tunerMedian l' := by
  unfold tunerMedian
  rw [ArraySort.sort_eq_of_perm h, h.length_eq]

/-- In exact arithmetic the halves are halves. -/
theorem tunerMedian_eq (l : List ℚ) : tunerMedian l =
    (ArraySort.sort l).getD (l.length / 2 - 1) 0 / 2 +
      (ArraySort.sort l).getD (l.length / 2) 0 / 2 := by
  unfold tunerMedian
  norm_num

/-- A window of an even number of samples of which fewer than half differ from
`c` has median `c`. -/
theorem tunerMedian_of_majority {l : List ℚ} {c : ℚ} {m : ℕ} (hm : l.length = 2 * m)
    (hmaj : l.countP (fun u => decide (u ≠ c)) < m) : tunerMedian l = c := by
  have hlen : (ArraySort.sort l).length = 2 * m := (ArraySort.length_sort l).trans hm
  have hcount : (ArraySort.sort l).countP (fun u => decide (u ≠ c)) < m := by
    rwa [(ArraySort.sort_perm l).countP_eq]
  have hmid : ∀ i, i = m - 1 ∨ i = m → (ArraySort.sort l).getD i 0 = c := by
    intro i hi
    have hlt : i < (ArraySort.sort l).length := by omega
    rw [List.getD_eq_getElem?_getD, List.getElem?_eq_getElem hlt, Option.getD_some]
    exact ArraySort.getElem_eq_of_few (ArraySort.sort_sorted l) hlt (by omega) (by omega)
  have hhalf : l.length / 2 = m := by omega
  rw [tunerMedian_eq, hhalf, hmid _ (.inl rfl), hmid _ (.inr rfl)]
  ring

/-- The median of positive samples is positive. -/
theorem tunerMedian_pos {l : List ℚ} (hpos : ∀ u ∈ l, 0 < u) (hlen : 2 ≤ l.length) :
    0 < tunerMedian l := by
  have hmid : ∀ i < l.length, 0 < (ArraySort.sort l).getD i 0 := by
    intro i hi
    have hlt : i < (ArraySort.sort l).length := by rwa [ArraySort.length_sort]
    rw [List.getD_eq_getElem?_getD, List.getElem?_eq_getElem hlt, Option.getD_some]
    exact hpos _ ((ArraySort.sort_perm l).mem_iff.mp (List.getElem_mem hlt))
  have hlow := hmid (l.length / 2 - 1) (by omega)
  have hhigh := hmid (l.length / 2) (by omega)
  rw [tunerMedian_eq]
  positivity

/-! ### The sweep of counts -/

/-- The counts a sweep up to `limit` visits. -/
def TunerGrid (limit k : ℤ) : Prop := (k ∈ tunerCounts ∧ k < limit) ∨ k = limit

/-- The first entry of an ascending table above a value skips no entry. -/
theorem find_above {counts : List ℤ} (hsorted : counts.Pairwise (· < ·)) {previous c : ℤ}
    (h : counts.find? (fun c => decide (c > previous)) = some c) :
    previous < c ∧ c ∈ counts ∧ ∀ k ∈ counts, previous < k → c ≤ k := by
  refine ⟨by simpa using List.find?_some h, List.mem_of_find?_eq_some h, ?_⟩
  induction counts with
  | nil => cases h
  | cons a rest ih =>
    obtain ⟨ha, hrest⟩ := List.pairwise_cons.mp hsorted
    intro k hk hlt
    by_cases hgt : a > previous
    · rw [List.find?_cons_of_pos (by simpa using hgt)] at h
      obtain rfl := Option.some.inj h
      obtain rfl | hk := List.mem_cons.mp hk
      · exact le_rfl
      · exact (ha k hk).le
    · rw [List.find?_cons_of_neg (by simpa using hgt)] at h
      obtain rfl | hk := List.mem_cons.mp hk
      · exact absurd hlt hgt
      · exact ih hrest h k hk hlt

/-- The next count is 0 at the end of the sweep; before it is the next count of
the grid. -/
theorem tunerNextCount_cases (previous : ℤ) {limit : ℤ} (hlimit : limit ≤ threadsMax) :
    (limit ≤ previous ∧ tunerNextCount previous limit = 0) ∨
      (previous < tunerNextCount previous limit ∧ tunerNextCount previous limit ≤ limit ∧
        TunerGrid limit (tunerNextCount previous limit) ∧
        ∀ k, TunerGrid limit k → previous < k → tunerNextCount previous limit ≤ k) := by
  unfold tunerNextCount
  by_cases hend : previous ≥ limit
  · exact .inl ⟨hend, if_pos hend⟩
  rw [if_neg hend]
  right
  -- below the limit the table does not run out, for it ends on 64
  have hexists : ∃ c, tunerCounts.find? (fun c => decide (c > previous)) = some c := by
    rw [← Option.isSome_iff_exists, List.find?_isSome]
    refine ⟨64, by decide, ?_⟩
    unfold threadsMax at hlimit
    exact decide_eq_true (by omega)
  obtain ⟨c, hc⟩ := hexists
  obtain ⟨hlt, hmem, hleast⟩ := find_above (by decide) hc
  rw [hc]
  dsimp only
  split_ifs with hcl
  · refine ⟨hlt, hcl.le, .inl ⟨hmem, hcl⟩, ?_⟩
    rintro k (⟨hk, -⟩ | rfl) hpk
    · exact hleast k hk hpk
    · exact hcl.le
  · refine ⟨by omega, le_rfl, .inr rfl, ?_⟩
    rintro k (⟨hk, hkl⟩ | rfl) hpk
    · exact absurd (hleast k hk hpk) (by omega)
    · exact le_rfl

/-! ### What one observation can do -/

/-- A trial window that is cut short: four samples, and too slow. -/
def TrialTooSlow (t : WorkerTuner R) (window : List R) : Prop :=
  t.phase = .trial ∧ window.length = 4 ∧ t.baseUs * 1.5 < tunerMedian window

/-- The end of a window whose median is `elapsed`. -/
def tunerClose (t : WorkerTuner R) (elapsed : R) : WorkerTuner R :=
  { tunerWindow t elapsed with
    samples := []
    warmup := if t.current ≠ (tunerWindow t elapsed).current then tunerWarmup
      else (tunerWindow t elapsed).warmup }

/-- The window end reads no sample. -/
theorem tunerWindow_samples (t : WorkerTuner R) (s : List R) (elapsed : R) :
    tunerWindow { t with samples := s } elapsed =
      { tunerWindow t elapsed with samples := s } := by
  have hbase : tunerBeginTrial { t with samples := s } elapsed =
      { tunerBeginTrial t elapsed with samples := s } := by
    unfold tunerBeginTrial tunerNextCursor tunerSettle
    dsimp only
    split_ifs <;> rfl
  have hconfirm : tunerConfirm { t with samples := s } elapsed =
      { tunerConfirm t elapsed with samples := s } := by
    unfold tunerConfirm
    dsimp only
    split_ifs <;> rfl
  have hsettled : tunerMonitor { t with samples := s } elapsed =
      { tunerMonitor t elapsed with samples := s } := by
    unfold tunerMonitor
    dsimp only
    split_ifs <;> rfl
  unfold tunerWindow
  dsimp only
  split
  · exact hbase
  · rfl
  · exact hconfirm
  · exact hsettled

/-- The slow check on a window: whether the trial is too slow, and the same
samples in some order. -/
theorem tunerTrialTooSlow_cases (t : WorkerTuner R) (window : List R) :
    ∃ s, s.Perm window ∧
      ((TrialTooSlow t window ∧
          tunerTrialTooSlow { t with samples := window } = (true, { t with samples := s })) ∨
        (¬ TrialTooSlow t window ∧
          tunerTrialTooSlow { t with samples := window } = (false, { t with samples := s }))) := by
  unfold tunerTrialTooSlow
  by_cases hfour : t.phase = .trial ∧ window.length = 4
  · refine ⟨ArraySort.sort window, ArraySort.sort_perm _, ?_⟩
    by_cases hslow : t.baseUs * 1.5 < tunerMedian window
    · exact .inl ⟨⟨hfour.1, hfour.2, hslow⟩, (if_pos hfour).trans (by rw [decide_eq_true hslow])⟩
    · exact .inr ⟨fun h => hslow h.2.2, (if_pos hfour).trans (by rw [decide_eq_false hslow])⟩
  · exact ⟨window, .refl _, .inr ⟨fun h => hfour ⟨h.1, h.2.1⟩, if_neg hfour⟩⟩

/-- The end of the window `u` holds, whatever the order of its samples. -/
theorem tunerSampleTaken_close {t u : WorkerTuner R} {s : List R} {slow : Bool}
    (hslow : (if u.used < tunerSamples then tunerTrialTooSlow u else (false, u)) =
      (slow, { t with samples := s }))
    (hend : ¬ (s.length < tunerSamples ∧ slow = false)) :
    tunerSampleTaken u = tunerClose t (tunerMedian s) := by
  unfold tunerSampleTaken
  rw [hslow]
  refine (if_neg hend).trans ?_
  dsimp only
  rw [tunerWindow_samples]
  unfold tunerClose
  dsimp only
  split_ifs <;> rfl

/-- A window that goes on. -/
theorem tunerSampleTaken_continue {t u : WorkerTuner R} {s : List R}
    (hslow : (if u.used < tunerSamples then tunerTrialTooSlow u else (false, u)) =
      (false, { t with samples := s })) (hs : s.length < tunerSamples) :
    tunerSampleTaken u = { t with samples := s } := by
  unfold tunerSampleTaken
  rw [hslow]
  exact if_pos ⟨hs, rfl⟩

/-- A time that counts. -/
def ValidTime (e : R) : Prop := Timing.isFinite e = true ∧ ¬ e ≤ 0.0

instance (e : R) : Decidable (ValidTime e) := inferInstanceAs (Decidable (_ ∧ _))

theorem not_validTime {e : R} : ¬ ValidTime e ↔ Timing.isFinite e = false ∨ e ≤ 0.0 := by
  unfold ValidTime
  rw [not_and_or, not_not, Bool.not_eq_true]

theorem ValidTime.accepted {e : R} (h : ValidTime e) :
    ¬ (Timing.isFinite e = false ∨ e ≤ 0.0) := by
  intro hignored
  exact not_validTime.mpr hignored h

/-- An ignored value: not finite, or not positive. -/
theorem workerTunerObserve_ignored {t : WorkerTuner R} {elapsed : Option R}
    (h : ∀ e, elapsed = some e → ¬ ValidTime e) : workerTunerObserve t elapsed = t := by
  cases elapsed with
  | none => rfl
  | some e => exact if_pos (not_validTime.mp (h e rfl))

/-- A valid time during the warm-up is discarded. -/
theorem workerTunerObserve_discarded {t : WorkerTuner R} {e : R} (he : ValidTime e)
    (hwarm : 0 < t.warmup) :
    workerTunerObserve t (some e) = { t with warmup := t.warmup - 1 } := by
  unfold workerTunerObserve
  dsimp only
  rw [if_neg he.accepted, if_pos hwarm]

omit [Timing R] in
theorem remaining_countdown (t : WorkerTuner R) :
    (if t.remaining > 0 then { t with remaining := t.remaining - 1 } else t) =
      { t with remaining := t.remaining - 1 } := by
  split_ifs with h
  · rfl
  · rw [show t.remaining - 1 = t.remaining by omega]

/-- A valid time after the warm-up is stored. -/
theorem workerTunerObserve_stored {t : WorkerTuner R} {e : R} (he : ValidTime e)
    (hwarm : t.warmup = 0) :
    workerTunerObserve t (some e) =
      tunerSampleTaken { t with remaining := t.remaining - 1, samples := t.samples ++ [e] } := by
  unfold workerTunerObserve
  dsimp only
  rw [if_neg he.accepted, if_neg (by omega), remaining_countdown]

/-- A value is ignored or a valid time. -/
theorem ignored_or_valid (elapsed : Option R) :
    (∀ e, elapsed = some e → ¬ ValidTime e) ∨ ∃ e, elapsed = some e ∧ ValidTime e := by
  by_cases h : ∀ e, elapsed = some e → ¬ ValidTime e
  · exact .inl h
  · push Not at h
    exact .inr h

/-- The window may have been sorted on the way; only a trial's is. -/
structure Reordered (t : WorkerTuner R) (window s : List R) : Prop where
  perm : s.Perm window
  kept : t.phase ≠ .trial → s = window

theorem tunerTrialTooSlow_reordered (t : WorkerTuner R) (window : List R) :
    ∃ s, Reordered t window s ∧
      ((TrialTooSlow t window ∧
          tunerTrialTooSlow { t with samples := window } = (true, { t with samples := s })) ∨
        (¬ TrialTooSlow t window ∧
          tunerTrialTooSlow { t with samples := window } = (false, { t with samples := s }))) := by
  by_cases htrial : t.phase = .trial
  · obtain ⟨s, hperm, hcheck⟩ := tunerTrialTooSlow_cases t window
    exact ⟨s, ⟨hperm, fun hne => absurd htrial hne⟩, hcheck⟩
  · refine ⟨window, ⟨.refl _, fun _ => rfl⟩, .inr ⟨fun h => htrial h.1, ?_⟩⟩
    unfold tunerTrialTooSlow
    exact if_neg fun h => htrial h.1

/-- **One observation of a valid time**: a warm-up discard, one more sample of the
window, or the end of the window. -/
theorem workerTunerObserve_cases {t : WorkerTuner R} {e : R} (he : ValidTime e)
    (hused : t.used < 16) :
    (0 < t.warmup ∧ workerTunerObserve t (some e) = { t with warmup := t.warmup - 1 }) ∨
    (t.warmup = 0 ∧ t.used + 1 < 16 ∧ ¬ TrialTooSlow t (t.samples ++ [e]) ∧
      ∃ s, Reordered t (t.samples ++ [e]) s ∧
        workerTunerObserve t (some e) = { t with remaining := t.remaining - 1, samples := s }) ∨
    (t.warmup = 0 ∧ (t.used + 1 = 16 ∨ TrialTooSlow t (t.samples ++ [e])) ∧
      ∃ s, Reordered t (t.samples ++ [e]) s ∧
        workerTunerObserve t (some e) =
          tunerClose { t with remaining := t.remaining - 1 } (tunerMedian s)) := by
  by_cases hwarm : 0 < t.warmup
  · exact .inl ⟨hwarm, workerTunerObserve_discarded he hwarm⟩
  right
  rw [workerTunerObserve_stored he (by omega)]
  have hlen : (t.samples ++ [e]).length = t.used + 1 := by
    rw [List.length_append, List.length_singleton]
    rfl
  generalize t.samples ++ [e] = window at hlen
  -- the countdown changes nothing that the window's end depends on
  obtain ⟨r, hr⟩ : ∃ r : WorkerTuner R, r = { t with remaining := t.remaining - 1 } := ⟨_, rfl⟩
  have hstored : ({ t with remaining := t.remaining - 1, samples := window } : WorkerTuner R) =
      { r with samples := window } := by rw [hr]
  have hiff : TrialTooSlow r window ↔ TrialTooSlow t window := by
    rw [hr]
    rfl
  have hphase : r.phase = t.phase := by rw [hr]
  rw [hstored, ← hr]
  by_cases hshort : window.length < tunerSamples
  · obtain ⟨s, hsame, ⟨hslow, heq⟩ | ⟨hslow, heq⟩⟩ := tunerTrialTooSlow_reordered r window
    · right
      refine ⟨by omega, .inr (hiff.mp hslow), s, ⟨hsame.perm, hphase ▸ hsame.kept⟩, ?_⟩
      exact tunerSampleTaken_close (u := { r with samples := window })
        ((if_pos hshort).trans heq) (by simp)
    · left
      refine ⟨by omega, hlen ▸ hshort, mt hiff.mpr hslow, s, ⟨hsame.perm, hphase ▸ hsame.kept⟩, ?_⟩
      have hgoes := tunerSampleTaken_continue (u := { r with samples := window })
        ((if_pos hshort).trans heq) (hsame.perm.length_eq ▸ hshort)
      rw [hgoes, hr]
  · right
    refine ⟨by omega, .inl (by unfold tunerSamples at hshort; omega), window,
      ⟨.refl _, fun _ => rfl⟩, ?_⟩
    exact tunerSampleTaken_close (t := r) (u := { r with samples := window }) (if_neg hshort)
      (fun h => hshort h.1)

theorem valid_iff_pos {e : ℚ} : ValidTime e ↔ 0 < e := by
  show true = true ∧ ¬ e ≤ 0.0 ↔ _
  rw [show (0.0 : ℚ) = 0 by norm_num, not_le]
  exact and_iff_right rfl

theorem workerTunerObserve_nonpos {t : WorkerTuner ℚ} {elapsed : Option ℚ}
    (h : ∀ e, elapsed = some e → e ≤ 0) : workerTunerObserve t elapsed = t :=
  workerTunerObserve_ignored fun e he hv => absurd (h e he) (not_le.mpr (valid_iff_pos.mp hv))

/-- **One observation of an exact time**: a window ends on the median of its
samples in whatever order. -/
theorem workerTunerObserve_exact {t : WorkerTuner ℚ} {e : ℚ} (he : 0 < e) (hused : t.used < 16) :
    (0 < t.warmup ∧ workerTunerObserve t (some e) = { t with warmup := t.warmup - 1 }) ∨
    (t.warmup = 0 ∧ t.used + 1 < 16 ∧ ¬ TrialTooSlow t (t.samples ++ [e]) ∧
      ∃ s, s.Perm (t.samples ++ [e]) ∧
        workerTunerObserve t (some e) = { t with remaining := t.remaining - 1, samples := s }) ∨
    (t.warmup = 0 ∧ (t.used + 1 = 16 ∨ TrialTooSlow t (t.samples ++ [e])) ∧
      workerTunerObserve t (some e) =
        tunerClose { t with remaining := t.remaining - 1 } (tunerMedian (t.samples ++ [e]))) := by
  obtain h | ⟨hwarm, hshort, hslow, s, hs, heq⟩ | ⟨hwarm, hend, s, hs, heq⟩ :=
    workerTunerObserve_cases (valid_iff_pos.mpr he) hused
  · exact .inl h
  · exact .inr (.inl ⟨hwarm, hshort, hslow, s, hs.perm, heq⟩)
  · exact .inr (.inr ⟨hwarm, hend, by rw [heq, tunerMedian_perm hs.perm]⟩)

/-! ### The end of a window, phase by phase -/

section Close

variable {t : WorkerTuner R} (elapsed : R)

/-- A window end that changes the count in force starts the next one on discards. -/
theorem tunerClose_moved {u : WorkerTuner R} (hwindow : tunerWindow t elapsed = u)
    (hne : t.current ≠ u.current) :
    tunerClose t elapsed = { u with samples := [], warmup := tunerWarmup } := by
  unfold tunerClose
  rw [hwindow, if_pos hne]

theorem tunerClose_stayed {u : WorkerTuner R} (hwindow : tunerWindow t elapsed = u)
    (heq : t.current = u.current) : tunerClose t elapsed = { u with samples := [] } := by
  unfold tunerClose
  rw [hwindow, if_neg (not_not.mpr heq)]

/-- A base window that finds a next count starts its trial. -/
theorem tunerClose_begin (hphase : t.phase = .base) (hcursor : tunerNextCursor t ≠ 0)
    (hne : tunerNextCursor t ≠ t.current) :
    tunerClose t elapsed =
      { t with
        cursor := tunerNextCursor t, baseUs := elapsed, candidate := tunerNextCursor t
        current := tunerNextCursor t, phase := .trial, samples := [], warmup := tunerWarmup } := by
  have hwindow : tunerWindow t elapsed =
      { t with
        cursor := tunerNextCursor t, baseUs := elapsed, candidate := tunerNextCursor t
        current := tunerNextCursor t, phase := .trial } := by
    unfold tunerWindow
    rw [hphase]
    exact if_neg hcursor
  exact tunerClose_moved elapsed hwindow hne.symm

/-- A base window at the end of the sweep settles. -/
theorem tunerClose_settle (hphase : t.phase = .base) (hcursor : tunerNextCursor t = 0)
    (hcurrent : t.current = t.best) :
    tunerClose t elapsed =
      { t with
        cursor := 0, phase := .settled, steadyUs := elapsed
        remaining := tunerRecheckFrames, drift := 0, samples := [] } := by
  have hwindow : tunerWindow t elapsed =
      { t with
        cursor := 0, phase := .settled, steadyUs := elapsed
        remaining := tunerRecheckFrames, drift := 0 } := by
    unfold tunerWindow
    rw [hphase]
    dsimp only
    unfold tunerBeginTrial
    dsimp only
    rw [if_pos hcursor, hcursor]
    unfold tunerSettle
    dsimp only
    rw [← hcurrent]
  exact tunerClose_stayed elapsed hwindow rfl

/-- A trial window hands over to the confirmation on the best count. -/
theorem tunerClose_trial (hphase : t.phase = .trial) (hne : t.current ≠ t.best) :
    tunerClose t elapsed =
      { t with
        trialUs := elapsed, current := t.best, phase := .confirm
        samples := [], warmup := tunerWarmup } := by
  have hwindow : tunerWindow t elapsed =
      { t with trialUs := elapsed, current := t.best, phase := .confirm } := by
    unfold tunerWindow
    rw [hphase]
  exact tunerClose_moved elapsed hwindow hne

/-- The gain a confirmation asks for. -/
def VerifiedGain (t : WorkerTuner R) (elapsed : R) : Prop :=
  t.trialUs < (if t.baseUs < elapsed then t.baseUs else elapsed) * 0.95

theorem verifiedGain_iff {t : WorkerTuner ℚ} {elapsed : ℚ} :
    VerifiedGain t elapsed ↔ t.trialUs < min t.baseUs elapsed * (95 / 100) := by
  have hmin : (if t.baseUs < elapsed then t.baseUs else elapsed) = min t.baseUs elapsed := by
    rcases lt_or_ge t.baseUs elapsed with h | h
    · rw [if_pos h, min_eq_left h.le]
    · rw [if_neg (not_lt.mpr h), min_eq_right h]
  show t.trialUs < (if t.baseUs < elapsed then t.baseUs else elapsed) * 0.95 ↔ _
  rw [hmin, show (0.95 : ℚ) = 95 / 100 by norm_num]

theorem trialTooSlow_iff {t : WorkerTuner ℚ} {window : List ℚ} : TrialTooSlow t window ↔
    t.phase = .trial ∧ window.length = 4 ∧ t.baseUs * (15 / 10) < tunerMedian window := by
  show t.phase = .trial ∧ window.length = 4 ∧ t.baseUs * 1.5 < tunerMedian window ↔ _
  rw [show (1.5 : ℚ) = 15 / 10 by norm_num]

/-- A confirmed gain makes the candidate the best count. -/
theorem tunerClose_accept (hphase : t.phase = .confirm) (hgain : VerifiedGain t elapsed)
    (hcurrent : t.current = t.best) (hne : t.candidate ≠ t.best) :
    tunerClose t elapsed =
      { t with
        best := t.candidate, current := t.candidate, changes := (t.changes + 1) % 2 ^ 32
        phase := .base, samples := [], warmup := tunerWarmup } := by
  have hwindow : tunerWindow t elapsed =
      { t with
        best := t.candidate, current := t.candidate, changes := (t.changes + 1) % 2 ^ 32
        phase := .base } := by
    unfold tunerWindow
    rw [hphase]
    dsimp only
    unfold tunerConfirm
    unfold VerifiedGain at hgain
    simp only [if_pos hgain]
  exact tunerClose_moved elapsed hwindow (by rw [hcurrent]; exact hne.symm)

/-- Without the gain the best count stays. -/
theorem tunerClose_reject (hphase : t.phase = .confirm) (hgain : ¬ VerifiedGain t elapsed)
    (hcurrent : t.current = t.best) :
    tunerClose t elapsed = { t with phase := .base, samples := [] } := by
  have hwindow : tunerWindow t elapsed = { t with phase := .base } := by
    unfold tunerWindow
    rw [hphase]
    dsimp only
    unfold tunerConfirm
    unfold VerifiedGain at hgain
    simp only [if_neg hgain, ← hcurrent]
  exact tunerClose_stayed elapsed hwindow rfl

/-- A settled window is monitored on the count in force. -/
theorem tunerClose_settled (hphase : t.phase = .settled) :
    tunerClose t elapsed = { tunerMonitor t elapsed with samples := [] } := by
  have hwindow : tunerWindow t elapsed = tunerMonitor t elapsed := by
    unfold tunerWindow
    rw [hphase]
  have hcurrent : (tunerMonitor t elapsed).current = t.current := by
    unfold tunerMonitor
    dsimp only
    split_ifs <;> rfl
  exact tunerClose_stayed elapsed hwindow hcurrent.symm

/-- A settled window keeps monitoring or restarts the sweep. -/
theorem tunerClose_monitor (hphase : t.phase = .settled) :
    (∃ drift, tunerClose t elapsed = { t with drift := drift, samples := [] }) ∨
      tunerClose t elapsed = { t with cursor := 0, phase := .base, drift := 0, samples := [] } := by
  rw [tunerClose_settled elapsed hphase]
  unfold tunerMonitor
  dsimp only
  split_ifs
  · exact .inl ⟨t.drift, rfl⟩
  · exact .inl ⟨_, rfl⟩
  · exact .inr rfl
  · exact .inl ⟨_, rfl⟩
  · exact .inr rfl

end Close

/-! ### The invariant of the counts -/

/-- What every reachable tuner satisfies. -/
structure TunerInv (t : WorkerTuner R) : Prop where
  limit_pos : 1 ≤ t.limit
  limit_le : t.limit ≤ threadsMax
  best_pos : 1 ≤ t.best
  best_le : t.best ≤ t.limit
  used_lt : t.used < tunerSamples
  cursor_nonneg : 0 ≤ t.cursor
  /-- A discard only starts a window. -/
  warmup_empty : 0 < t.warmup → t.samples = []
  current_trial : t.phase = .trial → t.current = t.candidate
  current_eq : t.phase ≠ .trial → t.current = t.best
  /-- A candidate under trial or confirmation is another count in range. -/
  candidate : t.phase = .trial ∨ t.phase = .confirm →
    t.candidate ≠ t.best ∧ 1 ≤ t.candidate ∧ t.candidate ≤ t.limit

theorem tunerSamples_pos : 0 < tunerSamples := by decide

omit [Timing R] in
theorem TunerInv.current_range {t : WorkerTuner R} (h : TunerInv t) :
    1 ≤ t.current ∧ t.current ≤ t.limit := by
  by_cases hphase : t.phase = .trial
  · rw [h.current_trial hphase]
    exact (h.candidate (.inl hphase)).2
  · rw [h.current_eq hphase]
    exact ⟨h.best_pos, h.best_le⟩

theorem workerTunerInit_inv (initial limit : ℤ) :
    TunerInv (workerTunerInit initial limit : WorkerTuner R) := by
  have h64 : (1 : ℤ) ≤ threadsMax := by decide
  unfold workerTunerInit
  refine
    { limit_pos := ?_
      limit_le := ?_
      best_pos := ?_
      best_le := ?_
      used_lt := tunerSamples_pos
      cursor_nonneg := le_rfl
      warmup_empty := fun _ => rfl
      current_trial := nofun
      current_eq := fun _ => rfl
      candidate := nofun }
  all_goals
    dsimp only
    split_ifs <;> omega

omit [Timing R] in
/-- The count a trial starts on: in range, past the cursor, not the best one. -/
theorem tunerNextCursor_spec {t : WorkerTuner R} (h : TunerInv t) (hne : tunerNextCursor t ≠ 0) :
    1 ≤ tunerNextCursor t ∧ tunerNextCursor t ≤ t.limit ∧ tunerNextCursor t ≠ t.best := by
  have hcursor := h.cursor_nonneg
  have hbest := h.best_pos
  unfold tunerNextCursor at hne ⊢
  dsimp only at hne ⊢
  split_ifs at hne ⊢ with heq
  · obtain ⟨-, hzero⟩ | ⟨hlt, hle, -, -⟩ :=
      tunerNextCount_cases (tunerNextCount t.cursor t.limit) h.limit_le
    · exact absurd hzero hne
    · omega
  · obtain ⟨-, hzero⟩ | ⟨hlt, hle, -, -⟩ :=
      tunerNextCount_cases t.cursor h.limit_le
    · exact absurd hzero hne
    · omega

/-- The ways a window of a valid tuner can end, phase by phase. -/
inductive WindowEnd (t : WorkerTuner R) (elapsed : R) : WorkerTuner R → Prop
  | settle (hphase : t.phase = .base) (hcurrent : t.current = t.best)
      (hcursor : tunerNextCursor t = 0) :
      WindowEnd t elapsed
        { t with
          cursor := 0, phase := .settled, steadyUs := elapsed
          remaining := tunerRecheckFrames, drift := 0, samples := [] }
  | start (hphase : t.phase = .base) (hcurrent : t.current = t.best)
      (hcursor : tunerNextCursor t ≠ 0) (hne : tunerNextCursor t ≠ t.best)
      (hpos : 1 ≤ tunerNextCursor t) (hle : tunerNextCursor t ≤ t.limit) :
      WindowEnd t elapsed
        { t with
          cursor := tunerNextCursor t, baseUs := elapsed, candidate := tunerNextCursor t
          current := tunerNextCursor t, phase := .trial, samples := [], warmup := tunerWarmup }
  | confirm (hphase : t.phase = .trial) (hcurrent : t.current = t.candidate)
      (hne : t.candidate ≠ t.best) :
      WindowEnd t elapsed
        { t with
          trialUs := elapsed, current := t.best, phase := .confirm
          samples := [], warmup := tunerWarmup }
  | accept (hphase : t.phase = .confirm) (hcurrent : t.current = t.best)
      (hne : t.candidate ≠ t.best) (hgain : VerifiedGain t elapsed) :
      WindowEnd t elapsed
        { t with
          best := t.candidate, current := t.candidate, changes := (t.changes + 1) % 2 ^ 32
          phase := .base, samples := [], warmup := tunerWarmup }
  | reject (hphase : t.phase = .confirm) (hcurrent : t.current = t.best)
      (hgain : ¬ VerifiedGain t elapsed) :
      WindowEnd t elapsed { t with phase := .base, samples := [] }
  | stay (drift : ℕ) (hphase : t.phase = .settled) (hcurrent : t.current = t.best) :
      WindowEnd t elapsed { t with drift := drift, samples := [] }
  | restart (hphase : t.phase = .settled) (hcurrent : t.current = t.best) :
      WindowEnd t elapsed { t with cursor := 0, phase := .base, drift := 0, samples := [] }

theorem tunerClose_end {t : WorkerTuner R} (h : TunerInv t) (elapsed : R) :
    WindowEnd t elapsed (tunerClose t elapsed) := by
  cases hphase : t.phase with
  | base =>
    have hcurrent := h.current_eq (by rw [hphase]; decide)
    by_cases hcursor : tunerNextCursor t = 0
    · rw [tunerClose_settle elapsed hphase hcursor hcurrent]
      exact .settle hphase hcurrent hcursor
    · obtain ⟨hpos, hle, hne⟩ := tunerNextCursor_spec h hcursor
      rw [tunerClose_begin elapsed hphase hcursor (by rw [hcurrent]; exact hne)]
      exact .start hphase hcurrent hcursor hne hpos hle
  | trial =>
    have hcurrent := h.current_trial hphase
    have hne := (h.candidate (.inl hphase)).1
    rw [tunerClose_trial elapsed hphase (by rw [hcurrent]; exact hne)]
    exact .confirm hphase hcurrent hne
  | confirm =>
    have hcurrent := h.current_eq (by rw [hphase]; decide)
    have hne := (h.candidate (.inr hphase)).1
    by_cases hgain : VerifiedGain t elapsed
    · rw [tunerClose_accept elapsed hphase hgain hcurrent hne]
      exact .accept hphase hcurrent hne hgain
    · rw [tunerClose_reject elapsed hphase hgain hcurrent]
      exact .reject hphase hcurrent hgain
  | settled =>
    have hcurrent := h.current_eq (by rw [hphase]; decide)
    obtain ⟨drift, heq⟩ | heq := tunerClose_monitor elapsed hphase
    · rw [heq]
      exact .stay drift hphase hcurrent
    · rw [heq]
      exact .restart hphase hcurrent

omit [Timing R] in
/-- The recheck countdown is not part of the invariant. -/
theorem TunerInv.setRemaining {t : WorkerTuner R} (h : TunerInv t) (r : ℕ) :
    TunerInv { t with remaining := r } :=
  ⟨h.limit_pos, h.limit_le, h.best_pos, h.best_le, h.used_lt, h.cursor_nonneg, h.warmup_empty,
    h.current_trial, h.current_eq, h.candidate⟩

theorem tunerClose_inv {t : WorkerTuner R} (h : TunerInv t) (elapsed : R) :
    TunerInv (tunerClose t elapsed) := by
  have hend := tunerClose_end h elapsed
  obtain ⟨hlp, hl, hbp, hb, -, hc, -, -, -, hcand⟩ := h
  generalize tunerClose t elapsed = u at hend
  cases hend with
  | settle _ hcurrent =>
    exact ⟨hlp, hl, hbp, hb, tunerSamples_pos, le_rfl, fun _ => rfl, nofun, fun _ => hcurrent,
      nofun⟩
  | start _ _ _ hne hpos hle =>
    exact ⟨hlp, hl, hbp, hb, tunerSamples_pos, by dsimp only; omega, fun _ => rfl, fun _ => rfl,
      fun hn => absurd rfl hn, fun _ => ⟨hne, hpos, hle⟩⟩
  | confirm hphase =>
    exact ⟨hlp, hl, hbp, hb, tunerSamples_pos, hc, fun _ => rfl, nofun, fun _ => rfl,
      fun _ => hcand (.inl hphase)⟩
  | accept hphase =>
    obtain ⟨-, hpos, hle⟩ := hcand (.inr hphase)
    exact ⟨hlp, hl, hpos, hle, tunerSamples_pos, hc, fun _ => rfl, nofun, fun _ => rfl, nofun⟩
  | reject _ hcurrent =>
    exact ⟨hlp, hl, hbp, hb, tunerSamples_pos, hc, fun _ => rfl, nofun, fun _ => hcurrent, nofun⟩
  | stay drift hphase hcurrent =>
    refine ⟨hlp, hl, hbp, hb, tunerSamples_pos, hc, fun _ => rfl, ?_, fun _ => hcurrent, ?_⟩
    · intro htrial
      exact absurd (hphase.symm.trans htrial) (by decide)
    · intro hother
      exact hcand hother
  | restart _ hcurrent =>
    exact ⟨hlp, hl, hbp, hb, tunerSamples_pos, le_rfl, fun _ => rfl, nofun, fun _ => hcurrent,
      nofun⟩

theorem workerTunerObserve_inv {t : WorkerTuner R} (h : TunerInv t) (elapsed : Option R) :
    TunerInv (workerTunerObserve t elapsed) := by
  obtain hignored | ⟨e, rfl, he⟩ := ignored_or_valid elapsed
  · rw [workerTunerObserve_ignored hignored]
    exact h
  obtain ⟨hwarm, heq⟩ | ⟨hwarm, hused, -, s, hs, heq⟩ | ⟨hwarm, -, s, -, heq⟩ :=
    workerTunerObserve_cases he h.used_lt
  · rw [heq]
    exact { h with warmup_empty := fun _ => h.warmup_empty hwarm }
  · rw [heq]
    have hlen : s.length = t.used + 1 := by
      rw [hs.perm.length_eq, List.length_append]
      rfl
    exact
      { h with
        used_lt := by
          change s.length < 16
          omega
        warmup_empty := fun hpos => by
          change 0 < t.warmup at hpos
          omega }
  · rw [heq]
    exact tunerClose_inv (h.setRemaining _) _

theorem tunerWindow_limit (t : WorkerTuner R) (elapsed : R) :
    (tunerWindow t elapsed).limit = t.limit := by
  unfold tunerWindow
  split
  · unfold tunerBeginTrial tunerSettle
    dsimp only
    split_ifs <;> rfl
  · rfl
  · unfold tunerConfirm
    dsimp only
    split_ifs <;> rfl
  · unfold tunerMonitor
    dsimp only
    split_ifs <;> rfl

theorem workerTunerObserve_limit (t : WorkerTuner R) (elapsed : Option R) :
    (workerTunerObserve t elapsed).limit = t.limit := by
  have htaken (u : WorkerTuner R) : (tunerSampleTaken u).limit = u.limit := by
    have hslow : (if u.used < tunerSamples then tunerTrialTooSlow u else (false, u)).2.limit =
        u.limit := by
      unfold tunerTrialTooSlow
      split_ifs <;> rfl
    unfold tunerSampleTaken
    dsimp only
    generalize (if u.used < tunerSamples then tunerTrialTooSlow u else (false, u)) = slow at hslow ⊢
    split_ifs
    · exact hslow
    all_goals exact (tunerWindow_limit _ _).trans hslow
  unfold workerTunerObserve
  split
  · rfl
  dsimp only
  split_ifs
  · rfl
  · rfl
  · exact htaken _
  · exact htaken _

/-- **The counts stay in range in every run.** -/
theorem tunerRun_inv {t : WorkerTuner R} (h : TunerInv t) (elapsed : List (Option R)) :
    TunerInv (tunerRun t elapsed) := by
  induction elapsed generalizing t with
  | nil => exact h
  | cons e rest ih => exact ih (workerTunerObserve_inv h e)

theorem tunerRun_limit (t : WorkerTuner R) (elapsed : List (Option R)) :
    (tunerRun t elapsed).limit = t.limit := by
  induction elapsed generalizing t with
  | nil => rfl
  | cons e rest ih => exact (ih _).trans (workerTunerObserve_limit t e)

end AutoUpscale
