/-
The value a window ends on is the true median of its samples.

`WorkerTuner` keeps the samples of a window as a list.  Here the tuner has the
array it has in the source: `used` counts its filled cells, `up_tuner_median`
sorts a prefix in place, and cells of earlier windows stay where they are.

- `workerTunerObserveArray_toTuner`: the list is what the first `used` cells hold.
- `tunerMedian_trueMedian`: in exact arithmetic the sorted middle is the mean of two order
  statistics.
- `TraceInv.observe`: what one observation keeps of the record of a run.
- `tuner_decides_on_true_median`: every window of a run ends on the median of
  exactly the samples accepted for it.
-/
import AutoUpscale.InPlaceSort
import AutoUpscale.TunerGain

namespace AutoUpscale

open InPlaceSort (cells cells_update cells_congr getD_cells length_cells sortPrefix
  sortPrefix_cells sortPrefix_frame)

/-! ### The tuner and its array -/

/-- `up_worker_tuner_t` with its `samples` array: the other fields are those of
`tuner`, whose own list plays no part. -/
structure TunerArray (R : Type) where
  tuner : WorkerTuner R
  used : ℕ
  samples : ℕ → R

variable {R : Type} [Timing R]

/-- `up_worker_tuner_init`; `memset` clears the array. -/
def workerTunerInitArray (initial limit : ℤ) : TunerArray R :=
  { tuner := workerTunerInit initial limit, used := 0, samples := fun _ => 0.0 }

/-- `up_tuner_median`: the median, and the array it leaves. -/
def tunerMedianArray (values : ℕ → R) (count : ℕ) : R × (ℕ → R) :=
  let values := sortPrefix values count
  (values (count / 2 - 1) / 2.0 + values (count / 2) / 2.0, values)

/-- `up_tuner_trial_too_slow` -/
def tunerTrialTooSlowArray (t : TunerArray R) : Bool × TunerArray R :=
  if t.tuner.phase = .trial ∧ t.used = 4 then
    let median := tunerMedianArray t.samples 4
    (decide (median.1 > t.tuner.baseUs * 1.5), { t with samples := median.2 })
  else (false, t)

/-- `up_worker_tuner_observe` once the sample is stored: the value passed to
`up_tuner_window`, if the window ends, and the tuner. -/
def tunerSampleTakenArray (t : TunerArray R) : Option R × TunerArray R :=
  let slow := if t.used < tunerSamples then tunerTrialTooSlowArray t else (false, t)
  let t := slow.2
  if t.used < tunerSamples ∧ slow.1 = false then (none, t)
  else
    let previous := t.tuner.current
    let median := tunerMedianArray t.samples t.used
    let tuner := tunerWindow t.tuner median.1
    let tuner := if previous ≠ tuner.current then { tuner with warmup := tunerWarmup } else tuner
    (some median.1, { tuner := tuner, used := 0, samples := median.2 })

/-- `up_worker_tuner_observe` -/
def workerTunerObserveArray (t : TunerArray R) (elapsed : Option R) : Option R × TunerArray R :=
  match elapsed with
  | none => (none, t)
  | some elapsed =>
    if Timing.isFinite elapsed = false ∨ elapsed ≤ 0.0 then (none, t)
    else if t.tuner.warmup > 0 then
      (none, { t with tuner := { t.tuner with warmup := t.tuner.warmup - 1 } })
    else
      let tuner :=
        if t.tuner.remaining > 0 then { t.tuner with remaining := t.tuner.remaining - 1 }
        else t.tuner
      tunerSampleTakenArray
        { tuner := tuner
          used := t.used + 1
          samples := Function.update t.samples t.used elapsed }

/-! ### The list behind the array -/

/-- The samples of the current window. -/
def TunerArray.window (t : TunerArray R) : List R := cells t.samples t.used

/-- The tuner with the list of its window. -/
def TunerArray.toTuner (t : TunerArray R) : WorkerTuner R := { t.tuner with samples := t.window }

omit [Timing R] in
@[simp] theorem TunerArray.length_window (t : TunerArray R) : t.window.length = t.used :=
  length_cells t.samples t.used

omit [Timing R] in
@[simp] theorem TunerArray.toTuner_used (t : TunerArray R) : t.toTuner.used = t.used :=
  t.length_window

/-- A fresh tuner has an empty window. -/
theorem workerTunerInitArray_toTuner (initial limit : ℤ) :
    (workerTunerInitArray initial limit : TunerArray R).toTuner = workerTunerInit initial limit := rfl

theorem tunerMedianArray_fst (values : ℕ → R) {count : ℕ} (hcount : 0 < count) :
    (tunerMedianArray values count).1 = tunerMedian (cells values count) := by
  unfold tunerMedian tunerMedianArray
  dsimp only
  rw [length_cells, ← sortPrefix_cells, getD_cells _ (by omega), getD_cells _ (by omega)]

theorem tunerMedianArray_snd (values : ℕ → R) (count : ℕ) :
    cells (tunerMedianArray values count).2 count = ArraySort.sort (cells values count) :=
  sortPrefix_cells values count

/-- The slow check, as on the list: the same answer, the same window, and nothing
written beyond it. -/
theorem tunerTrialTooSlowArray_spec (t : TunerArray R) :
    tunerTrialTooSlow t.toTuner =
        ((tunerTrialTooSlowArray t).1, (tunerTrialTooSlowArray t).2.toTuner) ∧
      (tunerTrialTooSlowArray t).2.tuner = t.tuner ∧
      (tunerTrialTooSlowArray t).2.used = t.used ∧
      ∀ k, t.used ≤ k → (tunerTrialTooSlowArray t).2.samples k = t.samples k := by
  unfold tunerTrialTooSlow tunerTrialTooSlowArray
  rw [TunerArray.toTuner_used]
  by_cases hfour : t.tuner.phase = .trial ∧ t.used = 4
  · rw [if_pos hfour, if_pos (show t.toTuner.phase = .trial ∧ t.used = 4 from hfour)]
    refine ⟨?_, rfl, rfl, fun k hk => sortPrefix_frame _ (hfour.2 ▸ hk)⟩
    have hwindow : t.window = cells t.samples 4 := by unfold TunerArray.window; rw [hfour.2]
    have hsorted : cells (tunerMedianArray t.samples 4).2 t.used = ArraySort.sort t.window := by
      rw [hfour.2, tunerMedianArray_snd, hwindow]
    dsimp only
    rw [tunerMedianArray_fst _ (by omega), ← hwindow]
    unfold TunerArray.toTuner TunerArray.window
    dsimp only
    rw [hsorted]
    rfl
  · rw [if_neg hfour, if_neg (show ¬ (t.toTuner.phase = .trial ∧ t.used = 4) from hfour)]
    exact ⟨rfl, rfl, rfl, fun k _ => rfl⟩

/-- It answers whether the trial is too slow, and at most reorders the window. -/
theorem tunerTrialTooSlowArray_window (t : TunerArray R) :
    ((tunerTrialTooSlowArray t).1 = true ↔ TrialTooSlow t.tuner t.window) ∧
      (tunerTrialTooSlowArray t).2.window.Perm t.window := by
  have heq := (tunerTrialTooSlowArray_spec t).1
  obtain ⟨s, hperm, ⟨hslow, hcheck⟩ | ⟨hslow, hcheck⟩⟩ := tunerTrialTooSlow_cases t.tuner t.window
  all_goals
    obtain ⟨hflag, hafter⟩ := Prod.mk.inj (heq.symm.trans hcheck)
    have hwindow : (tunerTrialTooSlowArray t).2.window = s := congrArg WorkerTuner.samples hafter
  · exact ⟨iff_of_true hflag hslow, hwindow ▸ hperm⟩
  · exact ⟨iff_of_false (by rw [hflag]; decide) hslow, hwindow ▸ hperm⟩

/-- The check that comes before the window goes on or ends: it answers `slow` and
leaves `u`. -/
structure SlowChecked (t u : TunerArray R) (slow : Bool) : Prop where
  array : (if t.used < tunerSamples then tunerTrialTooSlowArray t else (false, t)) = (slow, u)
  list : (if t.toTuner.used < tunerSamples then tunerTrialTooSlow t.toTuner
    else (false, t.toTuner)) = (slow, u.toTuner)
  answer : slow = true → TrialTooSlow t.tuner t.window
  tuner : u.tuner = t.tuner
  used : u.used = t.used
  window : u.window.Perm t.window
  frame : ∀ k, t.used ≤ k → u.samples k = t.samples k

theorem exists_slowChecked (t : TunerArray R) : ∃ u slow, SlowChecked t u slow := by
  by_cases hshort : t.used < tunerSamples
  · obtain ⟨hlist, htuner, hused, hframe⟩ := tunerTrialTooSlowArray_spec t
    obtain ⟨hflag, hperm⟩ := tunerTrialTooSlowArray_window t
    refine ⟨(tunerTrialTooSlowArray t).2, (tunerTrialTooSlowArray t).1, if_pos hshort, ?_, hflag.mp,
      htuner, hused, hperm, hframe⟩
    rw [if_pos (t.toTuner_used.symm ▸ hshort), hlist]
  · refine ⟨t, false, if_neg hshort, ?_, fun h => absurd h Bool.false_ne_true, rfl, rfl, .refl _,
      fun _ _ => rfl⟩
    rw [if_neg (t.toTuner_used.symm ▸ hshort)]

/-- The end of a window of `u`: the tuner decides on the median of the array, which
is sorted and starts over. -/
def closeArray (u : TunerArray R) : TunerArray R :=
  let tuner := tunerWindow u.tuner (tunerMedian u.window)
  { tuner := if u.tuner.current ≠ tuner.current then { tuner with warmup := tunerWarmup } else tuner
    used := 0
    samples := sortPrefix u.samples u.used }

theorem closeArray_toTuner (u : TunerArray R) :
    (closeArray u).toTuner = tunerClose u.tuner (tunerMedian u.window) := by
  unfold closeArray tunerClose TunerArray.toTuner TunerArray.window
  dsimp only
  split_ifs <;> rfl

/-- **What happens once a sample is stored**: the window goes on, or it ends on the
median of its samples. -/
theorem tunerSampleTakenArray_cases {t u : TunerArray R} {slow : Bool} (h : SlowChecked t u slow)
    (hused : 0 < t.used) :
    (t.used < 16 ∧ slow = false ∧ tunerSampleTakenArray t = (none, u)) ∨
      ((16 ≤ t.used ∨ slow = true) ∧
        tunerSampleTakenArray t = (some (tunerMedian u.window), closeArray u)) := by
  unfold tunerSampleTakenArray
  rw [h.array]
  dsimp only
  by_cases hgoes : u.used < tunerSamples ∧ slow = false
  · rw [if_pos hgoes]
    exact .inl ⟨h.used ▸ hgoes.1, hgoes.2, rfl⟩
  · rw [if_neg hgoes, tunerMedianArray_fst _ (h.used ▸ hused)]
    refine .inr ⟨?_, rfl⟩
    rw [← h.used]
    by_cases hshort : u.used < tunerSamples
    · exact .inr (by simpa [hshort] using hgoes)
    · exact .inl (not_lt.mp hshort)

/-- The same step on the list. -/
theorem tunerSampleTakenArray_toTuner (t : TunerArray R) (hused : 0 < t.used) :
    (tunerSampleTakenArray t).2.toTuner = tunerSampleTaken t.toTuner := by
  obtain ⟨u, slow, h⟩ := exists_slowChecked t
  have hlist : u.toTuner = { u.tuner with samples := u.window } := rfl
  have hlength : u.window.length = t.used := u.length_window.trans h.used
  obtain ⟨hshort, rfl, heq⟩ | ⟨hend, heq⟩ := tunerSampleTakenArray_cases h hused
  · rw [heq, tunerSampleTaken_continue (hlist ▸ h.list) (hlength ▸ hshort)]
    rfl
  · have hstop : ¬ (u.window.length < tunerSamples ∧ slow = false) := by
      rintro ⟨hshort, rfl⟩
      obtain hfull | hslow := hend
      · exact absurd (hlength ▸ hshort) (not_lt.mpr hfull)
      · cases hslow
    rw [heq, tunerSampleTaken_close (hlist ▸ h.list) hstop]
    exact closeArray_toTuner u

/-! ### One observation -/

/-- The tuner as `elapsed` is stored: one more cell is filled. -/
def storeSample (t : TunerArray R) (elapsed : R) : TunerArray R :=
  { tuner := { t.tuner with remaining := t.tuner.remaining - 1 }
    used := t.used + 1
    samples := Function.update t.samples t.used elapsed }

omit [Timing R] in
theorem storeSample_window (t : TunerArray R) (elapsed : R) :
    (storeSample t elapsed).window = t.window ++ [elapsed] :=
  cells_update t.samples t.used elapsed

section Observe

variable {t : TunerArray R} {e : R}

theorem workerTunerObserveArray_ignored {elapsed : Option R}
    (h : ∀ e, elapsed = some e → ¬ ValidTime e) : workerTunerObserveArray t elapsed = (none, t) := by
  cases elapsed with
  | none => rfl
  | some e => exact if_pos (not_validTime.mp (h e rfl))

theorem workerTunerObserveArray_discarded (he : ValidTime e) (hwarm : 0 < t.tuner.warmup) :
    workerTunerObserveArray t (some e) =
      (none, { t with tuner := { t.tuner with warmup := t.tuner.warmup - 1 } }) := by
  unfold workerTunerObserveArray
  dsimp only
  rw [if_neg he.accepted, if_pos hwarm]

theorem workerTunerObserveArray_stored (he : ValidTime e) (hwarm : t.tuner.warmup = 0) :
    workerTunerObserveArray t (some e) = tunerSampleTakenArray (storeSample t e) := by
  unfold workerTunerObserveArray
  dsimp only
  rw [if_neg he.accepted, if_neg (by omega), remaining_countdown]
  rfl

end Observe

/-- **The list tuner is what the array tuner does** to the first `used` cells. -/
theorem workerTunerObserveArray_toTuner (t : TunerArray R) (elapsed : Option R) :
    (workerTunerObserveArray t elapsed).2.toTuner = workerTunerObserve t.toTuner elapsed := by
  obtain hignored | ⟨e, rfl, he⟩ := ignored_or_valid elapsed
  · rw [workerTunerObserveArray_ignored hignored, workerTunerObserve_ignored hignored]
  obtain hwarm | hwarm := (Nat.eq_zero_or_pos t.tuner.warmup).symm
  · rw [workerTunerObserveArray_discarded he hwarm,
      workerTunerObserve_discarded (t := t.toTuner) he hwarm]
    rfl
  · rw [workerTunerObserveArray_stored he hwarm,
      workerTunerObserve_stored (t := t.toTuner) he hwarm,
      tunerSampleTakenArray_toTuner _ (Nat.succ_pos t.used)]
    unfold TunerArray.toTuner
    rw [storeSample_window]
    rfl

/-- The samples among observations. -/
def acceptedSamples (history : List Observation) : List ℚ :=
  (history.filter fun o => !o.discarded).map (·.elapsed)

theorem acceptedSamples_append (older newer : List Observation) :
    acceptedSamples (older ++ newer) = acceptedSamples older ++ acceptedSamples newer := by
  unfold acceptedSamples
  rw [List.filter_append, List.map_append]

/-- **What one observation can do**: leave the window alone, add its time to it, or
end it on the median. -/
theorem workerTunerObserveArray_cases (t : TunerArray ℚ) (elapsed : Option ℚ) :
    (acceptedSamples (tunerObservation t.toTuner elapsed) = [] ∧
        (workerTunerObserveArray t elapsed).1 = none ∧
        (workerTunerObserveArray t elapsed).2.used = t.used ∧
        (workerTunerObserveArray t elapsed).2.samples = t.samples) ∨
      ∃ e, acceptedSamples (tunerObservation t.toTuner elapsed) = [e] ∧
        (∀ k, t.used < k → (workerTunerObserveArray t elapsed).2.samples k = t.samples k) ∧
        ((t.used + 1 < 16 ∧ (workerTunerObserveArray t elapsed).1 = none ∧
            (workerTunerObserveArray t elapsed).2.window.Perm (t.window ++ [e])) ∨
          ((16 ≤ t.used + 1 ∨ TrialTooSlow t.tuner (t.window ++ [e])) ∧
            (workerTunerObserveArray t elapsed).1 = some (tunerMedian (t.window ++ [e])) ∧
            (workerTunerObserveArray t elapsed).2.used = 0)) := by
  obtain hignored | ⟨e, rfl, hvalid⟩ := ignored_or_valid elapsed
  · have hnone : ∀ e, elapsed = some e → e ≤ 0 := fun e heq =>
      not_lt.mp fun he => hignored e heq (valid_iff_pos.mpr he)
    rw [workerTunerObserveArray_ignored hignored, tunerObservation_ignored _ hnone]
    exact .inl ⟨rfl, rfl, rfl, rfl⟩
  have he : 0 < e := valid_iff_pos.mp hvalid
  obtain hwarm | hwarm := (Nat.eq_zero_or_pos t.tuner.warmup).symm
  · rw [workerTunerObserveArray_discarded hvalid hwarm, tunerObservation_of_pos _ he,
      decide_eq_true (show 0 < t.toTuner.warmup from hwarm)]
    exact .inl ⟨rfl, rfl, rfl, rfl⟩
  · have hnot : ¬ 0 < t.toTuner.warmup := not_lt.mpr hwarm.le
    rw [workerTunerObserveArray_stored hvalid hwarm, tunerObservation_of_pos _ he,
      decide_eq_false hnot]
    refine .inr ⟨e, rfl, ?_⟩
    obtain ⟨u, slow, h⟩ := exists_slowChecked (storeSample t e)
    have hwindow : u.window.Perm (t.window ++ [e]) := storeSample_window t e ▸ h.window
    have hframe : ∀ k, t.used < k → u.samples k = t.samples k := by
      intro k hk
      rw [h.frame k hk]
      exact Function.update_of_ne hk.ne' e t.samples
    obtain ⟨hshort, -, heq⟩ | ⟨hend, heq⟩ := tunerSampleTakenArray_cases h (Nat.succ_pos t.used)
    · rw [heq]
      exact ⟨hframe, .inl ⟨hshort, rfl, hwindow⟩⟩
    · rw [heq]
      refine ⟨fun k hk => ?_, .inr ⟨?_, congrArg some (tunerMedian_perm hwindow), rfl⟩⟩
      · -- the last sort stays within the window
        rw [show (closeArray u).samples k = _ from
          sortPrefix_frame u.samples (show u.used ≤ k from h.used.trans_le hk), hframe k hk]
      · refine hend.imp_right fun hslow => ?_
        rw [← storeSample_window]
        exact h.answer hslow

/-! ### The true median -/

/-- The mean of the two middle order statistics. -/
def TrueMedian (s : Multiset ℚ) (m : ℚ) : Prop :=
  ∃ low high, ArraySort.OrderStatistic s (s.card / 2 - 1) low ∧
    ArraySort.OrderStatistic s (s.card / 2) high ∧ m = (low + high) / 2

theorem TrueMedian.unique {s : Multiset ℚ} {m m' : ℚ} (h : TrueMedian s m)
    (h' : TrueMedian s m') : m = m' := by
  obtain ⟨low, high, hlow, hhigh, rfl⟩ := h
  obtain ⟨low', high', hlow', hhigh', rfl⟩ := h'
  rw [hlow.unique hlow', hhigh.unique hhigh']

/-- The middle of the sorted samples is their true median. -/
theorem tunerMedian_trueMedian {l : List ℚ} (hl : 0 < l.length) :
    TrueMedian (l : Multiset ℚ) (tunerMedian l) := by
  have hstat : ∀ i < l.length,
      ArraySort.OrderStatistic (l : Multiset ℚ) i ((ArraySort.sort l).getD i 0) := by
    intro i hi
    have hlt : i < (ArraySort.sort l).length := by rwa [ArraySort.length_sort]
    rw [List.getD_eq_getElem?_getD, List.getElem?_eq_getElem hlt, Option.getD_some]
    rw [← Multiset.coe_eq_coe.mpr (ArraySort.sort_perm l)]
    exact ArraySort.orderStatistic_getElem (ArraySort.sort_sorted l) hlt
  refine ⟨_, _, hstat _ ?_, hstat _ ?_, ?_⟩
  · rw [Multiset.coe_card]
    omega
  · rw [Multiset.coe_card]
    omega
  · rw [tunerMedian_eq, Multiset.coe_card]
    ring

/-! ### The record of a run -/

/-- A window that has ended: the phase and base time in force, the samples accepted
for it in order of arrival, and the value passed to `up_tuner_window`. -/
structure EndedWindow where
  phase : TunerPhase
  baseUs : ℚ
  samples : List ℚ
  elapsed : ℚ
  deriving DecidableEq, Repr

/-- It ended on the true median of sixteen samples, or of the four of a trial that
is too slow. -/
structure EndedWindow.OnTrueMedian (w : EndedWindow) : Prop where
  median : TrueMedian (w.samples : Multiset ℚ) w.elapsed
  size : w.samples.length = 16 ∨
    (w.phase = .trial ∧ w.samples.length = 4 ∧ w.baseUs * (15 / 10) < w.elapsed)

/-- A tuner, the samples accepted since its last window ended, and the windows that
have ended. -/
structure TunerTrace where
  tuner : TunerArray ℚ
  pending : List ℚ
  windows : List EndedWindow

/-- One observation, recorded. -/
def TunerTrace.observe (r : TunerTrace) (elapsed : Option ℚ) : TunerTrace :=
  let pending := r.pending ++ acceptedSamples (tunerObservation r.tuner.toTuner elapsed)
  let next := workerTunerObserveArray r.tuner elapsed
  match next.1 with
  | none => { r with tuner := next.2, pending := pending }
  | some value =>
    { tuner := next.2
      pending := []
      windows := r.windows ++ [⟨r.tuner.tuner.phase, r.tuner.tuner.baseUs, pending, value⟩] }

/-- The record of a run from `t`; what its window holds is pending. -/
def tunerTrace (t : TunerArray ℚ) (es : List (Option ℚ)) : TunerTrace :=
  es.foldl TunerTrace.observe { tuner := t, pending := t.window, windows := [] }

theorem TunerTrace.observe_none {r : TunerTrace} {elapsed : Option ℚ}
    (h : (workerTunerObserveArray r.tuner elapsed).1 = none) :
    r.observe elapsed =
      { r with
        tuner := (workerTunerObserveArray r.tuner elapsed).2
        pending := r.pending ++ acceptedSamples (tunerObservation r.tuner.toTuner elapsed) } := by
  unfold TunerTrace.observe
  dsimp only
  rw [h]

theorem TunerTrace.observe_some {r : TunerTrace} {elapsed : Option ℚ} {value : ℚ}
    (h : (workerTunerObserveArray r.tuner elapsed).1 = some value) :
    r.observe elapsed =
      { tuner := (workerTunerObserveArray r.tuner elapsed).2
        pending := []
        windows := r.windows ++ [⟨r.tuner.tuner.phase, r.tuner.tuner.baseUs,
          r.pending ++ acceptedSamples (tunerObservation r.tuner.toTuner elapsed), value⟩] } := by
  unfold TunerTrace.observe
  dsimp only
  rw [h]

theorem TunerTrace.observe_tuner (r : TunerTrace) (elapsed : Option ℚ) :
    (r.observe elapsed).tuner = (workerTunerObserveArray r.tuner elapsed).2 := by
  cases h : (workerTunerObserveArray r.tuner elapsed).1 with
  | none => rw [observe_none h]
  | some value => rw [observe_some h]

theorem tunerTrace_concat (t : TunerArray ℚ) (es : List (Option ℚ)) (e : Option ℚ) :
    tunerTrace t (es ++ [e]) = (tunerTrace t es).observe e :=
  List.foldl_append ..

/-- The recorded tuner runs as the list tuner does. -/
theorem tunerTrace_toTuner (t : TunerArray ℚ) (es : List (Option ℚ)) :
    (tunerTrace t es).tuner.toTuner = tunerRun t.toTuner es := by
  induction es using List.reverseRecOn with
  | nil => rfl
  | append_singleton es e ih =>
    rw [tunerTrace_concat, TunerTrace.observe_tuner, workerTunerObserveArray_toTuner, ih]
    unfold tunerRun
    rw [List.foldl_append]
    rfl

/-- What a record keeps over a run from `t` with this history. -/
structure TraceInv (t : TunerArray ℚ) (r : TunerTrace) (history : List Observation) : Prop where
  used_lt : r.tuner.used < 16
  window : r.tuner.window.Perm r.pending
  windows : ∀ w ∈ r.windows, w.OnTrueMedian
  samples : r.windows.flatMap (·.samples) ++ r.pending = t.window ++ acceptedSamples history
  beyond : ∀ k, 16 ≤ k → r.tuner.samples k = t.samples k

section Trace

variable {t : TunerArray ℚ} {r : TunerTrace} {history : List Observation}

theorem TraceInv.length_pending (h : TraceInv t r history) : r.pending.length = r.tuner.used :=
  h.window.length_eq.symm.trans r.tuner.length_window

/-- A window that ends with `e` ends on the true median of what was pending. -/
theorem TraceInv.ended (h : TraceInv t r history) {e : ℚ}
    (hend : 16 ≤ r.tuner.used + 1 ∨ TrialTooSlow r.tuner.tuner (r.tuner.window ++ [e])) :
    EndedWindow.OnTrueMedian ⟨r.tuner.tuner.phase, r.tuner.tuner.baseUs, r.pending ++ [e],
      tunerMedian (r.tuner.window ++ [e])⟩ := by
  have hperm : (r.tuner.window ++ [e]).Perm (r.pending ++ [e]) := h.window.append_right [e]
  have hlen : (r.pending ++ [e]).length = r.tuner.used + 1 := by
    rw [List.length_append, h.length_pending]
    rfl
  rw [tunerMedian_perm hperm]
  constructor
  · exact tunerMedian_trueMedian (by rw [hlen]; exact Nat.succ_pos _)
  · obtain hfull | hcut := hend
    · have := h.used_lt
      exact .inl (hlen.trans (by omega))
    · obtain ⟨hphase, hfour, hslow⟩ := trialTooSlow_iff.mp hcut
      rw [tunerMedian_perm hperm] at hslow
      exact .inr ⟨hphase, hperm.length_eq.symm.trans hfour, hslow⟩

theorem TraceInv.observe (h : TraceInv t r history) (elapsed : Option ℚ) :
    TraceInv t (r.observe elapsed) (history ++ tunerObservation r.tuner.toTuner elapsed) := by
  obtain ⟨hnone, hvalue, hused, hsamples⟩ | ⟨e, hone, hframe, hgoes | hends⟩ :=
    workerTunerObserveArray_cases r.tuner elapsed
  · -- nothing is stored
    rw [TunerTrace.observe_none hvalue, hnone, List.append_nil]
    exact
      { used_lt := hused ▸ h.used_lt
        window := by
          unfold TunerArray.window
          dsimp only
          rw [hused, hsamples]
          exact h.window
        windows := h.windows
        samples := by rw [acceptedSamples_append, hnone, List.append_nil]; exact h.samples
        beyond := fun k hk => (congrFun hsamples k).trans (h.beyond k hk) }
  · -- one more sample
    obtain ⟨hshort, hvalue, hperm⟩ := hgoes
    have hwindow : (workerTunerObserveArray r.tuner elapsed).2.window.Perm (r.pending ++ [e]) :=
      hperm.trans (h.window.append_right [e])
    rw [TunerTrace.observe_none hvalue, hone]
    exact
      { used_lt := by
          rw [← TunerArray.length_window, hwindow.length_eq, List.length_append, h.length_pending]
          exact hshort
        window := hwindow
        windows := h.windows
        samples := by
          rw [acceptedSamples_append, hone, ← List.append_assoc, ← List.append_assoc, ← h.samples]
        beyond := fun k hk => (hframe k (h.used_lt.trans_le hk)).trans (h.beyond k hk) }
  · -- the sample that ends the window
    obtain ⟨hend, hvalue, hused⟩ := hends
    rw [TunerTrace.observe_some hvalue, hone]
    exact
      { used_lt := by rw [hused]; decide
        window := by
          unfold TunerArray.window
          dsimp only
          rw [hused]
          exact .refl _
        windows := by
          intro w hw
          obtain hw | hw := List.mem_append.mp hw
          · exact h.windows w hw
          · rw [List.mem_singleton.mp hw]
            exact h.ended hend
        samples := by
          rw [List.flatMap_append, acceptedSamples_append, hone, List.append_nil,
            ← List.append_assoc, ← h.samples, List.append_assoc]
          simp
        beyond := fun k hk => (hframe k (h.used_lt.trans_le hk)).trans (h.beyond k hk) }

end Trace

theorem tunerTrace_inv {t : TunerArray ℚ} (hused : t.used < 16) (es : List (Option ℚ)) :
    TraceInv t (tunerTrace t es) (tunerHistory t.toTuner es) := by
  induction es using List.reverseRecOn with
  | nil =>
    exact ⟨hused, .refl _, fun _ h => absurd h List.not_mem_nil, (List.append_nil _).symm,
      fun _ _ => rfl⟩
  | append_singleton es e ih =>
    rw [tunerTrace_concat, tunerHistory_concat, ← tunerTrace_toTuner]
    exact ih.observe e

/-- **The tuner decides on the true window median.**  From any state of the tuner,
in any phase, and with any cells left over in its array, every window that ends
passes on the true median of the samples accepted for it, which are sixteen, or
the four of a trial that is too slow.  The samples of the windows and of the
current one, in order, are those accepted in the run: none is dropped, taken
twice or left over from an earlier window. -/
theorem tuner_decides_on_true_median (t : TunerArray ℚ) (hused : t.used < 16)
    (es : List (Option ℚ)) :
    (∀ w ∈ (tunerTrace t es).windows, w.OnTrueMedian) ∧
      (tunerTrace t es).windows.flatMap (·.samples) ++ (tunerTrace t es).pending =
        t.window ++ acceptedSamples (tunerHistory t.toTuner es) ∧
      (tunerTrace t es).tuner.window.Perm (tunerTrace t es).pending ∧
      (tunerTrace t es).tuner.used < 16 ∧
      (∀ k, 16 ≤ k → (tunerTrace t es).tuner.samples k = t.samples k) ∧
      (tunerTrace t es).tuner.toTuner = tunerRun t.toTuner es := by
  have hinv := tunerTrace_inv hused es
  exact ⟨hinv.windows, hinv.samples, hinv.window, hinv.used_lt, hinv.beyond,
    tunerTrace_toTuner t es⟩

/-- A trial of two workers with one discard to come, on an array that an earlier
window has filled. -/
def staleTrial : TunerArray ℚ :=
  { tuner :=
      { workerTunerInit 1 8 with
        phase := .trial, current := 2, candidate := 2, cursor := 2, baseUs := 10, warmup := 1 }
    used := 0
    samples := fun k => k + 100 }

/-- Sixteen samples, the first four of which the slow check reorders, among a
discard and two values that are not valid. -/
def shuffledSamples : List (Option ℚ) :=
  [some 50, some 4, none, some 3, some (-1), some 2, some 1, some 5, some 6, some 8, some 7, some 9,
    some 10, some 11, some 12, some 13, some 14, some 15, some 16]

/-- Four samples of a trial that is too slow, and what follows them. -/
def slowSamples : List (Option ℚ) :=
  [some 50, some 30, none, some 10, some 20, some 40, some 7, some 8, some 9]

theorem tuner_decides_on_true_median_stale :
    (tunerTrace staleTrial shuffledSamples).windows =
        [⟨.trial, 10, [4, 3, 2, 1, 5, 6, 8, 7, 9, 10, 11, 12, 13, 14, 15, 16], 17 / 2⟩] ∧
      (∀ w ∈ (tunerTrace staleTrial shuffledSamples).windows, w.OnTrueMedian) ∧
      (tunerTrace staleTrial slowSamples).windows = [⟨.trial, 10, [30, 10, 20, 40], 25⟩] ∧
      (∀ w ∈ (tunerTrace staleTrial slowSamples).windows, w.OnTrueMedian) ∧
      (tunerTrace staleTrial slowSamples).pending = [9] :=
  ⟨by decide +kernel, (tuner_decides_on_true_median staleTrial (by decide) shuffledSamples).1,
    by decide +kernel, (tuner_decides_on_true_median staleTrial (by decide) slowSamples).1,
    by decide +kernel⟩

end AutoUpscale
