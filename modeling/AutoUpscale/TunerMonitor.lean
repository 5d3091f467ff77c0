/-
A settled tuner leaves exactly on sustained drift or at the periodic re-check.

After settling, the valid samples fall into windows of sixteen, counted from 1.
`streak` counts how many windows in a row have drifted, the first fifteen being
inside the cooldown.

- `monitor_window`: one window of a settled tuner, from its first sample to its
  end.
- `monitor_run`: while no window is due, the drift counter is the streak.
* **`settled_left_iff`** — the tuner leaves at the end of window `w` exactly
  when `w` is the first window that is due: the 1024th, or the third of three
  drifted ones in a row.
- `settled_left_rounded`: in `double` the bounds of the drift are rounded
  products, which decide differently from exact ones at the boundary.
-/
import AutoUpscale.TunerConvergence

namespace AutoUpscale

/-! ### Streaks -/

/-- How many positions up to `n`, counted from 1, satisfy `p` without a break. -/
def streak (p : ℕ → Prop) [DecidablePred p] : ℕ → ℕ
  | 0 => 0
  | n + 1 => if p (n + 1) then streak p n + 1 else 0

theorem streak_succ_of_pos {p : ℕ → Prop} [DecidablePred p] {n : ℕ} (h : p (n + 1)) :
    streak p (n + 1) = streak p n + 1 := if_pos h

theorem streak_succ_of_neg {p : ℕ → Prop} [DecidablePred p] {n : ℕ} (h : ¬ p (n + 1)) :
    streak p (n + 1) = 0 := if_neg h

/-- A streak of `k` is `k` positions in a row. -/
theorem le_streak_iff (p : ℕ → Prop) [DecidablePred p] (k n : ℕ) :
    k ≤ streak p n ↔ k ≤ n ∧ ∀ i < k, p (n - i) := by
  induction n generalizing k with
  | zero =>
    show k ≤ 0 ↔ _
    constructor
    · intro hk
      exact ⟨hk, fun i hi => absurd (hi.trans_le hk) (Nat.not_lt_zero i)⟩
    · exact And.left
  | succ n ih =>
    by_cases hp : p (n + 1)
    · rw [streak_succ_of_pos hp]
      cases k with
      | zero => simp
      | succ k =>
        rw [Nat.succ_le_succ_iff, ih]
        constructor
        · rintro ⟨hk, h⟩
          refine ⟨by omega, ?_⟩
          intro i hi
          cases i with
          | zero => exact hp
          | succ i =>
            rw [Nat.succ_sub_succ]
            exact h i (by omega)
        · rintro ⟨hk, h⟩
          refine ⟨by omega, ?_⟩
          intro i hi
          have hnext := h (i + 1) (by omega)
          rwa [Nat.succ_sub_succ] at hnext
    · -- the position `n + 1` breaks the streak
      rw [streak_succ_of_neg hp]
      constructor
      · intro hk
        exact ⟨by omega, fun i hi => absurd (hi.trans_le hk) (Nat.not_lt_zero i)⟩
      · rintro ⟨-, h⟩
        by_contra hk
        exact hp (h 0 (by omega))

/-! ### Windows after settling -/

section Windows

variable {R : Type}

/-- The first `j` samples of the window that starts at sample `n`. -/
def windowSamples (e : ℕ → R) (n j : ℕ) : List R := (List.range j).map fun i => e (n + i)

theorem windowSamples_succ (e : ℕ → R) (n j : ℕ) :
    windowSamples e n (j + 1) = windowSamples e n j ++ [e (n + j)] := by
  unfold windowSamples
  rw [List.range_succ, List.map_append]
  rfl

theorem length_windowSamples (e : ℕ → R) (n j : ℕ) : (windowSamples e n j).length = j := by
  unfold windowSamples
  rw [List.length_map, List.length_range]

variable [Timing R]

/-- The median of the `w`-th window, counted from 1. -/
def nthMedian (e : ℕ → R) (w : ℕ) : R := tunerMedian (windowSamples e (16 * (w - 1)) 16)

/-- A median above 1.35 times the settled one, or below 0.65 times it; the products
and the comparisons are those of the timings. -/
def Drifted (settled median : R) : Prop :=
  median > settled * 1.35 ∨ median < settled * 0.65

instance (settled median : R) : Decidable (Drifted settled median) :=
  inferInstanceAs (Decidable (_ ∨ _))

/-- Window `w` is past the cooldown and has drifted. -/
def DriftCounts (e : ℕ → R) (settled : R) (w : ℕ) : Prop :=
  16 ≤ w ∧ Drifted settled (nthMedian e w)

instance (e : ℕ → R) (settled : R) : DecidablePred (DriftCounts e settled) :=
  fun _ => inferInstanceAs (Decidable (_ ∧ _))

/-- The re-check is due at the end of window `w`: periodically, or after three
drifted windows. -/
def RecheckDue (e : ℕ → R) (settled : R) (w : ℕ) : Prop :=
  w = 1024 ∨ (18 ≤ w ∧ Drifted settled (nthMedian e (w - 2)) ∧
    Drifted settled (nthMedian e (w - 1)) ∧ Drifted settled (nthMedian e w))

theorem three_le_streak_iff (e : ℕ → R) (settled : R) (w : ℕ) :
    3 ≤ streak (DriftCounts e settled) w ↔
      18 ≤ w ∧ Drifted settled (nthMedian e (w - 2)) ∧
        Drifted settled (nthMedian e (w - 1)) ∧ Drifted settled (nthMedian e w) := by
  rw [le_streak_iff]
  constructor
  · rintro ⟨-, h⟩
    have h0 := h 0 (by omega)
    have h1 := h 1 (by omega)
    have h2 := h 2 (by omega)
    have hw := h2.1
    exact ⟨by omega, h2.2, h1.2, h0.2⟩
  · rintro ⟨hw, h2, h1, h0⟩
    refine ⟨by omega, ?_⟩
    intro i hi
    interval_cases i
    · exact ⟨by omega, h0⟩
    · exact ⟨by omega, h1⟩
    · exact ⟨by omega, h2⟩

/-- The tuner leaves SETTLED at the end of window `w`, and not earlier. -/
def LeavesAt (t : WorkerTuner R) (e : ℕ → R) (w : ℕ) : Prop :=
  (tunerAt t e (16 * w)).phase ≠ .settled ∧ ∀ n < 16 * w, (tunerAt t e n).phase = .settled

end Windows

variable {R : Type} [Timing R]

/-! ### The monitor -/

/-- The drift counter after a window. -/
def monitorDrift (t : WorkerTuner R) (elapsed : R) : ℕ :=
  if Drifted t.steadyUs elapsed then t.drift + 1 else 0

theorem tunerMonitor_cooldown {t : WorkerTuner R} {elapsed : R}
    (hcool : t.remaining > tunerRecheckFrames - tunerCooldownFrames) :
    tunerMonitor t elapsed = t := if_pos hcool

theorem tunerMonitor_keeps {t : WorkerTuner R} {elapsed : R}
    (hcool : ¬ t.remaining > tunerRecheckFrames - tunerCooldownFrames)
    (hkeep : t.remaining > 0 ∧ monitorDrift t elapsed < 3) :
    tunerMonitor t elapsed = { t with drift := monitorDrift t elapsed } :=
  (if_neg hcool).trans (if_pos hkeep)

theorem tunerMonitor_leaves {t : WorkerTuner R} {elapsed : R}
    (hcool : ¬ t.remaining > tunerRecheckFrames - tunerCooldownFrames)
    (hleave : ¬ (t.remaining > 0 ∧ monitorDrift t elapsed < 3)) :
    tunerMonitor t elapsed = { t with cursor := 0, phase := .base, drift := 0 } :=
  (if_neg hcool).trans (if_neg hleave)

/-! ### One window -/

section Monitor

variable {t : WorkerTuner R} {e : ℕ → R}

/-- The samples of a settled window are kept as they come. -/
theorem monitor_samples (hvalid : ∀ n, ValidTime (e n)) {n : ℕ}
    (hphase : (tunerAt t e n).phase = .settled) (hwarm : (tunerAt t e n).warmup = 0)
    (hempty : (tunerAt t e n).samples = []) {j : ℕ} (hj : j < 16) :
    tunerAt t e (n + j) =
      { tunerAt t e n with
        remaining := (tunerAt t e n).remaining - j, samples := windowSamples e n j } := by
  induction j with
  | zero =>
    show tunerAt t e n = { tunerAt t e n with samples := [] }
    rw [← hempty]
  | succ j ih =>
    have heq := ih (by omega)
    have hnext : tunerAt t e (n + (j + 1)) =
        workerTunerObserve (tunerAt t e (n + j)) (some (e (n + j))) := rfl
    rw [heq] at hnext
    generalize tunerAt t e n = u at *
    have hused : ({ u with remaining := u.remaining - j, samples := windowSamples e n j } :
        WorkerTuner R).used = j := length_windowSamples e n j
    obtain ⟨hwarming, -⟩ | ⟨-, -, -, s, hs, hobs⟩ | ⟨-, hfull | hslow, -⟩ :=
      workerTunerObserve_cases (hvalid (n + j)) (by rw [hused]; omega)
    · exact absurd hwarm (Nat.pos_iff_ne_zero.mp hwarming)
    · -- only a trial's window is sorted
      have hkept : s = windowSamples e n j ++ [e (n + j)] :=
        hs.kept (by rw [show _ = TunerPhase.settled from hphase]; decide)
      rw [hnext, hobs, hkept, windowSamples_succ]
      rfl
    · rw [hused] at hfull
      omega
    · have htrial : u.phase = .trial := hslow.1
      rw [hphase] at htrial
      exact absurd htrial (by decide)

/-- **One window of a settled tuner**: sixteen samples, then the monitor on
their median. -/
theorem monitor_window (hvalid : ∀ n, ValidTime (e n)) {n : ℕ}
    (hphase : (tunerAt t e n).phase = .settled) (hwarm : (tunerAt t e n).warmup = 0)
    (hempty : (tunerAt t e n).samples = []) :
    tunerAt t e (n + 16) =
      { tunerMonitor { tunerAt t e n with remaining := (tunerAt t e n).remaining - 16 }
          (tunerMedian (windowSamples e n 16)) with samples := [] } := by
  have heq := monitor_samples hvalid hphase hwarm hempty (show 15 < 16 by decide)
  have hnext : tunerAt t e (n + 16) =
      workerTunerObserve (tunerAt t e (n + 15)) (some (e (n + 15))) := rfl
  rw [hnext, heq]
  generalize tunerAt t e n = u at *
  have hused : ({ u with remaining := u.remaining - 15, samples := windowSamples e n 15 } :
      WorkerTuner R).used = 15 := length_windowSamples e n 15
  obtain ⟨hwarming, -⟩ | ⟨-, hshort, -⟩ | ⟨-, -, s, hs, hobs⟩ :=
    workerTunerObserve_cases
      (t := { u with remaining := u.remaining - 15, samples := windowSamples e n 15 })
      (hvalid (n + 15)) (by rw [hused]; decide)
  · exact absurd hwarm (Nat.pos_iff_ne_zero.mp hwarming)
  · rw [hused] at hshort
    exact absurd hshort (by decide)
  · -- only a trial's window is sorted before its end
    have hkept : s = windowSamples e n 16 :=
      (hs.kept (by rw [show _ = TunerPhase.settled from hphase]; decide)).trans
        (windowSamples_succ e n 15).symm
    rw [hobs, hkept]
    show tunerClose { u with remaining := u.remaining - 16, samples := windowSamples e n 15 }
      (tunerMedian (windowSamples e n 16)) = _
    rw [tunerClose_samples { u with remaining := u.remaining - 16 } (windowSamples e n 15)]
    exact tunerClose_settled (t := { u with remaining := u.remaining - 16 }) _ hphase

/-! ### The run -/

/-- A tuner right after settling. -/
structure JustSettled (t : WorkerTuner R) : Prop where
  phase : t.phase = .settled
  warmup : t.warmup = 0
  samples : t.samples = []
  remaining : t.remaining = tunerRecheckFrames
  drift : t.drift = 0

/-- A settled tuner after `w` windows none of which was due. -/
def monitored (t : WorkerTuner R) (e : ℕ → R) (w : ℕ) : WorkerTuner R :=
  { t with
    remaining := tunerRecheckFrames - 16 * w
    drift := streak (DriftCounts e t.steadyUs) w
    samples := [] }

/-- The re-check is due, in the tuner's own counters. -/
theorem recheckDue_iff {w : ℕ} (hw : w < 1024) :
    RecheckDue e t.steadyUs (w + 1) ↔
      ¬ (tunerRecheckFrames - 16 * (w + 1) > 0 ∧
        streak (DriftCounts e t.steadyUs) (w + 1) < 3) := by
  unfold RecheckDue tunerRecheckFrames
  rw [← three_le_streak_iff]
  omega

/-- The windows of the cooldown never count. -/
theorem streak_cooldown {w : ℕ} (hw : w < 16) : streak (DriftCounts e t.steadyUs) w = 0 := by
  cases w with
  | zero => rfl
  | succ w =>
    refine streak_succ_of_neg ?_
    intro hcounts
    have := hcounts.1
    omega

/-- Past the cooldown the drift counter goes on with the streak. -/
theorem monitorDrift_eq {w r : ℕ} (hpast : 16 ≤ w + 1) :
    monitorDrift { monitored t e w with remaining := r } (nthMedian e (w + 1))
      = streak (DriftCounts e t.steadyUs) (w + 1) := by
  show (if Drifted t.steadyUs (nthMedian e (w + 1)) then
    streak (DriftCounts e t.steadyUs) w + 1 else 0) = _
  split_ifs with hdrift
  · exact (streak_succ_of_pos (p := DriftCounts e t.steadyUs) ⟨hpast, hdrift⟩).symm
  · refine (streak_succ_of_neg ?_).symm
    intro hcounts
    exact hdrift hcounts.2

/-- A window that is not due is counted. -/
theorem monitored_keeps {w : ℕ} (hw : w < 1024) (hdue : ¬ RecheckDue e t.steadyUs (w + 1)) :
    { tunerMonitor { monitored t e w with remaining := (monitored t e w).remaining - 16 }
        (nthMedian e (w + 1)) with samples := [] } = monitored t e (w + 1) := by
  have hremaining : (monitored t e w).remaining - 16 = tunerRecheckFrames - 16 * (w + 1) := by
    show tunerRecheckFrames - 16 * w - 16 = _
    omega
  rw [hremaining]
  rw [recheckDue_iff hw, not_not] at hdue
  by_cases hcool : tunerRecheckFrames - 16 * (w + 1) > tunerRecheckFrames - tunerCooldownFrames
  · rw [tunerMonitor_cooldown hcool]
    show ({ t with
      remaining := tunerRecheckFrames - 16 * (w + 1)
      drift := streak (DriftCounts e t.steadyUs) w, samples := [] } : WorkerTuner R) = _
    unfold tunerRecheckFrames tunerCooldownFrames at hcool
    rw [streak_cooldown (show w < 16 by omega),
      ← streak_cooldown (t := t) (e := e) (show w + 1 < 16 by omega)]
    rfl
  · have hdrift : monitorDrift
        { monitored t e w with remaining := tunerRecheckFrames - 16 * (w + 1) }
        (nthMedian e (w + 1)) = streak (DriftCounts e t.steadyUs) (w + 1) :=
      monitorDrift_eq (by unfold tunerRecheckFrames tunerCooldownFrames at hcool; omega)
    rw [tunerMonitor_keeps hcool ⟨hdue.1, by rw [hdrift]; exact hdue.2⟩, hdrift]
    rfl

/-- A window that is due ends the settled phase. -/
theorem monitored_leaves {w : ℕ} (hw : w < 1024) (hdue : RecheckDue e t.steadyUs (w + 1)) :
    { tunerMonitor { monitored t e w with remaining := (monitored t e w).remaining - 16 }
        (nthMedian e (w + 1)) with samples := [] } =
      { monitored t e (w + 1) with cursor := 0, phase := .base, drift := 0 } := by
  have hremaining : (monitored t e w).remaining - 16 = tunerRecheckFrames - 16 * (w + 1) := by
    show tunerRecheckFrames - 16 * w - 16 = _
    omega
  have hpast : 16 ≤ w + 1 := by
    obtain h | h := hdue <;> omega
  have hcool : ¬ tunerRecheckFrames - 16 * (w + 1) > tunerRecheckFrames - tunerCooldownFrames := by
    unfold tunerRecheckFrames tunerCooldownFrames
    omega
  have hdrift : monitorDrift { monitored t e w with remaining := tunerRecheckFrames - 16 * (w + 1) }
      (nthMedian e (w + 1)) = streak (DriftCounts e t.steadyUs) (w + 1) := monitorDrift_eq hpast
  rw [recheckDue_iff hw] at hdue
  rw [hremaining, tunerMonitor_leaves hcool (by rw [hdrift]; exact hdue)]
  rfl

theorem monitored_zero (hsettled : JustSettled t) : monitored t e 0 = t := by
  obtain ⟨-, -, hsamples, hremaining, hdrift⟩ := hsettled
  show ({ t with remaining := tunerRecheckFrames, drift := 0, samples := [] } : WorkerTuner R) = t
  rw [← hsamples, ← hremaining, ← hdrift]

/-- The window that starts at sample `16 * w`. -/
theorem monitored_window (hsettled : JustSettled t) (hvalid : ∀ n, ValidTime (e n)) {w : ℕ}
    (h : tunerAt t e (16 * w) = monitored t e w) :
    tunerAt t e (16 * (w + 1)) =
      { tunerMonitor { monitored t e w with remaining := (monitored t e w).remaining - 16 }
          (nthMedian e (w + 1)) with samples := [] } := by
  rw [show 16 * (w + 1) = 16 * w + 16 by ring,
    monitor_window hvalid (by rw [h]; exact hsettled.phase) (by rw [h]; exact hsettled.warmup)
      (by rw [h]; rfl), h]
  rfl

/-- By induction on the windows: as long as none is due the tuner stays settled
and counts. -/
theorem monitor_run (hsettled : JustSettled t) (hvalid : ∀ n, ValidTime (e n)) {w : ℕ}
    (hnone : ∀ v, 1 ≤ v → v ≤ w → ¬ RecheckDue e t.steadyUs v) :
    tunerAt t e (16 * w) = monitored t e w := by
  induction w with
  | zero => exact (monitored_zero hsettled).symm
  | succ w ih =>
    have hw : w < 1024 := by
      by_contra hge
      exact hnone 1024 (by decide) (by omega) (.inl rfl)
    rw [monitored_window hsettled hvalid (ih fun v hv hle => hnone v hv (by omega))]
    exact monitored_keeps hw (hnone (w + 1) (by omega) le_rfl)

/-- Up to the end of the first window that is due, the tuner is settled on its
count. -/
theorem settled_before (hsettled : JustSettled t) (hvalid : ∀ n, ValidTime (e n)) {w : ℕ}
    (hnone : ∀ v, 1 ≤ v → v < w → ¬ RecheckDue e t.steadyUs v) {n : ℕ} (hn : n < 16 * w) :
    (tunerAt t e n).phase = .settled ∧ (tunerAt t e n).best = t.best ∧
      (tunerAt t e n).current = t.current := by
  have hrun := monitor_run hsettled hvalid (w := n / 16) fun v hv hle => hnone v hv (by omega)
  have heq := monitor_samples (t := t) (n := 16 * (n / 16)) (j := n % 16) hvalid
    (by rw [hrun]; exact hsettled.phase) (by rw [hrun]; exact hsettled.warmup) (by rw [hrun]; rfl)
    (by omega)
  rw [Nat.div_add_mod, hrun] at heq
  rw [heq]
  exact ⟨hsettled.phase, rfl, rfl⟩

/-- At the end of the first window that is due, the tuner goes back to the start
of a sweep. -/
theorem left_at (hsettled : JustSettled t) (hvalid : ∀ n, ValidTime (e n)) {w : ℕ} (hw : 1 ≤ w)
    (hdue : RecheckDue e t.steadyUs w)
    (hnone : ∀ v, 1 ≤ v → v < w → ¬ RecheckDue e t.steadyUs v) :
    tunerAt t e (16 * w) = { monitored t e w with cursor := 0, phase := .base, drift := 0 } := by
  obtain ⟨v, rfl⟩ : ∃ v, w = v + 1 := ⟨w - 1, by omega⟩
  have hv : v < 1024 := by
    by_contra hge
    exact hnone 1024 (by decide) (by omega) (.inl rfl)
  have hrun := monitor_run hsettled hvalid (w := v) fun u hu hle => hnone u hu (by omega)
  rw [monitored_window hsettled hvalid hrun]
  exact monitored_leaves hv hdue

/-- The first window that is due is the one at whose end the tuner leaves. -/
theorem leavesAt_of_first (hsettled : JustSettled t) (hvalid : ∀ n, ValidTime (e n)) {w : ℕ}
    (h : IsLeast {v | 1 ≤ v ∧ RecheckDue e t.steadyUs v} w) : LeavesAt t e w := by
  have hnone : ∀ v, 1 ≤ v → v < w → ¬ RecheckDue e t.steadyUs v := by
    intro v hv hlt hdue
    have := h.2 ⟨hv, hdue⟩
    omega
  constructor
  · rw [left_at hsettled hvalid h.1.1 h.1.2 hnone]
    show TunerPhase.base ≠ .settled
    decide
  · intro n hn
    exact (settled_before hsettled hvalid hnone hn).1

/-- The tuner leaves at one window only. -/
theorem LeavesAt.unique {v w : ℕ} (hv : LeavesAt t e v) (hw : LeavesAt t e w) : v = w := by
  obtain h | h | h := lt_trichotomy v w
  · exact absurd (hw.2 (16 * v) (by omega)) hv.1
  · exact h
  · exact absurd (hv.2 (16 * w) (by omega)) hw.1

/-- The re-check comes in the 1024th window at the latest. -/
theorem exists_first_due (e : ℕ → R) (settled : R) :
    ∃ w, IsLeast {v | 1 ≤ v ∧ RecheckDue e settled v} w := by
  classical
  have hdue : ∃ w, 1 ≤ w ∧ RecheckDue e settled w := ⟨1024, by decide, .inl rfl⟩
  exact ⟨Nat.find hdue, Nat.find_spec hdue, fun v hv => Nat.find_min' hdue hv⟩

end Monitor

/-- A step into SETTLED: the base window that ends the sweep. -/
theorem settle_step {u : WorkerTuner R} (hinv : TunerInv u) (hphase : u.phase ≠ .settled) {e₀ : R}
    (hset : (workerTunerObserve u (some e₀)).phase = .settled) :
    JustSettled (workerTunerObserve u (some e₀)) ∧
      (workerTunerObserve u (some e₀)).steadyUs = tunerMedian (u.samples ++ [e₀]) := by
  have hvalid : ValidTime e₀ := by
    by_contra hinvalid
    rw [workerTunerObserve_ignored (by rintro _ ⟨⟩; exact hinvalid)] at hset
    exact hphase hset
  obtain ⟨-, heq⟩ | ⟨-, -, -, s, -, heq⟩ | ⟨hwarm, -, s, hs, heq⟩ :=
    workerTunerObserve_cases hvalid hinv.used_lt
  · rw [heq] at hset
    exact absurd hset hphase
  · rw [heq] at hset
    exact absurd hset hphase
  · rw [heq] at hset ⊢
    have hinv' := hinv.setRemaining (u.remaining - 1)
    generalize hv : ({ u with remaining := u.remaining - 1 } : WorkerTuner R) = v at *
    have hsame : v.phase = u.phase := by rw [← hv]
    have hvwarm : v.warmup = 0 := by
      rw [← hv]
      exact hwarm
    have hend := tunerClose_end hinv' (tunerMedian s)
    generalize tunerClose v (tunerMedian s) = v' at hset hend ⊢
    cases hend with
    | settle hbase =>
      -- the window of a base phase has not been sorted
      have hkept := hs.kept (by rw [← hsame, hbase]; decide)
      exact ⟨⟨rfl, hvwarm, rfl, rfl, rfl⟩, congrArg tunerMedian hkept⟩
    | start => exact absurd hset (by simp)
    | confirm => exact absurd hset (by simp)
    | accept => exact absurd hset (by simp)
    | reject => exact absurd hset (by simp)
    | stay _ h => exact absurd (hsame.symm.trans h) hphase
    | restart h => exact absurd (hsame.symm.trans h) hphase

/-- **SETTLED is left exactly on sustained drift or at the periodic re-check.**
After a reachable tuner has settled, and for every sequence of valid samples
from there on, it leaves at the end of the first window that is due and not
earlier.  Until then the best and the current count do not change; then the
sweep restarts below the first candidate.  The timings, their medians and the
bounds of the drift are `double` or those of any other arithmetic. -/
theorem settled_left_iff (initial limit : ℤ) (before : List (Option R)) (e₀ : R) (e : ℕ → R)
    (hunsettled : (tunerRun (workerTunerInit initial limit) before).phase ≠ .settled)
    (hsettles : (workerTunerObserve (tunerRun (workerTunerInit initial limit) before)
      (some e₀)).phase = .settled)
    (hvalid : ∀ n, ValidTime (e n)) :
    let u := tunerRun (workerTunerInit initial limit) before
    let t := workerTunerObserve u (some e₀)
    ∀ w, 1 ≤ w →
      (LeavesAt t e w ↔ IsLeast {v | 1 ≤ v ∧ RecheckDue e (tunerMedian (u.samples ++ [e₀])) v} w) ∧
      (LeavesAt t e w →
        (∀ n ≤ 16 * w, (tunerAt t e n).best = t.best ∧ (tunerAt t e n).current = t.current) ∧
        (tunerAt t e (16 * w)).phase = .base ∧ (tunerAt t e (16 * w)).cursor = 0) := by
  intro u t w hw
  have hinv : TunerInv u := tunerRun_inv (workerTunerInit_inv initial limit) before
  obtain ⟨hsettled, hsteady⟩ := settle_step hinv hunsettled hsettles
  rw [← hsteady]
  -- some window is the first one due, and a tuner leaves only once
  have hiff : LeavesAt t e w ↔ IsLeast {v | 1 ≤ v ∧ RecheckDue e t.steadyUs v} w := by
    constructor
    · intro hleaves
      obtain ⟨v, hv⟩ := exists_first_due e t.steadyUs
      rw [hleaves.unique (leavesAt_of_first hsettled hvalid hv)]
      exact hv
    · intro hfirst
      exact leavesAt_of_first hsettled hvalid hfirst
  refine ⟨hiff, ?_⟩
  intro hleaves
  have hfirst := hiff.mp hleaves
  have hnone : ∀ v, 1 ≤ v → v < w → ¬ RecheckDue e t.steadyUs v := by
    intro v hv hlt hdue
    have := hfirst.2 ⟨hv, hdue⟩
    omega
  have hend := left_at hsettled hvalid hw hfirst.1.2 hnone
  refine ⟨?_, by rw [hend], by rw [hend]⟩
  intro n hn
  obtain hlt | rfl := hn.lt_or_eq
  · exact (settled_before hsettled hvalid hnone hlt).2
  · rw [hend]
    exact ⟨rfl, rfl⟩

/-! ### Constant timings -/

/-- A tuner of one worker after two discards and its first window. -/
def settledOn (x : R) : WorkerTuner R :=
  tunerRun (workerTunerInit 1 1) (List.replicate 18 (some x))

theorem nthMedian_constant {y : R} (hy : tunerMedian (List.replicate 16 y) = y) (v : ℕ) :
    nthMedian (fun _ => y) v = y := by
  unfold nthMedian windowSamples
  rw [List.map_const', List.length_range, hy]

/-- Constant timings are due with the cooldown over, or at the re-check. -/
theorem first_due_constant (settled : R) {y : R} (hy : tunerMedian (List.replicate 16 y) = y) :
    IsLeast {v | 1 ≤ v ∧ RecheckDue (fun _ => y) settled v}
      (if Drifted settled y then 18 else 1024) := by
  by_cases hdrift : Drifted settled y
  · rw [if_pos hdrift]
    refine ⟨⟨by decide, .inr ?_⟩, ?_⟩
    · simp only [nthMedian_constant hy]
      exact ⟨le_rfl, hdrift, hdrift, hdrift⟩
    · rintro v ⟨-, rfl | ⟨hv, -⟩⟩
      · decide
      · exact hv
  · rw [if_neg hdrift]
    refine ⟨⟨by decide, .inl rfl⟩, ?_⟩
    rintro v ⟨-, rfl | ⟨-, hcounts, -⟩⟩
    · exact le_rfl
    · rw [nthMedian_constant hy] at hcounts
      exact absurd hcounts hdrift

/-- On constant timings a tuner that has just settled leaves with the cooldown over,
or at the re-check. -/
theorem leavesAt_constant {t : WorkerTuner R} (hsettled : JustSettled t) {y : R}
    (hy : tunerMedian (List.replicate 16 y) = y) (hvalid : ValidTime y) :
    LeavesAt t (fun _ => y) (if Drifted t.steadyUs y then 18 else 1024) := by
  have hfirst := first_due_constant t.steadyUs hy
  exact leavesAt_of_first hsettled (fun _ => hvalid) hfirst

/-- Constant `double` timings keep the tuner settled for all of the 1024 windows. -/
theorem settled_left_at_recheck : LeavesAt (settledOn (1.0 : Float)) (fun _ => 1.0) 1024 := by
  have hsteady : tunerMedian ((tunerRun (workerTunerInit 1 1)
      (List.replicate 17 (some (1.0 : Float)))).samples ++ [1.0]) = 1.0 := by decide +kernel
  refine ((settled_left_iff 1 1 (List.replicate 17 (some (1.0 : Float))) 1.0 (fun _ => 1.0)
    (by decide +kernel) (by decide +kernel) (fun _ => by decide +kernel)) 1024
    (by decide)).1.mpr ?_
  have hdue := first_due_constant (1.0 : Float) (y := 1.0) (by decide +kernel)
  rwa [if_neg (by decide +kernel), ← hsteady] at hdue

/-! ### Rounded bounds -/

/-- The value of a finite `double`. -/
def doubleValue (x : Float) : ℚ :=
  match x.toModel.unpack with
  | .finite .positive mantissa exponent _ => mantissa * 2 ^ exponent
  | .finite .negative mantissa exponent _ => -(mantissa * 2 ^ exponent)
  | _ => 0

/-- **The bounds of the drift are rounded.**  Settled on 7 microseconds and then at
4.55, whose `double` is below 0.65 times 7, the tuner does not leave at window 18;
settled on 1060 nanoseconds and then at 689, which is 0.65 times 1060, it does. -/
theorem settled_left_rounded :
    (LeavesAt (settledOn (7.0 : Float)) (fun _ => 4.55) 1024 ∧
      ¬ LeavesAt (settledOn (7.0 : Float)) (fun _ => 4.55) 18 ∧
      IsLeast {v | 1 ≤ v ∧ RecheckDue (fun _ => doubleValue 4.55) (doubleValue 7.0) v} 18) ∧
    (LeavesAt (settledOn (1.06 : Float)) (fun _ => 0.689) 18 ∧
      IsLeast {v | 1 ≤ v ∧ RecheckDue (fun _ => (0.689 : ℚ)) 1.06 v} 1024) := by
  have hstays : LeavesAt (settledOn (7.0 : Float)) (fun _ => 4.55) 1024 := by
    have hsettled : JustSettled (settledOn (7.0 : Float)) :=
      ⟨by decide +kernel, by decide +kernel, by decide +kernel, by decide +kernel,
        by decide +kernel⟩
    have hleaves := leavesAt_constant hsettled (y := 4.55) (by decide +kernel) (by decide +kernel)
    rwa [if_neg (by decide +kernel)] at hleaves
  have hleaves : LeavesAt (settledOn (1.06 : Float)) (fun _ => 0.689) 18 := by
    have hsettled : JustSettled (settledOn (1.06 : Float)) :=
      ⟨by decide +kernel, by decide +kernel, by decide +kernel, by decide +kernel,
        by decide +kernel⟩
    have hleaves := leavesAt_constant hsettled (y := 0.689) (by decide +kernel) (by decide +kernel)
    rwa [if_pos (by decide +kernel)] at hleaves
  refine ⟨⟨hstays, ?_, ?_⟩, hleaves, ?_⟩
  · intro hearly
    exact absurd (hstays.unique hearly) (by decide)
  · have hdue := first_due_constant (doubleValue 7.0) (y := doubleValue 4.55)
      (by decide +kernel)
    rwa [if_pos (by decide +kernel)] at hdue
  · have hdue := first_due_constant (1.06 : ℚ) (y := 0.689) (by decide +kernel)
    rwa [if_neg (by decide +kernel)] at hdue

end AutoUpscale
