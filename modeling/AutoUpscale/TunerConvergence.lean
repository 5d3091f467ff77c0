/-
Convergence of the worker tuner under a stationary cost.

The timings are those of a cost function of the worker count, up to outliers
that no window's median notices.  A run is an infinite sequence of them; a cycle
of a base, a trial and a confirmation window moves the cursor up the grid of
counts, so the sweep ends.

- `window_closes`: every window ends, and its median is the exact cost.
- `sweep_step`: a base window at the start of a cycle settles, or the next cycle
  starts further up the grid with everything below it covered.
- `tuner_converges`: the run settles within 5% of every count of the grid.
-/
import AutoUpscale.WorkerTuner

namespace AutoUpscale

/-! ### Stationary timings -/

variable {R : Type} [Timing R]

/-- The tuner after the first `n` timings. -/
def tunerAt (t : WorkerTuner R) (e : ℕ → R) : ℕ → WorkerTuner R
  | 0 => t
  | n + 1 => workerTunerObserve (tunerAt t e n) (some (e n))

/-- The outliers of a window taken on `count`. -/
def outliers (c : ℤ → ℚ) (count : ℤ) (window : List ℚ) : ℕ :=
  window.countP fun u => decide (u ≠ c count)

/-- Positive timings, the cost of the current count but for at most seven
outliers in each window of sixteen, and at most one outlier among the first
four samples of each trial window.  Discarded timings are arbitrary. -/
structure StationaryCost (c : ℤ → ℚ) (t : WorkerTuner ℚ) (e : ℕ → ℚ) : Prop where
  positive : ∀ n, 0 < e n
  window : ∀ n, (tunerAt t e n).warmup = 0 → (tunerAt t e n).used = 15 →
    outliers c (tunerAt t e n).current ((tunerAt t e n).samples ++ [e n]) ≤ 7
  trial : ∀ n, (tunerAt t e n).warmup = 0 → (tunerAt t e n).phase = .trial →
    (tunerAt t e n).used = 3 →
    outliers c (tunerAt t e n).current ((tunerAt t e n).samples ++ [e n]) ≤ 1

theorem tunerAt_inv {t : WorkerTuner R} (h : TunerInv t) (e : ℕ → R) (n : ℕ) :
    TunerInv (tunerAt t e n) := by
  induction n with
  | zero => exact h
  | succ n ih => exact workerTunerObserve_inv ih _

/-! ### Every window ends on the exact cost -/

section Run

variable {c : ℤ → ℚ} {t : WorkerTuner ℚ} {e : ℕ → ℚ}

/-- The median of a window that ends is the cost of the current count. -/
theorem closing_median (h : StationaryCost c t e) {n : ℕ} (hwarm : (tunerAt t e n).warmup = 0)
    (hend : (tunerAt t e n).used + 1 = 16 ∨
      TrialTooSlow (tunerAt t e n) ((tunerAt t e n).samples ++ [e n])) :
    tunerMedian ((tunerAt t e n).samples ++ [e n]) = c (tunerAt t e n).current := by
  have hlen : ((tunerAt t e n).samples ++ [e n]).length = (tunerAt t e n).used + 1 := by
    rw [List.length_append]
    rfl
  obtain h16 | ⟨hphase, hfour, -⟩ := hend
  · have hout := h.window n hwarm (by omega)
    exact tunerMedian_of_majority (m := 8) (by omega) (Nat.lt_succ_of_le hout)
  · have hout := h.trial n hwarm hphase (by omega)
    exact tunerMedian_of_majority (m := 2) (by omega) (Nat.lt_succ_of_le hout)

/-- The window end depends on neither the samples nor the recheck countdown it
is about to drop. -/
theorem tunerClose_samples (t : WorkerTuner R) (s : List R) (elapsed : R) :
    tunerClose { t with samples := s } elapsed = tunerClose t elapsed := by
  unfold tunerClose
  rw [tunerWindow_samples]

/-- By induction on the discards and samples still to come: the window ends. -/
theorem window_closes_from (hinv : TunerInv t) (h : StationaryCost c t e) {u : WorkerTuner ℚ}
    (k : ℕ) {n : ℕ}
    (hsame : ∃ w r s, tunerAt t e n = { u with warmup := w, remaining := r, samples := s })
    (hk : (tunerAt t e n).warmup + (16 - (tunerAt t e n).used) ≤ k) :
    ∃ m r, n < m ∧ tunerAt t e m =
      tunerClose { u with warmup := 0, remaining := r } (c u.current) := by
  -- `k` bounds the discards and the samples that are still to come
  induction k generalizing n with
  | zero =>
    have hused := (tunerAt_inv hinv e n).used_lt
    unfold tunerSamples at hused
    omega
  | succ k ih =>
    have hused := (tunerAt_inv hinv e n).used_lt
    unfold tunerSamples at hused
    obtain ⟨w, r, s, heq⟩ := hsame
    have hmedian := closing_median h (n := n)
    have hnext : tunerAt t e (n + 1) = workerTunerObserve (tunerAt t e n) (some (e n)) := rfl
    obtain ⟨hwarm, hobs⟩ | ⟨hwarm, hshort, -, s', hperm, hobs⟩ | ⟨hwarm, hend, hobs⟩ :=
      workerTunerObserve_exact (h.positive n) hused
    · have hstep := hnext.trans hobs
      obtain ⟨m, r', hm, hclose⟩ := ih (n := n + 1) ⟨w - 1, r, s, by rw [hstep, heq]⟩ (by
        rw [hstep]
        change (tunerAt t e n).warmup - 1 + (16 - (tunerAt t e n).used) ≤ k
        omega)
      exact ⟨m, r', by omega, hclose⟩
    · have hstep := hnext.trans hobs
      have hlen : s'.length = (tunerAt t e n).used + 1 := by
        rw [hperm.length_eq, List.length_append]
        rfl
      obtain ⟨m, r', hm, hclose⟩ := ih (n := n + 1) ⟨w, r - 1, s', by rw [hstep, heq]⟩ (by
        rw [hstep]
        change (tunerAt t e n).warmup + (16 - s'.length) ≤ k
        omega)
      exact ⟨m, r', by omega, hclose⟩
    · refine ⟨n + 1, r - 1, Nat.lt_succ_self n, ?_⟩
      rw [hnext, hobs, hmedian hwarm hend]
      rw [heq] at hwarm ⊢
      change w = 0 at hwarm
      rw [hwarm]
      exact tunerClose_samples { u with warmup := 0, remaining := r - 1 } s (c u.current)

/-- **Every window ends**, on the exact cost of its count. -/
theorem window_closes (hinv : TunerInv t) (h : StationaryCost c t e) (n : ℕ) :
    ∃ m r, n < m ∧ tunerAt t e m =
      tunerClose { tunerAt t e n with warmup := 0, remaining := r }
        (c (tunerAt t e n).current) :=
  window_closes_from hinv h _ ⟨_, _, _, rfl⟩ le_rfl

/-! ### The sweep -/

/-- A cycle starts: a base window is open, and every count of the grid up to the
cursor is within 5% of the best. -/
structure CycleStart (c : ℤ → ℚ) (t u : WorkerTuner ℚ) : Prop where
  phase : u.phase = .base
  limit : u.limit = t.limit
  cursor_le : u.cursor ≤ t.limit
  best_le : c u.best ≤ c t.best
  covered : ∀ k, TunerGrid t.limit k → k ≤ u.cursor → 95 / 100 * c u.best ≤ c k

/-- The run has settled within 5% of every count of the grid. -/
structure Converged (c : ℤ → ℚ) (t u : WorkerTuner ℚ) : Prop where
  phase : u.phase = .settled
  best_le : c u.best ≤ c t.best
  optimal : ∀ k, TunerGrid t.limit k → 95 / 100 * c u.best ≤ c k

theorem five_percent {a : ℚ} (ha : 0 < a) : 95 / 100 * a ≤ a := by linarith

theorem tunerCounts_pos : ∀ k ∈ tunerCounts, 1 ≤ k := by decide

omit [Timing R] in
/-- Between the cursor and the next one stands no count of the grid but the
best. -/
theorem tunerNextCursor_skips {u : WorkerTuner R} (hinv : TunerInv u) {k : ℤ}
    (hk : TunerGrid u.limit k) :
    (tunerNextCursor u = 0 → k ≤ u.cursor ∨ k = u.best) ∧
      (tunerNextCursor u ≠ 0 → k ≤ tunerNextCursor u →
        k ≤ u.cursor ∨ k = u.best ∨ k = tunerNextCursor u) := by
  have hkle : k ≤ u.limit := by
    obtain ⟨-, hlt⟩ | rfl := hk
    · exact hlt.le
    · exact le_rfl
  have hbest := hinv.best_pos
  unfold tunerNextCursor
  dsimp only
  have hcursor := hinv.cursor_nonneg
  obtain ⟨hle, hzero⟩ | ⟨hlt, hnle, -, hleast⟩ :=
    tunerNextCount_cases u.cursor hinv.limit_le
  · rw [if_neg (by omega), hzero]
    exact ⟨fun _ => .inl (by omega), fun hne => absurd rfl hne⟩
  · split_ifs with heq
    · -- the next count is the best, and the one after it is taken
      rw [heq]
      rw [heq] at hleast hnle
      obtain ⟨hle, hzero⟩ | ⟨hlt', -, -, hleast'⟩ :=
        tunerNextCount_cases u.best hinv.limit_le
      · refine ⟨fun _ => ?_, fun hne => absurd hzero hne⟩
        by_cases hkc : k ≤ u.cursor
        · exact .inl hkc
        · have := hleast k hk (by omega)
          exact .inr (by omega)
      · refine ⟨fun hzero => by omega, fun _ hkn => ?_⟩
        · by_cases hkc : k ≤ u.cursor
          · exact .inl hkc
          · have hkb := hleast k hk (by omega)
            by_cases hkeq : k = u.best
            · exact .inr (.inl hkeq)
            · have := hleast' k hk (by omega)
              exact .inr (.inr (by omega))
    · refine ⟨fun hzero => by omega, fun _ hkn => ?_⟩
      · by_cases hkc : k ≤ u.cursor
        · exact .inl hkc
        · have := hleast k hk (by omega)
          exact .inr (.inr (by omega))

omit [Timing R] in
/-- The cursor moves up. -/
theorem tunerNextCursor_lt {u : WorkerTuner R} (hinv : TunerInv u) (hne : tunerNextCursor u ≠ 0) :
    u.cursor < tunerNextCursor u := by
  unfold tunerNextCursor at hne ⊢
  dsimp only at hne ⊢
  obtain ⟨-, hzero⟩ | ⟨hlt, -, -, -⟩ :=
    tunerNextCount_cases u.cursor hinv.limit_le
  · have hbest := hinv.best_pos
    rw [if_neg (by omega)] at hne
    exact absurd hzero hne
  · split_ifs at hne ⊢ with heq
    · obtain ⟨-, hzero⟩ | ⟨hlt', -, -, -⟩ :=
        tunerNextCount_cases (tunerNextCount u.cursor u.limit) hinv.limit_le
      · exact absurd hzero hne
      · exact hlt.trans hlt'
    · exact hlt

/-- **One cycle**: the sweep settles, or the next cycle starts with the cursor
further up. -/
theorem sweep_step (hc : ∀ k, 1 ≤ k → 0 < c k) (hinv : TunerInv t) (h : StationaryCost c t e)
    {n : ℕ} (hstart : CycleStart c t (tunerAt t e n)) :
    ∃ m, Converged c t (tunerAt t e m) ∨
      (CycleStart c t (tunerAt t e m) ∧
        (tunerAt t e n).cursor < (tunerAt t e m).cursor) := by
  obtain ⟨hphase, hlimit, -, hbestLe, hcovered⟩ := hstart
  have hun := tunerAt_inv hinv e n
  have hcurrent := hun.current_eq (by rw [hphase]; decide)
  obtain ⟨m₁, r₁, hm₁, hclose₁⟩ := window_closes hinv h n
  generalize tunerAt t e n = u at *
  have hbestPos := hc u.best hun.best_pos
  by_cases hcursor : tunerNextCursor u = 0
  · -- the end of the grid
    refine ⟨m₁, .inl ?_⟩
    rw [hclose₁, tunerClose_settle (t := { u with warmup := 0, remaining := r₁ }) _ hphase hcursor
      hcurrent]
    refine ⟨rfl, hbestLe, fun k hk => ?_⟩
    obtain hkc | hkb := (tunerNextCursor_skips hun (hlimit ▸ hk)).1 hcursor
    · exact hcovered k hk hkc
    · rw [hkb]
      exact five_percent hbestPos
  obtain ⟨hqpos, hqle, hqne⟩ := tunerNextCursor_spec hun hcursor
  have hskips := fun {k} (hk : TunerGrid u.limit k) => (tunerNextCursor_skips hun hk).2 hcursor
  have hqlt := tunerNextCursor_lt hun hcursor
  rw [tunerClose_begin (t := { u with warmup := 0, remaining := r₁ }) _ hphase hcursor
    (by rw [← hcurrent] at hqne; exact hqne), hcurrent] at hclose₁
  change _ = ({ u with
    warmup := tunerWarmup, remaining := r₁, cursor := tunerNextCursor u, baseUs := c u.best
    candidate := tunerNextCursor u, current := tunerNextCursor u, phase := .trial
    samples := [] } : WorkerTuner ℚ) at hclose₁
  generalize tunerNextCursor u = q at *
  -- the trial window on `q`
  obtain ⟨m₂, r₂, hm₂, hclose₂⟩ := window_closes hinv h m₁
  rw [hclose₁, tunerClose_trial _ rfl hqne] at hclose₂
  -- the confirmation window on the best count
  obtain ⟨m₃, r₃, hm₃, hclose₃⟩ := window_closes hinv h m₂
  rw [hclose₂] at hclose₃
  refine ⟨m₃, .inr ?_⟩
  have hqPos := hc q hqpos
  have hkept : ∀ k, TunerGrid u.limit k → k ≤ q → k ≠ q → 95 / 100 * c u.best ≤ c k := by
    intro k hk hkq hne
    obtain hkc | hkb | hkq' := hskips hk hkq
    · exact hcovered k (hlimit ▸ hk) hkc
    · rw [hkb]
      exact five_percent hbestPos
    · exact absurd hkq' hne
  by_cases hgain : c q < c u.best * (95 / 100)
  · -- 5% faster: the counts passed over are compared with a smaller cost now
    rw [tunerClose_accept _ rfl (verifiedGain_iff.mpr <| by
      change c q < min (c u.best) (c u.best) * (95 / 100)
      rw [min_self]
      exact hgain) rfl hqne] at hclose₃
    rw [hclose₃]
    refine ⟨⟨rfl, hlimit, hlimit ▸ hqle, ?_, fun k hk hkq => ?_⟩, hqlt⟩
    · change c q ≤ c t.best
      linarith
    · change k ≤ q at hkq
      change 95 / 100 * c q ≤ c k
      by_cases hkeq : k = q
      · rw [hkeq]
        exact five_percent hqPos
      · have := hkept k (hlimit.symm ▸ hk) hkq hkeq
        linarith
  · -- not 5% faster: one count more that does not beat the best one
    rw [tunerClose_reject _ rfl (fun hv => hgain <| by
      have hv : c q < min (c u.best) (c u.best) * (95 / 100) := verifiedGain_iff.mp hv
      rwa [min_self] at hv) rfl] at hclose₃
    rw [hclose₃]
    refine ⟨⟨rfl, hlimit, hlimit ▸ hqle, hbestLe, fun k hk hkq => ?_⟩, hqlt⟩
    change k ≤ q at hkq
    change 95 / 100 * c u.best ≤ c k
    by_cases hkeq : k = q
    · rw [hkeq]
      linarith
    · exact hkept k (hlimit.symm ▸ hk) hkq hkeq

/-- By induction on the counts left above the cursor: the sweep settles. -/
theorem sweep_settles (hc : ∀ k, 1 ≤ k → 0 < c k) (hinv : TunerInv t) (h : StationaryCost c t e)
    (left : ℕ) {n : ℕ} (hstart : CycleStart c t (tunerAt t e n))
    (hleft : (t.limit - (tunerAt t e n).cursor).toNat ≤ left) :
    ∃ m, Converged c t (tunerAt t e m) := by
  induction left generalizing n with
  | zero =>
    obtain ⟨m, hdone | ⟨hnext, hlt⟩⟩ := sweep_step hc hinv h hstart
    · exact ⟨m, hdone⟩
    · have hle := hnext.cursor_le
      omega
  | succ left ih =>
    obtain ⟨m, hdone | ⟨hnext, hlt⟩⟩ := sweep_step hc hinv h hstart
    · exact ⟨m, hdone⟩
    · exact ih hnext (by omega)

end Run

/-- **The tuner converges under a stationary cost.**  Whatever the limit, the
initial count and the positive cost of each count: with timings of that cost, up
to outliers that no window's median notices, the run settles on a count that
costs no more than the initial one and at most 1/0.95 of any count of the grid. -/
theorem tuner_converges (initial limit : ℤ) {c : ℤ → ℚ} {e : ℕ → ℚ}
    (hc : ∀ k, 1 ≤ k → 0 < c k) (h : StationaryCost c (workerTunerInit initial limit) e) :
    ∃ n, (tunerAt (workerTunerInit initial limit) e n).phase = .settled ∧
      c (tunerAt (workerTunerInit initial limit) e n).best ≤
        c (workerTunerInit initial limit : WorkerTuner ℚ).best ∧
      ∀ k, TunerGrid (workerTunerInit initial limit : WorkerTuner ℚ).limit k →
        95 / 100 * c (tunerAt (workerTunerInit initial limit) e n).best ≤ c k := by
  have hinv : TunerInv (workerTunerInit initial limit : WorkerTuner ℚ) :=
    workerTunerInit_inv initial limit
  have hstart : CycleStart c (workerTunerInit initial limit)
      (tunerAt (workerTunerInit initial limit) e 0) :=
    { phase := rfl
      limit := rfl
      cursor_le := (zero_le_one.trans hinv.limit_pos :)
      best_le := le_rfl
      covered := fun k hk hle => by
        change k ≤ 0 at hle
        have hpos := hinv.limit_pos
        obtain ⟨hmem, -⟩ | rfl := hk
        · have := tunerCounts_pos k hmem
          omega
        · omega }
  obtain ⟨n, hsettled, hbest, hoptimal⟩ := sweep_settles hc hinv h _ hstart le_rfl
  exact ⟨n, hsettled, hbest, hoptimal⟩

/-! ### Noisy timings -/

/-- The places of a window where a timing goes wrong: the second, and the last six. -/
def noisySlot (used : ℕ) : Bool := decide (used = 1 ∨ 10 ≤ used)

/-- How many of them are among the first `used`. -/
def noisySlots (used : ℕ) : ℕ := (if 2 ≤ used then 1 else 0) + (used - 10)

theorem noisySlots_succ (used : ℕ) :
    noisySlots (used + 1) = noisySlots used + if noisySlot used then 1 else 0 := by
  unfold noisySlots noisySlot
  simp only [decide_eq_true_eq]
  split_ifs <;> omega

/-- The timing a tuner is given: the cost of its count, or `noise` on a discard and
at those places. -/
def noisyTiming (c : ℤ → ℚ) (noise : ℚ) (u : WorkerTuner ℚ) : ℚ :=
  if u.warmup = 0 ∧ noisySlot u.used = false then c u.current else noise

def noisyRun (c : ℤ → ℚ) (noise : ℚ) (t : WorkerTuner ℚ) : ℕ → WorkerTuner ℚ
  | 0 => t
  | n + 1 =>
    workerTunerObserve (noisyRun c noise t n) (some (noisyTiming c noise (noisyRun c noise t n)))

def noisyTimings (c : ℤ → ℚ) (noise : ℚ) (t : WorkerTuner ℚ) (n : ℕ) : ℚ :=
  noisyTiming c noise (noisyRun c noise t n)

section Noise

variable {c : ℤ → ℚ} {noise : ℚ} {t : WorkerTuner ℚ}

theorem tunerAt_noisyTimings (n : ℕ) :
    tunerAt t (noisyTimings c noise t) n = noisyRun c noise t n := by
  induction n with
  | zero => rfl
  | succ n ih =>
    unfold tunerAt noisyRun
    rw [ih]
    rfl

/-- One more sample brings one more outlier at those places only. -/
theorem outliers_noisyTiming {u : WorkerTuner ℚ} (hwarm : u.warmup = 0)
    (hfew : outliers c u.current u.samples ≤ noisySlots u.used) :
    outliers c u.current (u.samples ++ [noisyTiming c noise u]) ≤ noisySlots (u.used + 1) := by
  have hlast : outliers c u.current [noisyTiming c noise u] ≤ if noisySlot u.used then 1 else 0 := by
    unfold outliers
    rw [List.countP_singleton]
    cases hslot : noisySlot u.used with
    | true =>
      rw [if_pos rfl]
      split_ifs <;> omega
    | false =>
      have hexact : noisyTiming c noise u = c u.current := if_pos ⟨hwarm, hslot⟩
      simp [hexact]
  rw [noisySlots_succ]
  unfold outliers at hfew hlast ⊢
  rw [List.countP_append]
  omega

/-- By induction on the timings: the samples of a window hold no other outlier. -/
theorem outliers_noisyRun (hinv : ∀ n, TunerInv (noisyRun c noise t n))
    (hpos : ∀ n, 0 < noisyTimings c noise t n) (hstart : t.samples = []) (n : ℕ) :
    outliers c (noisyRun c noise t n).current (noisyRun c noise t n).samples ≤
      noisySlots (noisyRun c noise t n).used := by
  induction n with
  | zero =>
    show outliers c t.current t.samples ≤ _
    rw [hstart]
    exact Nat.zero_le _
  | succ n ih =>
    have hnext : noisyRun c noise t (n + 1) =
        workerTunerObserve (noisyRun c noise t n) (some (noisyTimings c noise t n)) := rfl
    obtain ⟨-, heq⟩ | ⟨hwarm, -, -, s, hperm, heq⟩ | ⟨-, -, heq⟩ :=
      workerTunerObserve_exact (hpos n) (hinv n).used_lt
    · rw [hnext, heq]
      exact ih
    · have hmore : outliers c (noisyRun c noise t n).current
          ((noisyRun c noise t n).samples ++ [noisyTimings c noise t n]) ≤ _ :=
        outliers_noisyTiming hwarm ih
      rw [hnext, heq]
      have hused : s.length = (noisyRun c noise t n).used + 1 := by
        rw [hperm.length_eq, List.length_append]
        rfl
      show s.countP _ ≤ noisySlots s.length
      rw [hperm.countP_eq, hused]
      exact hmore
    · rw [hnext, heq]
      exact Nat.zero_le _

/-- Noise at seven places of every window, one of them among the first four, is no
more than the tuner can take. -/
theorem noisyTimings_stationary (hc : ∀ k, 1 ≤ k → 0 < c k) (hnoise : 0 < noise)
    (hinv : TunerInv t) (hstart : t.samples = []) :
    StationaryCost c t (noisyTimings c noise t) := by
  have hruninv : ∀ n, TunerInv (noisyRun c noise t n) := by
    intro n
    rw [← tunerAt_noisyTimings]
    exact tunerAt_inv hinv _ n
  have hpos : ∀ n, 0 < noisyTimings c noise t n := by
    intro n
    unfold noisyTimings noisyTiming
    split_ifs
    · exact hc _ (hruninv n).current_range.1
    · exact hnoise
  have hfew : ∀ n, (noisyRun c noise t n).warmup = 0 →
      outliers c (noisyRun c noise t n).current
        ((noisyRun c noise t n).samples ++ [noisyTimings c noise t n]) ≤
      noisySlots ((noisyRun c noise t n).used + 1) := fun n hwarm =>
    outliers_noisyTiming hwarm (outliers_noisyRun hruninv hpos hstart n)
  refine ⟨hpos, fun n hwarm hused => ?_, fun n hwarm _ hused => ?_⟩
  · rw [tunerAt_noisyTimings] at hwarm hused ⊢
    have hlast := hfew n hwarm
    rwa [hused] at hlast
  · rw [tunerAt_noisyTimings] at hwarm hused ⊢
    have hlast := hfew n hwarm
    rwa [hused] at hlast

end Noise

/-- A cost that falls with the count and then rises. -/
def valleyCost (k : ℤ) : ℚ := if k ≤ 8 then 200 - k else 150 + k

theorem tuner_converges_valley :
    ∃ t : WorkerTuner ℚ, ∃ e n, t = workerTunerInit 4 16 ∧ e = noisyTimings valleyCost 5000 t ∧
      e 3 = 5000 ∧ (tunerAt t e n).phase = .settled ∧
      valleyCost (tunerAt t e n).best ≤ valleyCost 4 ∧
      ∀ k, TunerGrid 16 k → 95 / 100 * valleyCost (tunerAt t e n).best ≤ valleyCost k := by
  have hpos : ∀ k, 1 ≤ k → 0 < valleyCost k := by
    intro k hk
    unfold valleyCost
    split_ifs with h8
    · have : (k : ℚ) ≤ 8 := by exact_mod_cast h8
      linarith
    · have : (1 : ℚ) ≤ k := by exact_mod_cast hk
      linarith
  obtain ⟨n, hsettled, hbest, hoptimal⟩ := tuner_converges 4 16 hpos
    (noisyTimings_stationary hpos (show (0 : ℚ) < 5000 by norm_num) (workerTunerInit_inv 4 16) rfl)
  exact ⟨_, _, n, rfl, rfl, by decide +kernel, hsettled, hbest, hoptimal⟩

end AutoUpscale
