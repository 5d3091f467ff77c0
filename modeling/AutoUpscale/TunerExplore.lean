/-
Exploration is bounded, whatever the timings compare to.

`ExploreMove` is an exploration with every timing forgotten: a window may end
early, a confirmation may elect any count, and a trial may take any count of
the grid above the cursor but the best one.  `exploreBudget` counts the samples
such an exploration can still take.

- `exploreMove_budget`, `exploration_budget`: each sample costs at least one.
- `exploration_within`: 558 samples and ten trials bound any such exploration.
- `observe_explores`: before it settles the tuner makes such moves only.
* **`exploration_bounded`** — from a base window with cursor 0 the tuner settles
  within 10 trials and 558 valid samples.
-/
import AutoUpscale.TunerConvergence
import AutoUpscale.LabelledTrace

namespace AutoUpscale

open LabelledTrace

/-! ### Exploration without timings -/

/-- What an exploration keeps when the timings are forgotten. -/
structure Explorer where
  phase : TunerPhase
  best : ℤ
  cursor : ℤ
  warmup : ℕ
  used : ℕ

/-- A window that ends: the next one is empty, after at most two discards. -/
def Explorer.close (x : Explorer) (phase : TunerPhase) (warmup : ℕ) : Explorer :=
  { x with phase := phase, warmup := warmup, used := 0 }

/-- One valid sample of an exploration up to `limit`, labelled with the trial it
starts. -/
inductive ExploreMove (limit : ℤ) : Explorer → Option ℤ → Explorer → Prop
  | discard {x : Explorer} : x.phase ≠ .settled → 0 < x.warmup →
      ExploreMove limit x none { x with warmup := x.warmup - 1 }
  | sample {x : Explorer} : x.phase ≠ .settled → x.used + 1 < 16 →
      ExploreMove limit x none { x with used := x.used + 1 }
  | settle {x : Explorer} {w : ℕ} : x.phase = .base → x.used < 16 → w ≤ 2 →
      ExploreMove limit x none { x.close .settled w with cursor := 0 }
  | begin {x : Explorer} {w : ℕ} {c : ℤ} : x.phase = .base → x.used < 16 → w ≤ 2 →
      x.cursor < c → TunerGrid limit c → c ≠ x.best →
      ExploreMove limit x (some c) { x.close .trial w with cursor := c }
  | measured {x : Explorer} {w : ℕ} : x.phase = .trial → x.used < 16 → w ≤ 2 →
      ExploreMove limit x none (x.close .confirm w)
  | confirmed {x : Explorer} {w : ℕ} {b : ℤ} : x.phase = .confirm → x.used < 16 → w ≤ 2 →
      ExploreMove limit x none { x.close .base w with best := b }

/-! ### The samples still to come -/

/-- The counts of the grid above a cursor. -/
def gridAbove (limit cursor : ℤ) : Finset ℤ :=
  (insert limit (tunerCounts.toFinset.filter (· < limit))).filter (cursor < ·)

theorem mem_gridAbove {limit cursor k : ℤ} :
    k ∈ gridAbove limit cursor ↔ TunerGrid limit k ∧ cursor < k := by
  unfold gridAbove TunerGrid
  rw [Finset.mem_filter, Finset.mem_insert, Finset.mem_filter, List.mem_toFinset, or_comm]

/-- A grid has at most ten counts: its limit, and the nine below 64. -/
theorem card_gridAbove_le {limit : ℤ} (hlimit : limit ≤ threadsMax) (cursor : ℤ) :
    (gridAbove limit cursor).card ≤ 10 := by
  have hbelow : (tunerCounts.toFinset.filter (· < limit)).card ≤ 9 := by
    have hsub : tunerCounts.toFinset.filter (· < limit) ⊆ tunerCounts.toFinset.filter (· < 64) := by
      intro k hk
      rw [Finset.mem_filter] at hk ⊢
      exact ⟨hk.1, hk.2.trans_le hlimit⟩
    exact (Finset.card_le_card hsub).trans (by decide)
  calc (gridAbove limit cursor).card
      ≤ (insert limit (tunerCounts.toFinset.filter (· < limit))).card := Finset.card_filter_le _ _
    _ ≤ (tunerCounts.toFinset.filter (· < limit)).card + 1 := Finset.card_insert_le _ _
    _ ≤ 10 := by omega

/-- Moving the cursor to a count of the grid leaves fewer counts above it. -/
theorem card_gridAbove_lt {limit cursor c : ℤ} (hlt : cursor < c) (hgrid : TunerGrid limit c) :
    (gridAbove limit c).card < (gridAbove limit cursor).card := by
  refine Finset.card_lt_card (Finset.ssubset_iff_of_subset ?_ |>.mpr ⟨c, ?_, ?_⟩)
  · intro k hk
    rw [mem_gridAbove] at hk ⊢
    exact ⟨hk.1, hlt.trans hk.2⟩
  · exact mem_gridAbove.mpr ⟨hgrid, hlt⟩
  · intro hc
    exact lt_irrefl c (mem_gridAbove.mp hc).2

/-- The windows after the current one: three for each count above the cursor,
and the rest of the current cycle. -/
def windowsLeft (limit : ℤ) (x : Explorer) : ℕ :=
  match x.phase with
  | .base => 3 * (gridAbove limit x.cursor).card
  | .trial => 3 * (gridAbove limit x.cursor).card + 2
  | .confirm => 3 * (gridAbove limit x.cursor).card + 1
  | .settled => 0

/-- The samples still to come: what is left of the current window, and 18 for
each later one. -/
def exploreBudget (limit : ℤ) (x : Explorer) : ℕ :=
  if x.phase = .settled then 0
  else x.warmup + (16 - x.used) + 18 * windowsLeft limit x

theorem exploreBudget_settled (limit : ℤ) {x : Explorer} (h : x.phase = .settled) :
    exploreBudget limit x = 0 := if_pos h

/-- A window with fewer after it costs less than the one it follows. -/
theorem exploreBudget_close {limit : ℤ} {x y : Explorer} (hphase : x.phase ≠ .settled)
    (hused : x.used < 16) (hwarm : y.warmup ≤ 2) (hempty : y.used = 0)
    (hfewer : windowsLeft limit y + 1 ≤ windowsLeft limit x) :
    exploreBudget limit y + 1 ≤ exploreBudget limit x := by
  unfold exploreBudget
  rw [if_neg hphase]
  split_ifs <;> omega

/-- Every move costs at least one sample of the budget. -/
theorem exploreMove_budget {limit : ℤ} {x y : Explorer} {l : Option ℤ}
    (h : ExploreMove limit x l y) : exploreBudget limit y + 1 ≤ exploreBudget limit x := by
  cases h with
  | discard hphase hwarm =>
    unfold exploreBudget windowsLeft
    rw [if_neg hphase, if_neg hphase]
    dsimp only
    omega
  | sample hphase hused =>
    unfold exploreBudget windowsLeft
    rw [if_neg hphase, if_neg hphase]
    dsimp only
    omega
  | settle hphase hused hw =>
    rw [exploreBudget_settled limit rfl]
    unfold exploreBudget
    rw [if_neg (by rw [hphase]; decide)]
    omega
  | @begin w c hphase hused hw hlt hgrid hne =>
    -- the trial and its confirmation are paid for by the count passed
    have hcard := card_gridAbove_lt hlt hgrid
    refine exploreBudget_close (by rw [hphase]; decide) hused hw rfl ?_
    unfold windowsLeft
    rw [hphase]
    show 3 * (gridAbove limit c).card + 2 + 1 ≤ 3 * (gridAbove limit x.cursor).card
    omega
  | measured hphase hused hw =>
    refine exploreBudget_close (by rw [hphase]; decide) hused hw rfl ?_
    unfold windowsLeft
    rw [hphase]
    exact le_rfl
  | confirmed hphase hused hw =>
    refine exploreBudget_close (by rw [hphase]; decide) hused hw rfl ?_
    unfold windowsLeft
    rw [hphase]
    exact le_rfl

/-- The samples of an exploration come out of its budget. -/
theorem exploration_budget {limit : ℤ} {x y : Explorer} {tr : List (Option ℤ)}
    (h : Execution (ExploreMove limit) x tr y) :
    exploreBudget limit y + tr.length ≤ exploreBudget limit x := by
  induction h with
  | refl => exact le_rfl
  | snoc _ hmove ih =>
    have hcost := exploreMove_budget hmove
    rw [List.length_append, List.length_singleton]
    omega

/-- The trials of an exploration that began with the cursor at `cursor`: in
ascending order, one for each count the cursor has passed. -/
structure TrialsAscend (limit cursor : ℤ) (tr : List (Option ℤ)) (y : Explorer) : Prop where
  ascending : (tr.filterMap id).Pairwise (· < ·)
  below : y.phase ≠ .settled → ∀ c ∈ tr.filterMap id, c ≤ y.cursor
  passed : y.phase ≠ .settled → cursor ≤ y.cursor
  count : (tr.filterMap id).length
      + (if y.phase = .settled then 0 else (gridAbove limit y.cursor).card)
    ≤ (gridAbove limit cursor).card

/-- A quiet move leaves the cursor alone, or settles. -/
theorem exploreMove_quiet {limit : ℤ} {x y : Explorer} (h : ExploreMove limit x none y) :
    x.phase ≠ .settled ∧ (y.phase ≠ .settled → y.cursor = x.cursor) := by
  cases h with
  | discard hphase _ => exact ⟨hphase, fun _ => rfl⟩
  | sample hphase _ => exact ⟨hphase, fun _ => rfl⟩
  | settle hphase _ _ =>
    refine ⟨by rw [hphase]; decide, ?_⟩
    intro h
    exact absurd rfl h
  | measured hphase _ _ => exact ⟨by rw [hphase]; decide, fun _ => rfl⟩
  | confirmed hphase _ _ => exact ⟨by rw [hphase]; decide, fun _ => rfl⟩

theorem exploration_trials {limit : ℤ} {x y : Explorer} {tr : List (Option ℤ)}
    (h : Execution (ExploreMove limit) x tr y) (hx : x.phase ≠ .settled) :
    TrialsAscend limit x.cursor tr y := by
  induction h with
  | refl =>
    refine ⟨List.Pairwise.nil, ?_, fun _ => le_rfl, ?_⟩
    · intro _ c hc
      exact absurd hc (List.not_mem_nil)
    · rw [if_neg hx]
      exact (zero_add _).le
  | @snoc tr y l z _ hmove ih =>
    cases l with
    | none =>
      -- no trial begins, and the cursor stays unless the sweep ends
      obtain ⟨hy, hsame⟩ := exploreMove_quiet hmove
      have hcount := ih.count
      rw [if_neg hy] at hcount
      have htr : (tr ++ [none]).filterMap id = tr.filterMap id := by simp
      refine ⟨htr ▸ ih.ascending, ?_, ?_, ?_⟩
      · intro hz c hc
        rw [hsame hz]
        exact ih.below hy c (htr ▸ hc)
      · intro hz
        exact (ih.passed hy).trans_eq (hsame hz).symm
      · rw [htr]
        split_ifs with hz
        · omega
        · rw [hsame hz]
          exact hcount
    | some c =>
      cases hmove with
      | begin hphase _ _ hlt hgrid _ =>
        -- the cursor moves up to `c`, which leaves the counts above it
        have hy : y.phase ≠ .settled := by rw [hphase]; decide
        have hcard := card_gridAbove_lt hlt hgrid
        have hcount := ih.count
        rw [if_neg hy] at hcount
        have htr : (tr ++ [some c]).filterMap id = tr.filterMap id ++ [c] := by simp
        refine ⟨?_, ?_, ?_, ?_⟩
        · rw [htr, List.pairwise_append]
          refine ⟨ih.ascending, List.pairwise_singleton _ _, ?_⟩
          intro a ha b hb
          rw [List.mem_singleton.mp hb]
          exact (ih.below hy a ha).trans_lt hlt
        · intro _ a ha
          rw [htr, List.mem_append, List.mem_singleton] at ha
          obtain ha | rfl := ha
          · exact (ih.below hy a ha).trans hlt.le
          · exact le_rfl
        · intro _
          exact (ih.passed hy).trans hlt.le
        · rw [htr, List.length_append, List.length_singleton, if_neg (by simp [Explorer.close])]
          show (tr.filterMap id).length + 1 + (gridAbove limit c).card ≤ _
          omega

/-- The samples of an exploration, labelled with its trials, within the bounds:
558 samples, and ten trials on ascending counts. -/
structure WithinBounds (tr : List (Option ℤ)) : Prop where
  samples : tr.length ≤ 558
  trials : (tr.filterMap id).length ≤ 10
  ascending : (tr.filterMap id).Pairwise (· < ·)

/-- A base window and three windows for each of ten counts. -/
theorem exploreBudget_start {limit : ℤ} (hlimit : limit ≤ threadsMax) {x : Explorer}
    (hphase : x.phase = .base) (hwarm : x.warmup ≤ 2) : exploreBudget limit x ≤ 558 := by
  have hcard := card_gridAbove_le hlimit x.cursor
  unfold exploreBudget windowsLeft
  rw [hphase, if_neg (by decide)]
  dsimp only
  omega

/-- **Any exploration from a base window is bounded**, whatever its windows find. -/
theorem exploration_within {limit : ℤ} (hlimit : limit ≤ threadsMax) {x y : Explorer}
    {tr : List (Option ℤ)} (hphase : x.phase = .base) (hwarm : x.warmup ≤ 2)
    (h : Execution (ExploreMove limit) x tr y) : WithinBounds tr := by
  have hexploring : x.phase ≠ .settled := by rw [hphase]; decide
  have hsweep := exploration_trials h hexploring
  have hcount := hsweep.count
  have hcard := card_gridAbove_le hlimit x.cursor
  have hbudget := exploration_budget h
  have hstart := exploreBudget_start hlimit hphase hwarm
  exact ⟨by omega, by omega, hsweep.ascending⟩

/-! ### The tuner makes such moves -/

section Timings

variable {R : Type}

/-- The tuner with its timings forgotten. -/
def WorkerTuner.explorer (t : WorkerTuner R) : Explorer :=
  ⟨t.phase, t.best, t.cursor, t.warmup, t.used⟩

theorem WorkerTuner.explorer_phase (t : WorkerTuner R) : t.explorer.phase = t.phase := rfl

/-- The label of a step from `t` to `t'`: the count of the trial it starts. -/
def exploreLabel (t t' : WorkerTuner R) : Option ℤ :=
  if t.phase = .base ∧ t'.phase = .trial then some t'.cursor else none

theorem exploreLabel_trial {t t' : WorkerTuner R} (h : t.phase = .base) (h' : t'.phase = .trial) :
    exploreLabel t t' = some t'.cursor := if_pos ⟨h, h'⟩

theorem exploreLabel_quiet {t t' : WorkerTuner R} (h : t.phase = .base → t'.phase ≠ .trial) :
    exploreLabel t t' = none := if_neg fun hb => h hb.1 hb.2

/-- The grid count the sweep moves to. -/
theorem tunerNextCursor_grid {t : WorkerTuner R} (h : TunerInv t) (hne : tunerNextCursor t ≠ 0) :
    TunerGrid t.limit (tunerNextCursor t) := by
  have hbest := h.best_pos
  unfold tunerNextCursor at hne ⊢
  dsimp only at hne ⊢
  split_ifs at hne ⊢ with heq
  · obtain ⟨-, hzero⟩ | ⟨-, -, hgrid, -⟩ :=
      tunerNextCount_cases (tunerNextCount t.cursor t.limit) h.limit_le
    · exact absurd hzero hne
    · exact hgrid
  · obtain ⟨-, hzero⟩ | ⟨-, -, hgrid, -⟩ := tunerNextCount_cases t.cursor h.limit_le
    · exact absurd hzero hne
    · exact hgrid

variable [Timing R]

/-- The end of an exploring window is a move, labelled with its trial. -/
theorem close_explores {t : WorkerTuner R} (hinv : TunerInv t) (hphase : t.phase ≠ .settled)
    (hwarm : t.warmup = 0) (elapsed : R) :
    ExploreMove t.limit t.explorer (exploreLabel t (tunerClose t elapsed))
      (tunerClose t elapsed).explorer := by
  have hused : t.explorer.used < 16 := hinv.used_lt
  have hend := tunerClose_end hinv elapsed
  generalize tunerClose t elapsed = u at hend ⊢
  cases hend with
  | settle h =>
    rw [exploreLabel_quiet (by simp)]
    exact .settle (w := t.warmup) h hused (by omega)
  | start h _ hcursor hne =>
    rw [exploreLabel_trial h rfl]
    exact .begin (w := 2) h hused le_rfl (tunerNextCursor_lt hinv hcursor)
      (tunerNextCursor_grid hinv hcursor) hne
  | confirm h =>
    rw [exploreLabel_quiet (by rw [h]; simp)]
    exact .measured (w := 2) h hused le_rfl
  | accept h =>
    rw [exploreLabel_quiet (by rw [h]; simp)]
    exact .confirmed (w := 2) (b := t.candidate) h hused le_rfl
  | reject h =>
    -- the count stays the best one, so the next window has no discards
    rw [exploreLabel_quiet (by rw [h]; simp)]
    exact .confirmed (w := t.warmup) (b := t.best) h hused (by omega)
  | stay _ h => exact absurd h hphase
  | restart h => exact absurd h hphase

/-- **A valid sample of an unsettled tuner is a move of its exploration.** -/
theorem observe_explores {t : WorkerTuner R} (hinv : TunerInv t) (hphase : t.phase ≠ .settled)
    {e : R} (he : ValidTime e) :
    ExploreMove t.limit t.explorer (exploreLabel t (workerTunerObserve t (some e)))
      (workerTunerObserve t (some e)).explorer := by
  have hquiet : ∀ t' : WorkerTuner R, t'.phase = t.phase → exploreLabel t t' = none := by
    intro t' hsame
    refine exploreLabel_quiet ?_
    intro hbase
    rw [hsame, hbase]
    decide
  obtain ⟨hwarm, heq⟩ | ⟨-, hused, -, s, hs, heq⟩ | ⟨hwarm, -, s, -, heq⟩ :=
    workerTunerObserve_cases he hinv.used_lt
  · rw [heq, hquiet]
    · exact .discard hphase hwarm
    · rfl
  · rw [heq, hquiet { t with remaining := t.remaining - 1, samples := s } rfl]
    have hlen : s.length = t.used + 1 := by
      rw [hs.perm.length_eq, List.length_append]
      rfl
    show ExploreMove t.limit t.explorer none ⟨t.phase, t.best, t.cursor, t.warmup, s.length⟩
    rw [hlen]
    exact .sample hphase hused
  · rw [heq]
    exact close_explores (t := { t with remaining := t.remaining - 1 }) (hinv.setRemaining _)
      hphase hwarm _

/-! ### Runs -/

/-- The valid samples among the timings: those that are not ignored. -/
def validSamples (es : List (Option R)) : ℕ :=
  es.countP fun o => o.any fun e => decide (ValidTime e)

/-- The states in which a run starts a trial, oldest first. -/
def tunerTrials (t : WorkerTuner R) : List (Option R) → List (WorkerTuner R)
  | [] => []
  | e :: rest =>
    let next := workerTunerObserve t e
    (if t.phase = .base ∧ next.phase = .trial then [next] else []) ++ tunerTrials next rest

theorem tunerTrials_cons (t : WorkerTuner R) (e : Option R) (rest : List (Option R)) :
    tunerTrials t (e :: rest) =
      (if t.phase = .base ∧ (workerTunerObserve t e).phase = .trial then [workerTunerObserve t e]
        else []) ++ tunerTrials (workerTunerObserve t e) rest := rfl

/-- No state of the run but the last is settled. -/
def ExploresThrough (t : WorkerTuner R) (es : List (Option R)) : Prop :=
  ∀ es', es' <+: es → es' ≠ es → (tunerRun t es').phase ≠ .settled

theorem ExploresThrough.start {t : WorkerTuner R} {e : Option R} {rest : List (Option R)}
    (h : ExploresThrough t (e :: rest)) : t.phase ≠ .settled :=
  h [] List.nil_prefix (by simp)

theorem ExploresThrough.tail {t : WorkerTuner R} {e : Option R} {rest : List (Option R)}
    (h : ExploresThrough t (e :: rest)) : ExploresThrough (workerTunerObserve t e) rest := by
  intro es' hpre hne
  refine h (e :: es') (List.cons_prefix_cons.mpr ⟨rfl, hpre⟩) ?_
  intro heq
  exact hne (List.cons.inj heq).2

/-- An exploring run is an execution of moves, one for each valid sample,
labelled with its trials. -/
theorem run_explores (es : List (Option R)) {t : WorkerTuner R} (hinv : TunerInv t)
    (h : ExploresThrough t es) :
    ∃ tr, Execution (ExploreMove t.limit) t.explorer tr (tunerRun t es).explorer ∧
      tr.length = validSamples es ∧
      tr.filterMap id = (tunerTrials t es).map (·.cursor) := by
  induction es generalizing t with
  | nil => exact ⟨[], .refl, rfl, rfl⟩
  | cons e rest ih =>
    obtain ⟨tr, hexec, hlen, htrials⟩ := ih (workerTunerObserve_inv hinv e) h.tail
    rw [workerTunerObserve_limit] at hexec
    obtain hignored | ⟨v, rfl, hv⟩ := ignored_or_valid e
    · -- an ignored value is no step at all
      have hsame : workerTunerObserve t e = t := workerTunerObserve_ignored hignored
      rw [hsame] at hexec htrials
      refine ⟨tr, ?_, ?_, ?_⟩
      · show Execution _ _ _ (tunerRun (workerTunerObserve t e) rest).explorer
        rwa [hsame]
      · rw [hlen]
        unfold validSamples
        rw [List.countP_cons_of_neg]
        intro hany
        rw [Option.any_eq_true] at hany
        obtain ⟨v, heq, hv⟩ := hany
        exact hignored v heq (of_decide_eq_true hv)
      · rw [htrials]
        rw [tunerTrials_cons, hsame, if_neg]
        · rfl
        · rintro ⟨hb, ht⟩
          rw [hb] at ht
          exact absurd ht (by decide)
    · have hmove := observe_explores hinv h.start hv
      refine ⟨exploreLabel t (workerTunerObserve t (some v)) :: tr,
        Execution.cons_iff.mpr ⟨_, hmove, hexec⟩, ?_, ?_⟩
      · rw [List.length_cons, hlen]
        unfold validSamples
        have hany : (some v).any (fun e => decide (ValidTime e)) = true := decide_eq_true hv
        rw [List.countP_cons_of_pos hany]
      · rw [tunerTrials_cons]
        unfold exploreLabel
        split_ifs
        · rw [List.filterMap_cons_some (f := id) rfl, htrials]
          rfl
        · rw [List.filterMap_cons_none (f := id) rfl, htrials]
          rfl

/-- A trial runs on the count of the cursor, which is not the best one. -/
theorem trial_count {t : WorkerTuner R} (hinv : TunerInv t) {e : Option R} (hbase : t.phase = .base)
    (htrial : (workerTunerObserve t e).phase = .trial) :
    (workerTunerObserve t e).current = (workerTunerObserve t e).cursor ∧
      (workerTunerObserve t e).current ≠ (workerTunerObserve t e).best := by
  have hnext := workerTunerObserve_inv hinv e
  have hcand := hnext.candidate (.inl htrial)
  rw [hnext.current_trial htrial]
  refine ⟨?_, hcand.1⟩
  obtain hignored | ⟨v, rfl, hv⟩ := ignored_or_valid e
  · rw [workerTunerObserve_ignored hignored] at htrial
    exact absurd (hbase.symm.trans htrial) (by decide)
  · obtain ⟨-, heq⟩ | ⟨-, -, -, s, -, heq⟩ | ⟨-, -, s, -, heq⟩ :=
      workerTunerObserve_cases hv hinv.used_lt
    · rw [heq] at htrial
      exact absurd (hbase.symm.trans htrial) (by decide)
    · rw [heq] at htrial
      exact absurd (hbase.symm.trans htrial) (by decide)
    · rw [heq] at htrial ⊢
      generalize tunerMedian s = m at *
      have hend := tunerClose_end (hinv.setRemaining (t.remaining - 1)) m
      generalize tunerClose _ m = u at htrial hend ⊢
      -- only the end of a base window starts a trial
      cases hend with
      | start => rfl
      | settle => exact absurd htrial (by simp)
      | confirm => exact absurd htrial (by simp)
      | accept => exact absurd htrial (by simp)
      | reject => exact absurd htrial (by simp)
      | stay _ h => exact absurd (hbase.symm.trans h) (by decide)
      | restart => exact absurd htrial (by simp)

theorem mem_tunerTrials {t : WorkerTuner R} (hinv : TunerInv t) (es : List (Option R)) :
    ∀ u ∈ tunerTrials t es, u.current = u.cursor ∧ u.current ≠ u.best := by
  induction es generalizing t with
  | nil =>
    intro u hu
    exact absurd hu List.not_mem_nil
  | cons e rest ih =>
    intro u hu
    rw [tunerTrials_cons, List.mem_append] at hu
    obtain hu | hu := hu
    · split_ifs at hu with htrial
      · rw [List.mem_singleton.mp hu]
        exact trial_count hinv htrial.1 htrial.2
      · exact absurd hu List.not_mem_nil
    · exact ih (workerTunerObserve_inv hinv e) u hu

/-- At most two discards are pending. -/
theorem tunerClose_warmup {t : WorkerTuner R} (hwarm : t.warmup ≤ 2) (elapsed : R) :
    (tunerClose t elapsed).warmup ≤ 2 := by
  have hkeep : (tunerWindow t elapsed).warmup = t.warmup := by
    unfold tunerWindow tunerBeginTrial tunerSettle tunerConfirm tunerMonitor
    dsimp only
    split <;> (try split_ifs) <;> rfl
  unfold tunerClose
  dsimp only
  split_ifs
  · exact le_rfl
  · rw [hkeep]
    exact hwarm

theorem tunerRun_warmup {t : WorkerTuner R} (hinv : TunerInv t) (hwarm : t.warmup ≤ 2)
    (es : List (Option R)) : (tunerRun t es).warmup ≤ 2 := by
  induction es generalizing t with
  | nil => exact hwarm
  | cons e rest ih =>
    refine ih (workerTunerObserve_inv hinv e) ?_
    obtain hignored | ⟨v, rfl, hv⟩ := ignored_or_valid e
    · rw [workerTunerObserve_ignored hignored]
      exact hwarm
    · obtain ⟨-, heq⟩ | ⟨-, -, -, s, -, heq⟩ | ⟨-, -, s, -, heq⟩ :=
        workerTunerObserve_cases hv hinv.used_lt
      · rw [heq]
        show t.warmup - 1 ≤ 2
        omega
      · rw [heq]
        exact hwarm
      · rw [heq]
        exact tunerClose_warmup (t := { t with remaining := t.remaining - 1 }) hwarm _

/-- The first prefix of a list with a property, when there is one. -/
theorem exists_first_prefix {α : Type} {P : List α → Prop} (es : List α)
    (h : ∃ es', es' <+: es ∧ P es') :
    ∃ es', es' <+: es ∧ P es' ∧ ∀ es'', es'' <+: es' → es'' ≠ es' → ¬ P es'' := by
  classical
  have hlen : ∃ n, ∃ es', es' <+: es ∧ P es' ∧ es'.length = n := by
    obtain ⟨es', hpre, hP⟩ := h
    exact ⟨es'.length, es', hpre, hP, rfl⟩
  obtain ⟨es', hpre, hP, hes'⟩ := Nat.find_spec hlen
  refine ⟨es', hpre, hP, ?_⟩
  intro es'' hpre' hne hP'
  -- a proper prefix with the property would be shorter than the shortest
  have hshort : es''.length < es'.length := by
    refine lt_of_le_of_ne hpre'.length_le ?_
    intro heq
    exact hne (hpre'.eq_of_length heq)
  have hmin := Nat.find_min' hlen ⟨es'', hpre'.trans hpre, hP', rfl⟩
  omega

/-- The bounds of an exploring run. -/
theorem explores_within {t : WorkerTuner R} (hinv : TunerInv t) (hwarm : t.warmup ≤ 2)
    (hphase : t.phase = .base) {es : List (Option R)} (h : ExploresThrough t es) :
    validSamples es ≤ 558 ∧ (tunerTrials t es).length ≤ 10 ∧
      (tunerTrials t es).Pairwise fun u v => u.cursor < v.cursor := by
  obtain ⟨tr, hexec, hlen, htrials⟩ := run_explores es hinv h
  obtain ⟨hsamples, hten, hascending⟩ := exploration_within hinv.limit_le hphase hwarm hexec
  rw [htrials] at hten hascending
  rw [List.length_map] at hten
  exact ⟨hlen ▸ hsamples, hten, List.pairwise_map.mp hascending⟩

omit [Timing R] in
/-- An unsettled tuner has a window to fill. -/
theorem exploreBudget_pos (limit : ℤ) {t : WorkerTuner R} (hinv : TunerInv t)
    (hphase : t.phase ≠ .settled) : 0 < exploreBudget limit t.explorer := by
  have hused : t.used < 16 := hinv.used_lt
  have hleft : 0 < 16 - t.explorer.used := Nat.sub_pos_of_lt hused
  unfold exploreBudget
  rw [t.explorer_phase, if_neg hphase]
  omega

/-- With more samples than the budget the tuner settles on the way. -/
theorem settles_within {t : WorkerTuner R} (hinv : TunerInv t) (hwarm : t.warmup ≤ 2)
    (hphase : t.phase = .base) {es : List (Option R)} (hmany : 558 ≤ validSamples es) :
    ∃ es', es' <+: es ∧ (tunerRun t es').phase = .settled := by
  by_contra hnone
  have hthrough : ExploresThrough t es := by
    intro es' hpre _ hs
    exact hnone ⟨es', hpre, hs⟩
  have hend : (tunerRun t es).phase ≠ .settled := by
    intro hs
    exact hnone ⟨es, List.prefix_rfl, hs⟩
  obtain ⟨tr, hexec, hlen, -⟩ := run_explores es hinv hthrough
  have hbudget := exploration_budget hexec
  have hstart := exploreBudget_start hinv.limit_le (x := t.explorer) hphase hwarm
  have hpos := exploreBudget_pos t.limit (tunerRun_inv hinv es) hend
  omega

/-- **Exploration is bounded for arbitrary timings.**  From a reachable base
window, whatever the cursor, the tuner settles within 10 trials and 558 valid
samples; until it does the cursor ascends from trial to trial and no trial runs
on the best count; an ignored value changes nothing.

The bound is that of any exploration from the window, whatever its comparisons
yield: the run is one of them, and each of them is within it. -/
theorem exploration_bounded (initial limit : ℤ) (before es : List (Option R))
    (hphase : (tunerRun (workerTunerInit initial limit) before).phase = .base) :
    let t := tunerRun (workerTunerInit initial limit) before
    (558 ≤ validSamples es → ∃ es', es' <+: es ∧ (tunerRun t es').phase = .settled ∧
      validSamples es' ≤ 558 ∧ (tunerTrials t es').length ≤ 10) ∧
    (ExploresThrough t es → validSamples es ≤ 558 ∧ (tunerTrials t es).length ≤ 10 ∧
      ((tunerTrials t es).Pairwise fun u v => u.cursor < v.cursor) ∧
      ∀ u ∈ tunerTrials t es, u.current = u.cursor ∧ u.current ≠ u.best) ∧
    (∀ (u : WorkerTuner R) (elapsed : Option R),
      (∀ e, elapsed = some e → Timing.isFinite e = false ∨ e ≤ 0.0) →
        workerTunerObserve u elapsed = u) ∧
    (∀ tr x, Execution (ExploreMove t.limit) t.explorer tr x → WithinBounds tr) ∧
    (ExploresThrough t es →
      ∃ tr, Execution (ExploreMove t.limit) t.explorer tr (tunerRun t es).explorer ∧
        tr.length = validSamples es ∧
        tr.filterMap id = (tunerTrials t es).map (·.cursor)) := by
  have hinv := tunerRun_inv (workerTunerInit_inv (R := R) initial limit) before
  have hwarm := tunerRun_warmup (workerTunerInit_inv (R := R) initial limit) le_rfl before
  intro t
  refine ⟨?_, ?_, ?_, ?_, run_explores es hinv⟩
  · intro hmany
    obtain ⟨es', hpre, hs, hfirst⟩ :=
      exists_first_prefix es (settles_within hinv hwarm hphase hmany)
    obtain ⟨hsamples, htrials, -⟩ := explores_within hinv hwarm hphase hfirst
    exact ⟨es', hpre, hs, hsamples, htrials⟩
  · intro hthrough
    obtain ⟨hsamples, htrials, hascending⟩ := explores_within hinv hwarm hphase hthrough
    exact ⟨hsamples, htrials, hascending, mem_tunerTrials hinv es⟩
  · intro u elapsed hignored
    exact workerTunerObserve_ignored fun e he => not_validTime.mpr (hignored e he)
  · intro tr x hexec
    exact exploration_within hinv.limit_le hphase hwarm hexec

end Timings

/-- 558 equal timings at start-up, as `double`. -/
theorem exploration_bounded_at_start :
    ∃ es', es' <+: List.replicate 558 (some (1.0 : Float)) ∧
      (tunerRun (workerTunerInit 4 64) es').phase = .settled ∧
      validSamples es' ≤ 558 ∧
      (tunerTrials (workerTunerInit 4 64) es').length ≤ 10 := by
  have hvalid : (some (1.0 : Float)).any (fun e => decide (ValidTime e)) = true := by
    decide +kernel
  have hmany : 558 ≤ validSamples (List.replicate 558 (some (1.0 : Float))) := by
    unfold validSamples
    rw [List.countP_replicate, if_pos hvalid]
  exact (exploration_bounded 4 64 [] _ rfl).1 hmany

end AutoUpscale
