/-
The content probe's metrics (`src/content_probe.h`) beside the separate sweeps
its tests compare them with (`tests/content_probe_reference.h`).

A plane is the pixel at each offset from its pointer, `none` when that is NULL;
offsets are integers, so a row before the plane would show.  Every sweep returns
what it reads, and the separate ones share no arithmetic with the fused one.  No
`int` of a sweep overflows while the width and the height leave room for one more
step of eight.

* **`probe_metrics_eq_reference`** — the fused sweep finds the sums and counts of
  the separate ones, and reads only pixels of the plane.
-/
import AutoUpscale.Filter
import AutoUpscale.StridedLoop

namespace AutoUpscale

open StridedLoop

/-! ### The fused sweep -/

/-- `UP_PROBE_GRID_STEP`, `UP_PROBE_BLOCK_SIZE` -/
def probeGridStep : ℤ := 4
def probeBlockSize : ℤ := 8

/-- `4 * row[x] - (row_up[x] + row_dn[x] + row[x - 1] + row[x + 1])` -/
def laplacian (centre up dn left right : UInt8) : ℤ :=
  4 * (centre.toNat : ℤ) - (up.toNat + dn.toNat + left.toNat + right.toNat)

/-- `(uint64_t)(lap * lap)` at column `x` of the rows at these offsets. -/
def lapSquare (px : ℤ → UInt8) (row rowUp rowDn x : ℤ) : Reads ℤ UInt64 := do
  let centre ← load px (row + x)
  let up ← load px (rowUp + x)
  let dn ← load px (rowDn + x)
  let left ← load px (row + (x - 1))
  let right ← load px (row + (x + 1))
  let lap := laplacian centre up dn left right
  pure (UInt64.ofNat (lap * lap).toNat)

/-- `(uint64_t)|diff|` between two pixels. -/
def absDiff (px : ℤ → UInt8) (i j : ℤ) : Reads ℤ UInt64 := do
  let a ← load px i
  let b ← load px j
  let diff : ℤ := (a.toNat : ℤ) - b.toNat
  pure (UInt64.ofNat (if diff < 0 then -diff else diff).toNat)

/-- `up_probe__lap_row` -/
def probeLapRow (px : ℤ → UInt8) (stride w h y : ℤ) (m : ProbeMetrics) :
    Reads ℤ ProbeMetrics :=
  if y < probeGridStep ∨ y + 1 ≥ h then pure m
  else
    let row := y * stride
    let rowUp := row - stride
    let rowDn := row + stride
    forEach (fun x m => do
        let square ← lapSquare px row rowUp rowDn x
        pure { m with lapSum := m.lapSum + square, lapN := m.lapN + 1 })
      (strided probeGridStep (w - 1) probeGridStep) m

/-- `m->edge_sum += …; m->edge_n++` for the pixels at offsets `i` and `j`. -/
def addEdge (px : ℤ → UInt8) (i j : ℤ) (m : ProbeMetrics) : Reads ℤ ProbeMetrics := do
  let diff ← absDiff px i j
  pure { m with edgeSum := m.edgeSum + diff, edgeN := m.edgeN + 1 }

/-- `up_probe__edge_rows` -/
def probeEdgeRows (px : ℤ → UInt8) (stride w h y : ℤ) (m : ProbeMetrics) :
    Reads ℤ ProbeMetrics :=
  if w ≤ probeBlockSize ∨ h ≤ probeBlockSize then pure m
  else do
    let row := y * stride
    let m ← forEach (fun x m => addEdge px (row + x) (row + (x - 1)) m)
      (strided probeBlockSize w probeBlockSize) m
    if y < probeBlockSize ∨ y.tmod probeBlockSize ≠ 0 then pure m
    else
      let rowUp := row - stride
      forEach (fun x m => addEdge px (row + x) (rowUp + x) m) (strided 0 w probeGridStep) m

/-- `up_probe_metrics` -/
def probeMetrics (plane : Option (ℤ → UInt8)) (stride w h : ℤ) : Reads ℤ ProbeMetrics :=
  let m : ProbeMetrics := ⟨0, 0, 0, 0⟩
  match plane with
  | none => pure m
  | some px =>
    if stride ≤ 0 ∨ stride < w then pure m
    else
      forEach (fun y m => do
          let m ← probeLapRow px stride w h y m
          probeEdgeRows px stride w h y m)
        (strided 0 h probeGridStep) m

/-! ### The separate sweeps -/

/-- `up_edge_acc_t`, and the sum and count of a Laplacian sweep. -/
structure EdgeAcc where
  sum : UInt64
  n : UInt64
  deriving DecidableEq

/-- `up_laplacian_variance`: the sum, and `*n_samples_out`. -/
def laplacianVariance (plane : Option (ℤ → UInt8)) (stride w h : ℤ) : Reads ℤ EdgeAcc :=
  match plane with
  | none => pure ⟨0, 0⟩
  | some px =>
    if stride ≤ 0 ∨ stride < w ∨ w ≤ 2 ∨ h ≤ 2 then pure ⟨0, 0⟩
    else
      forEach (fun y acc =>
          let row := y * stride
          let rowUp := row - stride
          let rowDn := row + stride
          forEach (fun x acc => do
              let centre ← load px (row + x)
              let up ← load px (rowUp + x)
              let dn ← load px (rowDn + x)
              let left ← load px (row + (x - 1))
              let right ← load px (row + (x + 1))
              let lap : ℤ := 4 * (centre.toNat : ℤ)
                - (up.toNat + dn.toNat + left.toNat + right.toNat)
              pure ⟨acc.sum + UInt64.ofNat (lap * lap).toNat, acc.n + 1⟩)
            (strided probeGridStep (w - 1) probeGridStep) acc)
        (strided probeGridStep (h - 1) probeGridStep) ⟨0, 0⟩

/-- `if (diff < 0) diff = -diff; acc->sum += …; acc->n++` for the pixels at offsets
`i` and `j`. -/
def EdgeAcc.add (px : ℤ → UInt8) (i j : ℤ) (acc : EdgeAcc) : Reads ℤ EdgeAcc := do
  let a ← load px i
  let b ← load px j
  let diff : ℤ := (a.toNat : ℤ) - b.toNat
  let diff := if diff < 0 then -diff else diff
  pure ⟨acc.sum + UInt64.ofNat diff.toNat, acc.n + 1⟩

/-- `up_block_edge_vertical` -/
def blockEdgeVertical (px : ℤ → UInt8) (stride w h b step : ℤ) (acc : EdgeAcc) :
    Reads ℤ EdgeAcc :=
  forEach (fun y acc =>
      let row := y * stride
      forEach (fun x acc => acc.add px (row + x) (row + (x - 1))) (strided b w b) acc)
    (strided 0 h step) acc

/-- `up_block_edge_horizontal` -/
def blockEdgeHorizontal (px : ℤ → UInt8) (stride w h b step : ℤ) (acc : EdgeAcc) :
    Reads ℤ EdgeAcc :=
  forEach (fun y acc =>
      let row := y * stride
      let rowUp := row - stride
      forEach (fun x acc => acc.add px (row + x) (rowUp + x)) (strided 0 w step) acc)
    (strided b h b) acc

/-- `up_block_edge_strength`: the sum, and `*n_samples_out`. -/
def blockEdgeStrength (plane : Option (ℤ → UInt8)) (stride w h : ℤ) : Reads ℤ EdgeAcc :=
  match plane with
  | none => pure ⟨0, 0⟩
  | some px =>
    if stride ≤ 0 ∨ stride < w ∨ w ≤ probeBlockSize ∨ h ≤ probeBlockSize then pure ⟨0, 0⟩
    else do
      let acc ← blockEdgeVertical px stride w h probeBlockSize probeGridStep ⟨0, 0⟩
      blockEdgeHorizontal px stride w h probeBlockSize probeGridStep acc

/-! ### What the sweeps count

A tally is the exact sum of some terms and their number. -/

/-- The machine's sum and count stand for the tally `t`. -/
structure Counted (sum n : UInt64) (t : ℕ × ℕ) : Prop where
  sum_eq : sum = UInt64.ofNat t.1
  n_eq : n = UInt64.ofNat t.2

theorem Counted.zero : Counted 0 0 0 := ⟨rfl, rfl⟩

/-- One more term. -/
theorem Counted.add {sum n : UInt64} {t : ℕ × ℕ} (h : Counted sum n t) (d : ℕ) :
    Counted (sum + UInt64.ofNat d) (n + 1) (t + (d, 1)) := by
  constructor
  · show sum + UInt64.ofNat d = UInt64.ofNat (t.1 + d)
    rw [h.sum_eq, UInt64.ofNat_add]
  · show n + 1 = UInt64.ofNat (t.2 + 1)
    rw [h.n_eq, UInt64.ofNat_add]
    rfl

/-- The squared Laplacian at pixel `(x, y)`. -/
def lapTerm (px : ℤ → UInt8) (stride y x : ℤ) : ℕ × ℕ :=
  let row := y * stride
  let lap : ℤ := 4 * ((px (row + x)).toNat : ℤ)
    - ((px (row - stride + x)).toNat + (px (row + stride + x)).toNat
      + (px (row + (x - 1))).toNat + (px (row + (x + 1))).toNat)
  ((lap * lap).toNat, 1)

/-- The difference between two pixels. -/
def diffTerm (px : ℤ → UInt8) (i j : ℤ) : ℕ × ℕ :=
  ((((px i).toNat : ℤ) - (px j).toNat).natAbs, 1)

section

variable (px : ℤ → UInt8) (stride w h : ℤ)

/-- The Laplacian of row `y`. -/
def lapRowTally (y : ℤ) : ℕ × ℕ :=
  ∑ x ∈ stridedSet probeGridStep (w - 1) probeGridStep, lapTerm px stride y x

/-- The block edges along row `y`. -/
def verticalTally (y : ℤ) : ℕ × ℕ :=
  ∑ x ∈ stridedSet probeBlockSize w probeBlockSize,
    diffTerm px (y * stride + x) (y * stride + (x - 1))

/-- The block edge above row `y`. -/
def horizontalTally (y : ℤ) : ℕ × ℕ :=
  ∑ x ∈ stridedSet 0 w probeGridStep,
    diffTerm px (y * stride + x) (y * stride - stride + x)

/-- All Laplacians. -/
def lapTally : ℕ × ℕ :=
  ∑ y ∈ stridedSet probeGridStep (h - 1) probeGridStep, lapRowTally px stride w y

/-- All block edges. -/
def edgeTally : ℕ × ℕ :=
  if w ≤ probeBlockSize ∨ h ≤ probeBlockSize then 0
  else
    ∑ y ∈ stridedSet 0 h probeGridStep, verticalTally px stride w y
      + ∑ y ∈ stridedSet probeBlockSize h probeBlockSize, horizontalTally px stride w y

end

variable {px : ℤ → UInt8} {stride w h y : ℤ}

/-- Turning a negative difference round makes it the absolute one. -/
theorem toNat_abs (d : ℤ) : (if d < 0 then -d else d).toNat = d.natAbs := by
  split <;> omega

theorem absDiff_val (px : ℤ → UInt8) (i j : ℤ) :
    (absDiff px i j).val = UInt64.ofNat (diffTerm px i j).1 :=
  congrArg UInt64.ofNat (toNat_abs (((px i).toNat : ℤ) - (px j).toNat))

theorem probeGridStep_pos : 0 < probeGridStep := by decide

theorem probeBlockSize_pos : 0 < probeBlockSize := by decide

/-! #### The fused sweep -/

/-- The metrics stand for a Laplacian and an edge tally. -/
def Tallies (m : ProbeMetrics) (t : (ℕ × ℕ) × (ℕ × ℕ)) : Prop :=
  Counted m.lapSum m.lapN t.1 ∧ Counted m.edgeSum m.edgeN t.2

/-- What `up_probe__lap_row` adds at row `y`. -/
def probeLapRowTally (px : ℤ → UInt8) (stride w h y : ℤ) : ℕ × ℕ :=
  if y < probeGridStep ∨ y + 1 ≥ h then 0 else lapRowTally px stride w y

/-- What `up_probe__edge_rows` adds at row `y`. -/
def probeEdgeRowsTally (px : ℤ → UInt8) (stride w h y : ℤ) : ℕ × ℕ :=
  if w ≤ probeBlockSize ∨ h ≤ probeBlockSize then 0
  else verticalTally px stride w y
    + if y < probeBlockSize ∨ y.tmod probeBlockSize ≠ 0 then 0
      else horizontalTally px stride w y

section

variable {m : ProbeMetrics} {t : (ℕ × ℕ) × (ℕ × ℕ)}

theorem probeLapRow_tallies (hm : Tallies m t) :
    Tallies (probeLapRow px stride w h y m).val
      (t + (probeLapRowTally px stride w h y, 0)) := by
  unfold probeLapRow probeLapRowTally
  split
  · rwa [show ((0 : ℕ × ℕ), (0 : ℕ × ℕ)) = 0 from rfl, add_zero]
  · have hterms : (lapRowTally px stride w y, (0 : ℕ × ℕ))
        = ∑ x ∈ stridedSet probeGridStep (w - 1) probeGridStep,
            (lapTerm px stride y x, (0 : ℕ × ℕ)) :=
      map_sum (AddMonoidHom.inl (ℕ × ℕ) (ℕ × ℕ)) _ _
    rw [hterms]
    refine forEach_strided (R := Tallies) probeGridStep_pos ?_ hm
    intro x s u _ hs
    exact ⟨hs.1.add _, hs.2⟩

theorem addEdge_tallies (i j : ℤ) (hm : Tallies m t) :
    Tallies (addEdge px i j m).val (t + (0, diffTerm px i j)) := by
  refine ⟨hm.1, ?_⟩
  show Counted (m.edgeSum + (absDiff px i j).val) (m.edgeN + 1) _
  rw [absDiff_val]
  exact hm.2.add _

/-- A loop that adds block edges. -/
theorem forEach_addEdge {step : ℤ} {i j : ℤ → ℤ} (start stop : ℤ) (hs : 0 < step)
    (hm : Tallies m t) :
    Tallies (forEach (fun x m => addEdge px (i x) (j x) m) (strided start stop step) m).val
      (t + (0, ∑ x ∈ stridedSet start stop step, diffTerm px (i x) (j x))) := by
  have hterms : ((0 : ℕ × ℕ), ∑ x ∈ stridedSet start stop step, diffTerm px (i x) (j x))
      = ∑ x ∈ stridedSet start stop step, ((0 : ℕ × ℕ), diffTerm px (i x) (j x)) :=
    map_sum (AddMonoidHom.inr (ℕ × ℕ) (ℕ × ℕ)) _ _
  rw [hterms]
  refine forEach_strided (R := Tallies) hs ?_ hm
  intro x s u _ hsu
  exact addEdge_tallies _ _ hsu

theorem probeEdgeRows_tallies (hm : Tallies m t) :
    Tallies (probeEdgeRows px stride w h y m).val
      (t + (0, probeEdgeRowsTally px stride w h y)) := by
  unfold probeEdgeRows probeEdgeRowsTally
  by_cases hsmall : w ≤ probeBlockSize ∨ h ≤ probeBlockSize
  · rw [if_pos hsmall, if_pos hsmall]
    rwa [show ((0 : ℕ × ℕ), (0 : ℕ × ℕ)) = 0 from rfl, add_zero]
  rw [if_neg hsmall, if_neg hsmall]
  have hvert : Tallies _ (t + (0, verticalTally px stride w y)) :=
    forEach_addEdge probeBlockSize w probeBlockSize_pos hm
  dsimp only
  rw [Reads.bind_val]
  by_cases hedge : y < probeBlockSize ∨ y.tmod probeBlockSize ≠ 0
  · rw [if_pos hedge, if_pos hedge, add_zero]
    exact hvert
  · rw [if_neg hedge, if_neg hedge]
    have hboth : t + (0, verticalTally px stride w y + horizontalTally px stride w y)
        = t + (0, verticalTally px stride w y) + (0, horizontalTally px stride w y) :=
      (add_assoc t (0, verticalTally px stride w y) (0, horizontalTally px stride w y)).symm
    rw [hboth]
    exact forEach_addEdge 0 w probeGridStep_pos hvert

/-- The whole sweep. -/
theorem probeMetrics_tallies (hstride : ¬(stride ≤ 0 ∨ stride < w)) :
    Tallies (probeMetrics (some px) stride w h).val
      (∑ y ∈ stridedSet 0 h probeGridStep,
        (probeLapRowTally px stride w h y, probeEdgeRowsTally px stride w h y)) := by
  unfold probeMetrics
  dsimp only
  rw [if_neg hstride, ← zero_add (∑ y ∈ stridedSet 0 h probeGridStep, _)]
  refine forEach_strided (R := Tallies) probeGridStep_pos ?_ ⟨Counted.zero, Counted.zero⟩
  intro y s u _ hs
  have hrow : Tallies (probeEdgeRows px stride w h y (probeLapRow px stride w h y s).val).val
      (u + (probeLapRowTally px stride w h y, 0) + (0, probeEdgeRowsTally px stride w h y)) :=
    probeEdgeRows_tallies (probeLapRow_tallies hs)
  have hboth : (probeLapRowTally px stride w h y, probeEdgeRowsTally px stride w h y)
      = (probeLapRowTally px stride w h y, 0) + (0, probeEdgeRowsTally px stride w h y) := by
    rw [Prod.mk_add_mk, add_zero, zero_add]
  rw [hboth, ← add_assoc]
  exact hrow

end

/-! #### The separate sweeps -/

/-- The accumulator stands for a tally. -/
def EdgeAcc.Tallies (acc : EdgeAcc) (t : ℕ × ℕ) : Prop := Counted acc.sum acc.n t

section

variable {acc : EdgeAcc} {t : ℕ × ℕ}

theorem EdgeAcc.add_tallies (i j : ℤ) (hacc : acc.Tallies t) :
    (acc.add px i j).val.Tallies (t + diffTerm px i j) := by
  show Counted (acc.sum + UInt64.ofNat (if ((px i).toNat : ℤ) - (px j).toNat < 0 then
    -(((px i).toNat : ℤ) - (px j).toNat) else ((px i).toNat : ℤ) - (px j).toNat).toNat)
    (acc.n + 1) _
  rw [toNat_abs]
  exact Counted.add hacc _

theorem laplacianVariance_tallies
    (hguard : ¬(stride ≤ 0 ∨ stride < w ∨ w ≤ 2 ∨ h ≤ 2)) :
    (laplacianVariance (some px) stride w h).val.Tallies (lapTally px stride w h) := by
  unfold laplacianVariance lapTally
  dsimp only
  rw [if_neg hguard, ← zero_add (∑ y ∈ _, lapRowTally px stride w y)]
  refine forEach_strided (R := EdgeAcc.Tallies) probeGridStep_pos ?_ Counted.zero
  intro y s u _ hs
  refine forEach_strided (R := EdgeAcc.Tallies) probeGridStep_pos ?_ hs
  intro x s u _ hs
  exact Counted.add hs _

theorem blockEdgeVertical_tallies (hacc : acc.Tallies t) :
    (blockEdgeVertical px stride w h probeBlockSize probeGridStep acc).val.Tallies
      (t + ∑ y ∈ stridedSet 0 h probeGridStep, verticalTally px stride w y) := by
  refine forEach_strided (R := EdgeAcc.Tallies) probeGridStep_pos ?_ hacc
  intro y s u _ hs
  refine forEach_strided (R := EdgeAcc.Tallies) probeBlockSize_pos ?_ hs
  intro x s u _ hs
  exact EdgeAcc.add_tallies _ _ hs

theorem blockEdgeHorizontal_tallies (hacc : acc.Tallies t) :
    (blockEdgeHorizontal px stride w h probeBlockSize probeGridStep acc).val.Tallies
      (t + ∑ y ∈ stridedSet probeBlockSize h probeBlockSize,
        horizontalTally px stride w y) := by
  refine forEach_strided (R := EdgeAcc.Tallies) probeBlockSize_pos ?_ hacc
  intro y s u _ hs
  refine forEach_strided (R := EdgeAcc.Tallies) probeGridStep_pos ?_ hs
  intro x s u _ hs
  exact EdgeAcc.add_tallies _ _ hs

theorem blockEdgeStrength_tallies (hstride : ¬(stride ≤ 0 ∨ stride < w)) :
    (blockEdgeStrength (some px) stride w h).val.Tallies (edgeTally px stride w h) := by
  unfold blockEdgeStrength edgeTally
  dsimp only
  by_cases hsmall : w ≤ probeBlockSize ∨ h ≤ probeBlockSize
  · rw [if_pos (by tauto), if_pos hsmall]
    exact Counted.zero
  · rw [if_neg (by tauto), if_neg hsmall, ← zero_add (∑ y ∈ _, verticalTally px stride w y)]
    exact blockEdgeHorizontal_tallies (blockEdgeVertical_tallies Counted.zero)

end

/-! #### Both count the same -/

/-- The rows whose Laplacian the fused sweep takes are those of the separate
sweep. -/
theorem sum_probeLapRowTally (px : ℤ → UInt8) (stride w h : ℤ) :
    ∑ y ∈ stridedSet 0 h probeGridStep, probeLapRowTally px stride w h y
      = lapTally px stride w h := by
  unfold probeLapRowTally lapTally
  rw [Finset.sum_ite, Finset.sum_const_zero, zero_add]
  refine Finset.sum_congr ?_ fun _ _ => rfl
  ext y
  rw [Finset.mem_filter, mem_stridedSet probeGridStep_pos, mem_stridedSet probeGridStep_pos]
  unfold probeGridStep
  omega

/-- The rows above which it looks for a block edge are the multiples of eight. -/
theorem sum_probeEdgeRowsTally (px : ℤ → UInt8) (stride w h : ℤ) :
    ∑ y ∈ stridedSet 0 h probeGridStep, probeEdgeRowsTally px stride w h y
      = edgeTally px stride w h := by
  unfold probeEdgeRowsTally edgeTally
  by_cases hsmall : w ≤ probeBlockSize ∨ h ≤ probeBlockSize
  · rw [if_pos hsmall]
    refine Finset.sum_eq_zero fun y _ => if_pos hsmall
  simp only [if_neg hsmall]
  rw [Finset.sum_add_distrib, Finset.sum_ite, Finset.sum_const_zero, zero_add]
  congr 1
  refine Finset.sum_congr ?_ fun _ _ => rfl
  ext y
  rw [Finset.mem_filter, mem_stridedSet probeGridStep_pos, mem_stridedSet probeBlockSize_pos]
  unfold probeGridStep probeBlockSize
  constructor
  · rintro ⟨⟨hy, hyh, hd⟩, hn⟩
    rw [Int.tmod_eq_emod_of_nonneg hy] at hn
    omega
  · rintro ⟨hy, hyh, hd⟩
    rw [Int.tmod_eq_emod_of_nonneg (by omega)]
    omega

/-- The tallies of the fused sweep are those of the separate ones. -/
theorem probeMetrics_counted (px : ℤ → UInt8) (h : ℤ)
    (hstride : ¬(stride ≤ 0 ∨ stride < w)) :
    Tallies (probeMetrics (some px) stride w h).val
      (lapTally px stride w h, edgeTally px stride w h) := by
  have hsweep : Tallies (probeMetrics (some px) stride w h).val _ := probeMetrics_tallies hstride
  have hsums : ∑ y ∈ stridedSet 0 h probeGridStep,
        (probeLapRowTally px stride w h y, probeEdgeRowsTally px stride w h y)
      = (lapTally px stride w h, edgeTally px stride w h) := by
    refine Prod.ext ?_ ?_
    · rw [Prod.fst_sum]
      exact sum_probeLapRowTally px stride w h
    · rw [Prod.snd_sum]
      exact sum_probeEdgeRowsTally px stride w h
  rwa [hsums] at hsweep

/-- A frame too small for the guard of the separate sweep has no Laplacian. -/
theorem lapTally_small (px : ℤ → UInt8) (stride : ℤ) (hsmall : w ≤ 2 ∨ h ≤ 2) :
    lapTally px stride w h = 0 := by
  have hempty : ∀ n, n ≤ 2 → stridedSet probeGridStep (n - 1) probeGridStep = ∅ := by
    intro n hn
    refine Finset.eq_empty_of_forall_notMem fun x hx => ?_
    obtain ⟨hlo, hhi, _⟩ := (mem_stridedSet probeGridStep_pos).mp hx
    unfold probeGridStep at hlo
    omega
  unfold lapTally lapRowTally
  rcases hsmall with hw | hh
  · rw [hempty w hw]
    exact Finset.sum_eq_zero fun _ _ => Finset.sum_empty
  · rw [hempty h hh]
    exact Finset.sum_empty

theorem laplacianVariance_counted (px : ℤ → UInt8) (h : ℤ)
    (hstride : ¬(stride ≤ 0 ∨ stride < w)) :
    (laplacianVariance (some px) stride w h).val.Tallies (lapTally px stride w h) := by
  by_cases hsmall : w ≤ 2 ∨ h ≤ 2
  · rw [lapTally_small px stride hsmall]
    unfold laplacianVariance
    dsimp only
    rw [if_pos (by tauto)]
    exact Counted.zero
  · exact laplacianVariance_tallies (by tauto)

/-- Two accumulators that stand for one tally are equal. -/
theorem Counted.unique {s n s' n' : UInt64} {t : ℕ × ℕ} (h : Counted s n t)
    (h' : Counted s' n' t) : s = s' ∧ n = n' :=
  ⟨h.sum_eq.trans h'.sum_eq.symm, h.n_eq.trans h'.n_eq.symm⟩

/-! ### What the fused sweep reads -/

/-- Offset `i` is that of a pixel of the plane. -/
def InPlane (stride w h i : ℤ) : Prop :=
  ∃ y x, (0 ≤ y ∧ y < h) ∧ (0 ≤ x ∧ x < w) ∧ i = y * stride + x

section

variable {m : ProbeMetrics} {i : ℤ}

theorem addEdge_reads {a b : ℤ} (hi : i ∈ (addEdge px a b m).reads) : i = a ∨ i = b := by
  have hreads : (addEdge px a b m).reads = [a, b] := rfl
  rw [hreads] at hi
  simpa using hi

theorem probeLapRow_reads (hy : 0 ≤ y ∧ y < h)
    (hi : i ∈ (probeLapRow px stride w h y m).reads) : InPlane stride w h i := by
  unfold probeLapRow at hi
  split at hi
  · exact absurd hi List.not_mem_nil
  rename_i hrow
  obtain ⟨x, ⟨hx, hxw, _⟩, s, hs⟩ := forEach_strided_reads probeGridStep_pos hi
  unfold probeGridStep at hrow hx
  have hreads : i ∈ [y * stride + x, y * stride - stride + x, y * stride + stride + x,
      y * stride + (x - 1), y * stride + (x + 1)] := hs
  rcases List.mem_cons.mp hreads with rfl | hi
  · exact ⟨y, x, hy, by omega, rfl⟩
  rcases List.mem_cons.mp hi with rfl | hi
  · exact ⟨y - 1, x, by omega, by omega, by ring⟩
  rcases List.mem_cons.mp hi with rfl | hi
  · exact ⟨y + 1, x, by omega, by omega, by ring⟩
  rcases List.mem_cons.mp hi with rfl | hi
  · exact ⟨y, x - 1, hy, by omega, rfl⟩
  · exact ⟨y, x + 1, hy, by omega, List.mem_singleton.mp hi⟩

theorem probeEdgeRows_reads (hy : 0 ≤ y ∧ y < h)
    (hi : i ∈ (probeEdgeRows px stride w h y m).reads) : InPlane stride w h i := by
  unfold probeEdgeRows at hi
  split at hi
  · exact absurd hi List.not_mem_nil
  dsimp only at hi
  rw [Reads.bind_reads] at hi
  rcases List.mem_append.mp hi with hvert | hhoriz
  · obtain ⟨x, ⟨hx, hxw, _⟩, s, hs⟩ := forEach_strided_reads probeBlockSize_pos hvert
    unfold probeBlockSize at hx
    rcases addEdge_reads hs with rfl | rfl
    · exact ⟨y, x, hy, by omega, rfl⟩
    · exact ⟨y, x - 1, hy, by omega, rfl⟩
  · split at hhoriz
    · exact absurd hhoriz List.not_mem_nil
    rename_i hedge
    obtain ⟨x, ⟨hx, hxw, _⟩, s, hs⟩ := forEach_strided_reads probeGridStep_pos hhoriz
    unfold probeBlockSize at hedge
    rcases addEdge_reads hs with rfl | rfl
    · exact ⟨y, x, hy, by omega, rfl⟩
    · exact ⟨y - 1, x, by omega, by omega, by ring⟩

theorem probeMetrics_reads {plane : Option (ℤ → UInt8)}
    (hi : i ∈ (probeMetrics plane stride w h).reads) :
    plane ≠ none ∧ InPlane stride w h i := by
  unfold probeMetrics at hi
  cases plane with
  | none => exact absurd hi List.not_mem_nil
  | some px =>
    refine ⟨nofun, ?_⟩
    dsimp only at hi
    split at hi
    · exact absurd hi List.not_mem_nil
    obtain ⟨y, ⟨hy, hyh, _⟩, s, hs⟩ := forEach_strided_reads probeGridStep_pos hi
    rw [Reads.bind_reads] at hs
    rcases List.mem_append.mp hs with hlap | hedge
    · exact probeLapRow_reads ⟨hy, hyh⟩ hlap
    · exact probeEdgeRows_reads ⟨hy, hyh⟩ hedge

end

/-- **The fused sweep is the separate sweeps**: for every plane, stride, width
and height `up_probe_metrics` finds the Laplacian sum and count of
`up_laplacian_variance` and the edge sum and count of `up_block_edge_strength`,
and every pixel it reads lies in the rows and columns of the plane. -/
theorem probe_metrics_eq_reference (plane : Option (ℤ → UInt8)) (stride w h : ℤ) :
    ((probeMetrics plane stride w h).val.lapSum = (laplacianVariance plane stride w h).val.sum ∧
      (probeMetrics plane stride w h).val.lapN = (laplacianVariance plane stride w h).val.n) ∧
    ((probeMetrics plane stride w h).val.edgeSum = (blockEdgeStrength plane stride w h).val.sum ∧
      (probeMetrics plane stride w h).val.edgeN = (blockEdgeStrength plane stride w h).val.n) ∧
    ∀ i ∈ (probeMetrics plane stride w h).reads, plane ≠ none ∧
      ∃ y x, (0 ≤ y ∧ y < h) ∧ (0 ≤ x ∧ x < w) ∧ i = y * stride + x := by
  have hreads : ∀ i ∈ (probeMetrics plane stride w h).reads, plane ≠ none ∧
      ∃ y x, (0 ≤ y ∧ y < h) ∧ (0 ≤ x ∧ x < w) ∧ i = y * stride + x :=
    fun i hi => probeMetrics_reads hi
  cases plane with
  | none => exact ⟨⟨rfl, rfl⟩, ⟨rfl, rfl⟩, hreads⟩
  | some px =>
    by_cases hstride : stride ≤ 0 ∨ stride < w
    · -- every sweep refuses the stride
      have hm : probeMetrics (some px) stride w h = pure ⟨0, 0, 0, 0⟩ := if_pos hstride
      have hlap : laplacianVariance (some px) stride w h = pure ⟨0, 0⟩ := if_pos (by tauto)
      have hedge : blockEdgeStrength (some px) stride w h = pure ⟨0, 0⟩ := if_pos (by tauto)
      refine ⟨?_, ?_, hreads⟩
      · rw [hm, hlap]
        exact ⟨rfl, rfl⟩
      · rw [hm, hedge]
        exact ⟨rfl, rfl⟩
    · have hfused := probeMetrics_counted px h hstride
      exact ⟨hfused.1.unique (laplacianVariance_counted px h hstride),
        hfused.2.unique (blockEdgeStrength_tallies hstride), hreads⟩

end AutoUpscale
