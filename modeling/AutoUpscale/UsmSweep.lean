/-
One worker's sweep over its stripe, alone.

`SweepGeom` is what a worker may rely on: its scratch rows lie apart from the
planes, the planes are one plane or two separate ones, and in place the two rows
its neighbours overwrite have a snapshot.

- `usmWorkerSweep_eq`: the sweep leaves the sharpened stripe.  The loop
  invariant is that two of the rolling rows hold the blur of the row above and
  of the current row, and that the rows still to be read are untouched.
- `usmWorkerSweep_confined`: the sweep touches its own scratch, its own stripe
  and the source rows `srcReads` only.
-/
import AutoUpscale.UsmPool

namespace AutoUpscale

open DisjointParallel PlaneMemory

/-! ### Geometry of a worker -/

/-- Row `r` of the worker's scratch. -/
def UsmWorker.row (w : UsmWorker) (r : ℕ) : ℕ := addr w.scratch w.width r 0

/-- The worker's five scratch rows. -/
def UsmWorker.scratchRect (w : UsmWorker) : Set ℕ :=
  rect w.scratch w.width w.width usmPoolScratchRows

/-- What a worker's stripe, planes and scratch look like when it is dispatched. -/
structure SweepGeom (w : UsmWorker) : Prop where
  width : 0 < w.width
  stripe : w.yStart < w.yEnd
  bottom : w.yEnd ≤ w.height
  srcStride : w.width ≤ w.srcStride
  dstStride : w.width ≤ w.dstStride
  overlap : (w.dst = w.src ∧ w.dstStride = w.srcStride) ∨
    Disjoint (rect w.dst w.dstStride w.width w.height) (rect w.src w.srcStride w.width w.height)
  scratchSrc : Disjoint w.scratchRect (rect w.src w.srcStride w.width w.height)
  scratchDst : Disjoint w.scratchRect (rect w.dst w.dstStride w.width w.height)
  haloTop : w.haloTop = if w.dst = w.src ∧ 0 < w.yStart then some (w.row 3) else none
  haloBot : w.haloBot = if w.dst = w.src ∧ w.yEnd < w.height then some (w.row 4) else none

/-- The rows whose blur the worker needs: its stripe and one on either side. -/
structure ReadsRow (w : UsmWorker) (y : ℕ) : Prop where
  top : w.yStart ≤ y + 1
  bottom : y ≤ w.yEnd
  height : y < w.height

section

variable {w : UsmWorker}

theorem row_subset (r : ℕ) (hr : r < usmPoolScratchRows) :
    bytes (w.row r) w.width ⊆ w.scratchRect :=
  bytes_subset_rect (x := 0) hr (by omega)

theorem row_disjoint {r r' : ℕ} (h : r ≠ r') :
    Disjoint (bytes (w.row r) w.width) (bytes (w.row r') w.width) := by
  rw [UsmWorker.row, UsmWorker.row, bytes_row, bytes_row]
  refine pixels_disjoint (fun x hx => ?_) (fun x hx => ?_) (.inr ?_)
  · have := hx.2
    omega
  · have := hx.2
    omega
  · rwa [Set.disjoint_singleton]

/-- Rows `y` and `y'` of one plane. -/
theorem plane_row_disjoint {base pitch n y y' : ℕ} (hn : n ≤ pitch) (h : y ≠ y') :
    Disjoint (bytes (addr base pitch y 0) n) (bytes (addr base pitch y' 0) n) := by
  rw [bytes_row, bytes_row]
  refine pixels_disjoint (fun x hx => ?_) (fun x hx => ?_) (.inr ?_)
  · have := hx.2
    omega
  · have := hx.2
    omega
  · rwa [Set.disjoint_singleton]

/-- Where a row is read: in place a neighbour's row comes from its snapshot,
every other row from the plane. -/
theorem SweepGeom.srcRow_cases (hg : SweepGeom w) {y : ℕ} (hy : ReadsRow w y) :
    (w.dst = w.src ∧ y + 1 = w.yStart ∧ usmWorkerSrcRow w y = w.row 3) ∨
      (w.dst = w.src ∧ y = w.yEnd ∧ usmWorkerSrcRow w y = w.row 4) ∨
      ((w.dst = w.src → w.yStart ≤ y ∧ y < w.yEnd) ∧
        usmWorkerSrcRow w y = addr w.src w.srcStride y 0) := by
  obtain ⟨htop, hbot, hheight⟩ := hy
  unfold usmWorkerSrcRow
  rw [hg.haloTop, hg.haloBot]
  by_cases hin : w.dst = w.src
  · by_cases h3 : y + 1 = w.yStart
    · have h0 : 0 < w.yStart := by omega
      exact .inl ⟨hin, h3, by simp [hin, h0, h3]⟩
    by_cases h4 : y = w.yEnd
    · refine .inr (.inl ⟨hin, h4, ?_⟩)
      subst h4
      by_cases h0 : 0 < w.yStart <;> simp [hin, h0, h3, hheight]
    · refine .inr (.inr ⟨fun _ => by omega, ?_⟩)
      by_cases h0 : 0 < w.yStart <;> by_cases hb : w.yEnd < w.height <;>
        simp [hin, h0, hb, h3, h4, addr]
  · refine .inr (.inr ⟨fun heq => absurd heq hin, ?_⟩)
    simp [hin, addr]

theorem SweepGeom.srcRow_self (hg : SweepGeom w) {y : ℕ} (hy : w.yStart ≤ y)
    (hy' : y < w.yEnd) : usmWorkerSrcRow w y = addr w.src w.srcStride y 0 := by
  have hb := hg.bottom
  have hread : ReadsRow w y := ⟨by omega, by omega, by omega⟩
  rcases hg.srcRow_cases hread with ⟨-, h, -⟩ | ⟨-, h, -⟩ | ⟨-, h⟩
  · omega
  · omega
  · exact h

/-- A row that is read is none of the rolling rows. -/
theorem SweepGeom.srcRow_disjoint_row (hg : SweepGeom w) {y r : ℕ} (hy : ReadsRow w y)
    (hr : r < 3) :
    Disjoint (bytes (w.row r) w.width) (bytes (usmWorkerSrcRow w y) w.width) := by
  rcases hg.srcRow_cases hy with ⟨-, -, h⟩ | ⟨-, -, h⟩ | ⟨-, h⟩ <;> rw [h]
  · exact row_disjoint (by omega)
  · exact row_disjoint (by omega)
  · exact hg.scratchSrc.mono (row_subset r (by unfold usmPoolScratchRows; omega))
      (bytes_subset_rect hy.height (by omega))

/-- Nor is it the destination of another row. -/
theorem SweepGeom.srcRow_disjoint_dst (hg : SweepGeom w) {y y' : ℕ} (hy : ReadsRow w y)
    (hy' : y' < w.height) (hne : y ≠ y') :
    Disjoint (bytes (addr w.dst w.dstStride y' 0) w.width)
      (bytes (usmWorkerSrcRow w y) w.width) := by
  have hdst : bytes (addr w.dst w.dstStride y' 0) w.width ⊆
      rect w.dst w.dstStride w.width w.height := bytes_subset_rect hy' (by omega)
  rcases hg.srcRow_cases hy with ⟨-, -, h⟩ | ⟨-, -, h⟩ | ⟨-, h⟩ <;> rw [h]
  · exact (hg.scratchDst.mono (row_subset 3 (by decide)) hdst).symm
  · exact (hg.scratchDst.mono (row_subset 4 (by decide)) hdst).symm
  · rcases hg.overlap with ⟨hbase, hstride⟩ | hapart
    · rw [hbase, hstride]
      exact plane_row_disjoint hg.srcStride (Ne.symm hne)
    · exact hapart.mono hdst (bytes_subset_rect hy.height (by omega))

theorem SweepGeom.dst_disjoint_row (hg : SweepGeom w) {y r : ℕ} (hy : y < w.height)
    (hr : r < 3) :
    Disjoint (bytes (addr w.dst w.dstStride y 0) w.width) (bytes (w.row r) w.width) :=
  (hg.scratchDst.mono (row_subset r (by unfold usmPoolScratchRows; omega))
    (bytes_subset_rect hy (by omega))).symm

/-! ### The two row steps -/

/-- Blurring a row the worker reads into a rolling row. -/
theorem SweepGeom.hblur_eq (hg : SweepGeom w) {y r : ℕ} (hy : ReadsRow w y) (hr : r < 3)
    (m : Memory) : RowStep.run (.hblur (w.row r) (usmWorkerSrcRow w y) w.width) m =
      fill m (w.row r) w.width (hblurAt (fun x => m (usmWorkerSrcRow w y + x)) w.width) :=
  hblurRow_eq_fill (hg.srcRow_disjoint_row hy hr)

/-- Combining three rolling rows with a row of the stripe. -/
theorem SweepGeom.combine_eq (hg : SweepGeom w) {y i j l : ℕ} (hy' : y < w.yEnd) (hi : i < 3)
    (hj : j < 3) (hl : l < 3) (m : Memory) :
    RowStep.run (.combine (addr w.dst w.dstStride y 0) (addr w.src w.srcStride y 0) (w.row i)
      (w.row j) (w.row l) w.width w.amountQ8) m =
      fill m (addr w.dst w.dstStride y 0) w.width fun x => combinePixel w.amountQ8
        (m (addr w.src w.srcStride y 0 + x)) (m (w.row i + x)) (m (w.row j + x))
        (m (w.row l + x)) := by
  have hyh : y < w.height := hy'.trans_le hg.bottom
  refine combineRow_eq_fill ?_ (hg.dst_disjoint_row hyh hi) (hg.dst_disjoint_row hyh hj)
    (hg.dst_disjoint_row hyh hl)
  rcases hg.overlap with ⟨hbase, hstride⟩ | hapart
  · exact .inl (by rw [hbase, hstride])
  · exact .inr (hapart.mono (bytes_subset_rect hyh (by omega)) (bytes_subset_rect hyh (by omega)))

/-! ### The loop -/

/-- The worker can still read the rows from `y` on as the plane `P`. -/
def Unread (w : UsmWorker) (P : ℕ → ℕ → UInt8) (m : Memory) (y : ℕ) : Prop :=
  ∀ r, y ≤ r → ReadsRow w r → ∀ x < w.width, m (usmWorkerSrcRow w r + x) = P r x

/-- Rolling row `r` holds the blur of plane row `y`. -/
def Blurred (w : UsmWorker) (P : ℕ → ℕ → UInt8) (m : Memory) (r y : ℕ) : Prop :=
  ∀ x < w.width, m (w.row r + x) = hblurAt (P y) w.width x

variable {P : ℕ → ℕ → UInt8}

theorem row_add_notMem {r r' x : ℕ} (h : r ≠ r') (hx : x < w.width) :
    w.row r + x ∉ bytes (w.row r') w.width :=
  notMem_of_disjoint (row_disjoint (Ne.symm h)) hx

/-- Blurring a row the worker can read. -/
theorem SweepGeom.blurred_step (hg : SweepGeom w) {m : Memory} {y r : ℕ} (hy : ReadsRow w y)
    (hr : r < 3) (hread : ∀ x < w.width, m (usmWorkerSrcRow w y + x) = P y x) :
    Blurred w P (RowStep.run (.hblur (w.row r) (usmWorkerSrcRow w y) w.width) m) r y := by
  intro x hx
  rw [hg.hblur_eq hy hr, fill_add hx]
  exact hblurAt_congr hx hread

theorem SweepGeom.blurred_frame (hg : SweepGeom w) {m : Memory} {y r r' y' : ℕ}
    (hy : ReadsRow w y) (hr : r < 3) (hne : r' ≠ r) (h : Blurred w P m r' y') :
    Blurred w P (RowStep.run (.hblur (w.row r) (usmWorkerSrcRow w y) w.width) m) r' y' := by
  intro x hx
  rw [hg.hblur_eq hy hr, fill_of_notMem (row_add_notMem hne hx)]
  exact h x hx

theorem SweepGeom.unread_frame (hg : SweepGeom w) {m : Memory} {y r y' : ℕ}
    (hy : ReadsRow w y) (hr : r < 3) (h : Unread w P m y') :
    Unread w P (RowStep.run (.hblur (w.row r) (usmWorkerSrcRow w y) w.width) m) y' := by
  intro k hk hread x hx
  rw [hg.hblur_eq hy hr, fill_of_notMem (notMem_of_disjoint (hg.srcRow_disjoint_row hread hr) hx)]
  exact h k hk hread x hx

/-- One turn of the loop, the rolling rows being `i` (above), `j` (current) and
`l`: row `y` comes out sharpened, and `j`, `l` are the next row's neighbours. -/
theorem SweepGeom.turn_eq (hg : SweepGeom w) {y i j l : ℕ} {m : Memory} (hyend : y < w.yEnd)
    (hy : w.yStart ≤ y) (hi : i < 3) (hj : j < 3) (hl : l < 3) (hil : i ≠ l) (hjl : j ≠ l)
    (hup : Blurred w P m i (rowAbove y)) (hmid : Blurred w P m j y) (hrest : Unread w P m y)
    {m₂ : Memory}
    (hm₂ : m₂ = RowStep.run (.combine (addr w.dst w.dstStride y 0) (addr w.src w.srcStride y 0)
      (w.row i) (w.row j) (w.row l) w.width w.amountQ8) (RowStep.run
        (.hblur (w.row l) (usmWorkerSrcRow w (rowBelow w.height y)) w.width) m)) :
    (∀ x < w.width, m₂ (addr w.dst w.dstStride y x) =
      usmAt P w.width w.height w.amountQ8 y x) ∧
    (∀ r x, r ≠ y → r < w.height → x < w.width →
      m₂ (addr w.dst w.dstStride r x) = m (addr w.dst w.dstStride r x)) ∧
    Blurred w P m₂ j y ∧ Blurred w P m₂ l (rowBelow w.height y) ∧ Unread w P m₂ (y + 1) := by
  have hyh : y < w.height := hyend.trans_le hg.bottom
  have hhere : ReadsRow w y := ⟨by omega, by omega, hyh⟩
  have hbelow : ReadsRow w (rowBelow w.height y) := by
    refine ⟨?_, ?_, rowBelow_lt hyh⟩ <;>
    · unfold rowBelow
      split <;> omega
  have hbelow_ge : y ≤ rowBelow w.height y := by
    unfold rowBelow
    split <;> omega
  -- the row below is blurred into the spare buffer
  have hdn := hg.blurred_step hbelow hl (hrest _ hbelow_ge hbelow)
  have hup₁ := hg.blurred_frame hbelow hl hil hup
  have hmid₁ := hg.blurred_frame hbelow hl hjl hmid
  have hrest₁ := hg.unread_frame hbelow hl hrest
  have hdst₁ : ∀ r x, r < w.height → x < w.width →
      RowStep.run (.hblur (w.row l) (usmWorkerSrcRow w (rowBelow w.height y)) w.width) m
        (addr w.dst w.dstStride r x) = m (addr w.dst w.dstStride r x) := by
    intro r x hr hx
    rw [hg.hblur_eq hbelow hl, fill_of_notMem]
    exact Set.disjoint_left.mp (hg.dst_disjoint_row hr hl) ⟨by unfold addr; omega,
      by unfold addr; omega⟩
  generalize RowStep.run (.hblur (w.row l) (usmWorkerSrcRow w (rowBelow w.height y)) w.width) m
    = m₁ at *
  rw [hg.combine_eq hyend hi hj hl m₁] at hm₂
  -- then the current row is combined
  have hroll : ∀ r, r < 3 → ∀ y', Blurred w P m₁ r y' → Blurred w P m₂ r y' := by
    intro r hr y' hb x hx
    rw [hm₂, fill_of_notMem (notMem_of_disjoint (hg.dst_disjoint_row hyh hr) hx)]
    exact hb x hx
  refine ⟨fun x hx => ?_, fun r x hr hrh hx => ?_, hroll j hj y hmid₁, hroll l hl _ hdn,
    fun r hr hread x hx => ?_⟩
  · have hs := hrest₁ y le_rfl hhere x hx
    rw [hg.srcRow_self hy hyend] at hs
    rw [hm₂, show addr w.dst w.dstStride y x = addr w.dst w.dstStride y 0 + x from rfl,
      fill_add hx, hs, hup₁ x hx, hmid₁ x hx, hdn x hx]
    rfl
  · rw [hm₂, fill_of_notMem]
    · exact hdst₁ r x hrh hx
    · exact notMem_of_disjoint (plane_row_disjoint hg.dstStride hr.symm) hx
  · rw [hm₂, fill_of_notMem (notMem_of_disjoint
      (hg.srcRow_disjoint_dst hread hyh (by omega)) hx)]
    exact hrest₁ r (by omega) hread x hx

/-- The loop with `k` rows to go, the rolling rows being `i` (above), `j`
(current) and `l`: the remaining rows come out sharpened, the earlier ones stay. -/
theorem SweepGeom.sweepFrom_eq (hg : SweepGeom w) {k y i j l : ℕ} {m : Memory}
    (hk : y + k = w.yEnd) (hy : w.yStart ≤ y) (hi : i < 3) (hj : j < 3) (hl : l < 3)
    (hij : i ≠ j) (hil : i ≠ l) (hjl : j ≠ l)
    (hup : 0 < k → Blurred w P m i (rowAbove y)) (hmid : 0 < k → Blurred w P m j y)
    (hrest : Unread w P m y) :
    (∀ r x, y ≤ r → r < w.yEnd → x < w.width →
      solo RowStep.run (usmWorkerSweepFrom w k y (w.row i) (w.row j) (w.row l)) m
        (addr w.dst w.dstStride r x) = usmAt P w.width w.height w.amountQ8 r x) ∧
    (∀ r x, r < y → x < w.width →
      solo RowStep.run (usmWorkerSweepFrom w k y (w.row i) (w.row j) (w.row l)) m
        (addr w.dst w.dstStride r x) = m (addr w.dst w.dstStride r x)) := by
  induction k generalizing y i j l m with
  | zero => exact ⟨fun r x hr hr' _ => by omega, fun _ _ _ _ => rfl⟩
  | succ k ih =>
    have hbottom := hg.bottom
    rw [usmWorkerSweepFrom]
    simp only [solo_cons]
    rw [show w.dst + y * w.dstStride = addr w.dst w.dstStride y 0 from rfl,
      show w.src + y * w.srcStride = addr w.src w.srcStride y 0 from rfl,
      show (if y < w.height - 1 then y + 1 else w.height - 1) = rowBelow w.height y from rfl]
    generalize hm₂ : RowStep.run (.combine (addr w.dst w.dstStride y 0)
      (addr w.src w.srcStride y 0) (w.row i) (w.row j) (w.row l) w.width w.amountQ8) (RowStep.run
      (.hblur (w.row l) (usmWorkerSrcRow w (rowBelow w.height y)) w.width) m) = m₂
    obtain ⟨hout, hother, hroll, hdn, hrest₂⟩ := hg.turn_eq (by omega) hy hi hj hl hil hjl
      (hup k.succ_pos) (hmid k.succ_pos) hrest hm₂.symm
    have habove : rowAbove (y + 1) = y := by
      unfold rowAbove
      rw [if_pos y.succ_pos, Nat.add_sub_cancel]
    have hbelow : 0 < k → rowBelow w.height y = y + 1 := by
      intro hpos
      unfold rowBelow
      rw [if_pos (by omega)]
    -- the rows roll: the current one is above the next, the one below is current
    obtain ⟨hnew, hold⟩ := ih (y := y + 1) (i := j) (j := l) (l := i) (by omega) (by omega) hj hl
      hi hjl hij.symm hil.symm (fun _ => habove.symm ▸ hroll) (fun hpos => hbelow hpos ▸ hdn)
      hrest₂
    refine ⟨fun r x hr hr' hx => ?_, fun r x hr hx => ?_⟩
    · by_cases hry : r = y
      · subst hry
        exact (hold r x (by omega) hx).trans (hout x hx)
      · exact hnew r x (by omega) hr' hx
    · rw [hold r x (by omega) hx]
      exact hother r x (by omega) (by omega) hx

theorem sweep_rows (w : UsmWorker) : usmWorkerSweep w =
    .hblur (w.row 0) (usmWorkerSrcRow w (rowAbove w.yStart)) w.width ::
      .hblur (w.row 1) (usmWorkerSrcRow w w.yStart) w.width ::
      usmWorkerSweepFrom w (w.yEnd - w.yStart) w.yStart (w.row 0) (w.row 1) (w.row 2) := by
  simp [usmWorkerSweep, UsmWorker.row, addr, rowAbove]

theorem SweepGeom.reads_above (hg : SweepGeom w) : ReadsRow w (rowAbove w.yStart) := by
  have := hg.stripe
  have := hg.bottom
  unfold rowAbove
  split <;> exact ⟨by omega, by omega, by omega⟩

theorem SweepGeom.reads_stripe (hg : SweepGeom w) {y : ℕ} (hy : w.yStart ≤ y)
    (hy' : y < w.yEnd) : ReadsRow w y := by
  have := hg.bottom
  exact ⟨by omega, by omega, by omega⟩

/-- **A sweep sharpens its stripe** of the plane that its rows show at the start. -/
theorem usmWorkerSweep_eq (hg : SweepGeom w) {m : Memory}
    (hread : ∀ r, ReadsRow w r → ∀ x < w.width, m (usmWorkerSrcRow w r + x) = P r x) {y x : ℕ}
    (hy : w.yStart ≤ y) (hy' : y < w.yEnd) (hx : x < w.width) :
    solo RowStep.run (usmWorkerSweep w) m (addr w.dst w.dstStride y x) =
      usmAt P w.width w.height w.amountQ8 y x := by
  have hstart : ReadsRow w w.yStart := hg.reads_stripe le_rfl hg.stripe
  rw [sweep_rows, solo_cons, solo_cons]
  have hrest : Unread w P m 0 := fun r _ hr => hread r hr
  have hup := hg.blurred_step hg.reads_above (r := 0) (by omega) (hread _ hg.reads_above)
  have hrest₁ := hg.unread_frame hg.reads_above (r := 0) (by omega) hrest
  have hmid := hg.blurred_step hstart (r := 1) (by omega)
    (hrest₁ w.yStart (Nat.zero_le _) hstart)
  have hup' := hg.blurred_frame hstart (r := 1) (by omega) (by omega) hup
  have hrest₂ := hg.unread_frame hstart (r := 1) (by omega) hrest₁
  refine (hg.sweepFrom_eq (by have := hg.stripe; omega) le_rfl (by omega) (by omega) (by omega)
    (by omega) (by omega) (by omega) (fun _ => hup') (fun _ => hmid)
    fun r _ => hrest₂ r (Nat.zero_le _)).1 y x hy hy' hx

/-! ### What a sweep touches -/

/-- The source rows a sweep reads from the plane itself. -/
def UsmWorker.srcReads (w : UsmWorker) : Set ℕ :=
  if w.dst = w.src then
    pixels w.src w.srcStride (Set.Iio w.width) {y | w.yStart ≤ y ∧ y < w.yEnd}
  else rect w.src w.srcStride w.width w.height

/-- The destination rows of a stripe. -/
def UsmWorker.stripe (w : UsmWorker) : Set ℕ :=
  pixels w.dst w.dstStride (Set.Iio w.width) {y | w.yStart ≤ y ∧ y < w.yEnd}

/-- The steps a sweep is made of. -/
inductive SweepStep (w : UsmWorker) : RowStep → Prop
  | hblur (r y : ℕ) (hr : r < 3) (hy : ReadsRow w y) :
      SweepStep w (.hblur (w.row r) (usmWorkerSrcRow w y) w.width)
  | combine (y i j l : ℕ) (hy : w.yStart ≤ y) (hy' : y < w.yEnd) (hi : i < 3) (hj : j < 3)
      (hl : l < 3) : SweepStep w (.combine (addr w.dst w.dstStride y 0)
        (addr w.src w.srcStride y 0) (w.row i) (w.row j) (w.row l) w.width w.amountQ8)

theorem SweepGeom.sweepFrom_steps (hg : SweepGeom w) {k y i j l : ℕ} (hk : y + k = w.yEnd)
    (hy : w.yStart ≤ y) (hi : i < 3) (hj : j < 3) (hl : l < 3) :
    ∀ st ∈ usmWorkerSweepFrom w k y (w.row i) (w.row j) (w.row l), SweepStep w st := by
  induction k generalizing y i j l with
  | zero => intro st hst; cases hst
  | succ k ih =>
    intro st hst
    have hyh : y < w.height := by have := hg.bottom; omega
    rw [usmWorkerSweepFrom, List.mem_cons, List.mem_cons] at hst
    rcases hst with rfl | rfl | hst
    · refine .hblur l (rowBelow w.height y) hl ⟨?_, ?_, rowBelow_lt hyh⟩ <;>
      · unfold rowBelow
        split <;> omega
    · exact .combine y i j l hy (by omega) hi hj hl
    · exact ih (by omega) (by omega) hj hl hi st hst

theorem SweepGeom.sweep_steps (hg : SweepGeom w) :
    ∀ st ∈ usmWorkerSweep w, SweepStep w st := by
  intro st hst
  rw [sweep_rows, List.mem_cons, List.mem_cons] at hst
  rcases hst with rfl | rfl | hst
  · exact .hblur 0 _ (by omega) hg.reads_above
  · exact .hblur 1 _ (by omega) (hg.reads_stripe le_rfl hg.stripe)
  · exact hg.sweepFrom_steps (by have := hg.stripe; omega) le_rfl (by omega) (by omega)
      (by omega) st hst

/-- A sweep stays within its scratch, its stripe and the source rows it reads. -/
theorem usmWorkerSweep_confined (hg : SweepGeom w) :
    ∀ st ∈ usmWorkerSweep w, Confined st.run (w.srcReads ∪ w.scratchRect)
      (w.scratchRect ∪ w.stripe) := by
  have hroll : ∀ r < 3, bytes (w.row r) w.width ⊆ w.scratchRect := fun r hr =>
    row_subset r (by unfold usmPoolScratchRows; omega)
  have hself : ∀ y, w.yStart ≤ y → y < w.yEnd →
      bytes (addr w.src w.srcStride y 0) w.width ⊆ w.srcReads := by
    intro y hy hy'
    unfold UsmWorker.srcReads
    split
    · rw [bytes_row]
      refine pixels_mono (fun x hx => ?_) fun r hr => ?_
      · have := hx.2
        exact Set.mem_Iio.mpr (by omega)
      · rw [Set.mem_singleton_iff.mp hr]
        exact ⟨hy, hy'⟩
    · exact bytes_subset_rect (hg.reads_stripe hy hy').height (by omega)
  intro st hst
  cases hg.sweep_steps st hst with
  | hblur r y hr hy =>
    have heq : RowStep.run (.hblur (w.row r) (usmWorkerSrcRow w y) w.width) = fun m =>
        fill m (w.row r) w.width (hblurAt (fun x => m (usmWorkerSrcRow w y + x)) w.width) :=
      funext fun m => hg.hblur_eq hy hr m
    rw [heq]
    have hfill : Confined (fun m : Memory => fill m (w.row r) w.width
        (hblurAt (fun x => m (usmWorkerSrcRow w y + x)) w.width))
        (bytes (usmWorkerSrcRow w y) w.width) (bytes (w.row r) w.width) :=
      confined_fill fun m m' hm k hk => hblurAt_congr hk fun x hx => hm (add_mem_bytes hx)
    -- a row is read from a snapshot or, in place, from the stripe
    refine hfill.mono ?_ ((hroll r hr).trans Set.subset_union_left)
    rcases hg.srcRow_cases hy with ⟨-, -, h⟩ | ⟨-, -, h⟩ | ⟨hin, h⟩ <;> rw [h]
    · exact (row_subset 3 (by decide)).trans Set.subset_union_right
    · exact (row_subset 4 (by decide)).trans Set.subset_union_right
    · refine Set.Subset.trans ?_ Set.subset_union_left
      by_cases heq : w.dst = w.src
      · exact hself y (hin heq).1 (hin heq).2
      · rw [UsmWorker.srcReads, if_neg heq]
        exact bytes_subset_rect hy.height (by omega)
  | combine y i j l hy hy' hi hj hl =>
    have heq : RowStep.run (.combine (addr w.dst w.dstStride y 0) (addr w.src w.srcStride y 0)
        (w.row i) (w.row j) (w.row l) w.width w.amountQ8) = _ :=
      funext fun m => hg.combine_eq hy' hi hj hl m
    rw [heq]
    refine confined_fill (fun m m' hm k hk => ?_) |>.mono subset_rfl ?_
    · rw [hm (.inl (hself y hy hy' (add_mem_bytes hk))), hm (.inr (hroll i hi (add_mem_bytes hk))),
        hm (.inr (hroll j hj (add_mem_bytes hk))), hm (.inr (hroll l hl (add_mem_bytes hk)))]
    · refine Set.Subset.trans ?_ Set.subset_union_right
      rw [bytes_row]
      refine pixels_mono (fun x hx => ?_) fun r hr => ?_
      · have := hx.2
        exact Set.mem_Iio.mpr (by omega)
      · rw [Set.mem_singleton_iff.mp hr]
        exact ⟨hy, hy'⟩

end

end AutoUpscale
