/-
The stripes and scratch rows of the unsharp-mask pool, for any number of workers
that come up (`src/usm_pool.c`).

The scratch block is sized for the resolved count and the stripes are cut for the
actual one.  The functions named `…Int` and `…Size` are those of `UsmPool` with
their `int`, `int64_t` and `size_t` operations checked.

- `stripes_of_ready`: the stripes divide the plane and keep the minimum height.
- `scratch_of_ready`: the scratch rows share no byte and stay in the block.
- **`usm_stripes_partition`** joins them over every pool and start.
-/
import AutoUpscale.AlignedInterval
import AutoUpscale.PictureContract
import AutoUpscale.UpscaleContract
import AutoUpscale.UsmInPlace

namespace AutoUpscale

open MachineInt AlignedInterval GridPartition PlaneMemory

/-! ### The arithmetic -/

/-- `usm_pool_scratch_bytes`; `none` stands for an operation that wraps. -/
def usmPoolScratchBytesSize (n width : ℤ) : Option ℕ :=
  if n ≤ 0 ∨ width ≤ 0 then pure 0
  else do
    let w ← sizeT.ofInt width
    let per ← sizeT.mul usmPoolScratchRows w
    let back ← sizeT.div per usmPoolScratchRows
    if back ≠ w then pure 0
    else do
      let count ← sizeT.ofInt n
      let limit ← sizeT.div sizeMax count
      if per > limit then pure 0 else sizeT.mul per count

/-- The size `usm_pool_alloc_scratch` asks for: the outer option is the
wraparound, the inner one the `-1` return. -/
def usmPoolAllocScratchSize (n width : ℤ) : Option (Option ℕ) := do
  let bytes ← usmPoolScratchBytesSize n width
  if bytes = 0 then pure none
  else do
    let bumped ← sizeT.add bytes (usmPoolAlign - 1)
    -- `& ~(size_t)(USM_POOL_ALIGN - 1)`
    let alignedBytes := bumped &&& (2 ^ 64 - 2 ^ 6)
    if alignedBytes < bytes then pure none else pure (some alignedBytes)

/-- The offset in `usm_pool_construct_worker`. -/
def usmScratchOffsetSize (i width : ℤ) : Option ℕ := do
  let index ← sizeT.ofInt i
  let rows ← sizeT.mul index usmPoolScratchRows
  let w ← sizeT.ofInt width
  sizeT.mul rows w

/-- A stripe boundary: `(int)((int64_t)i * height / n)`. -/
def usmStripeCutInt (i n height : ℤ) : Option ℤ := do
  let product ← int64.mul i height
  let quotient ← int64.div product n
  int32.fit quotient

/-- The loop body of `usm_pool_repartition_stripes`: `y_start` and `y_end`. -/
def usmStripeBoundsInt (i n height : ℤ) : Option (ℤ × ℤ) := do
  let yStart ← usmStripeCutInt i n height
  let last ← int32.add n (-1)
  let yEnd ← (if i = last then pure height else do
    let next ← int32.add i 1
    usmStripeCutInt next n height)
  pure (yStart, yEnd)

/-- `usm_pool_resolve_threads` -/
def usmPoolResolveThreadsInt (nThreads height stripeMinRows : ℤ) : Option ℤ := do
  let nThreads := if nThreads > threadsMax then threadsMax else nThreads
  let stripeMinRows := if stripeMinRows ≤ 0 then usmStripeMinRows else stripeMinRows
  let maxBySize ← int32.div height stripeMinRows
  let maxBySize := if maxBySize < 1 then 1 else maxBySize
  pure (if nThreads > maxBySize then maxBySize else nThreads)

/-- The rows a stripe is promised. -/
def usmStripeMinimum (stripeMinRows : ℤ) : ℤ :=
  if stripeMinRows ≤ 0 then usmStripeMinRows else stripeMinRows

theorem usmStripeMinimum_pos (stripeMinRows : ℤ) : 0 < usmStripeMinimum stripeMinRows := by
  unfold usmStripeMinimum usmStripeMinRows
  split_ifs <;> omega

theorem usmPoolResolveThreadsInt_eq {nThreads height stripeMinRows : ℤ} (hpos : 0 ≤ height)
    (hheight : height ≤ intMax) :
    usmPoolResolveThreadsInt nThreads height stripeMinRows =
      some (usmPoolResolveThreads nThreads height stripeMinRows) := by
  have hint : intMax = 2147483647 := rfl
  have hdiv : int32.div height (usmStripeMinimum stripeMinRows) =
      some (height / usmStripeMinimum stripeMinRows) :=
    IntType.div_eq hpos (usmStripeMinimum_pos _) (int32_holds.mpr (by omega)) (by decide)
  unfold usmPoolResolveThreadsInt
  dsimp only
  rw [show (if stripeMinRows ≤ 0 then usmStripeMinRows else stripeMinRows) =
    usmStripeMinimum stripeMinRows from rfl, bind_of_eq hdiv]
  rfl

/-- No more workers than the cap, and at least one. -/
theorem usmPoolResolveThreads_bounds {nThreads : ℤ} (hn : 1 ≤ nThreads)
    (height stripeMinRows : ℤ) :
    1 ≤ usmPoolResolveThreads nThreads height stripeMinRows ∧
      usmPoolResolveThreads nThreads height stripeMinRows ≤ 64 := by
  have hmax : threadsMax = 64 := rfl
  unfold usmPoolResolveThreads
  dsimp only
  rw [hmax]
  split_ifs <;> omega

/-- **Two or more workers have their minimum of rows each**: the resolved count
is a quotient of the height, and so is no smaller count's share smaller. -/
theorem usmPoolResolveThreads_mul_le {nThreads height stripeMinRows : ℤ} {k : ℕ} (hk : 1 < k)
    (hle : (k : ℤ) ≤ usmPoolResolveThreads nThreads height stripeMinRows) :
    k * usmStripeMinimum stripeMinRows ≤ height := by
  have hpos := usmStripeMinimum_pos stripeMinRows
  have hquot : (k : ℤ) ≤ height / usmStripeMinimum stripeMinRows := by
    unfold usmPoolResolveThreads at hle
    dsimp only at hle
    rw [show (if stripeMinRows ≤ 0 then usmStripeMinRows else stripeMinRows) =
      usmStripeMinimum stripeMinRows from rfl] at hle
    split_ifs at hle <;> omega
  exact (Int.le_ediv_iff_mul_le hpos).mp hquot

/-- A boundary is a share of the height. -/
theorem usmStripeCutInt_eq {i n height : ℕ} (hn : 0 < n) (hin : i ≤ n) (hn64 : n ≤ 64)
    (hheight : (height : ℤ) ≤ intMax) :
    usmStripeCutInt i n height = some ((i * height / n : ℕ) : ℤ) := by
  have hint : intMax = 2147483647 := rfl
  have hprod : i * height ≤ 64 * 2147483647 := Nat.mul_le_mul (by omega) (by omega)
  have hquot : i * height / n ≤ height := by
    calc i * height / n ≤ n * height / n := Nat.div_le_div_right (Nat.mul_le_mul_right _ hin)
      _ = height := Nat.mul_div_cancel_left _ hn
  have hcast : ((i : ℤ) * height) = ((i * height : ℕ) : ℤ) := by push_cast; rfl
  have hholds : int64.Holds ((i : ℤ) * height) := by
    rw [int64_holds, hcast]
    omega
  have hproduct : int64.mul i height = some ((i : ℤ) * height) := IntType.mul_eq hholds
  have hquotient : int64.div ((i : ℤ) * height) n = some ((i : ℤ) * height / n) :=
    IntType.div_eq (by positivity) (by omega) hholds (by decide)
  unfold usmStripeCutInt
  rw [bind_of_eq hproduct, bind_of_eq hquotient, hcast, ← Int.natCast_div]
  generalize i * height / n = quotient at hquot ⊢
  exact IntType.fit_eq (int32_holds.mpr (by omega))

/-- Both bounds of a stripe, the last one ending at the height. -/
theorem usmStripeBoundsInt_eq {i n height : ℕ} (hin : i < n) (hn64 : n ≤ 64)
    (hheight : (height : ℤ) ≤ intMax) :
    usmStripeBoundsInt i n height =
      some (((i * height / n : ℕ) : ℤ), (((i + 1) * height / n : ℕ) : ℤ)) := by
  have hint : intMax = 2147483647 := rfl
  have hn : 0 < n := by omega
  have hlast : int32.add n (-1) = some ((n : ℤ) + -1) :=
    IntType.add_eq (int32_holds.mpr (by omega))
  have hnext : int32.add i 1 = some ((i : ℤ) + 1) := IntType.add_eq (int32_holds.mpr (by omega))
  unfold usmStripeBoundsInt
  rw [bind_of_eq (usmStripeCutInt_eq hn hin.le hn64 hheight), bind_of_eq hlast]
  by_cases hend : (i : ℤ) = n + -1
  · rw [if_pos hend, show i + 1 = n by omega, Nat.mul_div_cancel_left _ hn]
    rfl
  · have hcut := usmStripeCutInt_eq (i := i + 1) hn hin hn64 hheight
    push_cast at hcut
    rw [if_neg hend, bind_of_eq hnext]
    push_cast
    rw [bind_of_eq hcut]
    rfl

/-- The whole block: five rows for each of the resolved count, far from any wrap. -/
theorem usmPoolScratchBytesSize_eq {n width : ℤ} (hn : 1 ≤ n) (hn64 : n ≤ 64) (hw : 1 ≤ width)
    (hwmax : width ≤ intMax) :
    usmPoolScratchBytesSize n width = some (usmPoolScratchRows * width.toNat * n.toNat) := by
  have hint : intMax = 2147483647 := rfl
  have hmax : sizeMax = 18446744073709551615 := rfl
  have hrows : usmPoolScratchRows = 5 := rfl
  have hprod : 5 * width.toNat * n.toNat ≤ 5 * 2147483647 * 64 :=
    Nat.mul_le_mul (by omega) (by omega)
  have hwidth : sizeT.ofInt width = some width.toNat :=
    WordType.ofInt_eq (by omega) (show width.toNat < 2 ^ 64 by omega)
  have hper : sizeT.mul usmPoolScratchRows width.toNat =
      some (usmPoolScratchRows * width.toNat) :=
    WordType.mul_eq (show 5 * width.toNat < 2 ^ 64 by omega)
  have hback : sizeT.div (usmPoolScratchRows * width.toNat) usmPoolScratchRows =
      some width.toNat :=
    (WordType.div_eq (by decide) (show 5 * width.toNat < 2 ^ 64 by omega)).trans
      (congrArg some (Nat.mul_div_cancel_left _ (by decide)))
  have hcount : sizeT.ofInt n = some n.toNat :=
    WordType.ofInt_eq (by omega) (show n.toNat < 2 ^ 64 by omega)
  have hlimit : sizeT.div sizeMax n.toNat = some (sizeMax / n.toNat) :=
    WordType.div_eq (by omega) (show sizeMax < 2 ^ 64 by decide)
  have hroom : ¬ usmPoolScratchRows * width.toNat > sizeMax / n.toNat := by
    rw [not_lt, Nat.le_div_iff_mul_le (by omega), hrows]
    omega
  unfold usmPoolScratchBytesSize
  rw [if_neg (by omega), bind_of_eq hwidth, bind_of_eq hper, bind_of_eq hback,
    if_neg (not_not.mpr rfl), bind_of_eq hcount, bind_of_eq hlimit, if_neg hroom]
  exact WordType.mul_eq (show 5 * width.toNat * n.toNat < 2 ^ 64 by omega)

/-- The size asked for: the block rounded up. -/
theorem usmPoolAllocScratchSize_eq {n width : ℤ} (hn : 1 ≤ n) (hn64 : n ≤ 64) (hw : 1 ≤ width)
    (hwmax : width ≤ intMax) :
    usmPoolAllocScratchSize n width =
      some (some (roundUp 64 (usmPoolScratchRows * width.toNat * n.toNat))) := by
  have hint : intMax = 2147483647 := rfl
  have hrows : usmPoolScratchRows = 5 := rfl
  have hpos : 0 < usmPoolScratchRows * width.toNat * n.toNat :=
    Nat.mul_pos (Nat.mul_pos (by decide) (by omega)) (by omega)
  have hprod : usmPoolScratchRows * width.toNat * n.toNat ≤ 687194767040 :=
    Nat.mul_le_mul (show 5 * width.toNat ≤ 10737418235 by omega) (show n.toNat ≤ 64 by omega)
  unfold usmPoolAllocScratchSize
  rw [bind_of_eq (usmPoolScratchBytesSize_eq hn hn64 hw hwmax)]
  generalize usmPoolScratchRows * width.toNat * n.toNat = bytes at hpos hprod ⊢
  have hup := le_roundUp (show 0 < 64 by decide) bytes
  have hbump : sizeT.add bytes (usmPoolAlign - 1) = some (bytes + 63) :=
    WordType.add_eq (show bytes + 63 < 2 ^ 64 by omega)
  have hmask : (bytes + 63) &&& (2 ^ 64 - 2 ^ 6) = roundUp 64 bytes :=
    and_highBits (by decide) (by omega)
  rw [if_neg hpos.ne', bind_of_eq hbump, hmask, if_neg (not_lt.mpr hup)]
  rfl

/-- Only the allocator itself can refuse the block. -/
theorem usmPoolAllocScratch_eq {p : UsmPool} (hn : 1 ≤ p.nThreadsPref) (hn64 : p.nThreadsPref ≤ 64)
    (hw : 1 ≤ (p.width : ℤ)) (hwmax : (p.width : ℤ) ≤ intMax) (ok : Bool) :
    usmPoolAllocScratch p ok = ok := by
  have hint : intMax = 2147483647 := rfl
  have hmax : sizeMax = 18446744073709551615 := rfl
  have hrows : usmPoolScratchRows = 5 := rfl
  have hwords : (2 : ℕ) ^ 64 = 18446744073709551616 := by norm_num
  have hprod : 5 * p.width * p.nThreadsPref.toNat ≤ 687194767040 :=
    Nat.mul_le_mul (show 5 * p.width ≤ 10737418235 by omega)
      (show p.nThreadsPref.toNat ≤ 64 by omega)
  have hpos : 0 < 5 * p.width * p.nThreadsPref.toNat :=
    Nat.mul_pos (by omega) (by omega)
  have hbytes : usmPoolScratchBytes p.nThreadsPref p.width =
      5 * p.width * p.nThreadsPref.toNat := by
    have hroom : 5 * p.width ≤ sizeMax / p.nThreadsPref.toNat := by
      rw [Nat.le_div_iff_mul_le (by omega)]
      omega
    unfold usmPoolScratchBytes
    rw [if_neg (by omega)]
    dsimp only
    rw [Int.toNat_natCast, hrows, Nat.mod_eq_of_lt (by omega), if_neg (by omega),
      if_neg (not_lt.mpr hroom)]
  have halign : usmPoolAlign = 64 := rfl
  unfold usmPoolAllocScratch
  dsimp only
  rw [hbytes, halign]
  generalize 5 * p.width * p.nThreadsPref.toNat = size at hprod hpos ⊢
  rw [if_neg hpos.ne', if_neg (by omega)]

theorem usmScratchOffsetSize_eq {i : ℕ} {width : ℤ} (hi : i < 64) (hw : 0 ≤ width)
    (hwmax : width ≤ intMax) :
    usmScratchOffsetSize i width = some (i * usmPoolScratchRows * width.toNat) := by
  have hint : intMax = 2147483647 := rfl
  have hrows : usmPoolScratchRows = 5 := rfl
  have hprod : i * 5 * width.toNat ≤ 64 * 5 * 2147483647 :=
    Nat.mul_le_mul (by omega) (by omega)
  have hindex : sizeT.ofInt i = some i :=
    WordType.ofInt_eq (Int.natCast_nonneg i) (show (i : ℤ).toNat < 2 ^ 64 by omega)
  have hoffset : sizeT.mul i usmPoolScratchRows = some (i * usmPoolScratchRows) :=
    WordType.mul_eq (show i * 5 < 2 ^ 64 by omega)
  have hwidth : sizeT.ofInt width = some width.toNat :=
    WordType.ofInt_eq hw (show width.toNat < 2 ^ 64 by omega)
  unfold usmScratchOffsetSize
  rw [bind_of_eq hindex, bind_of_eq hoffset, bind_of_eq hwidth]
  exact WordType.mul_eq (show i * 5 * width.toNat < 2 ^ 64 by omega)

/-! ### Stripes -/

/-- Row `y` belongs to the worker's stripe. -/
def UsmWorker.OwnsRow (w : UsmWorker) (y : ℕ) : Prop := w.yStart ≤ y ∧ y < w.yEnd

/-- The stripes of `k` workers: one after the other, every row in exactly one, and
none but a single one below the minimum height. -/
structure Striped (p : UsmPool) (k : ℕ) (minRows : ℤ) : Prop where
  first : (p.workers 0).yStart = 0
  contiguous : ∀ i, i + 1 < k → (p.workers i).yEnd = (p.workers (i + 1)).yStart
  last : (p.workers (k - 1)).yEnd = p.height
  cover : ∀ y, y < p.height ↔ ∃ i < k, (p.workers i).OwnsRow y
  disjoint : ∀ i < k, ∀ j < k, ∀ y, (p.workers i).OwnsRow y → (p.workers j).OwnsRow y → i = j
  tall : k ≠ 1 → ∀ i < k, minRows ≤ ((p.workers i).yEnd : ℤ) - (p.workers i).yStart

/-- The five scratch rows of `k` workers: no byte in two of them, all inside the
block. -/
structure ScratchPacked (p : UsmPool) (k block : ℕ) : Prop where
  inside : ∀ i < k, ∀ r < usmPoolScratchRows, ∀ x < p.width,
    (p.workers i).row r + x ∈ bytes p.scratch block
  apart : ∀ i < k, ∀ j < k, ∀ r < usmPoolScratchRows, ∀ r' < usmPoolScratchRows,
    ∀ x < p.width, ∀ x' < p.width,
      (p.workers i).row r + x = (p.workers j).row r' + x' → i = j ∧ r = r' ∧ x = x'

section Ready

variable {p : UsmPool} {k : ℕ} (hk : 0 < k) (hready : ∀ i < k, SlotReady p k i)
include hk hready

theorem stripes_of_ready {minRows : ℤ} (hmin : 0 ≤ minRows)
    (htall : 1 < k → k * minRows ≤ p.height) : Striped p k minRows where
  first := by
    rw [(hready 0 hk).yStart, Nat.zero_mul, Nat.zero_div]
  contiguous := by
    intro i hi
    rw [(hready i (by omega)).yEnd, (hready (i + 1) hi).yStart]
  last := by
    rw [(hready (k - 1) (by omega)).yEnd, Nat.sub_add_cancel hk, Nat.mul_div_cancel_left _ hk]
  cover := by
    intro y
    rw [(stripeCuts hk p.height).lt_total_iff]
    refine exists_congr fun i => and_congr_right fun hi => ?_
    exact (hready i hi).mem_band hk
  disjoint := by
    intro i hi j hj y hy hy'
    exact (stripeCuts hk p.height).band_unique hi hj (((hready i hi).mem_band hk).mpr hy)
      (((hready j hj).mem_band hk).mpr hy')
  tall := by
    intro hmany i hi
    have hfit : k * minRows.toNat ≤ p.height := by
      have hle := htall (by omega)
      rw [← Int.toNat_of_nonneg hmin] at hle
      exact_mod_cast hle
    have hshare := equal_share_le i hk hfit
    rw [(hready i hi).yStart, (hready i hi).yEnd]
    omega

omit hk in
theorem SlotReady.row_eq {i : ℕ} (hi : i < k) (r : ℕ) :
    (p.workers i).row r = addr p.scratch p.width (usmPoolScratchRows * i + r) 0 := by
  rw [UsmWorker.row, (hready i hi).scratch, (hready i hi).width, addr_addr]

omit hk in
theorem scratch_of_ready {n block : ℕ} (hkn : k ≤ n)
    (hblock : usmPoolScratchRows * p.width * n ≤ block) : ScratchPacked p k block where
  inside := by
    intro i hi r hr x hx
    have hrow : usmPoolScratchRows * i + r + 1 ≤ usmPoolScratchRows * n := by
      unfold usmPoolScratchRows at hr ⊢
      omega
    rw [SlotReady.row_eq hready hi, addr, add_zero, add_assoc]
    refine add_mem_bytes (lt_of_lt_of_le ?_ hblock)
    calc (usmPoolScratchRows * i + r) * p.width + x
        < (usmPoolScratchRows * i + r + 1) * p.width := by
          rw [add_mul _ 1, one_mul]
          omega
      _ ≤ usmPoolScratchRows * n * p.width := Nat.mul_le_mul_right _ hrow
      _ = usmPoolScratchRows * p.width * n := by ring
  apart := by
    intro i hi j hj r hr r' hr' x hx x' hx' heq
    rw [SlotReady.row_eq hready hi, SlotReady.row_eq hready hj] at heq
    have heq' : addr p.scratch p.width (usmPoolScratchRows * i + r) x =
        addr p.scratch p.width (usmPoolScratchRows * j + r') x' := by
      unfold addr at heq ⊢
      omega
    obtain ⟨hrow, hcol⟩ := addr_inj hx hx' heq'
    unfold usmPoolScratchRows at hr hr' hrow
    omega

end Ready

/-! ### Every pool and every start -/

/-- `k` workers with their stripes and scratch rows, as the checked arithmetic
gives them. -/
structure UsmDivided (p : UsmPool) (k : ℕ) (stripeMinRows : ℤ) (block : ℕ) : Prop where
  striped : Striped p k (usmStripeMinimum stripeMinRows)
  packed : ScratchPacked p k block
  bounds : ∀ i : ℕ, i < k → usmStripeBoundsInt i k p.height =
    some (((p.workers i).yStart : ℤ), ((p.workers i).yEnd : ℤ))
  offset : ∀ i : ℕ, i < k → ∃ o, usmScratchOffsetSize i p.width = some o ∧
    (p.workers i).scratch = p.scratch + o

section Divided

variable {nThreads width height stripeMinRows : ℤ} (hn : 1 ≤ nThreads) (hw : 1 ≤ width)
  (hwmax : width ≤ intMax) (hhmax : height ≤ intMax) {p : UsmPool} (hpw : (p.width : ℤ) = width)
  (hph : (p.height : ℤ) = height) {k : ℕ} (hk : 1 ≤ k)
  (hle : (k : ℤ) ≤ usmPoolResolveThreads nThreads height stripeMinRows)
  (hready : ∀ i < k, SlotReady p k i)
include hn hw hwmax hhmax hpw hph hk hle hready

/-- Any number of ready slots up to the resolved count divides the plane, in the
block for the resolved count. -/
theorem usmDivided_of_ready : UsmDivided p k stripeMinRows
    (roundUp 64 (usmPoolScratchRows * width.toNat *
      (usmPoolResolveThreads nThreads height stripeMinRows).toNat)) := by
  obtain ⟨-, h64⟩ := usmPoolResolveThreads_bounds hn height stripeMinRows
  have hwidth : p.width = width.toNat := by omega
  refine ⟨stripes_of_ready hk hready (usmStripeMinimum_pos _).le ?_,
    scratch_of_ready hready (Int.le_toNat (by omega) |>.mpr hle) ?_, ?_, ?_⟩
  · intro hmany
    rw [hph]
    exact usmPoolResolveThreads_mul_le hmany hle
  · rw [hwidth]
    exact le_roundUp (by decide) _
  · intro i hi
    rw [(hready i hi).yStart, (hready i hi).yEnd]
    exact usmStripeBoundsInt_eq hi (by omega) (hph ▸ hhmax)
  · intro i hi
    refine ⟨_, usmScratchOffsetSize_eq (by omega) (Int.natCast_nonneg _) (hpw ▸ hwmax), ?_⟩
    rw [(hready i hi).scratch, addr, Int.toNat_natCast]
    ring

end Divided

theorem usmPoolCreate_eq {nThreads width height stripeMinRows : ℤ} {alloc : Bool} {scratch : ℕ}
    {p : UsmPool} (h : usmPoolCreate nThreads width height stripeMinRows alloc scratch = some p) :
    (p.width : ℤ) = width ∧ (p.height : ℤ) = height ∧
      p.nThreadsPref = usmPoolResolveThreads nThreads height stripeMinRows := by
  unfold usmPoolCreate at h
  split_ifs at h with hargs halloc
  obtain rfl := Option.some.inj h
  exact ⟨Int.toNat_of_nonneg (by omega), Int.toNat_of_nonneg (by omega), rfl⟩

theorem usmReachable_pref {nThreads width height stripeMinRows : ℤ} {p : UsmPool}
    (h : UsmReachable nThreads width height stripeMinRows p) :
    p.nThreadsPref = usmPoolResolveThreads nThreads height stripeMinRows := by
  induction h with
  | create h => exact (usmPoolCreate_eq h).2.2
  | apply hp c o m ih =>
    rw [(usmPoolApply_inv (usmReachable_inv hp).1 c o m).2.pref]
    exact ih

/-- **Stripes and scratch for any number of workers.**  The sizes are computed
without overflow; whichever count up to the resolved one comes up, after any
start, its stripes divide the plane with the promised minimum of rows and its
scratch rows lie apart in the allocated block. -/
theorem usm_stripes_partition (nThreads width height stripeMinRows : ℤ) (hn : 1 ≤ nThreads)
    (hw : 1 ≤ width) (hh : 1 ≤ height) (hwmax : int32.Holds width) (hhmax : int32.Holds height) :
    usmPoolResolveThreadsInt nThreads height stripeMinRows =
        some (usmPoolResolveThreads nThreads height stripeMinRows) ∧
      ∃ block, usmPoolAllocScratchSize (usmPoolResolveThreads nThreads height stripeMinRows)
          width = some (some block) ∧
        (∀ alloc scratch p,
          usmPoolCreate nThreads width height stripeMinRows alloc scratch = some p →
          (∀ ok, usmPoolAllocScratch p ok = ok) ∧
          ∀ k : ℕ, 1 ≤ k → (k : ℤ) ≤ usmPoolResolveThreads nThreads height stripeMinRows →
          ∀ log, (∀ i < k, PoolEvent.construct i true ∈ log) →
            UsmDivided ((log ++ [PoolEvent.finalize k]).foldl usmPoolHook p) k stripeMinRows
              block) ∧
        (∀ p, UsmReachable nThreads width height stripeMinRows p → p.pool.lazyDone = true →
          1 ≤ p.pool.nWorkers ∧
            (p.pool.nWorkers : ℤ) ≤ usmPoolResolveThreads nThreads height stripeMinRows ∧
            UsmDivided p p.pool.nWorkers stripeMinRows block) := by
  have hwle := (int32_holds.mp hwmax).2
  have hhle := (int32_holds.mp hhmax).2
  obtain ⟨hone, h64⟩ := usmPoolResolveThreads_bounds hn height stripeMinRows
  refine ⟨usmPoolResolveThreadsInt_eq (by omega) hhle, _,
    usmPoolAllocScratchSize_eq hone h64 hw hwle, ?_, ?_⟩
  · intro alloc scratch p hp
    obtain ⟨hpw, hph, hpref⟩ := usmPoolCreate_eq hp
    refine ⟨usmPoolAllocScratch_eq (hpref ▸ hone) (hpref ▸ h64) (hpw ▸ hw) (hpw ▸ hwle), ?_⟩
    intro k hk hle log hlog
    have hsame := hooks_samePlane (log ++ [PoolEvent.finalize k]) p
    exact usmDivided_of_ready hn hw hwle hhle (hsame.width ▸ hpw) (hsame.height ▸ hph) hk hle
      fun i hi => hooks_finalized (hlog i hi) hi p
  · intro p hp hdone
    obtain ⟨hinv, hpw, hph⟩ := usmReachable_inv hp
    obtain ⟨-, hk, hpref, hready⟩ := hinv.ready hdone
    rw [usmReachable_pref hp] at hpref
    exact ⟨hk, hpref, usmDivided_of_ready hn hw hwle hhle hpw hph hk hpref hready⟩

/-! ### A partial spawn -/

/-- Four workers wanted for 40 rows. -/
def partialPool : UsmPool := (usmPoolCreate 4 16 40 0 true 4096).get (by decide)

theorem partialPool_eq : usmPoolCreate 4 16 40 0 true 4096 = some partialPool := by
  rw [partialPool, Option.some_get]

/-- The pool after a first frame whose fourth thread does not start. -/
def partialStarted : UsmPool :=
  (usmPoolApply partialPool ⟨some 0, 16, some 0, 16, 128⟩
    ⟨⟨true, true, true, true, fun _ => true, fun i => decide (i < 3), ⟨true, fun _ => true⟩⟩, true,
      ⟨true, fun _ => true⟩⟩ UInt8.ofNat).pool

/-- Three of four workers share the plane, in a block for four. -/
theorem usm_stripes_partition_partial :
    partialStarted.pool.nWorkers = 3 ∧
      usmPoolAllocScratchSize 4 16 = some (some 320) ∧
      UsmDivided partialStarted 3 0 320 ∧
      UsmDivided ([PoolEvent.construct 1 true, .construct 0 true, .finalize 2].foldl usmPoolHook
        partialPool) 2 0 320 := by
  obtain ⟨-, block, hblock, hcreated, hreached⟩ := usm_stripes_partition 4 16 40 0
    (by decide) (by decide) (by decide) (by decide) (by decide)
  have hresolved : usmPoolResolveThreads 4 40 0 = 4 := by decide
  have hsize : usmPoolAllocScratchSize 4 16 = some (some 320) := by decide
  rw [hresolved, hsize] at hblock
  obtain rfl : 320 = block := by simpa using hblock
  have hthree : partialStarted.pool.nWorkers = 3 := by decide
  obtain ⟨-, -, hstarted⟩ := hreached partialStarted (.apply (.create partialPool_eq) _ _ _)
    (by decide)
  rw [hthree] at hstarted
  obtain ⟨-, hdivided⟩ := hcreated true 4096 partialPool partialPool_eq
  exact ⟨hthree, hsize, hstarted, hdivided 2 (by decide) (by decide)
    [.construct 1 true, .construct 0 true] (by decide)⟩

end AutoUpscale
