/-
Axes cut into consecutive bands, and the grids two of them make.

`Cuts n total` cuts `[0, total)` into `n` bands.  A grid of `r` rows by `c`
columns numbers its cells row by row: cell `i` is in row `i / c` and column
`i % c`.

- `Cuts.exists_band`, `Cuts.band_unique`: every position is in one band.
- `equal_share_le`: equal bands are as tall as the average allows.
- `exists_cell`, `cell_unique`: every point of the plane is in one cell.
-/
import Mathlib.Order.Interval.Set.Basic
import Mathlib.Algebra.Order.Ring.Nat

namespace GridPartition

/-- `n` consecutive bands that make up `[0, total)`. -/
structure Cuts (n total : ℕ) where
  cut : ℕ → ℕ
  zero : cut 0 = 0
  last : cut n = total
  mono : ∀ {j k}, j ≤ k → k ≤ n → cut j ≤ cut k

variable {n total : ℕ}

/-- The positions of band `i`. -/
def Cuts.band (a : Cuts n total) (i : ℕ) : Set ℕ := {y | a.cut i ≤ y ∧ y < a.cut (i + 1)}

namespace Cuts

variable (a : Cuts n total)

theorem mem_band {i y : ℕ} : y ∈ a.band i ↔ a.cut i ≤ y ∧ y < a.cut (i + 1) := Iff.rfl

/-- No band ends after the axis. -/
theorem le_total {i : ℕ} (hi : i < n) : a.cut (i + 1) ≤ total :=
  (a.mono hi le_rfl).trans_eq a.last

theorem exists_band {y : ℕ} (hy : y < total) : ∃ i < n, y ∈ a.band i := by
  have hcross : ∀ k, k ≤ n → y < a.cut k → ∃ i < k, y ∈ a.band i := by
    intro k hk hlt
    induction k with
    | zero => rw [a.zero] at hlt; omega
    | succ k ih =>
      rcases lt_or_ge y (a.cut k) with hbelow | habove
      · obtain ⟨i, hi, hband⟩ := ih (by omega) hbelow
        exact ⟨i, by omega, hband⟩
      · exact ⟨k, k.lt_succ_self, habove, hlt⟩
  exact hcross n le_rfl (hy.trans_eq a.last.symm)

theorem band_unique {i j y : ℕ} (hi : i < n) (hj : j < n) (h : y ∈ a.band i)
    (h' : y ∈ a.band j) : i = j := by
  rcases lt_trichotomy i j with hlt | heq | hgt
  · have := a.mono (show i + 1 ≤ j from hlt) hj.le
    have := h.2
    have := h'.1
    omega
  · exact heq
  · have := a.mono (show j + 1 ≤ i from hgt) hi.le
    have := h'.2
    have := h.1
    omega

/-- The positions before the end are those of the bands. -/
theorem lt_total_iff {y : ℕ} : y < total ↔ ∃ i < n, y ∈ a.band i := by
  constructor
  · exact a.exists_band
  · rintro ⟨i, hi, hband⟩
    exact hband.2.trans_le (a.le_total hi)

end Cuts

/-- Equal shares of an axis: where every band could have `m` positions, every band
has. -/
theorem equal_share_le {m : ℕ} (i : ℕ) (hn : 0 < n) (hm : n * m ≤ total) :
    i * total / n + m ≤ (i + 1) * total / n := by
  calc i * total / n + m = (i * total + n * m) / n := (Nat.add_mul_div_left _ _ hn).symm
    _ ≤ (i + 1) * total / n := by
      rw [Nat.succ_mul]
      exact Nat.div_le_div_right (Nat.add_le_add_left hm _)

/-! ### Grids -/

variable {r c h w : ℕ}

theorem index_lt {i : ℕ} (hi : i < r * c) : i / c < r ∧ i % c < c := by
  have hc : 0 < c := Nat.pos_of_ne_zero fun hc => by simp [hc] at hi
  exact ⟨Nat.div_lt_of_lt_mul (by rwa [Nat.mul_comm]), Nat.mod_lt _ hc⟩

/-- Cells with the same row and column are the same cell. -/
theorem index_ext {i j : ℕ} (hrow : i / c = j / c) (hcol : i % c = j % c) : i = j := by
  rw [← Nat.div_add_mod i c, ← Nat.div_add_mod j c, hrow, hcol]

theorem exists_cell (rows : Cuts r h) (cols : Cuts c w) {y x : ℕ} (hy : y < h) (hx : x < w) :
    ∃ i < r * c, y ∈ rows.band (i / c) ∧ x ∈ cols.band (i % c) := by
  obtain ⟨row, hrow, hyband⟩ := rows.exists_band hy
  obtain ⟨col, hcol, hxband⟩ := cols.exists_band hx
  have hc : 0 < c := by omega
  have hdiv : (row * c + col) / c = row := by
    rw [Nat.add_comm, Nat.add_mul_div_right _ _ hc, Nat.div_eq_of_lt hcol, Nat.zero_add]
  have hmod : (row * c + col) % c = col := by
    rw [Nat.add_comm, Nat.add_mul_mod_self_right, Nat.mod_eq_of_lt hcol]
  refine ⟨row * c + col, ?_, by rwa [hdiv], by rwa [hmod]⟩
  calc row * c + col < row * c + c := by omega
    _ = (row + 1) * c := (Nat.succ_mul row c).symm
    _ ≤ r * c := Nat.mul_le_mul_right c hrow

theorem cell_unique (rows : Cuts r h) (cols : Cuts c w) {i j y x : ℕ} (hi : i < r * c)
    (hj : j < r * c) (hy : y ∈ rows.band (i / c)) (hx : x ∈ cols.band (i % c))
    (hy' : y ∈ rows.band (j / c)) (hx' : x ∈ cols.band (j % c)) : i = j := by
  obtain ⟨hir, hic⟩ := index_lt hi
  obtain ⟨hjr, hjc⟩ := index_lt hj
  exact index_ext (rows.band_unique hir hjr hy hy') (cols.band_unique hic hjc hx hx')

end GridPartition
