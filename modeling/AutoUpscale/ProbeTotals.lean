/-
How large the content probe's sums can get.

A squared Laplacian is at most 1020², a difference of pixels at most 255
(`lapTally_meanAtMost`, `edgeTally_meanAtMost`), and a sweep samples each pixel at
most once a metric and direction (`lapTally_count`, `edgeTally_count`).  So the
64-bit sums of sixty frames of at most 32768×32768 are exact (`WindowTotals.exact`),
and their quotients stay below the bounds of one term.
-/
import AutoUpscale.ContentProbe

namespace AutoUpscale

open StridedLoop

/-! ### Tallies with a bounded mean -/

/-- The terms of the tally are at most `b` on average. -/
def MeanAtMost (b : ℕ) (t : ℕ × ℕ) : Prop := t.1 ≤ b * t.2

theorem MeanAtMost.zero (b : ℕ) : MeanAtMost b 0 := Nat.zero_le _

theorem MeanAtMost.add {b : ℕ} {t u : ℕ × ℕ} (ht : MeanAtMost b t) (hu : MeanAtMost b u) :
    MeanAtMost b (t + u) := by
  show t.1 + u.1 ≤ b * (t.2 + u.2)
  rw [mul_add]
  exact add_le_add ht hu

theorem MeanAtMost.sum {b : ℕ} {α : Type*} {s : Finset α} {f : α → ℕ × ℕ}
    (h : ∀ x ∈ s, MeanAtMost b (f x)) : MeanAtMost b (∑ x ∈ s, f x) :=
  Finset.sum_induction f (MeanAtMost b) (fun _ _ => MeanAtMost.add) (.zero b) h

theorem MeanAtMost.list_sum {b : ℕ} {α : Type*} {xs : List α} {f : α → ℕ × ℕ}
    (h : ∀ x, MeanAtMost b (f x)) : MeanAtMost b (xs.map f).sum := by
  induction xs with
  | nil => exact .zero b
  | cons x xs ih =>
    rw [List.map_cons, List.sum_cons]
    exact (h x).add ih

/-- Sums of tallies add the counts. -/
theorem count_sum_le {α : Type*} {s : Finset α} {f : α → ℕ × ℕ} {n k : ℕ}
    (hcard : s.card ≤ n) (h : ∀ x ∈ s, (f x).2 ≤ k) : (∑ x ∈ s, f x).2 ≤ n * k := by
  rw [Prod.snd_sum]
  calc ∑ x ∈ s, (f x).2 ≤ s.card * k := Finset.sum_le_card_nsmul s _ k h
    _ ≤ n * k := Nat.mul_le_mul_right k hcard

theorem count_list_sum_le {α : Type*} {f : α → ℕ × ℕ} {k : ℕ} (h : ∀ x, (f x).2 ≤ k)
    (xs : List α) : (xs.map f).sum.2 ≤ xs.length * k := by
  induction xs with
  | nil => exact Nat.zero_le _
  | cons x xs ih =>
    rw [List.map_cons, List.sum_cons, List.length_cons]
    show (f x).2 + (xs.map f).sum.2 ≤ (xs.length + 1) * k
    have := h x
    linarith

/-- A loop takes no more turns than its interval is long. -/
theorem card_stridedSet_le {start stop step : ℤ} (hs : 0 < step) (hstart : 0 ≤ start) {n : ℕ}
    (hstop : stop ≤ n) : (stridedSet start stop step).card ≤ n := by
  have hturns : (stop - start + step - 1) / step < n + 1 := by
    apply Int.ediv_lt_of_lt_mul hs
    have hn : (n : ℤ) ≤ n * step := le_mul_of_one_le_right (Int.natCast_nonneg n) hs
    have hmul : ((n : ℤ) + 1) * step = n * step + step := by ring
    omega
  calc (stridedSet start stop step).card ≤ (strided start stop step).length :=
        List.toFinset_card_le _
    _ = ((stop - start + step - 1) / step).toNat := by
        unfold strided
        rw [List.length_map, List.length_range]
    _ ≤ n := by omega

/-! ### One frame -/

/-- The largest source dimension the bounds are about. -/
def probeDimMax : ℕ := 32768

/-- The largest squared Laplacian, and the largest difference. -/
def lapMeanMax : ℕ := 1040400
def edgeMeanMax : ℕ := 255

section

variable (px : ℤ → UInt8) (stride : ℤ) {w h : ℤ}

/-- Four times a pixel less four pixels lies within ±1020. -/
theorem lapTerm_meanAtMost (y x : ℤ) : MeanAtMost lapMeanMax (lapTerm px stride y x) := by
  unfold lapTerm
  dsimp only
  set c := px (y * stride + x)
  set up := px (y * stride - stride + x)
  set dn := px (y * stride + stride + x)
  set left := px (y * stride + (x - 1))
  set right := px (y * stride + (x + 1))
  have hc := c.toNat_lt
  have hu := up.toNat_lt
  have hd := dn.toNat_lt
  have hl := left.toNat_lt
  have hr := right.toNat_lt
  generalize hlap : 4 * (c.toNat : ℤ) - (up.toNat + dn.toNat + left.toNat + right.toNat) = lap
  have hlo : -1020 ≤ lap := by omega
  have hhi : lap ≤ 1020 := by omega
  show (lap * lap).toNat ≤ 1040400 * 1
  have hsq : lap * lap ≤ 1040400 := by nlinarith
  omega

theorem diffTerm_meanAtMost (i j : ℤ) : MeanAtMost edgeMeanMax (diffTerm px i j) := by
  have hi := (px i).toNat_lt
  have hj := (px j).toNat_lt
  show (((px i).toNat : ℤ) - (px j).toNat).natAbs ≤ 255 * 1
  omega

theorem lapTally_meanAtMost (w h : ℤ) : MeanAtMost lapMeanMax (lapTally px stride w h) :=
  .sum fun y _ => .sum fun x _ => lapTerm_meanAtMost px stride y x

theorem edgeTally_meanAtMost (w h : ℤ) : MeanAtMost edgeMeanMax (edgeTally px stride w h) := by
  unfold edgeTally
  split
  · exact .zero _
  · exact .add (.sum fun y _ => .sum fun x _ => diffTerm_meanAtMost px _ _)
      (.sum fun y _ => .sum fun x _ => diffTerm_meanAtMost px _ _)

theorem lapTally_count (hw : w ≤ probeDimMax) (hh : h ≤ probeDimMax) :
    (lapTally px stride w h).2 ≤ probeDimMax * (probeDimMax * 1) := by
  refine count_sum_le (card_stridedSet_le probeGridStep_pos (by decide) (by omega)) fun y _ => ?_
  exact count_sum_le (card_stridedSet_le probeGridStep_pos (by decide) (by omega))
    fun _ _ => le_rfl

theorem edgeTally_count (hw : w ≤ probeDimMax) (hh : h ≤ probeDimMax) :
    (edgeTally px stride w h).2
      ≤ probeDimMax * (probeDimMax * 1) + probeDimMax * (probeDimMax * 1) := by
  unfold edgeTally
  split
  · exact Nat.zero_le _
  refine Nat.add_le_add ?_ ?_
  · refine count_sum_le (card_stridedSet_le probeGridStep_pos le_rfl hh) fun y _ => ?_
    exact count_sum_le (card_stridedSet_le probeBlockSize_pos (by decide) hw) fun _ _ => le_rfl
  · refine count_sum_le (card_stridedSet_le probeBlockSize_pos (by decide) hh) fun y _ => ?_
    exact count_sum_le (card_stridedSet_le probeGridStep_pos le_rfl hw) fun _ _ => le_rfl

end

/-! ### Sums that do not wrap -/

/-- Tallies below 2^64 are what the machine holds. -/
theorem Counted.exact {s n : UInt64} {t : ℕ × ℕ} (h : Counted s n t) (hsum : t.1 < 2 ^ 64)
    (hcount : t.2 < 2 ^ 64) : s.toNat = t.1 ∧ n.toNat = t.2 := by
  rw [h.sum_eq, h.n_eq, UInt64.toNat_ofNat', UInt64.toNat_ofNat']
  exact ⟨Nat.mod_eq_of_lt hsum, Nat.mod_eq_of_lt hcount⟩

/-- Two tallies are counted together. -/
theorem Counted.merge {s n s' n' : UInt64} {t t' : ℕ × ℕ} (h : Counted s n t)
    (h' : Counted s' n' t') : Counted (s + s') (n + n') (t + t') := by
  constructor
  · show s + s' = UInt64.ofNat (t.1 + t'.1)
    rw [h.sum_eq, h'.sum_eq, UInt64.ofNat_add]
  · show n + n' = UInt64.ofNat (t.2 + t'.2)
    rw [h.n_eq, h'.n_eq, UInt64.ofNat_add]

/-- The quotient of an exact sum by its count. -/
theorem mean_le {s n : UInt64} {t : ℕ × ℕ} {b : ℕ} (hs : s.toNat = t.1) (hn : n.toNat = t.2)
    (ht : MeanAtMost b t) : (s / n).toNat ≤ b := by
  rw [UInt64.toNat_div, hs, hn]
  exact Nat.div_le_of_le_mul (by rw [mul_comm]; exact ht)

end AutoUpscale
