/-
The insertion sort of an array prefix, and the middle of a sorted list.

`sort` shifts larger elements to the right one by one, as the array loop does.

- `sort_perm`, `sort_sorted`: it sorts.
- `sort_eq_of_perm`: its result depends on the elements only.
- `orderStatistic_getElem`: its positions hold the order statistics, which are
  unique.
- `getElem_eq_of_few`: a position of a sorted list that few elements can miss
  holds the common value.
-/
import Mathlib.Tactic
import Mathlib.Data.List.DropRight
import Mathlib.Data.List.Sort

namespace ArraySort

variable {α : Type*}

section Comparison

variable [LT α] [DecidableLT α]

/-- Insert `v` at the end of `pre`, shifting the larger elements right. -/
def insert (pre : List α) (v : α) : List α :=
  pre.rdropWhile (fun u => decide (v < u)) ++ v :: pre.rtakeWhile (fun u => decide (v < u))

/-- Insertion sort, in the order of the array. -/
def sort (l : List α) : List α := l.foldl insert []

theorem insert_concat_of_lt {pre : List α} {u v : α} (h : v < u) :
    insert (pre ++ [u]) v = insert pre v ++ [u] := by
  unfold insert
  rw [List.rdropWhile_concat, List.rtakeWhile_concat, if_pos (decide_eq_true h),
    if_pos (decide_eq_true h), List.append_assoc]
  rfl

theorem insert_concat_of_not_lt {pre : List α} {u v : α} (h : ¬ v < u) :
    insert (pre ++ [u]) v = pre ++ [u] ++ [v] := by
  unfold insert
  rw [List.rdropWhile_concat, List.rtakeWhile_concat, if_neg (by simpa using h),
    if_neg (by simpa using h)]

theorem sort_concat (l : List α) (v : α) : sort (l ++ [v]) = insert (sort l) v :=
  List.foldl_append ..

theorem insert_perm (pre : List α) (v : α) : (insert pre v).Perm (v :: pre) := by
  have hsplit := List.rdropWhile_append_rtakeWhile (p := fun u => decide (v < u)) (l := pre)
  have hmid : (insert pre v).Perm (v :: (pre.rdropWhile (fun u => decide (v < u)) ++
      pre.rtakeWhile (fun u => decide (v < u)))) := List.perm_middle
  rwa [hsplit] at hmid

/-- The loop over the elements still to insert. -/
theorem foldl_insert_perm (todo pre : List α) : (todo.foldl insert pre).Perm (todo ++ pre) := by
  induction todo generalizing pre with
  | nil => exact .refl _
  | cons v rest ih =>
    exact ((ih (insert pre v)).trans ((insert_perm pre v).append_left rest)).trans List.perm_middle

theorem sort_perm (l : List α) : (sort l).Perm l := by
  have hperm := foldl_insert_perm l []
  rwa [List.append_nil] at hperm

@[simp] theorem length_sort (l : List α) : (sort l).length = l.length := (sort_perm l).length_eq

end Comparison

variable [LinearOrder α]

/-- Nothing left of the insertion point is larger than `v`: its last element is
not, and the prefix is sorted. -/
theorem le_of_mem_rdropWhile {pre : List α} {v u : α} (hpre : pre.Pairwise (· ≤ ·))
    (hu : u ∈ pre.rdropWhile (fun u => decide (v < u))) : u ≤ v := by
  have hne := List.ne_nil_of_mem hu
  have hlast : (pre.rdropWhile (fun u => decide (v < u))).getLast hne ≤ v := by
    have hnot := List.rdropWhile_last_not (fun u => decide (v < u)) pre hne
    simpa using hnot
  have hkept := hpre.sublist (List.rdropWhile_prefix (fun u => decide (v < u)) (l := pre)).sublist
  rw [← List.dropLast_append_getLast hne] at hu hkept
  obtain hinit | hend := List.mem_append.mp hu
  · exact ((List.pairwise_append.mp hkept).2.2 u hinit _ (List.mem_singleton_self _)).trans hlast
  · rw [List.mem_singleton.mp hend]
    exact hlast

theorem insert_sorted {pre : List α} (hpre : pre.Pairwise (· ≤ ·)) (v : α) :
    (insert pre v).Pairwise (· ≤ ·) := by
  have hright : ∀ u ∈ pre.rtakeWhile (fun u => decide (v < u)), v ≤ u := by
    intro u hu
    have hlt : v < u := by simpa using List.mem_rtakeWhile_imp hu
    exact hlt.le
  have hkept := hpre.sublist (List.rdropWhile_prefix (fun u => decide (v < u)) (l := pre)).sublist
  have hshifted := hpre.sublist
    (List.rtakeWhile_suffix (fun u => decide (v < u)) (l := pre)).sublist
  refine List.pairwise_append.mpr ⟨hkept, List.pairwise_cons.mpr ⟨hright, hshifted⟩, ?_⟩
  intro a ha b hb
  have hav := le_of_mem_rdropWhile hpre ha
  obtain rfl | hb := List.mem_cons.mp hb
  · exact hav
  · exact hav.trans (hright b hb)

theorem foldl_insert_sorted (todo : List α) {pre : List α} (hpre : pre.Pairwise (· ≤ ·)) :
    (todo.foldl insert pre).Pairwise (· ≤ ·) := by
  induction todo generalizing pre with
  | nil => exact hpre
  | cons v rest ih => exact ih (insert_sorted hpre v)

theorem sort_sorted (l : List α) : (sort l).Pairwise (· ≤ ·) := foldl_insert_sorted l .nil

/-- Sorting forgets the order of the samples. -/
theorem sort_eq_of_perm {l l' : List α} (h : l.Perm l') : sort l = sort l' :=
  List.Perm.eq_of_pairwise' (sort_sorted l) (sort_sorted l')
    ((sort_perm l).trans (h.trans (sort_perm l').symm))

/-- Positions of a sorted list are in order. -/
theorem getElem_mono {l : List α} (hl : l.Pairwise (· ≤ ·)) {j k : ℕ} (hk : k < l.length)
    (hjk : j ≤ k) : l[j] ≤ l[k] := by
  obtain rfl | hlt := hjk.eq_or_lt
  · exact le_rfl
  · exact List.pairwise_iff_getElem.mp hl j k (hlt.trans hk) hk hlt

/-- Where fewer elements differ from `c` than stand at or after a position, and
no more than stand before it, that position holds `c`. -/
theorem getElem_eq_of_few {l : List α} {c : α} {i : ℕ} (hl : l.Pairwise (· ≤ ·))
    (hi : i < l.length) (hlow : l.countP (fun u => decide (u ≠ c)) ≤ i)
    (hhigh : l.countP (fun u => decide (u ≠ c)) < l.length - i) : l[i] = c := by
  rcases lt_trichotomy l[i] c with hlt | heq | hgt
  · -- the whole prefix up to `i` lies below `c`
    have hall : (l.take (i + 1)).countP (fun u => decide (u ≠ c)) = (l.take (i + 1)).length := by
      rw [List.countP_eq_length]
      intro u hu
      obtain ⟨j, hj, rfl⟩ := List.mem_take_iff_getElem.mp hu
      have hle := getElem_mono hl hi (show j ≤ i by omega)
      exact decide_eq_true (hle.trans_lt hlt).ne
    have hsub := (List.take_sublist (i + 1) l).countP_le (p := fun u => decide (u ≠ c))
    rw [hall, List.length_take] at hsub
    omega
  · exact heq
  · -- the whole suffix from `i` on lies above `c`
    have hall : (l.drop i).countP (fun u => decide (u ≠ c)) = (l.drop i).length := by
      rw [List.countP_eq_length]
      intro u hu
      obtain ⟨j, hj, rfl⟩ := List.mem_drop_iff_getElem.mp hu
      have hle := getElem_mono hl (show i + j < l.length by omega) (show i ≤ i + j by omega)
      exact decide_eq_true (hgt.trans_le hle).ne'
    have hsub := (List.drop_sublist i l).countP_le (p := fun u => decide (u ≠ c))
    rw [hall, List.length_drop] at hsub
    omega

/-! ### Order statistics -/

/-- `x` is the `k`-th smallest element of `s`, counted from 0: no more than `k`
elements lie below it, and more than `k` do not lie above it. -/
structure OrderStatistic (s : Multiset α) (k : ℕ) (x : α) : Prop where
  below : s.countP (· < x) ≤ k
  reached : k < s.countP (· ≤ x)

/-- There is only one such value. -/
theorem OrderStatistic.unique {s : Multiset α} {k : ℕ} {x y : α} (hx : OrderStatistic s k x)
    (hy : OrderStatistic s k y) : x = y := by
  have hnot : ∀ {a b : α}, OrderStatistic s k a → OrderStatistic s k b → ¬ a < b := by
    intro a b ha hb hlt
    have hle : s.countP (· ≤ a) ≤ s.countP (· < b) := by
      rw [Multiset.countP_eq_card_filter, Multiset.countP_eq_card_filter]
      exact Multiset.card_le_card (Multiset.monotone_filter_right s fun u hu => hu.trans_lt hlt)
    have := ha.reached
    have := hb.below
    omega
  exact le_antisymm (not_lt.mp (hnot hy hx)) (not_lt.mp (hnot hx hy))

/-- **A position of a sorted list holds its order statistic.** -/
theorem orderStatistic_getElem {l : List α} (hl : l.Pairwise (· ≤ ·)) {i : ℕ}
    (hi : i < l.length) : OrderStatistic (l : Multiset α) i l[i] where
  below := by
    rw [Multiset.coe_countP]
    -- nothing from position `i` on lies below
    have hnone : (l.drop i).countP (fun u => decide (u < l[i])) = 0 := by
      rw [List.countP_eq_zero]
      intro u hu
      obtain ⟨j, hj, rfl⟩ := List.mem_drop_iff_getElem.mp hu
      have hle := getElem_mono hl (show i + j < l.length by omega) (show i ≤ i + j by omega)
      simpa using hle
    have hfew := List.countP_le_length (p := fun u => decide (u < l[i])) (l := l.take i)
    rw [List.length_take] at hfew
    calc l.countP (fun u => decide (u < l[i]))
        = (l.take i ++ l.drop i).countP (fun u => decide (u < l[i])) := by
          rw [List.take_append_drop]
      _ = (l.take i).countP (fun u => decide (u < l[i])) := by
          rw [List.countP_append, hnone, add_zero]
      _ ≤ i := by omega
  reached := by
    rw [Multiset.coe_countP]
    -- everything up to position `i` counts
    have hall : (l.take (i + 1)).countP (fun u => decide (u ≤ l[i])) =
        (l.take (i + 1)).length := by
      rw [List.countP_eq_length]
      intro u hu
      obtain ⟨j, hj, rfl⟩ := List.mem_take_iff_getElem.mp hu
      exact decide_eq_true (getElem_mono hl hi (show j ≤ i by omega))
    have hsub := (List.take_sublist (i + 1) l).countP_le (p := fun u => decide (u ≤ l[i]))
    rw [hall, List.length_take] at hsub
    omega

end ArraySort
