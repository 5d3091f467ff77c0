/-
Insertion sort in place, on a prefix of an array.

An array is a function on indices, and `cells a n` lists its first `n` cells.
`sortPrefix` is the double loop that moves larger cells right and puts the saved
value in the gap; it does to the array what `ArraySort.sort` does to the list.

- `insertAt_cells`, `insertAt_frame`: the inner loop inserts one cell into the
  prefix before it, and writes nothing beyond.
- `sortPrefix_cells`, `sortPrefix_frame`: the whole sort, and its frame.
-/
import AutoUpscale.ArraySort

namespace InPlaceSort

variable {α : Type*}

/-- The first `n` cells. -/
def cells (a : ℕ → α) (n : ℕ) : List α := (List.range n).map a

@[simp] theorem length_cells (a : ℕ → α) (n : ℕ) : (cells a n).length = n := by simp [cells]

theorem cells_succ (a : ℕ → α) (n : ℕ) : cells a (n + 1) = cells a n ++ [a n] := by
  unfold cells
  rw [List.range_succ, List.map_append, List.map_singleton]

theorem getD_cells (a : ℕ → α) {n i : ℕ} (hi : i < n) (d : α) : (cells a n).getD i d = a i := by
  unfold cells
  rw [List.getD_eq_getElem?_getD, List.getElem?_map, List.getElem?_range hi]
  rfl

/-- The prefix is a matter of its own cells only. -/
theorem cells_congr {a b : ℕ → α} {n : ℕ} (h : ∀ i < n, a i = b i) : cells a n = cells b n :=
  List.map_congr_left fun i hi => h i (List.mem_range.mp hi)

/-- A write at the end of the prefix appends to it. -/
theorem cells_update (a : ℕ → α) (n : ℕ) (v : α) :
    cells (Function.update a n v) (n + 1) = cells a n ++ [v] := by
  rw [cells_succ, Function.update_self]
  rw [cells_congr fun i hi => Function.update_of_ne hi.ne v a]

variable [LT α] [DecidableLT α]

/-- The inner loop: from position `j` down, cells larger than `value` move one
to the right.  The result is the array and the position of the gap. -/
def shiftRight (value : α) : ℕ → (ℕ → α) → (ℕ → α) × ℕ
  | 0, a => (a, 0)
  | j + 1, a =>
    if value < a j then shiftRight value j (Function.update a (j + 1) (a j)) else (a, j + 1)

/-- The inner loop and the write into the gap. -/
def insertFrom (value : α) (j : ℕ) (a : ℕ → α) : ℕ → α :=
  let shifted := shiftRight value j a
  Function.update shifted.1 shifted.2 value

/-- Insert the cell `i` into the prefix before it. -/
def insertAt (a : ℕ → α) (i : ℕ) : ℕ → α := insertFrom (a i) i a

/-- Insertion sort of the first `count` cells. -/
def sortPrefix (a : ℕ → α) (count : ℕ) : ℕ → α :=
  (List.range' 1 (count - 1)).foldl insertAt a

theorem insertFrom_shift {value : α} {a : ℕ → α} {j : ℕ} (h : value < a j) :
    insertFrom value (j + 1) a = insertFrom value j (Function.update a (j + 1) (a j)) := by
  unfold insertFrom
  rw [show shiftRight value (j + 1) a = _ from if_pos h]

theorem insertFrom_stop {value : α} {a : ℕ → α} {j : ℕ} (h : ¬ value < a j) :
    insertFrom value (j + 1) a = Function.update a (j + 1) value := by
  unfold insertFrom
  rw [show shiftRight value (j + 1) a = _ from if_neg h]

/-- Nothing right of the starting position is written. -/
theorem insertFrom_frame (value : α) (j : ℕ) (a : ℕ → α) {i : ℕ} (hi : j < i) :
    insertFrom value j a i = a i := by
  induction j generalizing a with
  | zero => exact Function.update_of_ne hi.ne' value a
  | succ j ih =>
    by_cases h : value < a j
    · rw [insertFrom_shift h, ih _ (by omega)]
      exact Function.update_of_ne hi.ne' _ a
    · rw [insertFrom_stop h]
      exact Function.update_of_ne hi.ne' value a

/-- The inner loop inserts `value` into the prefix before the position, as the
list insertion does from the right. -/
theorem insertFrom_cells (value : α) (j : ℕ) (a : ℕ → α) :
    cells (insertFrom value j a) (j + 1) = ArraySort.insert (cells a j) value := by
  induction j generalizing a with
  | zero => rw [show insertFrom value 0 a = Function.update a 0 value from rfl, cells_update]; rfl
  | succ j ih =>
    by_cases h : value < a j
    · -- the last cell of the prefix moves into the position
      have hkept : cells (Function.update a (j + 1) (a j)) j = cells a j :=
        cells_congr fun i hi => Function.update_of_ne (by omega) _ a
      have hlast : insertFrom value (j + 1) a (j + 1) = a j := by
        rw [insertFrom_shift h, insertFrom_frame _ _ _ (Nat.lt_succ_self j)]
        exact Function.update_self _ _ a
      rw [cells_succ, hlast, insertFrom_shift h, ih, hkept, cells_succ]
      rw [ArraySort.insert_concat_of_lt h]
    · rw [insertFrom_stop h, cells_update, cells_succ, ArraySort.insert_concat_of_not_lt h]

theorem insertAt_frame (a : ℕ → α) {i k : ℕ} (hk : i < k) : insertAt a i k = a k :=
  insertFrom_frame (a i) i a hk

theorem insertAt_cells (a : ℕ → α) (i : ℕ) :
    cells (insertAt a i) (i + 1) = ArraySort.insert (cells a i) (a i) :=
  insertFrom_cells (a i) i a

/-- The outer loop after the insertions of cells `1` to `m`: the prefix up to `m`
is sorted, and the cells beyond are as before. -/
theorem foldl_insertAt (a : ℕ → α) (m : ℕ) :
    cells ((List.range' 1 m).foldl insertAt a) (m + 1) = ArraySort.sort (cells a (m + 1)) ∧
      ∀ k, m < k → (List.range' 1 m).foldl insertAt a k = a k := by
  induction m with
  | zero => exact ⟨rfl, fun k _ => rfl⟩
  | succ m ih =>
    obtain ⟨hsorted, hframe⟩ := ih
    have hnext : (List.range' 1 (m + 1)).foldl insertAt a =
        insertAt ((List.range' 1 m).foldl insertAt a) (m + 1) := by
      rw [List.range'_1_concat, List.foldl_append, Nat.add_comm 1 m]
      rfl
    rw [hnext]
    constructor
    · rw [insertAt_cells, hsorted, hframe _ (Nat.lt_succ_self m), cells_succ a (m + 1),
        ArraySort.sort_concat]
    · intro k hk
      rw [insertAt_frame _ hk, hframe k (by omega)]

/-- **The prefix is sorted in place**, in the same steps as the list. -/
theorem sortPrefix_cells (a : ℕ → α) (n : ℕ) :
    cells (sortPrefix a n) n = ArraySort.sort (cells a n) := by
  cases n with
  | zero => rfl
  | succ m => exact (foldl_insertAt a m).1

/-- No cell after the prefix is written. -/
theorem sortPrefix_frame (a : ℕ → α) {n k : ℕ} (hk : n ≤ k) : sortPrefix a n k = a k := by
  cases n with
  | zero => rfl
  | succ m => exact (foldl_insertAt a m).2 k hk

end InPlaceSort
