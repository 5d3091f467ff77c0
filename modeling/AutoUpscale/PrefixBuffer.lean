/-
A buffer that keeps the first few of what it is offered.

`Buffer` is a count and an array of which the first `count` places are in use;
`push` drops what comes once the buffer is full.

- `Buffer.Holds.push`: whatever was offered, the buffer holds a prefix of it, as
  long as its capacity allows.
- `Buffer.items_strictMono`: offered in ascending order, its items ascend.
-/
import Mathlib.Tactic

namespace PrefixBuffer

variable {α : Type*} {cap : ℕ}

structure Buffer (α : Type*) where
  count : ℕ
  items : ℕ → α

namespace Buffer

/-- One more item, while there is room. -/
def push (cap : ℕ) (b : Buffer α) (x : α) : Buffer α :=
  if b.count < cap then ⟨b.count + 1, Function.update b.items b.count x⟩ else b

/-- The items in use. -/
def toList (b : Buffer α) : List α := (List.range b.count).map b.items

theorem length_toList (b : Buffer α) : b.toList.length = b.count := by
  unfold toList
  rw [List.length_map, List.length_range]

/-- The buffer holds the first `cap` of `xs`. -/
def Holds (cap : ℕ) (b : Buffer α) (xs : List α) : Prop := b.toList = xs.take cap

theorem Holds.count_eq {b : Buffer α} {xs : List α} (h : b.Holds cap xs) :
    b.count = min cap xs.length := by
  rw [← length_toList, h, List.length_take]

theorem toList_push_of_lt {b : Buffer α} (hlt : b.count < cap) (x : α) :
    (b.push cap x).toList = b.toList ++ [x] := by
  unfold push toList
  rw [if_pos hlt, List.range_succ, List.map_append, List.map_singleton]
  congr 1
  · apply List.map_congr_left
    intro k hk
    exact Function.update_of_ne (List.mem_range.mp hk).ne _ _
  · exact congrArg (fun y => [y]) (Function.update_self b.count x b.items)

theorem Holds.push {b : Buffer α} {xs : List α} (h : b.Holds cap xs) (x : α) :
    (b.push cap x).Holds cap (xs ++ [x]) := by
  have hcount := h.count_eq
  by_cases hlt : b.count < cap
  · have hxs : xs.length < cap := by omega
    show (b.push cap x).toList = _
    rw [toList_push_of_lt hlt, h, List.take_of_length_le hxs.le, List.take_of_length_le]
    rw [List.length_append, List.length_singleton]
    exact hxs
  · -- full: what is already there is the whole prefix
    have hxs : cap ≤ xs.length := by omega
    show (b.push cap x).toList = _
    unfold Buffer.push
    rw [if_neg hlt, h, List.take_append_of_le_length hxs]

theorem Holds.item {b : Buffer α} {xs : List α} (h : b.Holds cap xs) {k : ℕ} (hk : k < b.count) :
    xs[k]? = some (b.items k) := by
  have hcap : k < cap := by
    have := h.count_eq
    omega
  have hget : b.toList[k]? = some (b.items k) := by
    unfold toList
    rw [List.getElem?_map, List.getElem?_range hk, Option.map_some]
  rwa [h, List.getElem?_take_of_lt hcap] at hget

theorem items_strictMono [Preorder α] {b : Buffer α} {xs : List α} (h : b.Holds cap xs)
    (hxs : xs.Pairwise (· < ·)) {j k : ℕ} (hjk : j < k) (hk : k < b.count) :
    b.items j < b.items k := by
  have hj := h.item (hjk.trans hk)
  have hk := h.item hk
  obtain ⟨hjl, hj⟩ := List.getElem?_eq_some_iff.mp hj
  obtain ⟨hkl, hk⟩ := List.getElem?_eq_some_iff.mp hk
  rw [← hj, ← hk]
  exact List.pairwise_iff_getElem.mp hxs j k hjl hkl hjk

end Buffer

end PrefixBuffer
