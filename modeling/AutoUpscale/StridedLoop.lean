/-
Loops with a stride that accumulate what they read.

`Reads ι α` is a value with the places read to compute it.  `strided a b s` are
the values of `for (x = a; x < b; x += s)` (`strided_step`, `strided_stop`).

- `forEach_sum`: an accumulator to which every turn adds its term holds the sum;
- `forEach_reads`: what a loop reads, one of its turns reads;
- `forEach_strided`: with a stride, the sum is one over the set `stridedSet`, where
  loops with different starts and strides can be compared (`mem_stridedSet`).
-/
import Mathlib.Algebra.BigOperators.Group.Finset.Basic
import Mathlib.Tactic

namespace StridedLoop

universe u

/-! ### Values with their reads -/

/-- A value and the places read to compute it, in order. -/
structure Reads (ι α : Type*) where
  val : α
  reads : List ι

variable {ι κ : Type*} {α β σ : Type u}

instance : Monad (Reads ι) where
  pure a := ⟨a, []⟩
  bind x f := ⟨(f x.val).val, x.reads ++ (f x.val).reads⟩

namespace Reads

@[simp] theorem pure_val (a : α) : (pure a : Reads ι α).val = a := rfl

@[simp] theorem pure_reads (a : α) : (pure a : Reads ι α).reads = [] := rfl

@[simp] theorem bind_val (x : Reads ι α) (f : α → Reads ι β) :
    (x >>= f).val = (f x.val).val := rfl

@[simp] theorem bind_reads (x : Reads ι α) (f : α → Reads ι β) :
    (x >>= f).reads = x.reads ++ (f x.val).reads := rfl

end Reads

/-- The value at place `i` of `mem`. -/
def load (mem : ι → α) (i : ι) : Reads ι α := ⟨mem i, [i]⟩

@[simp] theorem load_val (mem : ι → α) (i : ι) : (load mem i).val = mem i := rfl

@[simp] theorem load_reads (mem : ι → α) (i : ι) : (load mem i).reads = [i] := rfl

/-! ### Loops -/

/-- The turns of a loop over `xs`, one after the other on the state. -/
def forEach (body : κ → σ → Reads ι σ) : List κ → σ → Reads ι σ
  | [], s => pure s
  | x :: xs, s => do
    let s ← body x s
    forEach body xs s

/-- When every turn adds its term to what the state stands for, the loop adds
the sum of them. -/
theorem forEach_sum {M : Type*} [AddCommMonoid M] {R : σ → M → Prop} {f : κ → M}
    {body : κ → σ → Reads ι σ} :
    ∀ {xs : List κ} {s : σ} {m : M},
      (∀ x ∈ xs, ∀ s m, R s m → R (body x s).val (m + f x)) →
        R s m → R (forEach body xs s).val (m + (xs.map f).sum) := by
  intro xs
  induction xs with
  | nil =>
    intro s m _ hs
    show R s (m + 0)
    rwa [add_zero]
  | cons x xs ih =>
    intro s m hstep hs
    have hx : R (body x s).val (m + f x) := hstep x List.mem_cons_self s m hs
    have hrest := ih (fun y hy => hstep y (List.mem_cons_of_mem x hy)) hx
    rwa [add_assoc, ← List.sum_cons, ← List.map_cons] at hrest

/-- What a loop reads, one of its turns reads. -/
theorem forEach_reads {body : κ → σ → Reads ι σ} {i : ι} :
    ∀ {xs : List κ} {s : σ}, i ∈ (forEach body xs s).reads →
      ∃ x ∈ xs, ∃ s', i ∈ (body x s').reads := by
  intro xs
  induction xs with
  | nil =>
    intro s hi
    exact absurd hi List.not_mem_nil
  | cons x xs ih =>
    intro s hi
    rcases List.mem_append.mp hi with hx | hxs
    · exact ⟨x, List.mem_cons_self, s, hx⟩
    · obtain ⟨y, hy, s', hs'⟩ := ih hxs
      exact ⟨y, List.mem_cons_of_mem x hy, s', hs'⟩

/-! ### Strides -/

/-- The values of `for (x = start; x < stop; x += step)`. -/
def strided (start stop step : ℤ) : List ℤ :=
  (List.range ((stop - start + step - 1) / step).toNat).map fun k : ℕ => start + step * k

section

variable {start stop step x : ℤ}

/-- The test fails. -/
theorem strided_stop (hs : 0 < step) (h : stop ≤ start) : strided start stop step = [] := by
  have hneg : (stop - start + step - 1) / step < 1 := Int.ediv_lt_of_lt_mul hs (by omega)
  unfold strided
  rw [Int.toNat_of_nonpos (by omega)]
  rfl

/-- The test holds: this value, then the loop from the next one. -/
theorem strided_step (hs : 0 < step) (h : start < stop) :
    strided start stop step = start :: strided (start + step) stop step := by
  have hturns : (stop - start + step - 1) / step = (stop - (start + step) + step - 1) / step + 1 := by
    rw [← Int.add_mul_ediv_right _ 1 hs.ne']
    congr 1
    ring
  have hpos : 0 ≤ (stop - (start + step) + step - 1) / step :=
    Int.ediv_nonneg (by omega) hs.le
  unfold strided
  rw [hturns, Int.toNat_add hpos (by omega), show (1 : ℤ).toNat = 1 from rfl,
    List.range_succ_eq_map, List.map_cons, List.map_map]
  congr 1
  · show start + step * 0 = start
    ring
  · apply List.map_congr_left
    intro k _
    show start + step * ((k + 1 : ℕ) : ℤ) = start + step + step * k
    push_cast
    ring

/-- The loop's turns: what holds of no turn once the test fails, and of one more
turn while it holds, holds of the values of the loop. -/
theorem strided_induction {P : ℤ → List ℤ → Prop} (hs : 0 < step)
    (stops : ∀ start, stop ≤ start → P start [])
    (turns : ∀ start, start < stop → P (start + step) (strided (start + step) stop step) →
      P start (start :: strided (start + step) stop step)) (start : ℤ) :
    P start (strided start stop step) := by
  -- on the distance to the bound
  induction hn : (stop - start).toNat using Nat.strong_induction_on generalizing start with
  | _ n ih =>
    by_cases h : start < stop
    · rw [strided_step hs h]
      exact turns start h (ih _ (by omega) _ rfl)
    · rw [strided_stop hs (by omega)]
      exact stops start (by omega)

theorem mem_strided (hs : 0 < step) :
    x ∈ strided start stop step ↔ start ≤ x ∧ x < stop ∧ step ∣ x - start := by
  refine strided_induction (P := fun start turns =>
    x ∈ turns ↔ start ≤ x ∧ x < stop ∧ step ∣ x - start) hs ?_ ?_ start
  · intro start h
    constructor
    · intro hx
      cases hx
    · rintro ⟨hlo, hhi, -⟩
      omega
  · intro start h ih
    have hshift : step ∣ x - (start + step) ↔ step ∣ x - start := by
      rw [show x - (start + step) = x - start - step by ring]
      exact dvd_sub_self_right
    rw [List.mem_cons, ih, hshift]
    constructor
    · rintro (rfl | ⟨hlo, hhi, hdvd⟩)
      · exact ⟨le_rfl, h, by rw [sub_self]; exact dvd_zero step⟩
      · exact ⟨by omega, hhi, hdvd⟩
    · rintro ⟨hlo, hhi, hdvd⟩
      rcases hlo.eq_or_lt with heq | hlt
      · exact .inl heq.symm
      · have := Int.le_of_dvd (by omega) hdvd
        exact .inr ⟨by omega, hhi, hdvd⟩

theorem strided_nodup (hs : 0 < step) : (strided start stop step).Nodup := by
  refine strided_induction (P := fun _ turns => turns.Nodup) hs ?_ ?_ start
  · intro _ _
    exact List.nodup_nil
  · intro start _ ih
    refine List.nodup_cons.mpr ⟨?_, ih⟩
    intro hmem
    have := ((mem_strided hs).mp hmem).1
    omega

/-- The values of the loop as a set. -/
def stridedSet (start stop step : ℤ) : Finset ℤ := (strided start stop step).toFinset

theorem mem_stridedSet (hs : 0 < step) : x ∈ stridedSet start stop step ↔
    start ≤ x ∧ x < stop ∧ step ∣ x - start := by
  unfold stridedSet
  rw [List.mem_toFinset, mem_strided hs]

/-- `forEach_sum` for a loop with a stride. -/
theorem forEach_strided {M : Type*} [AddCommMonoid M] {R : σ → M → Prop} {f : ℤ → M}
    {body : ℤ → σ → Reads ι σ} {s : σ} {m : M} (hs : 0 < step)
    (hstep : ∀ x s m, start ≤ x ∧ x < stop ∧ step ∣ x - start →
      R s m → R (body x s).val (m + f x)) (hinit : R s m) :
    R (forEach body (strided start stop step) s).val
      (m + ∑ x ∈ stridedSet start stop step, f x) := by
  have hsum : ∑ x ∈ stridedSet start stop step, f x
      = ((strided start stop step).map f).sum := List.sum_toFinset f (strided_nodup hs)
  rw [hsum]
  exact forEach_sum (fun x hx s m => hstep x s m ((mem_strided hs).mp hx)) hinit

/-- `forEach_reads` for a loop with a stride. -/
theorem forEach_strided_reads {body : ℤ → σ → Reads ι σ} {s : σ} {i : ι} (hs : 0 < step)
    (hi : i ∈ (forEach body (strided start stop step) s).reads) :
    ∃ x, (start ≤ x ∧ x < stop ∧ step ∣ x - start) ∧ ∃ s', i ∈ (body x s').reads := by
  obtain ⟨x, hx, hbody⟩ := forEach_reads hi
  exact ⟨x, (mem_strided hs).mp hx, hbody⟩

end

end StridedLoop
