/-
Threads that share one memory but not the parts of it they write.

A thread is a list of atomic actions; `Interleaving run progs m m'` says that
the threads `progs`, all run to their ends in some order of their actions, take
the memory `m` to `m'`.  An action is `Confined` to the addresses it reads and
writes.

- `Interleaving.eq_solo`: when no thread writes what another one touches, every
  thread leaves in its own addresses what it would have left there alone.
- `Interleaving.frame`: what no thread writes stays as it was.
- `exists_interleaving`: finitely many threads can always be run.
- `Partway`: threads that were stopped on the way; `Partway.complete` compares
  them with a run to the end.
-/
import Mathlib.Data.Set.Function
import Mathlib.Order.BourbakiWitt
import Mathlib.Order.CompletePartialOrder
import Mathlib.Data.Fintype.BigOperators
import Mathlib.Tactic.Ring

namespace DisjointParallel

variable {ι A V Act : Type*}

/-! ### Footprints -/

/-- `f` changes the memory in `writes` only, in a way that depends on the
addresses in `reads` and `writes` only. -/
structure Confined (f : (A → V) → A → V) (reads writes : Set A) : Prop where
  frame : ∀ m a, a ∉ writes → f m a = m a
  agree : ∀ {m m'}, Set.EqOn m m' (reads ∪ writes) → Set.EqOn (f m) (f m') writes

namespace Confined

variable {f : (A → V) → A → V} {reads writes reads' writes' : Set A}

/-- Memories that agree on the footprint still do afterwards. -/
theorem eqOn (h : Confined f reads writes) {m m' : A → V}
    (hm : Set.EqOn m m' (reads ∪ writes)) : Set.EqOn (f m) (f m') (reads ∪ writes) := by
  intro a ha
  by_cases hw : a ∈ writes
  · exact h.agree hm hw
  · rw [h.frame m a hw, h.frame m' a hw]
    exact hm ha

theorem mono (h : Confined f reads writes) (hr : reads ⊆ reads') (hw : writes ⊆ writes') :
    Confined f reads' writes' := by
  refine ⟨fun m a ha => h.frame m a fun hmem => ha (hw hmem), fun hm a ha => ?_⟩
  by_cases hmem : a ∈ writes
  · exact h.agree (hm.mono (Set.union_subset_union hr hw)) hmem
  · rw [h.frame _ a hmem, h.frame _ a hmem]
    exact hm (Or.inr ha)

end Confined

/-! ### One thread -/

/-- The actions of one thread, with nobody else running. -/
def solo (run : Act → (A → V) → A → V) (prog : List Act) (m : A → V) : A → V :=
  prog.foldl (fun m a => run a m) m

variable {run : Act → (A → V) → A → V}

@[simp] theorem solo_nil (m : A → V) : solo run [] m = m := rfl

@[simp] theorem solo_cons (a : Act) (prog : List Act) (m : A → V) :
    solo run (a :: prog) m = solo run prog (run a m) := rfl

theorem solo_append (prog prog' : List Act) (m : A → V) :
    solo run (prog ++ prog') m = solo run prog' (solo run prog m) :=
  List.foldl_append

/-- What no action of the thread writes stays as it was. -/
theorem solo_frame {prog : List Act} {a : A}
    (h : ∀ act ∈ prog, ∀ m, run act m a = m a) (m : A → V) : solo run prog m a = m a := by
  induction prog generalizing m with
  | nil => rfl
  | cons act prog ih =>
    rw [solo_cons, ih fun b hb => h b (List.mem_cons_of_mem _ hb)]
    exact h act (by simp) m

/-- A thread whose actions keep `P` ends with `v` in `a`, when under `P` every
action that touches `a` puts `v` there and one of them does. -/
theorem solo_settles {prog : List Act} {P : (A → V) → Prop} (touches : Act → Prop) {a : A}
    {v : V} (hkeep : ∀ act ∈ prog, ∀ m, P m → P (run act m))
    (hput : ∀ act ∈ prog, ∀ m, P m → touches act → run act m a = v)
    (hleave : ∀ act ∈ prog, ∀ m, ¬touches act → run act m a = m a)
    (hsome : ∃ act ∈ prog, touches act) {m : A → V} (h : P m) : solo run prog m a = v := by
  induction prog generalizing m with
  | nil => obtain ⟨act, hmem, -⟩ := hsome; cases hmem
  | cons act prog ih =>
    rw [solo_cons]
    have hP := hkeep act (by simp) m h
    by_cases hrest : ∃ b ∈ prog, touches b
    · exact ih (fun b hb => hkeep b (List.mem_cons_of_mem _ hb))
        (fun b hb => hput b (List.mem_cons_of_mem _ hb))
        (fun b hb => hleave b (List.mem_cons_of_mem _ hb)) hrest hP
    · -- this is the last action that touches `a`
      have hact : touches act := by
        obtain ⟨b, hb, htouch⟩ := hsome
        rcases List.mem_cons.mp hb with rfl | hb
        · exact htouch
        · exact absurd ⟨b, hb, htouch⟩ hrest
      rw [solo_frame fun b hb m => hleave b (List.mem_cons_of_mem _ hb) m
        fun htouch => hrest ⟨b, hb, htouch⟩]
      exact hput act (by simp) m h hact

/-- `solo_settles` for an action that need not keep `P` itself: it comes once, and
no other one touches `a`. -/
theorem solo_settles_once {prog : List Act} {P : (A → V) → Prop} {act₀ : Act} {a : A} {v : V}
    (hnodup : prog.Nodup) (hmem : act₀ ∈ prog)
    (hkeep : ∀ act ∈ prog, act ≠ act₀ → ∀ m, P m → P (run act m))
    (hput : ∀ m, P m → run act₀ m a = v)
    (hleave : ∀ act ∈ prog, act ≠ act₀ → ∀ m, run act m a = m a) {m : A → V} (h : P m) :
    solo run prog m a = v := by
  induction prog generalizing m with
  | nil => cases hmem
  | cons act prog ih =>
    obtain ⟨hnew, hnodup⟩ := List.nodup_cons.mp hnodup
    rw [solo_cons]
    by_cases hact : act = act₀
    · -- what follows leaves the address alone
      subst hact
      have hlater : ∀ b ∈ prog, b ≠ act := by
        rintro b hb rfl
        exact hnew hb
      rw [solo_frame fun b hb => hleave b (List.mem_cons_of_mem _ hb) (hlater b hb)]
      exact hput m h
    · exact ih hnodup ((List.mem_cons.mp hmem).resolve_left fun heq => hact heq.symm)
        (fun b hb => hkeep b (List.mem_cons_of_mem _ hb))
        (fun b hb => hleave b (List.mem_cons_of_mem _ hb)) (hkeep act (by simp) hact m h)

/-! ### Many threads -/

/-- All threads run to their ends, one action at a time, in any order. -/
inductive Interleaving [DecidableEq ι] (run : Act → (A → V) → A → V) :
    (ι → List Act) → (A → V) → (A → V) → Prop
  | done {progs m} (h : ∀ i, progs i = []) : Interleaving run progs m m
  | step {progs m m'} (i : ι) (act : Act) (rest : List Act) (h : progs i = act :: rest)
      (hrest : Interleaving run (Function.update progs i rest) (run act m) m') :
      Interleaving run progs m m'

/-- Every action is confined to its thread's addresses, and no thread writes
what another one reads or writes. -/
structure Separated (run : Act → (A → V) → A → V) (progs : ι → List Act)
    (reads writes : ι → Set A) : Prop where
  confined : ∀ i, ∀ act ∈ progs i, Confined (run act) (reads i) (writes i)
  apart : ∀ i j, i ≠ j → Disjoint (writes i) (reads j ∪ writes j)

variable [DecidableEq ι] {progs : ι → List Act} {reads writes : ι → Set A} {m m' : A → V}

theorem Separated.update (h : Separated run progs reads writes) {i : ι} {act : Act}
    {rest : List Act} (hi : progs i = act :: rest) :
    Separated run (Function.update progs i rest) reads writes := by
  refine ⟨fun j b hb => h.confined j b ?_, h.apart⟩
  by_cases hj : j = i
  · subst hj
    rw [Function.update_self] at hb
    rw [hi]
    exact List.mem_cons_of_mem _ hb
  · rwa [Function.update_of_ne hj] at hb

/-- The thread's view is a simulation: another thread's action does not touch
it, its own action does the same to both memories. -/
theorem Interleaving.eqOn_solo (h : Interleaving run progs m m')
    (hsep : Separated run progs reads writes) (i : ι) {s : A → V}
    (hs : Set.EqOn m s (reads i ∪ writes i)) :
    Set.EqOn m' (solo run (progs i) s) (reads i ∪ writes i) := by
  induction h generalizing s with
  | done hnil => rwa [hnil i, solo_nil]
  | @step progs m m' j act rest hj _ ih =>
    have hact := hsep.confined j act (by rw [hj]; exact List.mem_cons_self)
    by_cases hij : j = i
    · subst hij
      have hstep := ih (hsep.update hj) (s := run act s) (hact.eqOn hs)
      rw [Function.update_self] at hstep
      rw [hj, solo_cons]
      exact hstep
    · have hother : Set.EqOn (run act m) s (reads i ∪ writes i) := by
        intro a ha
        rw [hact.frame m a fun hw => (hsep.apart j i hij).le_bot ⟨hw, ha⟩]
        exact hs ha
      have hstep := ih (hsep.update hj) hother
      rwa [Function.update_of_ne (Ne.symm hij)] at hstep

/-- **A thread's own addresses end as if it had run alone.** -/
theorem Interleaving.eq_solo (h : Interleaving run progs m m')
    (hsep : Separated run progs reads writes) (i : ι) :
    Set.EqOn m' (solo run (progs i) m) (writes i) :=
  (h.eqOn_solo hsep i fun _ _ => rfl).mono Set.subset_union_right

theorem Interleaving.frame (h : Interleaving run progs m m')
    (hsep : Separated run progs reads writes) {a : A} (ha : ∀ i, a ∉ writes i) :
    m' a = m a := by
  induction h with
  | done => rfl
  | @step progs m m' j act rest hj _ ih =>
    rw [ih (hsep.update hj)]
    exact (hsep.confined j act (by rw [hj]; exact List.mem_cons_self)).frame m a (ha j)

/-- Finitely many threads can be run to their ends. -/
theorem exists_interleaving [Fintype ι] (run : Act → (A → V) → A → V)
    (progs : ι → List Act) (m : A → V) : ∃ m', Interleaving run progs m m' := by
  generalize hn : ∑ i, (progs i).length = n
  induction n generalizing progs m with
  | zero =>
    refine ⟨m, .done fun i => ?_⟩
    rw [Finset.sum_eq_zero_iff] at hn
    exact List.length_eq_zero_iff.mp (hn i (Finset.mem_univ i))
  | succ n ih =>
    obtain ⟨i, -, hi⟩ := Finset.exists_ne_zero_of_sum_ne_zero (by rw [hn]; omega)
    obtain ⟨act, rest, hi⟩ := List.exists_cons_of_length_pos (Nat.pos_of_ne_zero hi)
    -- the thread that moves gets one action shorter
    have hrest : ∑ j, (Function.update progs i rest j).length = n := by
      have hlen : ∀ j, (Function.update progs i rest j).length + (if j = i then 1 else 0) =
          (progs j).length := by
        intro j
        by_cases hj : j = i
        · subst hj
          rw [Function.update_self, hi, if_pos rfl, List.length_cons]
        · rw [Function.update_of_ne hj, if_neg hj, Nat.add_zero]
      have hsum : ∑ j, ((Function.update progs i rest j).length + if j = i then 1 else 0) =
          n + 1 := by
        rw [← hn]
        exact Finset.sum_congr rfl fun j _ => hlen j
      rw [Finset.sum_add_distrib, Finset.sum_ite_eq' Finset.univ i,
        if_pos (Finset.mem_univ i)] at hsum
      omega
    obtain ⟨m', hm'⟩ := ih _ (run act m) hrest
    exact ⟨m', .step i act rest hi hm'⟩

/-! ### Threads that stop on the way -/

/-- From `progs` in `m` the threads, in any order of their actions, have come to
`left` in `m'`. -/
inductive Partway (run : Act → (A → V) → A → V) (progs : ι → List Act) (m : A → V) :
    (ι → List Act) → (A → V) → Prop
  | start : Partway run progs m progs m
  | act {left m'} (i : ι) (act : Act) (rest : List Act) (h : Partway run progs m left m')
      (hi : left i = act :: rest) : Partway run progs m (Function.update left i rest) (run act m')

namespace Partway

variable {left : ι → List Act}

/-- What is left can be run to its end. -/
theorem trans_interleaving (h : Partway run progs m left m') {m'' : A → V}
    (hrest : Interleaving run left m' m'') : Interleaving run progs m m'' := by
  induction h with
  | start => exact hrest
  | act i act rest _ hi ih => exact ih (.step i act rest hi hrest)

/-- Nobody has anything left: the threads have run. -/
theorem interleaving (h : Partway run progs m left m') (hleft : ∀ i, left i = []) :
    Interleaving run progs m m' :=
  h.trans_interleaving (.done hleft)

theorem suffix (h : Partway run progs m left m') (j : ι) : left j <:+ progs j := by
  induction h with
  | start => exact List.suffix_refl _
  | @act left m' i act rest _ hi ih =>
    by_cases hji : j = i
    · subst hji
      rw [Function.update_self]
      exact (List.suffix_cons act rest).trans (hi ▸ ih)
    · rwa [Function.update_of_ne hji]

/-- What is left of separated threads is separated. -/
theorem separated (h : Partway run progs m left m') (hsep : Separated run progs reads writes) :
    Separated run left reads writes :=
  ⟨fun i act hact => hsep.confined i act ((h.suffix i).subset hact), hsep.apart⟩

/-- A thread has done the first part of its program, as if alone. -/
theorem eqOn_solo (h : Partway run progs m left m') (hsep : Separated run progs reads writes)
    (i : ι) : ∃ done, progs i = done ++ left i ∧
      Set.EqOn m' (solo run done m) (reads i ∪ writes i) := by
  induction h with
  | start => exact ⟨[], rfl, fun _ _ => rfl⟩
  | @act left m' j act rest hpart hj ih =>
    obtain ⟨done, hdone, heq⟩ := ih
    have hact : Confined (run act) (reads j) (writes j) :=
      hsep.confined j act ((hpart.suffix j).subset (by rw [hj]; simp))
    by_cases hij : j = i
    · subst hij
      refine ⟨done ++ [act], ?_, ?_⟩
      · rw [hdone, hj, Function.update_self, List.append_assoc, List.singleton_append]
      · rw [solo_append]
        exact hact.eqOn heq
    · refine ⟨done, by rw [Function.update_of_ne (Ne.symm hij), hdone], fun a ha => ?_⟩
      rw [hact.frame m' a fun hw => (hsep.apart j i hij).le_bot ⟨hw, ha⟩]
      exact heq ha

/-- A thread that has not begun has written nothing. -/
theorem eqOn_start (h : Partway run progs m left m') (hsep : Separated run progs reads writes)
    {i : ι} (hi : left i = progs i) : Set.EqOn m' m (reads i ∪ writes i) := by
  obtain ⟨done, hdone, heq⟩ := h.eqOn_solo hsep i
  rw [hi] at hdone
  obtain rfl : done = [] := List.append_left_eq_self.mp hdone.symm
  exact heq

/-- The threads can be run to their ends from here; one that is already there
leaves what it would leave then. -/
theorem complete [Fintype ι] (h : Partway run progs m left m')
    (hsep : Separated run progs reads writes) :
    ∃ m'', Interleaving run progs m m'' ∧
      ∀ i, left i = [] → Set.EqOn m' m'' (reads i ∪ writes i) := by
  obtain ⟨m'', hrest⟩ := exists_interleaving run left m'
  refine ⟨m'', h.trans_interleaving hrest, fun i hi => ?_⟩
  have hsolo := hrest.eqOn_solo (h.separated hsep) i (s := m') fun _ _ => rfl
  rw [hi, solo_nil] at hsolo
  exact hsolo.symm

/-- What no thread writes stays as it was. -/
theorem frame (h : Partway run progs m left m') (hsep : Separated run progs reads writes) {a : A}
    (ha : ∀ i, a ∉ writes i) : m' a = m a := by
  induction h with
  | start => rfl
  | @act left m' j act rest hpart hj ih =>
    have hact := hsep.confined j act ((hpart.suffix j).subset (by rw [hj]; simp))
    rw [hact.frame m' a (ha j), ih]

end Partway

end DisjointParallel
