/-
Executions of a labelled transition system, with the trace they leave.

`Execution step s tr s'` says that the steps labelled `tr`, in that order, lead
from `s` to `s'`.  The rules a safety proof needs:

- `Execution.append_iff`, `Execution.cons_iff`: cutting an execution at a point
  of its trace.
- `Execution.invariant`: what every step preserves holds at the end; the steps
  may be limited to those whose label satisfies a predicate.
- `Execution.history`: the same for a relation between the trace so far and the
  state it leads to.
- `Execution.amortised`: a rank that pays for every step bounds what a whole
  execution costs; `sum_move` is the rank of many processes when one moves.
- `execute`, `execute_sound`: for a step *function* that is told which choice to
  make, a list of choices evaluates to an execution.
- `replay`: a log checked against an automaton that may refuse an event;
  `replay_balance` counts two kinds of events of an accepted log.
-/
import Mathlib.Tactic

namespace LabelledTrace

variable {State Label Choice : Type*}

/-- `Execution step s tr s'`: the labels `tr` lead from `s` to `s'`. -/
inductive Execution (step : State → Label → State → Prop) (s : State) :
    List Label → State → Prop
  | refl : Execution step s [] s
  | snoc {tr s' l s''} :
      Execution step s tr s' → step s' l s'' → Execution step s (tr ++ [l]) s''

namespace Execution

variable {step : State → Label → State → Prop} {s s' s'' : State}
  {tr tr' : List Label} {l : Label}

theorem single (h : step s l s') : Execution step s [l] s' :=
  snoc refl h

theorem append (h : Execution step s tr s') (h' : Execution step s' tr' s'') :
    Execution step s (tr ++ tr') s'' := by
  induction h' with
  | refl => rwa [List.append_nil]
  | snoc _ hstep ih =>
    rw [← List.append_assoc]
    exact ih.snoc hstep

theorem nil_iff : Execution step s [] s' ↔ s = s' := by
  refine ⟨fun h => ?_, fun h => h ▸ refl⟩
  generalize htr : ([] : List Label) = tr at h
  cases h with
  | refl => rfl
  | snoc => simp at htr

theorem snoc_iff :
    Execution step s (tr ++ [l]) s'' ↔ ∃ s', Execution step s tr s' ∧ step s' l s'' := by
  refine ⟨fun h => ?_, fun ⟨_, h, hstep⟩ => h.snoc hstep⟩
  generalize htr : tr ++ [l] = tr' at h
  cases h with
  | refl => simp at htr
  | snoc h hstep =>
    obtain ⟨rfl, hl⟩ := List.append_inj' htr rfl
    obtain rfl : l = _ := by simpa using hl
    exact ⟨_, h, hstep⟩

/-- An execution can be cut at any point of its trace. -/
theorem append_iff :
    Execution step s (tr ++ tr') s'' ↔
      ∃ s', Execution step s tr s' ∧ Execution step s' tr' s'' := by
  refine ⟨fun h => ?_, fun ⟨_, h, h'⟩ => h.append h'⟩
  induction tr' using List.reverseRecOn generalizing s'' with
  | nil => exact ⟨s'', by rwa [List.append_nil] at h, refl⟩
  | append_singleton tr' l ih =>
    rw [← List.append_assoc] at h
    obtain ⟨t, h, hstep⟩ := snoc_iff.mp h
    obtain ⟨s', h, h'⟩ := ih h
    exact ⟨s', h, h'.snoc hstep⟩

theorem cons_iff :
    Execution step s (l :: tr) s'' ↔ ∃ s', step s l s' ∧ Execution step s' tr s'' := by
  rw [← List.singleton_append, append_iff]
  refine exists_congr fun s' => and_congr_left fun _ => ⟨fun h => ?_, single⟩
  obtain ⟨t, ht, hstep⟩ := snoc_iff.mp (show Execution step s ([] ++ [l]) s' from h)
  obtain rfl := nil_iff.mp ht
  exact hstep

/-- What every step with a label in `P` preserves holds at the end of every
execution all of whose labels are in `P`. -/
theorem invariant {P : Label → Prop} {I : State → Prop}
    (hkeep : ∀ {a l b}, I a → step a l b → P l → I b)
    (h : Execution step s tr s') (hP : ∀ l ∈ tr, P l) (h0 : I s) : I s' := by
  induction h with
  | refl => exact h0
  | snoc _ hstep ih =>
    exact hkeep (ih fun l hl => hP l (List.mem_append_left _ hl)) hstep (hP _ (by simp))

/-- The same for a relation between the trace so far and the state reached. -/
theorem history {P : Label → Prop} {I : List Label → State → Prop}
    (hkeep : ∀ {pre a l b}, I pre a → step a l b → P l → I (pre ++ [l]) b)
    (h : Execution step s tr s') (hP : ∀ l ∈ tr, P l) (h0 : I [] s) : I tr s' := by
  induction h with
  | refl => exact h0
  | snoc _ hstep ih =>
    exact hkeep (ih fun l hl => hP l (List.mem_append_left _ hl)) hstep (hP _ (by simp))

/-- When every step pays its cost out of the rank of its state and what its label
brings in, so does an execution. -/
theorem amortised {rank : State → ℕ} {cost allowance : Label → ℕ}
    (hpay : ∀ {a l b}, step a l b → cost l + rank b ≤ rank a + allowance l)
    (h : Execution step s tr s') :
    (tr.map cost).sum + rank s' ≤ rank s + (tr.map allowance).sum := by
  induction h with
  | refl => simp
  | @snoc tr a l b _ hstep ih =>
    have hlast := hpay hstep
    simp only [List.map_append, List.sum_append, List.map_singleton, List.sum_singleton]
    omega

end Execution

/-- When only process `i` moves, what it gains is what the sum gains. -/
theorem sum_move {ι : Type*} [Fintype ι] [DecidableEq ι] {f f' : ι → ℕ} (i : ι) {a b : ℕ}
    (hi : a + f' i ≤ f i + b) (hother : ∀ j, j ≠ i → f' j = f j) :
    a + ∑ j, f' j ≤ (∑ j, f j) + b := by
  have hrest : ∑ j ∈ Finset.univ.erase i, f' j = ∑ j ∈ Finset.univ.erase i, f j :=
    Finset.sum_congr rfl fun j hj => hother j (Finset.ne_of_mem_erase hj)
  have hf := Finset.add_sum_erase Finset.univ f (Finset.mem_univ i)
  have hf' := Finset.add_sum_erase Finset.univ f' (Finset.mem_univ i)
  omega

/-! ### Executions of a step function -/

/-- Follow the choices `cs` from `s`; `none` when one of them is not enabled. -/
def execute (next : State → Choice → Option (Label × State)) (s : State) :
    List Choice → Option (List Label × State)
  | [] => some ([], s)
  | c :: cs =>
    match next s c with
    | none => none
    | some (l, s') => (execute next s' cs).map fun r => (l :: r.1, r.2)

/-- What `execute` evaluates to is an execution. -/
theorem execute_sound {next : State → Choice → Option (Label × State)} {cs : List Choice}
    {s s' : State} {tr : List Label} (h : execute next s cs = some (tr, s')) :
    Execution (fun a l b => ∃ c, next a c = some (l, b)) s tr s' := by
  induction cs generalizing s tr with
  | nil =>
    obtain ⟨rfl, rfl⟩ : tr = [] ∧ s = s' := by simpa [execute, eq_comm] using h
    exact .refl
  | cons c cs ih =>
    rw [execute] at h
    split at h
    · exact absurd h (by simp)
    · rename_i l t hstep
      obtain ⟨⟨tr', t'⟩, ht, he⟩ := Option.map_eq_some_iff.mp h
      obtain ⟨rfl, rfl⟩ : l :: tr' = tr ∧ t' = s' := by simpa using he
      exact Execution.cons_iff.mpr ⟨t, ⟨c, hstep⟩, ih ht⟩

/-! ### Logs an automaton accepts -/

/-- Follow the events of a log; `none` when one of them is refused. -/
def replay (step : State → Label → Option State) (s : State) (tr : List Label) :
    Option State :=
  tr.foldlM step s

section Replay

variable {step : State → Label → Option State} {s s' : State} {tr tr' : List Label} {l : Label}

@[simp] theorem replay_nil : replay step s [] = some s := rfl

@[simp] theorem replay_cons :
    replay step s (l :: tr) = (step s l).bind fun t => replay step t tr := rfl

theorem replay_append :
    replay step s (tr ++ tr') = (replay step s tr).bind fun t => replay step t tr' := by
  unfold replay
  rw [List.foldlM_append]
  rfl

theorem replay_trans {t : State} (h : replay step s tr = some t)
    (h' : replay step t tr' = some s') : replay step s (tr ++ tr') = some s' := by
  rw [replay_append, h, Option.bind_some, h']

/-- An accepted log is accepted up to each of its events, and so is that event. -/
theorem replay_split (h : replay step s (tr ++ l :: tr') = some s') :
    ∃ t t', replay step s tr = some t ∧ step t l = some t' ∧ replay step t' tr' = some s' := by
  rw [replay_append] at h
  obtain ⟨t, ht, hrest⟩ := Option.bind_eq_some_iff.mp h
  rw [replay_cons] at hrest
  obtain ⟨t', hl, hend⟩ := Option.bind_eq_some_iff.mp hrest
  exact ⟨t, t', ht, hl, hend⟩

/-- When every event changes `m` by the `p`-events less the `q`-events, an
accepted log does. -/
theorem replay_balance {m : State → ℕ} {p q : Label → Bool}
    (hstep : ∀ {a l b}, step a l = some b →
      m a + (if p l then 1 else 0) = (if q l then 1 else 0) + m b)
    (h : replay step s tr = some s') : m s + tr.countP p = tr.countP q + m s' := by
  induction tr generalizing s with
  | nil =>
    obtain rfl : s = s' := by simpa using h
    simp
  | cons l tr ih =>
    rw [replay_cons] at h
    obtain ⟨t, hl, hrest⟩ := Option.bind_eq_some_iff.mp h
    have hhead := hstep hl
    have htail := ih hrest
    rw [List.countP_cons, List.countP_cons]
    omega

end Replay

end LabelledTrace
