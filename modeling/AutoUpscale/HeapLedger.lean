/-
Allocations and frees, in the order in which a program makes them.

A log is accepted when no block is allocated that is held and none is freed that is
not.  `Transfers P Q log` is the triple of such logs: from the blocks of `P`, the log is
accepted and leaves the blocks of `Q`.  Its rules are those of straight-line code.

- `Transfers.append`, `.alloc`, `.free`: one after the other.
- `Transfers.allocIf`, `.freeIf`: an event that depends on a condition.
- `Transfers.frame`: from a log replayed on the blocks it touches alone.
- `heap_balance`: an accepted log allocates a block as often as it frees it, up to what
  is held at its ends.
-/
import Mathlib.Data.Finset.Basic
import AutoUpscale.LabelledTrace

namespace HeapLedger

open LabelledTrace

variable {B : Type*} [DecidableEq B]

/-! ### Logs -/

inductive HeapEvent (B : Type*)
  | alloc (b : B)
  | free (b : B)
  deriving DecidableEq

/-- The blocks held after an event; `none` when the event may not happen. -/
def heapStep (held : Finset B) : HeapEvent B → Option (Finset B)
  | .alloc b => if b ∈ held then none else some (insert b held)
  | .free b => if b ∈ held then some (held.erase b) else none

theorem heap_balance {held held' : Finset B} {log : List (HeapEvent B)}
    (h : replay heapStep held log = some held') (b : B) :
    (if b ∈ held then 1 else 0) + log.count (.alloc b) =
      log.count (.free b) + if b ∈ held' then 1 else 0 := by
  refine replay_balance (m := fun held => if b ∈ held then 1 else 0) ?_ h
  intro held e held' hstep
  cases e with
  | alloc b' =>
    simp only [heapStep, Option.ite_none_left_eq_some, Option.some.injEq] at hstep
    obtain ⟨hb', rfl⟩ := hstep
    by_cases heq : b' = b
    · subst heq
      simp [hb']
    · have hne : b ≠ b' := fun h => heq h.symm
      simp [heq, hne]
  | free b' =>
    simp only [heapStep, Option.ite_none_right_eq_some, Option.some.injEq] at hstep
    obtain ⟨hb', rfl⟩ := hstep
    by_cases heq : b' = b
    · subst heq
      simp [hb']
    · have hne : b ≠ b' := fun h => heq h.symm
      simp [heq, hne]

/-! ### Triples -/

/-- From the blocks of `P` the log is accepted, and leaves those of `Q`. -/
def Transfers (P Q : B → Prop) (log : List (HeapEvent B)) : Prop :=
  ∀ held : Finset B, (∀ b, b ∈ held ↔ P b) →
    ∃ held', replay heapStep held log = some held' ∧ ∀ b, b ∈ held' ↔ Q b

variable {P P' Q Q' R : B → Prop} {log log' : List (HeapEvent B)}

theorem Transfers.nil (h : ∀ b, P b ↔ Q b) : Transfers P Q [] := by
  intro held hheld
  exact ⟨held, rfl, fun b => (hheld b).trans (h b)⟩

theorem Transfers.congr (h : Transfers P Q log) (hpre : ∀ b, P' b ↔ P b)
    (hpost : ∀ b, Q b ↔ Q' b) : Transfers P' Q' log := by
  intro held hheld
  obtain ⟨held', hlog, hheld'⟩ := h held fun b => (hheld b).trans (hpre b)
  exact ⟨held', hlog, fun b => (hheld' b).trans (hpost b)⟩

theorem Transfers.append (h : Transfers P Q log) (h' : Transfers Q R log') :
    Transfers P R (log ++ log') := by
  intro held hheld
  obtain ⟨mid, hlog, hmid⟩ := h held hheld
  obtain ⟨held', hlog', hheld'⟩ := h' mid hmid
  exact ⟨held', replay_trans hlog hlog', hheld'⟩

theorem Transfers.alloc {b : B} (h : ¬ P b) : Transfers P (fun c => c = b ∨ P c) [.alloc b] := by
  intro held hheld
  have hb : b ∉ held := mt (hheld b).mp h
  refine ⟨insert b held, ?_, fun c => ?_⟩
  · rw [replay_cons, heapStep, if_neg hb]
    rfl
  · rw [Finset.mem_insert, hheld]

theorem Transfers.free {b : B} (h : P b) : Transfers P (fun c => c ≠ b ∧ P c) [.free b] := by
  intro held hheld
  have hb : b ∈ held := (hheld b).mpr h
  refine ⟨held.erase b, ?_, fun c => ?_⟩
  · rw [replay_cons, heapStep, if_pos hb]
    rfl
  · rw [Finset.mem_erase, hheld]

theorem Transfers.allocIf {c : Prop} [Decidable c] {b : B} (h : c → ¬ P b) :
    Transfers P (fun d => (c ∧ d = b) ∨ P d) (if c then [.alloc b] else []) := by
  split
  · rename_i hc
    exact (Transfers.alloc (h hc)).congr (fun _ => Iff.rfl) fun d => by simp [hc]
  · rename_i hc
    exact .nil fun d => by simp [hc]

theorem Transfers.freeIf {c : Prop} [Decidable c] {b : B} (h : c → P b) :
    Transfers P (fun d => ¬ (c ∧ d = b) ∧ P d) (if c then [.free b] else []) := by
  split
  · rename_i hc
    exact (Transfers.free (h hc)).congr (fun _ => Iff.rfl) fun d => by simp [hc]
  · rename_i hc
    exact .nil fun d => by simp [hc]

/-- One event after the other for the members of a list, where those ahead are still
allocated. -/
theorem Transfers.freeAll {ι : Type*} {block : ι → B} (hinj : Function.Injective block)
    (held : ι → Prop) [DecidablePred held] {is : List ι} (hnodup : is.Nodup)
    (h : ∀ i ∈ is, held i → P (block i)) :
    Transfers P (fun d => (∀ i ∈ is, held i → d ≠ block i) ∧ P d)
      (is.flatMap fun i => if held i then [.free (block i)] else []) := by
  induction is generalizing P with
  | nil => exact .nil fun d => by simp
  | cons i is ih =>
    obtain ⟨hi, hnodup⟩ := List.nodup_cons.mp hnodup
    have hhead := Transfers.freeIf (P := P) (c := held i) (b := block i) (h i (.head _))
    have hrest := ih (P := fun d => ¬ (held i ∧ d = block i) ∧ P d) hnodup fun j hj hheld => by
      refine ⟨fun hsame => hi ?_, h j (.tail _ hj) hheld⟩
      rw [← hinj hsame.2]
      exact hj
    refine (hhead.append hrest).congr (fun _ => Iff.rfl) fun d => ?_
    simp only [List.mem_cons, forall_eq_or_imp]
    tauto

def HeapEvent.block : HeapEvent B → B
  | .alloc b => b
  | .free b => b

/-- A log that a small heap accepts is accepted beside any blocks it does not touch. -/
theorem Transfers.frame {A A' : Finset B} (h : replay heapStep A log = some A')
    (hheld : ∀ b ∈ A, P b) (hnew : ∀ e ∈ log, e.block ∉ A → ¬ P e.block) :
    Transfers P (fun b => b ∈ A' ∨ (P b ∧ b ∉ A)) log := by
  induction log generalizing A P with
  | nil =>
    obtain rfl := Option.some.inj h
    refine .nil fun b => ?_
    have hb := hheld b
    tauto
  | cons e log ih =>
    rw [replay_cons] at h
    obtain ⟨mid, hstep, hrest⟩ := Option.bind_eq_some_iff.mp h
    cases e with
    | alloc b =>
      simp only [heapStep, Option.ite_none_left_eq_some, Option.some.injEq] at hstep
      obtain ⟨hb, rfl⟩ := hstep
      have hnot : ¬ P b := hnew _ List.mem_cons_self hb
      have hlog := ih (P := fun c => c = b ∨ P c) hrest
        (fun c hc => (Finset.mem_insert.mp hc).imp_right (hheld c)) fun e he hout => by
          simp only [Finset.mem_insert, not_or] at hout ⊢
          exact ⟨hout.1, hnew e (List.mem_cons_of_mem _ he) hout.2⟩
      refine ((Transfers.alloc hnot).append hlog).congr (fun _ => Iff.rfl) fun c => ?_
      by_cases hc : c = b
      · subst hc
        simp [hnot]
      · simp [hc]
    | free b =>
      simp only [heapStep, Option.ite_none_right_eq_some, Option.some.injEq] at hstep
      obtain ⟨hb, rfl⟩ := hstep
      have hlog := ih (P := fun c => c ≠ b ∧ P c) hrest
        (fun c hc => (Finset.mem_erase.mp hc).imp_right (hheld c)) fun e he hout hheld' => by
          refine hnew e (List.mem_cons_of_mem _ he) (fun hmem => hout ?_) hheld'.2
          exact Finset.mem_erase.mpr ⟨hheld'.1, hmem⟩
      refine ((Transfers.free (hheld b hb)).append hlog).congr (fun _ => Iff.rfl) fun c => ?_
      by_cases hc : c = b
      · subst hc
        simp [hb]
      · simp [hc]

end HeapLedger
