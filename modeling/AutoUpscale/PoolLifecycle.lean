/-
Slots and threads of the worker pool over every sequence of its operations.

`ledgerStep` is the abstract account: which threads are unjoined and which
slots are constructed, with a rule for every event that gives one back.  The
operations are shown to keep this account (`poolCall_law`); what the rules
forbid then never happens.

- `worker_pool_lifecycle`: the law of every pool that a run leads to.
-/
import AutoUpscale.LabelledTrace
import AutoUpscale.WorkerPool

namespace AutoUpscale

open LabelledTrace

/-! ### The account -/

/-- Threads spawned and not joined, slots constructed and not released, and
the slot whose thread has just failed to spawn. -/
structure Ledger where
  threads : Finset ℕ
  slots : Finset ℕ
  orphan : Option ℕ

/-- The account after an event; `none` when the event may not happen. -/
def ledgerStep (l : Ledger) : PoolEvent → Option Ledger
  | .construct i ok =>
    if i ∈ l.slots then none
    else some ⟨l.threads, if ok then insert i l.slots else l.slots, none⟩
  | .spawn i ok =>
    if i ∉ l.slots ∨ i ∈ l.threads then none
    else if ok then some ⟨insert i l.threads, l.slots, none⟩
    else some ⟨l.threads, l.slots, some i⟩
  | .join i ok =>
    if i ∉ l.threads then none
    else some ⟨if ok then l.threads.erase i else l.threads, l.slots, none⟩
  | .release i =>
    -- never beside a running thread, unless it is the slot that got none
    if i ∈ l.slots ∧ (l.threads = ∅ ∨ l.orphan = some i) then
      some ⟨l.threads, l.slots.erase i, none⟩
    else none
  | .free => if l.threads = ∅ ∧ l.slots = ∅ then some ⟨∅, ∅, none⟩ else none
  | _ => some ⟨l.threads, l.slots, none⟩

theorem ledger_slots {l l' : Ledger} {log : List PoolEvent}
    (h : replay ledgerStep l log = some l') (i : ℕ) :
    (if i ∈ l.slots then 1 else 0) + log.count (.construct i true) =
      log.count (.release i) + if i ∈ l'.slots then 1 else 0 := by
  refine replay_balance (m := fun l => if i ∈ l.slots then 1 else 0) ?_ h
  intro l e l' hl
  cases e with
  | construct j ok =>
    simp only [ledgerStep, Option.ite_none_left_eq_some, Option.some.injEq] at hl
    obtain ⟨hj, rfl⟩ := hl
    cases ok <;> by_cases hij : j = i
    · simp [hij]
    · simp [hij]
    · simp [hij, hij ▸ hj]
    · simp [hij, Ne.symm hij]
  | spawn j ok =>
    simp only [ledgerStep, Option.ite_none_left_eq_some] at hl
    obtain ⟨-, hl⟩ := hl
    cases ok
    all_goals
      obtain rfl : _ = l' := by simpa using hl
      simp
  | join j ok =>
    simp only [ledgerStep, Option.ite_none_left_eq_some, Option.some.injEq] at hl
    obtain ⟨-, rfl⟩ := hl
    simp
  | release j =>
    simp only [ledgerStep, Option.ite_none_right_eq_some, Option.some.injEq] at hl
    obtain ⟨⟨hj, -⟩, rfl⟩ := hl
    by_cases hij : j = i
    · simp [hij, hij ▸ hj]
    · simp [hij, Ne.symm hij]
  | free =>
    simp only [ledgerStep, Option.ite_none_right_eq_some, Option.some.injEq] at hl
    obtain ⟨⟨-, hslots⟩, rfl⟩ := hl
    simp [hslots]
  | _ =>
    obtain rfl : _ = l' := by simpa [ledgerStep] using hl
    simp

theorem ledger_threads {l l' : Ledger} {log : List PoolEvent}
    (h : replay ledgerStep l log = some l') (i : ℕ) :
    (if i ∈ l.threads then 1 else 0) + log.count (.spawn i true) =
      log.count (.join i true) + if i ∈ l'.threads then 1 else 0 := by
  refine replay_balance (m := fun l => if i ∈ l.threads then 1 else 0) ?_ h
  intro l e l' hl
  cases e with
  | construct j ok =>
    simp only [ledgerStep, Option.ite_none_left_eq_some, Option.some.injEq] at hl
    obtain ⟨-, rfl⟩ := hl
    simp
  | spawn j ok =>
    simp only [ledgerStep, Option.ite_none_left_eq_some, not_or] at hl
    obtain ⟨⟨-, hj⟩, hl⟩ := hl
    cases ok
    · obtain rfl : _ = l' := by simpa using hl
      simp
    · obtain rfl : _ = l' := by simpa using hl
      by_cases hij : j = i
      · simp [hij, hij ▸ hj]
      · simp [hij, Ne.symm hij]
  | join j ok =>
    simp only [ledgerStep, Option.ite_none_left_eq_some, not_not, Option.some.injEq] at hl
    obtain ⟨hj, rfl⟩ := hl
    cases ok <;> by_cases hij : j = i
    · simp [hij]
    · simp [hij]
    · simp [hij, hij ▸ hj]
    · simp [hij, Ne.symm hij]
  | release j =>
    simp only [ledgerStep, Option.ite_none_right_eq_some, Option.some.injEq] at hl
    obtain ⟨-, rfl⟩ := hl
    simp
  | free =>
    simp only [ledgerStep, Option.ite_none_right_eq_some, Option.some.injEq] at hl
    obtain ⟨⟨hthreads, -⟩, rfl⟩ := hl
    simp [hthreads]
  | _ =>
    obtain rfl : _ = l' := by simpa [ledgerStep] using hl
    simp

/-- Only a failed spawn leaves a slot without its thread. -/
theorem ledger_orphan {l l' : Ledger} {log : List PoolEvent} {i : ℕ}
    (h : replay ledgerStep l log = some l') (hl : l.orphan = none) (hl' : l'.orphan = some i) :
    ∃ pre, log = pre ++ [.spawn i false] := by
  induction log using List.reverseRecOn with
  | nil =>
    obtain rfl : l = l' := by simpa using h
    simp [hl] at hl'
  | append_singleton pre e _ =>
    obtain ⟨t, t', -, he, hend⟩ := replay_split h
    obtain rfl : t' = l' := by simpa using hend
    refine ⟨pre, ?_⟩
    unfold ledgerStep at he
    repeat' split at he
    all_goals cases he
    all_goals simp at hl'
    obtain rfl := hl'
    simp_all

/-! ### The pool's own account -/

/-- The threads the pool knows to be unjoined. -/
def WorkerPool.running (p : WorkerPool) : Finset ℕ :=
  (Finset.range p.nPref.toNat).filter fun i => p.started i = true

def WorkerPool.ledger (p : WorkerPool) : Ledger :=
  ⟨p.running, Finset.range p.nWorkers, none⟩

/-- `p'` differs from `p` in its threads and the broken flag only. -/
structure StopFrame (p p' : WorkerPool) : Prop where
  rest : p' = { p with threads := p'.threads, broken := p'.broken }
  threads : p.threads = none → p'.threads = none

theorem StopFrame.refl (p : WorkerPool) : StopFrame p p := ⟨rfl, id⟩

theorem StopFrame.trans {p p' p'' : WorkerPool} (h : StopFrame p p') (h' : StopFrame p' p'') :
    StopFrame p p'' := by
  refine ⟨?_, fun hp => h'.threads (h.threads hp)⟩
  rw [h'.rest, h.rest]

theorem running_of_threads_none {p : WorkerPool} (h : p.threads = none) : p.running = ∅ := by
  refine Finset.filter_false_of_mem fun i _ => ?_
  simp [WorkerPool.started, h]

theorem mem_running {p : WorkerPool} {i : ℕ} :
    i ∈ p.running ↔ i < p.nPref.toNat ∧ p.started i = true := by
  simp [WorkerPool.running]

theorem started_setStarted (p : WorkerPool) (i j : ℕ) (v : Bool) (h : p.threads ≠ none) :
    (p.setStarted i v).started j = if j = i then v else p.started j := by
  obtain ⟨st, hst⟩ := Option.ne_none_iff_exists'.mp h
  simp [WorkerPool.setStarted, WorkerPool.started, hst, Function.update_apply]

theorem running_clear (p : WorkerPool) (i : ℕ) :
    (p.setStarted i false).running = p.running.erase i := by
  by_cases h : p.threads = none
  · rw [running_of_threads_none h, running_of_threads_none (by simp [WorkerPool.setStarted, h])]
    rfl
  · ext j
    rw [Finset.mem_erase, mem_running, mem_running, started_setStarted p i j false h]
    by_cases hj : j = i <;> simp [hj, WorkerPool.setStarted]

theorem running_set (p : WorkerPool) (i : ℕ) (h : p.threads ≠ none) (hi : i < p.nPref.toNat) :
    (p.setStarted i true).running = insert i p.running := by
  ext j
  rw [Finset.mem_insert, mem_running, mem_running, started_setStarted p i j true h]
  by_cases hj : j = i <;> simp [hj, WorkerPool.setStarted, hi]

/-! ### Stop -/

/-- What the join loop does over the threads `js`. -/
structure JoinMove (o : StopOutcome) (js : List ℕ) (c c' : PoolCall) : Prop where
  frame : StopFrame c.pool c'.pool
  running : c'.pool.running = c.pool.running.filter fun i => i ∈ js → o.join i = false
  ok : c'.ok = true ↔ c.ok = true ∧ ∀ i ∈ js, i ∈ c.pool.running → o.join i = true
  log : ∃ new, c'.log = c.log ++ new ∧ (∀ e ∈ new, ∃ i ok, e = .join i ok) ∧
    ∀ slots, replay ledgerStep ⟨c.pool.running, slots, none⟩ new =
      some ⟨c'.pool.running, slots, none⟩

theorem JoinMove.refl (o : StopOutcome) (c : PoolCall) : JoinMove o [] c c where
  frame := .refl _
  running := by simp
  ok := by simp
  log := ⟨[], by simp⟩

theorem joinOne_move (o : StopOutcome) (c : PoolCall) (i : ℕ) (hi : i < c.pool.nPref.toNat) :
    JoinMove o [i] c (joinOne o c i) := by
  unfold joinOne
  split
  · rename_i hst
    have hnot : i ∉ c.pool.running := by simp [mem_running, hst]
    refine ⟨.refl _, ?_, by simp [hnot], [], by simp⟩
    refine (Finset.filter_true_of_mem fun j hj hji => absurd hj ?_).symm
    rwa [List.mem_singleton.mp hji]
  rename_i hst
  have hmem : i ∈ c.pool.running := mem_running.mpr ⟨hi, by simpa using hst⟩
  split
  · rename_i hjoin
    have hsame : ({ c.pool with broken := true } : WorkerPool).running = c.pool.running := rfl
    refine ⟨⟨rfl, id⟩, ?_, by simp [hjoin, hmem], [.join i false], rfl, by simp, fun slots => ?_⟩
    · rw [hsame]
      refine (Finset.filter_true_of_mem fun j _ hji => ?_).symm
      rwa [List.mem_singleton.mp hji]
    · simp [ledgerStep, hmem, hsame]
  · rename_i hjoin
    have hjoin : o.join i = true := by simpa using hjoin
    refine ⟨⟨rfl, fun hn => by simp [WorkerPool.setStarted, hn]⟩, ?_, by simp [hjoin],
      [.join i true], rfl, by simp, fun slots => ?_⟩
    · rw [running_clear]
      ext j
      by_cases hj : j = i <;> simp [hj, hjoin]
    · simp [ledgerStep, hmem, running_clear]

theorem JoinMove.trans {o : StopOutcome} {i : ℕ} {js : List ℕ} {c c' c'' : PoolCall}
    (h : JoinMove o [i] c c') (h' : JoinMove o js c' c'') : JoinMove o (i :: js) c c'' := by
  obtain ⟨new, hlog, hjoins, hnew⟩ := h.log
  obtain ⟨new', hlog', hjoins', hnew'⟩ := h'.log
  refine ⟨h.frame.trans h'.frame, ?_, ?_, new ++ new', by rw [hlog', hlog, List.append_assoc],
    ?_, fun slots => replay_trans (hnew slots) (hnew' slots)⟩
  · rw [h'.running, h.running, Finset.filter_filter]
    refine Finset.filter_congr fun j _ => ?_
    simp only [List.mem_cons, List.not_mem_nil]
    tauto
  · rw [h'.ok, h.ok, and_assoc]
    refine and_congr_right fun _ => ⟨fun ⟨hi, hjs⟩ j hj hrun => ?_, fun hall => ⟨?_, ?_⟩⟩
    · rcases List.mem_cons.mp hj with rfl | hj
      · exact hi j (List.mem_singleton_self j) hrun
      · -- a thread that was joined the first time is not joined again
        by_contra hfail
        refine hfail (hjs j hj ?_)
        rw [h.running, Finset.mem_filter]
        exact ⟨hrun, fun _ => by simpa using hfail⟩
    · intro j hj hrun
      exact hall j (List.mem_cons.mpr (.inl (List.mem_singleton.mp hj))) hrun
    · intro j hj hrun
      rw [h.running, Finset.mem_filter] at hrun
      exact hall j (List.mem_cons_of_mem _ hj) hrun.1
  · intro e he
    rcases List.mem_append.mp he with he | he
    · exact hjoins e he
    · exact hjoins' e he

theorem joinLoop_move (o : StopOutcome) (js : List ℕ) (c : PoolCall)
    (hjs : ∀ i ∈ js, i < c.pool.nPref.toNat) : JoinMove o js c (js.foldl (joinOne o) c) := by
  induction js generalizing c with
  | nil => exact .refl o c
  | cons i js ih =>
    have hone := joinOne_move o c i (hjs i (by simp))
    refine hone.trans (ih _ fun j hj => ?_)
    rw [hone.frame.rest]
    exact hjs j (List.mem_cons_of_mem _ hj)

/-- An event that neither acquires nor gives back a slot or the storage. -/
def PoolEvent.quiet : PoolEvent → Bool
  | .requestExit _ | .cancel _ | .join _ _ | .run _ | .finalize _ => true
  | _ => false

/-- What a stop does. -/
structure StopLaw (p : WorkerPool) (o : StopOutcome) (c : PoolCall) : Prop where
  frame : StopFrame p c.pool
  /-- It succeeds exactly when no thread is left unjoined. -/
  ok : c.ok = true ↔ c.pool.running = ∅
  joined : (∀ i, o.join i = true) → c.ok = true
  quiet : ∀ e ∈ c.log, e.quiet = true
  replays : ∀ slots, replay ledgerStep ⟨p.running, slots, none⟩ c.log =
    some ⟨c.pool.running, slots, none⟩

theorem replay_cancels (l : Ledger) (hl : l.orphan = none) (is : List ℕ) :
    replay ledgerStep l (is.map .cancel) = some l := by
  have hstep : ∀ i, ledgerStep l (.cancel i) = some l := by
    intro i
    cases l
    simp_all [ledgerStep]
  induction is with
  | nil => rfl
  | cons i is ih => rw [List.map_cons, replay_cons, hstep, Option.bind_some, ih]

theorem workerPoolStop_law (p : WorkerPool) (o : StopOutcome) :
    StopLaw p o (workerPoolStop p o) := by
  unfold workerPoolStop
  split
  · rename_i hnone
    exact ⟨.refl p, by simp [running_of_threads_none hnone], fun _ => rfl, by simp, by simp⟩
  -- the join loop starts with the exit request, and cancels if that failed
  set c : PoolCall := if p.gateReady = false ∨ o.exit = true then
      ⟨true, p, [.requestExit true]⟩
    else ⟨true, { p with broken := true }, .requestExit false :: poolCancelStarted p⟩ with hc
  obtain ⟨hok, hframe, hrun, hquiet, hreplay⟩ : c.ok = true ∧ StopFrame p c.pool ∧
      c.pool.running = p.running ∧ (∀ e ∈ c.log, e.quiet = true) ∧ ∀ slots,
        replay ledgerStep ⟨p.running, slots, none⟩ c.log = some ⟨p.running, slots, none⟩ := by
    rw [hc]
    split
    · exact ⟨rfl, .refl p, rfl, by simp [PoolEvent.quiet], by simp [ledgerStep]⟩
    · refine ⟨rfl, ⟨rfl, id⟩, rfl, fun e he => ?_, fun slots => ?_⟩
      · rcases List.mem_cons.mp he with rfl | he
        · rfl
        · obtain ⟨i, -, rfl⟩ := List.mem_map.mp he
          rfl
      · exact replay_cancels _ rfl _
  have hpref : c.pool.nPref = p.nPref := by rw [hframe.rest]
  have hmove := joinLoop_move o (List.range p.nPref.toNat) c (by simp [hpref])
  obtain ⟨new, hlog, hjoins, hnew⟩ := hmove.log
  have hall : ∀ i ∈ c.pool.running, i ∈ List.range p.nPref.toNat := by
    intro i hi
    rw [mem_running, hpref] at hi
    exact List.mem_range.mpr hi.1
  refine ⟨hframe.trans hmove.frame, ?_, fun hj => hmove.ok.mpr ⟨hok, fun i _ _ => hj i⟩, ?_,
    fun slots => ?_⟩
  · rw [hmove.ok, hmove.running, Finset.filter_eq_empty_iff, and_iff_right hok]
    refine ⟨fun h i hi hfail => ?_, fun h i hmem hi => ?_⟩
    · simpa [h i (hall i hi) hi] using hfail (hall i hi)
    · by_contra hfail
      exact h hi fun _ => by simpa using hfail
  · intro e he
    rw [hlog] at he
    rcases List.mem_append.mp he with he | he
    · exact hquiet e he
    · obtain ⟨i, ok, rfl⟩ := hjoins e he
      rfl
  · rw [hlog]
    exact replay_trans (hreplay slots) (hrun ▸ hnew slots)

/-! ### Start -/

def PoolEvent.isPrepare : PoolEvent → Bool
  | .prepare _ => true
  | _ => false

def PoolEvent.isConstruct (i : ℕ) : PoolEvent → Bool
  | .construct j _ => decide (j = i)
  | _ => false

/-- Constructing slot `i` is in order when the pool can hold it. -/
structure CanConstruct (p : WorkerPool) (i : ℕ) : Prop where
  bound : i < p.nPref.toNat
  threads : p.inlineRun = false → p.threads ≠ none
  running : p.running ⊆ Finset.range i

/-- What one construct does. -/
structure ConstructLaw (p : WorkerPool) (i : ℕ) (c : PoolCall) : Prop where
  rest : c.pool = { p with threads := c.pool.threads }
  threads : p.threads ≠ none → c.pool.threads ≠ none
  running : c.pool.running ⊆ Finset.range (i + 1)
  failed : c.ok = false → c.pool = p
  replays : replay ledgerStep ⟨p.running, Finset.range i, none⟩ c.log =
    some ⟨c.pool.running, Finset.range (if c.ok then i + 1 else i), none⟩
  noPrepare : c.log.countP PoolEvent.isPrepare = 0
  noFree : .free ∉ c.log
  constructs : ∀ j, c.log.countP (PoolEvent.isConstruct j) = if j = i then 1 else 0

theorem poolConstructOne_law (p : WorkerPool) (i : ℕ) (o : StartOutcome)
    (h : CanConstruct p i) : ConstructLaw p i (poolConstructOne p i o) := by
  have hgrow : p.running ⊆ Finset.range (i + 1) :=
    h.running.trans (Finset.range_subset_range.mpr (Nat.le_succ i))
  have hfresh : i ∉ p.running := fun hi => by simpa using h.running hi
  have hslots : insert i (Finset.range i) = Finset.range (i + 1) := Finset.range_add_one.symm
  unfold poolConstructOne
  split
  · refine ⟨rfl, id, hgrow, fun _ => rfl, by simp [ledgerStep], rfl, by simp, fun j => ?_⟩
    simp [PoolEvent.isConstruct, List.countP_cons, eq_comm]
  split
  · refine ⟨rfl, id, hgrow, by simp, by simp [ledgerStep, hslots], rfl, by simp, fun j => ?_⟩
    simp [PoolEvent.isConstruct, List.countP_cons, eq_comm]
  rename_i hinline
  have hthreads := h.threads (by simpa using hinline)
  split
  · have hset := running_set p i hthreads h.bound
    refine ⟨rfl, fun hn => by simpa [WorkerPool.setStarted] using hn, ?_, by simp, ?_, rfl,
      by simp, fun j => ?_⟩
    · rw [hset, ← hslots]
      exact Finset.insert_subset_insert i h.running
    · simp [ledgerStep, hslots, hset, hfresh]
    · simp [PoolEvent.isConstruct, List.countP_cons, eq_comm]
  · refine ⟨rfl, id, hgrow, fun _ => rfl, ?_, rfl, by simp, fun j => ?_⟩
    · -- the slot without a thread is given back beside the running ones
      simp [ledgerStep, hfresh]
    · simp [PoolEvent.isConstruct, List.countP_cons, eq_comm]

/-- What constructing up to `k` slots from slot `i` on does. -/
structure ConstructRun (p : WorkerPool) (i k : ℕ) (r : ℕ × WorkerPool × List PoolEvent) :
    Prop where
  rest : r.2.1 = { p with threads := r.2.1.threads }
  bounds : i ≤ r.1 ∧ r.1 ≤ i + k
  replays : replay ledgerStep ⟨p.running, Finset.range i, none⟩ r.2.2 =
    some ⟨r.2.1.running, Finset.range r.1, none⟩
  noPrepare : r.2.2.countP PoolEvent.isPrepare = 0
  noFree : .free ∉ r.2.2
  constructs : ∀ j, r.2.2.countP (PoolEvent.isConstruct j) ≤ if i ≤ j then 1 else 0

theorem poolConstructFrom_run (o : StartOutcome) (k i : ℕ) (p : WorkerPool)
    (hbound : i + k ≤ p.nPref.toNat) (hthreads : p.inlineRun = false → p.threads ≠ none)
    (hrun : p.running ⊆ Finset.range i) : ConstructRun p i k (poolConstructFrom o k i p) := by
  induction k generalizing i p with
  | zero =>
    rw [poolConstructFrom]
    exact ⟨rfl, by simp, rfl, rfl, by simp, by simp⟩
  | succ k ih =>
    have hone := poolConstructOne_law p i o ⟨by omega, hthreads, hrun⟩
    rw [poolConstructFrom]
    simp only
    split
    · rename_i hok
      refine ⟨hone.rest, by simp, ?_, hone.noPrepare, hone.noFree, fun j => ?_⟩
      · simpa [hok] using hone.replays
      · rw [hone.constructs]
        split <;> split <;> omega
    · rename_i hok
      have hok : (poolConstructOne p i o).ok = true := by simpa using hok
      have hpref : (poolConstructOne p i o).pool.nPref = p.nPref := by rw [hone.rest]
      have hinline : (poolConstructOne p i o).pool.inlineRun = p.inlineRun := by rw [hone.rest]
      have hrest := ih (i + 1) (poolConstructOne p i o).pool (by rw [hpref]; omega)
        (fun hin => hone.threads (hthreads (hinline ▸ hin))) hone.running
      have hreplay := hone.replays
      rw [hok, if_pos rfl] at hreplay
      refine ⟨?_, ?_, replay_trans hreplay hrest.replays, ?_, ?_, fun j => ?_⟩
      · rw [hrest.rest, hone.rest]
      · have := hrest.bounds
        omega
      · rw [List.countP_append, hone.noPrepare, hrest.noPrepare]
      · rw [List.mem_append, not_or]
        exact ⟨hone.noFree, hrest.noFree⟩
      · have hj := hrest.constructs j
        rw [List.countP_append, hone.constructs]
        split at hj <;> split <;> split <;> omega

/-- Slots given back with no thread running. -/
theorem replay_releases (is : List ℕ) (slots : Finset ℕ) (hnodup : is.Nodup)
    (hsub : ∀ i ∈ is, i ∈ slots) :
    replay ledgerStep ⟨∅, slots, none⟩ (is.map .release) =
      some ⟨∅, slots \ is.toFinset, none⟩ := by
  induction is generalizing slots with
  | nil => simp
  | cons i is ih =>
    obtain ⟨hi, hnodup⟩ := List.nodup_cons.mp hnodup
    have hmem : i ∈ slots := hsub i (by simp)
    have hrest := ih (slots.erase i) hnodup fun j hj =>
      Finset.mem_erase.mpr ⟨fun hji => hi (hji ▸ hj), hsub j (List.mem_cons_of_mem _ hj)⟩
    rw [List.map_cons, replay_cons, ledgerStep, if_pos ⟨hmem, .inl rfl⟩, Option.bind_some, hrest]
    congr 2
    ext j
    simp only [Finset.mem_sdiff, Finset.mem_erase, List.toFinset_cons, Finset.mem_insert]
    tauto

theorem poolReleaseSlots_replays (n : ℕ) :
    replay ledgerStep ⟨∅, Finset.range n, none⟩ (poolReleaseSlots n) = some ⟨∅, ∅, none⟩ := by
  rw [poolReleaseSlots, replay_releases _ _ List.nodup_range (by simp)]
  congr 2
  ext j
  simp

/-- The pool is up: storage, between one and `n_pref` live slots, and all of them
when all are needed. -/
def WorkerPool.up (p : WorkerPool) : Prop :=
  p.workers = true ∧ 1 ≤ p.nWorkers ∧ (p.nWorkers : ℤ) ≤ p.nPref ∧
    (p.allOrNothing = true → (p.nWorkers : ℤ) = p.nPref)

/-- A pool that no start has touched. -/
structure WorkerPool.Fresh (p : WorkerPool) : Prop where
  workers : p.workers = false
  threads : p.threads = none
  nWorkers : p.nWorkers = 0

/-- `p'` is `p` with what a start may set. -/
def StartFrame (p p' : WorkerPool) : Prop :=
  p' = { p with
    gateReady := p'.gateReady, workers := p'.workers, threads := p'.threads,
    nWorkers := p'.nWorkers, inlineRun := p'.inlineRun, broken := p'.broken }

theorem StartFrame.trans {p p' p'' : WorkerPool} (h : StartFrame p p') (h' : StartFrame p' p'') :
    StartFrame p p'' := by
  unfold StartFrame at *
  rw [h', h]

/-- What the setup before the first slot does. -/
structure SetupLaw (p : WorkerPool) (c : PoolCall) : Prop where
  frame : StartFrame p c.pool
  nWorkers : c.pool.nWorkers = 0
  running : c.pool.running = ∅
  log : c.log = [] ∨ ∃ ok, c.log = [.prepare ok]
  ready : c.ok = true → 1 ≤ c.pool.nPref ∧ c.pool.workers = true ∧
    (c.pool.inlineRun = true ↔ c.pool.nPref = 1) ∧
    (c.pool.inlineRun = false → c.pool.threads ≠ none)

theorem poolSetup_law (p : WorkerPool) (o : StartOutcome) (h : p.Fresh) :
    SetupLaw p (poolSetup p o) := by
  have hnone := running_of_threads_none h.threads
  have hidle (q : WorkerPool) (hq : q.threads = some fun _ => false) : q.running = ∅ := by
    refine Finset.filter_false_of_mem fun i _ => ?_
    simp [WorkerPool.started, hq]
  unfold poolSetup
  split
  · exact ⟨rfl, h.nWorkers, hnone, .inl rfl, by simp⟩
  rename_i hpref
  split
  · exact ⟨rfl, h.nWorkers, hnone, .inr ⟨false, rfl⟩, by simp⟩
  simp only [poolAlloc]
  by_cases hw : o.allocWorkers = false
  · simp only [hw, if_true]
    exact ⟨rfl, h.nWorkers, hnone, .inr ⟨true, rfl⟩, by simp⟩
  by_cases hone : p.nPref = 1
  · simp only [if_neg hw, if_pos hone, decide_eq_true hone, Bool.true_eq_false, if_false]
    refine ⟨rfl, h.nWorkers, ?_, .inr ⟨true, rfl⟩, ?_⟩
    · exact running_of_threads_none h.threads
    · simp [hone]
  by_cases ht : o.allocThreads = false
  · simp only [if_neg hw, if_neg hone, if_pos ht, if_true]
    refine ⟨rfl, h.nWorkers, ?_, .inr ⟨true, rfl⟩, by simp⟩
    exact running_of_threads_none h.threads
  simp only [if_neg hw, if_neg hone, if_neg ht, decide_eq_false hone]
  by_cases hg : o.gateInit = false
  · simp only [hg, if_true]
    exact ⟨rfl, h.nWorkers, hidle _ rfl, .inr ⟨true, rfl⟩, by simp⟩
  · simp only [if_neg hg]
    refine ⟨rfl, h.nWorkers, hidle _ rfl, .inr ⟨true, rfl⟩, ?_⟩
    simp
    omega

theorem poolBuildOk_iff (p : WorkerPool) (built : ℕ) :
    poolBuildOk p built = true ↔ 1 ≤ built ∧ (p.allOrNothing = true →
      (if p.inlineRun then 1 else p.nPref) ≤ (built : ℤ)) := by
  unfold poolBuildOk
  by_cases h : built = 0
  · simp [h]
  · cases p.allOrNothing <;> simp [h, Nat.one_le_iff_ne_zero]

/-- Events that neither start anything nor free the storage. -/
def PoolEvent.winding : PoolEvent → Bool
  | .release _ => true
  | e => e.quiet

theorem winding_of_quiet {log : List PoolEvent} (h : ∀ e ∈ log, e.quiet = true) :
    ∀ e ∈ log, e.winding = true := by
  intro e he
  have := h e he
  cases e <;> first | rfl | exact this

theorem poolReleaseSlots_winding (n : ℕ) : ∀ e ∈ poolReleaseSlots n, e.winding = true := by
  intro e he
  obtain ⟨i, -, rfl⟩ := List.mem_map.mp he
  rfl

theorem winding_append {log log' : List PoolEvent} (h : ∀ e ∈ log, e.winding = true)
    (h' : ∀ e ∈ log', e.winding = true) : ∀ e ∈ log ++ log', e.winding = true := by
  intro e he
  rcases List.mem_append.mp he with he | he
  · exact h e he
  · exact h' e he

/-- A log prepares and constructs every slot at most once and frees nothing. -/
structure StartsOnce (log : List PoolEvent) : Prop where
  prepares : log.countP PoolEvent.isPrepare ≤ 1
  constructs : ∀ i, log.countP (PoolEvent.isConstruct i) ≤ 1
  noFree : .free ∉ log

theorem countP_winding {log : List PoolEvent} {f : PoolEvent → Bool}
    (h : ∀ e ∈ log, e.winding = true) (hf : ∀ e, e.winding = true → f e = false) :
    log.countP f = 0 :=
  List.countP_eq_zero.mpr fun e he => by simp [hf e (h e he)]

theorem isPrepare_of_winding (e : PoolEvent) (h : e.winding = true) : e.isPrepare = false := by
  cases e <;> first | rfl | cases h

theorem isConstruct_of_winding (i : ℕ) (e : PoolEvent) (h : e.winding = true) :
    e.isConstruct i = false := by
  cases e <;> first | rfl | cases h

theorem StartsOnce.append {log log' : List PoolEvent} (h : StartsOnce log)
    (h' : ∀ e ∈ log', e.winding = true) : StartsOnce (log ++ log') := by
  refine ⟨?_, fun i => ?_, ?_⟩
  · rw [List.countP_append, countP_winding h' isPrepare_of_winding]
    exact h.prepares
  · rw [List.countP_append, countP_winding h' (isConstruct_of_winding i)]
    exact h.constructs i
  · rw [List.mem_append, not_or]
    exact ⟨h.noFree, fun he => by cases h' _ he⟩

/-- What retiring `built` slots does. -/
structure RetireLaw (p : WorkerPool) (built : ℕ) (r : WorkerPool × List PoolEvent) : Prop where
  frame : StartFrame p r.1
  workers : r.1.workers = p.workers
  nWorkers : r.1.nWorkers = built ∨ r.1.nWorkers = 0
  replays : replay ledgerStep ⟨p.running, Finset.range built, none⟩ r.2 = some r.1.ledger
  winding : ∀ e ∈ r.2, e.winding = true

theorem poolRetireFailedStart_law (p : WorkerPool) (built : ℕ) (o : StopOutcome) :
    RetireLaw p built (poolRetireFailedStart p built o) := by
  have hstop := workerPoolStop_law { p with nWorkers := built } o
  unfold poolRetireFailedStart
  simp only
  set f := workerPoolStop { p with nWorkers := built } o with hf
  have hdown : replay ledgerStep ⟨p.running, Finset.range built, none⟩ f.log =
      some ⟨f.pool.running, Finset.range built, none⟩ := hstop.replays (Finset.range built)
  have hframe : StartFrame p f.pool := by
    rw [StartFrame, hstop.frame.rest]
  have hn : f.pool.nWorkers = built := by rw [hstop.frame.rest]
  have hw : f.pool.workers = p.workers := by rw [hstop.frame.rest]
  split
  · refine ⟨hframe, hw, .inl hn, ?_, winding_of_quiet hstop.quiet⟩
    rw [WorkerPool.ledger, hn]
    exact hdown
  · rename_i hok
    have hidle := hstop.ok.mp (by simpa using hok)
    rw [hidle] at hdown
    refine ⟨hframe.trans rfl, hw, .inr rfl, ?_,
      winding_append (winding_of_quiet hstop.quiet) (poolReleaseSlots_winding built)⟩
    rw [WorkerPool.ledger,
      show WorkerPool.running { f.pool with nWorkers := 0 } = ∅ from hidle]
    exact replay_trans hdown (poolReleaseSlots_replays built)

/-- What a start on a fresh pool does. -/
structure StartLaw (p : WorkerPool) (c : PoolCall) : Prop where
  frame : StartFrame p c.pool
  up : c.ok = true ↔ c.pool.up
  replays : replay ledgerStep ⟨∅, ∅, none⟩ c.log = some c.pool.ledger
  once : StartsOnce c.log
  /-- A start that succeeds ends with the number of slots it constructed. -/
  built : c.ok = true → ∃ pre, c.log = pre ++ [.finalize c.pool.nWorkers] ∧
    ∀ i < c.pool.nWorkers, .construct i true ∈ pre

theorem workerPoolStart_law (p : WorkerPool) (o : StartOutcome) (h : p.Fresh) :
    StartLaw p (workerPoolStart p o) := by
  have hset := poolSetup_law p o h
  unfold workerPoolStart
  set c := poolSetup p o with hc
  have hledger : replay ledgerStep ⟨∅, ∅, none⟩ c.log = some ⟨∅, ∅, none⟩ := by
    rcases hset.log with hlog | ⟨ok, hlog⟩ <;> simp [hlog, ledgerStep]
  have honce : StartsOnce c.log := by
    rcases hset.log with hlog | ⟨ok, hlog⟩ <;>
      exact ⟨by simp [hlog, PoolEvent.isPrepare], by simp [hlog, PoolEvent.isConstruct],
        by simp [hlog]⟩
  have hcons (i : ℕ) : c.log.countP (PoolEvent.isConstruct i) = 0 := by
    rcases hset.log with hlog | ⟨ok, hlog⟩ <;> simp [hlog, PoolEvent.isConstruct]
  simp only
  split
  · rename_i hok
    refine ⟨hset.frame, ?_, ?_, honce, by simp [hok]⟩
    · simp [hok, WorkerPool.up, hset.nWorkers]
    · rw [hledger, WorkerPool.ledger, hset.running, hset.nWorkers]
      rfl
  rename_i hok
  obtain ⟨hpos, hworkers, hinline, hthreads⟩ := hset.ready (by simpa using hok)
  -- an inline pool has one slot, so all slots are tried and all are needed
  have hneed : (if c.pool.inlineRun then 1 else c.pool.nPref) = c.pool.nPref := by
    split
    · rename_i hin
      exact (hinline.mp hin).symm
    · rfl
  have hlimit : (if c.pool.inlineRun then 1 else c.pool.nPref.toNat) = c.pool.nPref.toNat := by
    split
    · rename_i hin
      rw [hinline.mp hin]
      rfl
    · rfl
  have hrun : ConstructRun c.pool 0 c.pool.nPref.toNat (poolConstructAll c.pool o) := by
    rw [poolConstructAll, hlimit]
    exact poolConstructFrom_run o _ 0 c.pool (by omega) hthreads (by simp [hset.running])
  set r := poolConstructAll c.pool o with hr
  have hreplay := hrun.replays
  rw [hset.running, Finset.range_zero] at hreplay
  have hframe : StartFrame p r.2.1 := hset.frame.trans (by rw [StartFrame, hrun.rest])
  have hle : (r.1 : ℤ) ≤ c.pool.nPref := by
    have := hrun.bounds.2
    omega
  have hle' : (r.1 : ℤ) ≤ r.2.1.nPref := by rw [hrun.rest]; exact hle
  have hbuild : poolBuildOk r.2.1 r.1 = true ↔ 1 ≤ r.1 ∧
      (r.2.1.allOrNothing = true → (r.1 : ℤ) = r.2.1.nPref) := by
    rw [poolBuildOk_iff, hrun.rest]
    simp only [hneed]
    exact and_congr_right fun _ => imp_congr_right fun _ =>
      ⟨fun hge => by omega, fun he => by omega⟩
  have hworkers' : r.2.1.workers = true := by rw [hrun.rest]; exact hworkers
  have honce' : StartsOnce (c.log ++ r.2.2) := by
    refine ⟨?_, fun i => ?_, ?_⟩
    · rw [List.countP_append, hrun.noPrepare]
      exact honce.prepares
    · rw [List.countP_append, hcons i]
      simpa using hrun.constructs i
    · rw [List.mem_append, not_or]
      exact ⟨honce.noFree, hrun.noFree⟩
  have hall := replay_trans hledger hreplay
  split
  · -- too few came up
    rename_i hb
    have hret := poolRetireFailedStart_law r.2.1 r.1 o.stop
    refine ⟨hframe.trans hret.frame, ?_, replay_trans hall hret.replays,
      honce'.append hret.winding, by simp⟩
    have hnot : ¬(poolBuildOk r.2.1 r.1 = true) := by simp [hb]
    rw [hbuild] at hnot
    simp only [Bool.false_eq_true, false_iff]
    rintro ⟨-, hn, -, haon⟩
    rw [hret.frame] at haon
    rcases hret.nWorkers with hk | hk
    · exact hnot ⟨hk ▸ hn, fun ha => by simpa [hk] using haon ha⟩
    · omega
  · rename_i hb
    refine ⟨hframe.trans rfl, ?_, replay_trans hall rfl, honce'.append ?_, fun _ =>
      ⟨c.log ++ r.2.2, rfl, fun i hi => ?_⟩⟩
    · simpa [WorkerPool.up, hworkers', hle'] using hbuild.mp (by simpa using hb)
    · simp [PoolEvent.winding, PoolEvent.quiet]
    · have hcount := ledger_slots hall i
      have hlive : i ∈ Finset.range r.1 := Finset.mem_range.mpr hi
      simp only [Finset.notMem_empty, if_false, hlive, if_true] at hcount
      exact List.count_pos_iff.mp (by omega)

/-! ### A start that brings up every worker -/

/-- The events of the `k` slots from `i` on coming up one after the other. -/
def builtLog (inlineRun : Bool) (i k : ℕ) : List PoolEvent :=
  (List.range' i k).flatMap fun j =>
    .construct j true :: if inlineRun then [] else [.spawn j true]

theorem poolConstructOne_ok {p : WorkerPool} {i : ℕ} {o : StartOutcome}
    (h : (poolConstructOne p i o).ok = true) :
    o.construct i = true ∧ (poolConstructOne p i o).pool.inlineRun = p.inlineRun ∧
      (poolConstructOne p i o).log =
        .construct i true :: if p.inlineRun then [] else [.spawn i true] := by
  unfold poolConstructOne at h ⊢
  split
  · rename_i hc
    simp [hc] at h
  rename_i hc
  have hc : o.construct i = true := by simpa using hc
  split
  · rename_i hin
    exact ⟨hc, rfl, by simp⟩
  rename_i hin
  split
  · exact ⟨hc, rfl, by simp⟩
  · rename_i hspawn
    simp [hc, hin, hspawn] at h

theorem poolConstructFrom_all {o : StartOutcome} {k i : ℕ} {p : WorkerPool}
    (h : (poolConstructFrom o k i p).1 = i + k) :
    (poolConstructFrom o k i p).2.2 = builtLog p.inlineRun i k ∧
      ∀ j, i ≤ j → j < i + k → o.construct j = true := by
  induction k generalizing i p with
  | zero => exact ⟨rfl, fun j _ _ => by omega⟩
  | succ k ih =>
    rw [poolConstructFrom] at h ⊢
    simp only at h ⊢
    split at h
    · simp only at h
      omega
    rename_i hok
    obtain ⟨hc, hin, hlog⟩ := poolConstructOne_ok (by simpa using hok)
    rw [if_neg hok]
    obtain ⟨hrest, hall⟩ := ih (i := i + 1) (h.trans (by omega))
    refine ⟨?_, fun j hj hj' => ?_⟩
    · rw [hrest, hlog, hin]
      simp [builtLog, List.range'_succ]
    · rcases eq_or_lt_of_le hj with rfl | hj
      · exact hc
      · exact hall j hj (by omega)

theorem poolSetup_ok {p : WorkerPool} {o : StartOutcome} (h : (poolSetup p o).ok = true) :
    o.prepare = true ∧ (poolSetup p o).log = [.prepare true] := by
  unfold poolSetup at h ⊢
  split
  · rename_i hpref
    simp [hpref] at h
  rename_i hpref
  split
  · rename_i hprep
    simp [hpref, hprep] at h
  rename_i hprep
  refine ⟨by simpa using hprep, ?_⟩
  simp only
  repeat' split
  all_goals rfl

/-- An all-or-nothing pool that starts has prepared, then constructed every slot
in order, and released none. -/
theorem workerPoolStart_all {p : WorkerPool} {o : StartOutcome} (h : p.Fresh)
    (haon : p.allOrNothing = true) (hok : (workerPoolStart p o).ok = true) :
    let n := (workerPoolStart p o).pool.nWorkers
    (n : ℤ) = p.nPref ∧ o.prepare = true ∧ (∀ j < n, o.construct j = true) ∧
      ∃ inlineRun, (workerPoolStart p o).log =
        .prepare true :: builtLog inlineRun 0 n ++ [.finalize n] := by
  have hlaw := workerPoolStart_law p o h
  obtain ⟨-, -, -, hn⟩ := hlaw.up.mp hok
  rw [hlaw.frame] at hn
  replace hn : ((workerPoolStart p o).pool.nWorkers : ℤ) = p.nPref := hn haon
  have hset := poolSetup_law p o h
  unfold workerPoolStart at hok hn ⊢
  simp only at hok hn ⊢
  split at hok
  · rename_i hs
    simp [hs] at hok
  rename_i hs
  rw [if_neg hs] at hn ⊢
  split at hok
  · simp at hok
  rename_i hb
  rw [if_neg hb] at hn ⊢
  simp only at hn ⊢
  obtain ⟨hprep, hlog⟩ := poolSetup_ok (by simpa using hs)
  obtain ⟨hpos, -, hinline, -⟩ := hset.ready (by simpa using hs)
  have hpref : (poolSetup p o).pool.nPref = p.nPref := by rw [hset.frame]
  -- an inline pool has one slot, so the loop runs over all slots asked for
  have hlimit : (if (poolSetup p o).pool.inlineRun then 1
      else (poolSetup p o).pool.nPref.toNat) = (poolConstructAll (poolSetup p o).pool o).1 := by
    split
    · rename_i hin
      have := hinline.mp hin
      omega
    · omega
  obtain ⟨hbuilt, hcons⟩ := poolConstructFrom_all (o := o) (i := 0) (p := (poolSetup p o).pool)
    (hlimit.symm.trans (Nat.zero_add _).symm)
  refine ⟨hn, hprep, fun j hj => hcons j (Nat.zero_le j) ?_, (poolSetup p o).pool.inlineRun, ?_⟩
  · rw [hlimit]
    omega
  · have hlog' : (poolConstructAll (poolSetup p o).pool o).2.2 =
        builtLog (poolSetup p o).pool.inlineRun 0 (poolConstructAll (poolSetup p o).pool o).1 := by
      rw [← hlimit]
      exact hbuilt
    rw [hlog, hlog']
    rfl

theorem poolConstructFrom_complete {o : StartOutcome} (hcons : ∀ i, o.construct i = true)
    (hspawn : ∀ i, o.spawn i = true) (k i : ℕ) (p : WorkerPool) :
    (poolConstructFrom o k i p).1 = i + k := by
  induction k generalizing i p with
  | zero => rfl
  | succ k ih =>
    have hok : (poolConstructOne p i o).ok = true := by
      unfold poolConstructOne
      rw [if_neg (by simp [hcons])]
      split
      · rfl
      · rw [if_pos (hspawn i)]
    rw [poolConstructFrom]
    simp only [hok, Bool.true_eq_false, if_false]
    rw [ih]
    omega

/-- A start without construct or spawn failures brings every worker up. -/
theorem workerPoolStart_complete {p : WorkerPool} {o : StartOutcome} (h : p.Fresh)
    (hcons : ∀ i, o.construct i = true) (hspawn : ∀ i, o.spawn i = true)
    (hok : (workerPoolStart p o).ok = true) :
    ((workerPoolStart p o).pool.nWorkers : ℤ) = p.nPref := by
  have hset := poolSetup_law p o h
  have hpref : (poolSetup p o).pool.nPref = p.nPref := by rw [hset.frame]
  unfold workerPoolStart at hok ⊢
  dsimp only at hok ⊢
  by_cases hs : (poolSetup p o).ok = false
  · rw [if_pos hs, hs] at hok
    cases hok
  obtain ⟨hpos, -, hinline, -⟩ := hset.ready (by simpa using hs)
  rw [if_neg hs] at hok ⊢
  split at hok
  · cases hok
  rename_i hbuild
  rw [if_neg hbuild]
  show ((poolConstructAll (poolSetup p o).pool o).1 : ℤ) = p.nPref
  rw [poolConstructAll, poolConstructFrom_complete hcons hspawn]
  split
  · rename_i hin
    have := hinline.mp hin
    omega
  · omega

/-! ### The life of a pool -/

/-- Where a pool stands after the events `log`. -/
inductive PoolStage (p : WorkerPool) (log : List PoolEvent) : Prop
  | fresh (hfresh : p.Fresh) (hdone : p.lazyDone = false) (hfailed : p.lazyFailed = false)
      (hlog : ∀ e ∈ log, e.winding = true)
  | failed (hdone : p.lazyDone = false) (hfailed : p.lazyFailed = true) (hup : ¬p.up)
      (hlog : .free ∈ log → p.nWorkers = 0)
  | up (hdone : p.lazyDone = true) (hup : p.up) (hlog : .free ∉ log)
  | down (hdone : p.lazyDone = true) (hn : p.nWorkers = 0) (hlog : .free ∈ log)

/-- What holds of the pool and its past between two operations. -/
structure PoolInv (p : WorkerPool) (log : List PoolEvent) : Prop where
  replays : replay ledgerStep ⟨∅, ∅, none⟩ log = some p.ledger
  prepares : log.countP PoolEvent.isPrepare ≤ 1
  constructs : ∀ i, log.countP (PoolEvent.isConstruct i) ≤ 1
  stage : PoolStage p log

theorem up_of_stopFrame {p p' : WorkerPool} (h : StopFrame p p') : p'.up ↔ p.up := by
  rw [WorkerPool.up, h.rest]
  rfl

theorem ledger_of_stop {p : WorkerPool} {o : StopOutcome} {c : PoolCall} (h : StopLaw p o c) :
    replay ledgerStep p.ledger c.log = some c.pool.ledger := by
  have hn : c.pool.nWorkers = p.nWorkers := by rw [h.frame.rest]
  rw [WorkerPool.ledger, WorkerPool.ledger, hn]
  exact h.replays _

/-- An operation that only winds down, leaving the slots alone. -/
theorem PoolInv.wind {p p' : WorkerPool} {log new : List PoolEvent} (h : PoolInv p log)
    (hframe : StopFrame p p') (hreplay : replay ledgerStep p.ledger new = some p'.ledger)
    (hnew : ∀ e ∈ new, e.winding = true) : PoolInv p' (log ++ new) := by
  have hdone : p'.lazyDone = p.lazyDone := by rw [hframe.rest]
  have hfailed : p'.lazyFailed = p.lazyFailed := by rw [hframe.rest]
  have hn : p'.nWorkers = p.nWorkers := by rw [hframe.rest]
  have hw : p'.workers = p.workers := by rw [hframe.rest]
  refine ⟨replay_trans h.replays hreplay, ?_, fun i => ?_, ?_⟩
  · rw [List.countP_append, countP_winding hnew isPrepare_of_winding]
    exact h.prepares
  · rw [List.countP_append, countP_winding hnew (isConstruct_of_winding i)]
    exact h.constructs i
  · cases h.stage with
    | fresh hf hd hfl hlog =>
      exact .fresh ⟨hw.trans hf.workers, hframe.threads hf.threads, hn.trans hf.nWorkers⟩
        (hdone.trans hd) (hfailed.trans hfl) (winding_append hlog hnew)
    | failed hd hfl hup hlog =>
      refine .failed (hdone.trans hd) (hfailed.trans hfl) (mt (up_of_stopFrame hframe).mp hup) ?_
      intro hmem
      rcases List.mem_append.mp hmem with hmem | hmem
      · exact hn.trans (hlog hmem)
      · cases hnew _ hmem
    | up hd hup hlog =>
      refine .up (hdone.trans hd) ((up_of_stopFrame hframe).mpr hup) fun hmem => ?_
      rcases List.mem_append.mp hmem with hmem | hmem
      · exact hlog hmem
      · cases hnew _ hmem
    | down hd hzero hlog =>
      exact .down (hdone.trans hd) (hn.trans hzero) (List.mem_append_left _ hlog)

theorem PoolInv.ensureStarted {p : WorkerPool} {log : List PoolEvent} (h : PoolInv p log)
    (o : StartOutcome) :
    PoolInv (workerPoolEnsureStarted p o).pool (log ++ (workerPoolEnsureStarted p o).log) := by
  unfold workerPoolEnsureStarted
  split
  · simpa using h
  split
  · simpa using h
  rename_i hdone hfailed
  have hfresh : p.Fresh ∧ ∀ e ∈ log, e.winding = true := by
    cases h.stage with
    | fresh hf _ _ hlog => exact ⟨hf, hlog⟩
    | failed _ hf => exact absurd hf hfailed
    | up hd | down hd => exact absurd hd hdone
  obtain ⟨hfresh, hlog⟩ := hfresh
  have hstart := workerPoolStart_law p o hfresh
  have hledger : p.ledger = ⟨∅, ∅, none⟩ := by
    rw [WorkerPool.ledger, running_of_threads_none hfresh.threads, hfresh.nWorkers]
    rfl
  have hreplay : replay ledgerStep ⟨∅, ∅, none⟩ (log ++ (workerPoolStart p o).log) =
      some (workerPoolStart p o).pool.ledger :=
    replay_trans (h.replays.trans (congrArg some hledger)) hstart.replays
  have hprep : (log ++ (workerPoolStart p o).log).countP PoolEvent.isPrepare ≤ 1 := by
    rw [List.countP_append, countP_winding hlog isPrepare_of_winding, Nat.zero_add]
    exact hstart.once.prepares
  have hcons (i : ℕ) :
      (log ++ (workerPoolStart p o).log).countP (PoolEvent.isConstruct i) ≤ 1 := by
    rw [List.countP_append, countP_winding hlog (isConstruct_of_winding i), Nat.zero_add]
    exact hstart.once.constructs i
  simp only
  split
  · rename_i hok
    refine ⟨hreplay, hprep, hcons, .failed ?_ rfl (fun hup => ?_) fun hmem => ?_⟩
    · have hd : (workerPoolStart p o).pool.lazyDone = p.lazyDone := by rw [hstart.frame]
      exact hd.trans (by simpa using hdone)
    · rw [hstart.up.mpr hup] at hok
      cases hok
    · rcases List.mem_append.mp hmem with hmem | hmem
      · cases hlog _ hmem
      · exact absurd hmem hstart.once.noFree
  · rename_i hok
    refine ⟨hreplay, hprep, hcons, .up rfl (hstart.up.mp (by simpa using hok)) fun hmem => ?_⟩
    rcases List.mem_append.mp hmem with hmem | hmem
    · cases hlog _ hmem
    · exact hstart.once.noFree hmem

theorem PoolInv.destroy {p : WorkerPool} {log : List PoolEvent} (h : PoolInv p log)
    (o : StopOutcome) :
    PoolInv (workerPoolDestroy p o).pool (log ++ (workerPoolDestroy p o).log) := by
  have hstop := workerPoolStop_law p o
  have hwind := h.wind hstop.frame (ledger_of_stop hstop) (winding_of_quiet hstop.quiet)
  unfold workerPoolDestroy
  set c := workerPoolStop p o with hc
  simp only
  split
  · exact hwind
  rename_i hok
  have hidle := hstop.ok.mp (by simpa using hok)
  -- with every thread joined the slots, and then the storage, can go
  have hreplay : replay ledgerStep c.pool.ledger (poolReleaseSlots c.pool.nWorkers ++
      if c.pool.workers = true then [.free] else []) = some ⟨∅, ∅, none⟩ := by
    rw [WorkerPool.ledger, hidle]
    refine replay_trans (poolReleaseSlots_replays _) ?_
    split
    · simp [ledgerStep]
    · rfl
  have hquiet (f : PoolEvent → Bool) (hf : ∀ e, e.winding = true → f e = false)
      (hfree : f PoolEvent.free = false) :
      (poolReleaseSlots c.pool.nWorkers ++
        if c.pool.workers = true then [PoolEvent.free] else []).countP f = 0 := by
    rw [List.countP_append, countP_winding (poolReleaseSlots_winding _) hf]
    split <;> simp [hfree]
  rw [List.append_assoc, ← List.append_assoc log]
  refine ⟨?_, ?_, fun i => ?_, ?_⟩
  · refine (replay_trans hwind.replays hreplay).trans ?_
    rw [WorkerPool.ledger, running_of_threads_none rfl]
    rfl
  · rw [List.countP_append, hquiet _ isPrepare_of_winding rfl]
    exact hwind.prepares
  · rw [List.countP_append, hquiet _ (isConstruct_of_winding i) rfl]
    exact hwind.constructs i
  · cases hwind.stage with
    | fresh hf hd hfl hlog =>
      refine .fresh ⟨rfl, rfl, rfl⟩ hd hfl (winding_append hlog ?_)
      simpa [hf.workers] using poolReleaseSlots_winding c.pool.nWorkers
    | failed hd hfl _ _ => exact .failed hd hfl (by simp [WorkerPool.up]) fun _ => rfl
    | up hd hup _ => exact .down hd rfl (by simp [hup.1])
    | down hd _ hlog => exact .down hd rfl (List.mem_append_left _ hlog)

theorem workerPoolPoison_frame (p : WorkerPool) (o : StopOutcome) :
    StopFrame p (workerPoolPoison p o).pool :=
  have hbroken : StopFrame p { p with broken := true } := ⟨rfl, id⟩
  hbroken.trans (workerPoolStop_law _ o).frame

theorem workerPoolDispatch_frame (p : WorkerPool) (gateOk : Bool) (o : StopOutcome) :
    StopFrame p (workerPoolDispatch p gateOk o).pool := by
  unfold workerPoolDispatch
  split
  · exact .refl p
  split
  · exact .refl p
  · exact workerPoolPoison_frame p o

theorem joinOne_broken (o : StopOutcome) (c : PoolCall) (i : ℕ) (h : c.pool.broken = true) :
    (joinOne o c i).pool.broken = true := by
  unfold joinOne
  split
  · exact h
  split
  · rfl
  · exact h

/-- A stop never mends a broken pool. -/
theorem workerPoolStop_broken (p : WorkerPool) (o : StopOutcome) (h : p.broken = true) :
    (workerPoolStop p o).pool.broken = true := by
  have hloop (js : List ℕ) (c : PoolCall) (hc : c.pool.broken = true) :
      (js.foldl (joinOne o) c).pool.broken = true := by
    induction js generalizing c with
    | nil => exact hc
    | cons j js ih => exact ih _ (joinOne_broken o c j hc)
  unfold workerPoolStop
  split
  · exact h
  · refine hloop _ _ ?_
    split
    · exact h
    · rfl

theorem workerPoolPoison_broken (p : WorkerPool) (o : StopOutcome) :
    (workerPoolPoison p o).pool.broken = true :=
  workerPoolStop_broken _ o rfl

/-- A dispatch fails only through its gate, and leaves the pool broken. -/
theorem workerPoolDispatch_failed {p : WorkerPool} {gateOk : Bool} {o : StopOutcome}
    (h : (workerPoolDispatch p gateOk o).ok = false) :
    p.inlineRun = false ∧ gateOk = false ∧ (workerPoolDispatch p gateOk o).pool.broken = true := by
  unfold workerPoolDispatch at h ⊢
  split at h
  · cases h
  rename_i hinline
  split at h
  · cases h
  rename_i hgate
  rw [if_neg hinline, if_neg hgate]
  exact ⟨by simpa using hinline, by simpa using hgate, workerPoolPoison_broken p o⟩

theorem PoolInv.call {p : WorkerPool} {log : List PoolEvent} (h : PoolInv p log) (op : PoolOp) :
    PoolInv (poolCall p op).pool (log ++ (poolCall p op).log) := by
  have hpoison (o : StopOutcome) :
      PoolInv (workerPoolPoison p o).pool (log ++ (workerPoolPoison p o).log) := by
    have hstop := workerPoolStop_law { p with broken := true } o
    have hreplay := ledger_of_stop hstop
    exact h.wind (workerPoolPoison_frame p o) hreplay (winding_of_quiet hstop.quiet)
  cases op with
  | ensureStarted o => exact h.ensureStarted o
  | dispatch gateOk o =>
    simp only [poolCall, workerPoolDispatch]
    split
    · exact h.wind (.refl p) (by simp [ledgerStep, WorkerPool.ledger])
        (by simp [PoolEvent.winding, PoolEvent.quiet])
    split
    · simpa using h
    · exact hpoison o
  | poison o => exact hpoison o
  | destroy o => exact h.destroy o

theorem poolAfter_inv {p : WorkerPool} {log : List PoolEvent} (h : PoolInv p log)
    (ops : List PoolOp) : PoolInv (poolAfter p ops).1 (log ++ (poolAfter p ops).2) := by
  induction ops generalizing p log with
  | nil => simpa [poolAfter] using h
  | cons op ops ih =>
    rw [poolAfter]
    simp only
    rw [← List.append_assoc]
    exact ih (h.call op)

theorem workerPoolConfig_inv (nPref : ℤ) (allOrNothing : Bool) :
    PoolInv (workerPoolConfig nPref allOrNothing) [] := by
  refine ⟨?_, by simp, by simp, .fresh ⟨rfl, rfl, rfl⟩ rfl rfl (by simp)⟩
  rw [WorkerPool.ledger, running_of_threads_none rfl]
  rfl

/-! ### The law -/

/-- Every thread spawned so far has been joined. -/
def Reaped (log : List PoolEvent) : Prop :=
  ∀ i, log.count (.spawn i true) = log.count (.join i true)

/-- What holds of a pool `p` with the past `log`. -/
structure PoolLaw (p : WorkerPool) (log : List PoolEvent) : Prop where
  /-- The slots constructed and not yet released are the live ones. -/
  live : ∀ i, log.count (.construct i true) =
    log.count (.release i) + if i < p.nWorkers then 1 else 0
  rejected : ∀ i, .construct i false ∈ log → .release i ∉ log
  /-- No slot is released beside a running thread, but for the one whose own
  thread has just failed to spawn. -/
  released : ∀ pre i post, log = pre ++ .release i :: post →
    Reaped pre ∨ ∃ pre', pre = pre' ++ [.spawn i false]
  freed : ∀ pre post, log = pre ++ .free :: post → Reaped pre
  once : log.countP PoolEvent.isPrepare ≤ 1 ∧ ∀ i, log.countP (PoolEvent.isConstruct i) ≤ 1
  /-- A destroy that succeeds has released every slot once and freed the rest. -/
  destroyed : ∀ o, (workerPoolDestroy p o).ok = true →
    (∀ i, (log ++ (workerPoolDestroy p o).log).count (.construct i true) =
      (log ++ (workerPoolDestroy p o).log).count (.release i)) ∧
    Reaped (log ++ (workerPoolDestroy p o).log) ∧
    (p.workers = true → .free ∈ (workerPoolDestroy p o).log) ∧
    (workerPoolDestroy p o).pool.workers = false ∧ (workerPoolDestroy p o).pool.threads = none
  /-- A destroy that fails leaves a thread unjoined and keeps everything. -/
  kept : ∀ o, (workerPoolDestroy p o).ok = false →
    ¬Reaped (log ++ (workerPoolDestroy p o).log) ∧
    (∀ e ∈ (workerPoolDestroy p o).log, e.quiet = true) ∧
    StopFrame p (workerPoolDestroy p o).pool
  /-- A destroy whose joins work succeeds, whatever failed before. -/
  retried : ∀ o, (∀ i, o.join i = true) → (workerPoolDestroy p o).ok = true
  /-- While the storage is there, ensure_started says whether the pool is up. -/
  started : ∀ o, .free ∉ log →
    ((workerPoolEnsureStarted p o).ok = true ↔ (workerPoolEnsureStarted p o).pool.up)
  /-- After that it repeats its first answer and starts nothing. -/
  finished : ∀ o, .free ∈ log → p.nWorkers = 0 ∧
    workerPoolEnsureStarted p o = ⟨p.lazyDone, p, []⟩

theorem reaped_iff {p : Ledger} {log : List PoolEvent}
    (h : replay ledgerStep ⟨∅, ∅, none⟩ log = some p) : Reaped log ↔ p.threads = ∅ := by
  have hcount (i : ℕ) := ledger_threads h i
  simp only [Finset.notMem_empty, if_false, zero_add] at hcount
  rw [Finset.eq_empty_iff_forall_notMem]
  refine forall_congr' fun i => ?_
  rw [hcount i]
  by_cases hi : i ∈ p.threads <;> simp [hi]

theorem constructs_le (log : List PoolEvent) (i : ℕ) :
    log.count (.construct i true) + log.count (.construct i false) ≤
      log.countP (PoolEvent.isConstruct i) := by
  induction log with
  | nil => simp
  | cons e log ih =>
    rw [List.count_cons, List.count_cons, List.countP_cons]
    cases e with
    | construct j ok =>
      cases ok <;> by_cases hj : j = i <;> simp [PoolEvent.isConstruct, hj] <;> omega
    | _ => simpa [PoolEvent.isConstruct] using ih

section Law

variable {p : WorkerPool} {log : List PoolEvent}

/-- A destroy that succeeds has let go of everything. -/
theorem workerPoolDestroy_done {o : StopOutcome} (hok : (workerPoolDestroy p o).ok = true) :
    (workerPoolDestroy p o).pool.nWorkers = 0 ∧ (workerPoolDestroy p o).pool.workers = false ∧
      (workerPoolDestroy p o).pool.threads = none ∧
      (p.workers = true → .free ∈ (workerPoolDestroy p o).log) := by
  have hworkers : (workerPoolStop p o).pool.workers = p.workers := by
    rw [(workerPoolStop_law p o).frame.rest]
  unfold workerPoolDestroy at hok ⊢
  simp only at hok ⊢
  split at hok
  · rename_i hbad
    rw [hbad] at hok
    cases hok
  · rename_i hgood
    rw [if_neg hgood]
    exact ⟨rfl, rfl, rfl, fun hp => by simp [hworkers, hp]⟩

/-- A destroy that fails is no more than its stop. -/
theorem workerPoolDestroy_failed {o : StopOutcome} (hok : (workerPoolDestroy p o).ok = false) :
    workerPoolDestroy p o = workerPoolStop p o := by
  unfold workerPoolDestroy at hok ⊢
  simp only at hok ⊢
  split at hok
  · rename_i hbad
    rw [if_pos hbad]
  · cases hok

theorem PoolInv.slots (h : PoolInv p log) (i : ℕ) : log.count (.construct i true) =
    log.count (.release i) + if i < p.nWorkers then 1 else 0 := by
  simpa [WorkerPool.ledger] using ledger_slots h.replays i

theorem PoolInv.rejected (h : PoolInv p log) {i : ℕ} (hfail : .construct i false ∈ log)
    (hrel : .release i ∈ log) : False := by
  -- a slot is constructed once, and this one was rejected
  have hone := (constructs_le log i).trans (h.constructs i)
  have hrel := List.count_pos_iff.mpr hrel
  have hfail := List.count_pos_iff.mpr hfail
  have hslot := h.slots i
  omega

theorem PoolInv.released (h : PoolInv p log) {pre post : List PoolEvent} {i : ℕ}
    (hsplit : log = pre ++ .release i :: post) :
    Reaped pre ∨ ∃ pre', pre = pre' ++ [.spawn i false] := by
  rw [hsplit] at h
  obtain ⟨l, l', hpre, hstep, -⟩ := replay_split h.replays
  simp only [ledgerStep, Option.ite_none_right_eq_some] at hstep
  rcases hstep.1.2 with hnone | horphan
  · exact .inl ((reaped_iff hpre).mpr hnone)
  · exact .inr (ledger_orphan hpre rfl horphan)

theorem PoolInv.freed (h : PoolInv p log) {pre post : List PoolEvent}
    (hsplit : log = pre ++ .free :: post) : Reaped pre := by
  rw [hsplit] at h
  obtain ⟨l, l', hpre, hstep, -⟩ := replay_split h.replays
  simp only [ledgerStep, Option.ite_none_right_eq_some] at hstep
  exact (reaped_iff hpre).mpr hstep.1.1

theorem PoolInv.destroyed (h : PoolInv p log) {o : StopOutcome}
    (hok : (workerPoolDestroy p o).ok = true) :
    (∀ i, (log ++ (workerPoolDestroy p o).log).count (.construct i true) =
      (log ++ (workerPoolDestroy p o).log).count (.release i)) ∧
    Reaped (log ++ (workerPoolDestroy p o).log) ∧
    (p.workers = true → .free ∈ (workerPoolDestroy p o).log) ∧
    (workerPoolDestroy p o).pool.workers = false ∧
      (workerPoolDestroy p o).pool.threads = none := by
  obtain ⟨hn, hworkers, hthreads, hfree⟩ := workerPoolDestroy_done hok
  have hdestroy := h.destroy o
  refine ⟨fun i => ?_, (reaped_iff hdestroy.replays).mpr ?_, hfree, hworkers, hthreads⟩
  · simpa [hn] using hdestroy.slots i
  · exact running_of_threads_none hthreads

theorem PoolInv.kept (h : PoolInv p log) {o : StopOutcome}
    (hok : (workerPoolDestroy p o).ok = false) :
    ¬Reaped (log ++ (workerPoolDestroy p o).log) ∧
    (∀ e ∈ (workerPoolDestroy p o).log, e.quiet = true) ∧
    StopFrame p (workerPoolDestroy p o).pool := by
  have hstop := workerPoolStop_law p o
  have hreplays := (h.destroy o).replays
  have heq := workerPoolDestroy_failed hok
  rw [heq] at hok hreplays ⊢
  refine ⟨?_, hstop.quiet, hstop.frame⟩
  rw [reaped_iff hreplays]
  intro hnone
  rw [hstop.ok.mpr hnone] at hok
  cases hok

theorem PoolInv.started (h : PoolInv p log) (o : StartOutcome) (hfree : .free ∉ log) :
    (workerPoolEnsureStarted p o).ok = true ↔ (workerPoolEnsureStarted p o).pool.up := by
  unfold workerPoolEnsureStarted
  cases h.stage with
  | fresh hf hd hfl _ =>
    have hup := (workerPoolStart_law p o hf).up
    simp only [hd, hfl, Bool.false_eq_true, if_false]
    split
    · rename_i hok
      rw [hok] at hup
      exact hup
    · rename_i hok
      rw [Bool.not_eq_false] at hok
      rw [hok] at hup
      exact hup
  | failed hd hfl hup _ => simp [hd, hfl, hup]
  | up hd hup _ => simp [hd, hup]
  | down _ _ hlog => exact absurd hlog hfree

theorem PoolInv.finished (h : PoolInv p log) (o : StartOutcome) (hfree : .free ∈ log) :
    p.nWorkers = 0 ∧ workerPoolEnsureStarted p o = ⟨p.lazyDone, p, []⟩ := by
  unfold workerPoolEnsureStarted
  cases h.stage with
  | fresh _ _ _ hlog => cases hlog _ hfree
  | failed hd hfl _ hn => exact ⟨hn hfree, by simp [hd, hfl]⟩
  | up _ _ hlog => exact absurd hfree hlog
  | down hd hn _ => exact ⟨hn, by simp [hd]⟩

end Law

/-- **Worker-pool slots and threads.**  From a zero-initialised, configured pool
every sequence of operations, whatever fails in it, leads to a pool that obeys
the law. -/
theorem worker_pool_lifecycle (nPref : ℤ) (allOrNothing : Bool) (ops : List PoolOp) :
    PoolLaw (poolAfter (workerPoolConfig nPref allOrNothing) ops).1
      (poolAfter (workerPoolConfig nPref allOrNothing) ops).2 := by
  have hinv := poolAfter_inv (workerPoolConfig_inv nPref allOrNothing) ops
  rw [List.nil_append] at hinv
  exact
    { live := hinv.slots
      rejected := fun i hfail hrel => hinv.rejected hfail hrel
      released := fun pre i post hsplit => hinv.released hsplit
      freed := fun pre post hsplit => hinv.freed hsplit
      once := ⟨hinv.prepares, hinv.constructs⟩
      destroyed := fun o hok => hinv.destroyed hok
      kept := fun o hok => hinv.kept hok
      retried := fun o hjoin => by
        unfold workerPoolDestroy
        simp [(workerPoolStop_law _ o).joined hjoin]
      started := hinv.started
      finished := hinv.finished }

/-- Every call of a start works but the spawns from slot `k` on. -/
def spawnsBelow (k : ℕ) : StartOutcome where
  prepare := true
  allocWorkers := true
  allocThreads := true
  gateInit := true
  construct := fun _ => true
  spawn := fun i => decide (i < k)
  stop := ⟨true, fun _ => true⟩

/-- A slot released while thread 0 runs, its own spawn having failed; and
a started pool that answers 0 after its destroy. -/
theorem released_beside_running_thread :
    ((poolAfter (workerPoolConfig 2 false) [.ensureStarted (spawnsBelow 1)]).2 =
      [.prepare true, .construct 0 true, .spawn 0 true, .construct 1 true, .spawn 1 false] ++
        .release 1 :: [.finalize 1] ∧
      ¬Reaped [.prepare true, .construct 0 true, .spawn 0 true, .construct 1 true,
        .spawn 1 false]) ∧
    (workerPoolEnsureStarted (poolAfter (workerPoolConfig 2 true)
        [.ensureStarted (spawnsBelow 2), .destroy ⟨true, fun _ => true⟩]).1 (spawnsBelow 2)).ok =
      true ∧
    (poolAfter (workerPoolConfig 2 true)
      [.ensureStarted (spawnsBelow 2), .destroy ⟨true, fun _ => true⟩]).1.nWorkers = 0 :=
  ⟨⟨rfl, fun h => absurd (h 0) (by decide)⟩, rfl, rfl⟩

end AutoUpscale
