/-
The status of a USM call, over whole runs of a pool.

`usmPoolApplyOps` are the worker-pool operations one call makes; a run of calls
is a run of these operations.  `UsmExit` lists the ways out of a call in the
order of the source.

* **`usm_status_contract`** — from a created pool, after any calls: a call that
  reports `failedUnchanged` writes nothing, an uncertain output ends the pool, a
  failed start is never repeated, and rejected arguments leave the pool alone.
* `negative_amount_after_failed_start` — the exception to the third part is a
  negative amount: it is clamped to zero, which needs no start.
-/
import AutoUpscale.UsmInPlace

namespace AutoUpscale

open PlaneMemory

/-! ### The pool operations of a call -/

/-- How the calls of a start turn out, given the hooks of this pool. -/
def usmPoolStartOutcome (p : UsmPool) (o : StartOutcome) : StartOutcome :=
  { o with prepare := usmPoolAllocScratch p o.prepare, construct := fun _ => true }

/-- The worker-pool operations of `up_usm_pool_apply`. -/
def usmPoolApplyOps (p : UsmPool) (c : UsmCall) (o : UsmOutcome) : List PoolOp :=
  match c.dst, c.src with
  | some _, some _ =>
    if usmPoolValidateArgs p c = false then []
    else if p.pool.broken then []
    else if clampAmountQ8 c.amountQ8 = 0 then []
    else
      let start := .ensureStarted (usmPoolStartOutcome p o.start)
      if (usmPoolEnsureStarted p o.start).1 = false then [start]
      else [start, .dispatch o.gateOk o.stop]
  | _, _ => []

/-- The events of one call: every allocation, spawn, join and so on it tries. -/
def usmPoolApplyEvents (p : UsmPool) (c : UsmCall) (o : UsmOutcome) : List PoolEvent :=
  (poolAfter p.pool (usmPoolApplyOps p c o)).2

/-- A call with the outcomes of what it calls and the memory it finds. -/
structure UsmFrame where
  call : UsmCall
  outcome : UsmOutcome
  memory : Memory

def UsmFrame.apply (f : UsmFrame) (p : UsmPool) : UsmApplied :=
  usmPoolApply p f.call f.outcome f.memory

/-- The pool after a sequence of calls; the memory may change in between. -/
def usmPoolAfter (p : UsmPool) (frames : List UsmFrame) : UsmPool :=
  frames.foldl (fun p f => (f.apply p).pool) p

/-- A call wrote nothing: the memory is what it found, however it ends. -/
def UsmFrame.Unwritten (f : UsmFrame) (p : UsmPool) : Prop :=
  ∀ m', (f.apply p).Ends m' → m' = f.memory

/-- A call tries to start the pool, and fails. -/
def UsmFrame.StartFails (f : UsmFrame) (p : UsmPool) : Prop :=
  ∃ o, .ensureStarted o ∈ usmPoolApplyOps p f.call f.outcome ∧
    (workerPoolEnsureStarted p.pool o).ok = false

/-- The arguments `up_usm_pool_apply` refuses. -/
def UsmCall.Rejected (c : UsmCall) (p : UsmPool) : Prop :=
  c.dst = none ∨ c.src = none ∨ c.dstStride < p.width ∨ c.srcStride < p.width ∨
    c.dst = c.src ∧ c.dstStride ≠ c.srcStride

/-! ### The exits of a call -/

theorem usmPoolValidateArgs_eq_false (p : UsmPool) (c : UsmCall) :
    usmPoolValidateArgs p c = false ↔ c.Rejected p := by
  unfold usmPoolValidateArgs usmPlaneArgsOk UsmCall.Rejected
  grind

/-- The exits of a call, in the order of the source. -/
inductive UsmExit (p : UsmPool) (f : UsmFrame) : Prop
  | rejected (hargs : f.call.Rejected p)
      (hcall : f.apply p = ⟨.failedUnchanged, p, f.memory, false⟩)
      (hops : usmPoolApplyOps p f.call f.outcome = [])
  | broken (hargs : ¬ f.call.Rejected p) (hbroken : p.pool.broken = true)
      (hcall : f.apply p = ⟨.failedUnchanged, p, f.memory, false⟩)
      (hops : usmPoolApplyOps p f.call f.outcome = [])
  | identity (hargs : ¬ f.call.Rejected p) (hbroken : p.pool.broken = false)
      (hzero : clampAmountQ8 f.call.amountQ8 = 0)
      (hstatus : (f.apply p).status = .ok) (hpool : (f.apply p).pool = p)
      (hops : usmPoolApplyOps p f.call f.outcome = [])
  | startFailed (hargs : ¬ f.call.Rejected p) (hbroken : p.pool.broken = false)
      (hzero : clampAmountQ8 f.call.amountQ8 ≠ 0)
      (hstart : (usmPoolEnsureStarted p f.outcome.start).1 = false)
      (hcall : f.apply p =
        ⟨.failedUnchanged, (usmPoolEnsureStarted p f.outcome.start).2, f.memory, false⟩)
      (hops : usmPoolApplyOps p f.call f.outcome =
        [.ensureStarted (usmPoolStartOutcome p f.outcome.start)])
  | dispatched (hargs : ¬ f.call.Rejected p) (hbroken : p.pool.broken = false)
      (hzero : clampAmountQ8 f.call.amountQ8 ≠ 0)
      (hstart : (usmPoolEnsureStarted p f.outcome.start).1 = true)
      (hstatus : (f.apply p).status =
        if (workerPoolDispatch (usmPoolEnsureStarted p f.outcome.start).2.pool f.outcome.gateOk
          f.outcome.stop).ok then .ok else .outputUncertain)
      (hpool : (f.apply p).pool.pool =
        (workerPoolDispatch (usmPoolEnsureStarted p f.outcome.start).2.pool f.outcome.gateOk
          f.outcome.stop).pool)
      (hdispatched : (f.apply p).dispatched = true)
      (hops : usmPoolApplyOps p f.call f.outcome =
        [.ensureStarted (usmPoolStartOutcome p f.outcome.start),
          .dispatch f.outcome.gateOk f.outcome.stop])

theorem usmPoolApply_exit (p : UsmPool) (f : UsmFrame) : UsmExit p f := by
  obtain ⟨⟨dst, dstStride, src, srcStride, amountQ8⟩, o, m⟩ := f
  by_cases hargs : UsmCall.Rejected ⟨dst, dstStride, src, srcStride, amountQ8⟩ p
  · refine .rejected hargs ?_ ?_
    all_goals
      have hvalid := (usmPoolValidateArgs_eq_false p _).mpr hargs
      cases dst <;> cases src <;> simp [UsmFrame.apply, usmPoolApply, usmPoolApplyOps, hvalid]
  obtain ⟨dst, rfl⟩ : ∃ d, dst = some d :=
    Option.ne_none_iff_exists'.mp fun h => hargs (.inl h)
  obtain ⟨src, rfl⟩ : ∃ s, src = some s :=
    Option.ne_none_iff_exists'.mp fun h => hargs (.inr (.inl h))
  have hvalid : usmPoolValidateArgs p ⟨some dst, dstStride, some src, srcStride, amountQ8⟩ ≠
      false := fun h => hargs ((usmPoolValidateArgs_eq_false p _).mp h)
  by_cases hbroken : p.pool.broken = true
  · refine .broken hargs hbroken ?_ ?_ <;>
      simp [UsmFrame.apply, usmPoolApply, usmPoolApplyOps, hvalid, hbroken]
  have hbroken' : p.pool.broken = false := by simpa using hbroken
  by_cases hzero : clampAmountQ8 amountQ8 = 0
  · refine .identity hargs hbroken' hzero ?_ ?_ ?_ <;>
      simp [UsmFrame.apply, usmPoolApply, usmPoolApplyOps, hvalid, hbroken, hzero]
  by_cases hstart : (usmPoolEnsureStarted p o.start).1 = false
  · refine .startFailed hargs hbroken' hzero hstart ?_ ?_ <;>
      simp [UsmFrame.apply, usmPoolApply, usmPoolApplyOps, hvalid, hbroken, hzero, hstart]
  · have hstart' : (usmPoolEnsureStarted p o.start).1 = true := by simpa using hstart
    refine .dispatched hargs hbroken' hzero hstart' ?_ ?_ ?_ ?_ <;>
      simp [UsmFrame.apply, usmPoolApply, usmPoolApplyOps, hvalid, hbroken, hzero, hstart',
        usmPoolSetPerFrame_pool]

/-! ### Pools that are done -/

/-- The first start failed. -/
def UsmPool.Failed (p : UsmPool) : Prop :=
  p.pool.lazyFailed = true ∧ p.pool.lazyDone = false

theorem UsmPool.Failed.ensureStarted {p : UsmPool} (h : p.Failed) (o : StartOutcome) :
    usmPoolEnsureStarted p o = (false, p) ∧
      (workerPoolEnsureStarted p.pool (usmPoolStartOutcome p o)).log = [] := by
  obtain ⟨hfailed, hdone⟩ := h
  have hcall (o' : StartOutcome) : workerPoolEnsureStarted p.pool o' = ⟨false, p.pool, []⟩ := by
    simp [workerPoolEnsureStarted, hdone, hfailed]
  simp [usmPoolEnsureStarted, hcall]

/-- A start that fails is remembered. -/
theorem usmPoolEnsureStarted_failed {p : UsmPool} (h : UsmInv p) {o : StartOutcome}
    (hfail : (usmPoolEnsureStarted p o).1 = false) : (usmPoolEnsureStarted p o).2.Failed := by
  have hok : (workerPoolEnsureStarted p.pool (usmPoolStartOutcome p o)).ok = false := hfail
  show (workerPoolEnsureStarted p.pool (usmPoolStartOutcome p o)).pool.lazyFailed = true ∧
    (workerPoolEnsureStarted p.pool (usmPoolStartOutcome p o)).pool.lazyDone = false
  unfold workerPoolEnsureStarted at hok ⊢
  by_cases hdone : p.pool.lazyDone = true
  · simp [hdone] at hok
  have hdone : p.pool.lazyDone = false := by simpa using hdone
  by_cases hfailed : p.pool.lazyFailed = true
  · simp [hdone, hfailed]
  have hstart := workerPoolStart_law p.pool (usmPoolStartOutcome p o)
    (h.fresh hdone (by simpa using hfailed))
  have hlazy : (workerPoolStart p.pool (usmPoolStartOutcome p o)).pool.lazyDone = false := by
    rw [hstart.frame]
    exact hdone
  simp only [hdone, hfailed, Bool.false_eq_true, if_false] at hok ⊢
  split at hok
  · rename_i hstarted
    rw [if_pos hstarted]
    exact ⟨rfl, hlazy⟩
  · cases hok

/-- A broken pool refuses every call. -/
theorem apply_of_broken {p : UsmPool} (h : p.pool.broken = true) (f : UsmFrame) :
    f.apply p = ⟨.failedUnchanged, p, f.memory, false⟩ ∧
      usmPoolApplyEvents p f.call f.outcome = [] := by
  cases usmPoolApply_exit p f with
  | rejected _ hcall hops => exact ⟨hcall, by rw [usmPoolApplyEvents, hops, poolAfter]⟩
  | broken _ _ hcall hops => exact ⟨hcall, by rw [usmPoolApplyEvents, hops, poolAfter]⟩
  | identity _ hb => simp [h] at hb
  | startFailed _ hb => simp [h] at hb
  | dispatched _ hb => simp [h] at hb

/-- A pool that failed to start takes no call further than the identity copy. -/
theorem apply_of_failed {p : UsmPool} (h : p.Failed) (f : UsmFrame) :
    (f.apply p).pool = p ∧ usmPoolApplyEvents p f.call f.outcome = [] ∧
      (clampAmountQ8 f.call.amountQ8 ≠ 0 →
        f.apply p = ⟨.failedUnchanged, p, f.memory, false⟩) := by
  obtain ⟨hensure, hlog⟩ := h.ensureStarted f.outcome.start
  cases usmPoolApply_exit p f with
  | rejected _ hcall hops =>
    exact ⟨by rw [hcall], by rw [usmPoolApplyEvents, hops, poolAfter], fun _ => hcall⟩
  | broken _ _ hcall hops =>
    exact ⟨by rw [hcall], by rw [usmPoolApplyEvents, hops, poolAfter], fun _ => hcall⟩
  | identity _ _ hzero _ hpool hops =>
    exact ⟨hpool, by rw [usmPoolApplyEvents, hops, poolAfter], fun hne => absurd hzero hne⟩
  | startFailed _ _ _ _ hcall hops =>
    rw [hensure] at hcall
    refine ⟨by rw [hcall], ?_, fun _ => hcall⟩
    simp [usmPoolApplyEvents, hops, poolAfter, poolCall, hlog]
  | dispatched _ _ _ hstart => simp [hensure] at hstart

theorem usmPoolAfter_fixed {p : UsmPool} (h : ∀ f : UsmFrame, (f.apply p).pool = p)
    (frames : List UsmFrame) : usmPoolAfter p frames = p := by
  induction frames with
  | nil => rfl
  | cons f frames ih =>
    rw [usmPoolAfter, List.foldl_cons, h f]
    exact ih

/-! ### The contract -/

theorem unwritten_of_apply {p p' : UsmPool} {f : UsmFrame}
    (h : f.apply p = ⟨.failedUnchanged, p', f.memory, false⟩) : f.Unwritten p := by
  intro m' hends
  rwa [h, UsmApplied.Ends, if_pos rfl] at hends

theorem clampAmountQ8_ne_zero {amountQ8 : ℤ} (h : 0 < amountQ8) : clampAmountQ8 amountQ8 ≠ 0 := by
  unfold clampAmountQ8 usmAmountQ8Max
  split_ifs <;> omega

/-- What a call `f` on the pool `p` reports, and what follows for later calls. -/
structure UsmStatusLaw (p : UsmPool) (f : UsmFrame) : Prop where
  unchanged : (f.apply p).status = .failedUnchanged → f.Unwritten p
  /-- An uncertain output comes from a gate that failed. -/
  uncertain : (f.apply p).status = .outputUncertain → ∃ o stop,
    usmPoolApplyOps p f.call f.outcome = [.ensureStarted o, .dispatch false stop] ∧
      (workerPoolEnsureStarted p.pool o).ok = true ∧
      (workerPoolEnsureStarted p.pool o).pool.inlineRun = false
  /-- After it the pool refuses everything. -/
  ended : (f.apply p).status = .outputUncertain → ∀ (later : List UsmFrame) (g : UsmFrame),
    let q := usmPoolAfter (f.apply p).pool later
    (g.apply q).status = .failedUnchanged ∧ g.Unwritten q ∧
      usmPoolApplyEvents q g.call g.outcome = []
  /-- A start is tried once; `o` is what later calls could meet. -/
  startFails : f.StartFails p → (f.apply p).status = .failedUnchanged ∧
    ∀ (later : List UsmFrame) (g : UsmFrame), 0 < g.call.amountQ8 →
      let q := usmPoolAfter (f.apply p).pool later
      (g.apply q).status = .failedUnchanged ∧ g.Unwritten q ∧
        ∀ o, usmPoolApplyEvents q g.call o = []
  rejected : f.call.Rejected p → f.apply p = ⟨.failedUnchanged, p, f.memory, false⟩ ∧
    usmPoolApplyEvents p f.call f.outcome = []

/-- An uncertain output leaves the pool broken. -/
theorem broken_of_uncertain {p : UsmPool} {f : UsmFrame}
    (h : (f.apply p).status = .outputUncertain) : (f.apply p).pool.pool.broken = true ∧
      (usmPoolEnsureStarted p f.outcome.start).1 = true ∧
      (usmPoolEnsureStarted p f.outcome.start).2.pool.inlineRun = false ∧
      f.outcome.gateOk = false ∧ usmPoolApplyOps p f.call f.outcome =
        [.ensureStarted (usmPoolStartOutcome p f.outcome.start), .dispatch false f.outcome.stop] := by
  cases usmPoolApply_exit p f with
  | rejected _ hcall => simp [hcall] at h
  | broken _ _ hcall => simp [hcall] at h
  | identity _ _ _ hstatus => simp [hstatus] at h
  | startFailed _ _ _ _ hcall => simp [hcall] at h
  | dispatched _ _ _ hstart hstatus hpool _ hops =>
    have hok : (workerPoolDispatch (usmPoolEnsureStarted p f.outcome.start).2.pool
        f.outcome.gateOk f.outcome.stop).ok = false := by
      by_contra hok
      rw [hstatus, if_pos (by simpa using hok)] at h
      cases h
    obtain ⟨hinline, hgate, hbroken⟩ := workerPoolDispatch_failed hok
    exact ⟨hpool ▸ hbroken, hstart, hinline, hgate, by rw [hops, hgate]⟩

/-- A call whose start fails leaves the pool failed. -/
theorem failed_of_startFails {p : UsmPool} (h : UsmInv p) {f : UsmFrame} (hf : f.StartFails p) :
    (f.apply p).status = .failedUnchanged ∧ (f.apply p).pool.Failed := by
  obtain ⟨o, hmem, hok⟩ := hf
  cases usmPoolApply_exit p f with
  | rejected _ _ hops => simp [hops] at hmem
  | broken _ _ _ hops => simp [hops] at hmem
  | identity _ _ _ _ _ hops => simp [hops] at hmem
  | startFailed _ _ _ hstart hcall _ =>
    rw [hcall]
    exact ⟨rfl, usmPoolEnsureStarted_failed h hstart⟩
  | dispatched _ _ _ hstart _ _ _ hops =>
    have ho : o = usmPoolStartOutcome p f.outcome.start := by simpa [hops] using hmem
    subst ho
    exact absurd (hok.symm.trans hstart) (by decide)

theorem usmStatusLaw {p : UsmPool} (h : UsmInv p) (f : UsmFrame) : UsmStatusLaw p f where
  unchanged hstatus := by
    cases usmPoolApply_exit p f with
    | rejected _ hcall => exact unwritten_of_apply hcall
    | broken _ _ hcall => exact unwritten_of_apply hcall
    | identity _ _ _ hok => simp [hok] at hstatus
    | startFailed _ _ _ _ hcall => exact unwritten_of_apply hcall
    | dispatched _ _ _ _ hok =>
      rw [hok] at hstatus
      split at hstatus <;> cases hstatus
  uncertain hstatus := by
    obtain ⟨-, hstart, hinline, -, hops⟩ := broken_of_uncertain hstatus
    exact ⟨_, _, hops, hstart, hinline⟩
  ended hstatus later g := by
    have hbroken := (broken_of_uncertain hstatus).1
    intro q
    have hq : q = (f.apply p).pool :=
      usmPoolAfter_fixed (fun g => by rw [(apply_of_broken hbroken g).1]) later
    obtain ⟨hcall, hevents⟩ := apply_of_broken hbroken g
    rw [hq]
    exact ⟨by rw [hcall], unwritten_of_apply hcall, hevents⟩
  startFails hf := by
    obtain ⟨hstatus, hfailed⟩ := failed_of_startFails h hf
    refine ⟨hstatus, fun later g hamount => ?_⟩
    intro q
    have hq : q = (f.apply p).pool :=
      usmPoolAfter_fixed (fun g => (apply_of_failed hfailed g).1) later
    have hcall := (apply_of_failed hfailed g).2.2 (clampAmountQ8_ne_zero hamount)
    rw [hq]
    exact ⟨by rw [hcall], unwritten_of_apply hcall,
      fun o => (apply_of_failed hfailed { g with outcome := o }).2.1⟩
  rejected hargs := by
    cases usmPoolApply_exit p f with
    | rejected _ hcall hops => exact ⟨hcall, by rw [usmPoolApplyEvents, hops, poolAfter]⟩
    | broken hok => exact absurd hargs hok
    | identity hok => exact absurd hargs hok
    | startFailed hok => exact absurd hargs hok
    | dispatched hok => exact absurd hargs hok

theorem usmPoolAfter_inv {p : UsmPool} (h : UsmInv p) (frames : List UsmFrame) :
    UsmInv (usmPoolAfter p frames) := by
  induction frames generalizing p with
  | nil => exact h
  | cons f frames ih => exact ih (usmPoolApply_inv h f.call f.outcome f.memory).1

/-- **The status contract of the USM pool.**

`before` is any history of the pool, with any failures. -/
theorem usm_status_contract {nThreads width height stripeMinRows : ℤ} {alloc : Bool}
    {scratch : ℕ} {p : UsmPool}
    (h : usmPoolCreate nThreads width height stripeMinRows alloc scratch = some p)
    (before : List UsmFrame) (f : UsmFrame) : UsmStatusLaw (usmPoolAfter p before) f :=
  usmStatusLaw (usmPoolAfter_inv (usmReachable_inv (.create h)).1 before) f

/-- How the calls of a start and of a dispatch turn out when nothing fails. -/
def usmAllGood : UsmOutcome where
  start := ⟨true, true, true, true, fun _ => true, fun _ => true, ⟨true, fun _ => true⟩⟩
  gateOk := true
  stop := ⟨true, fun _ => true⟩

/-- After a good frame the barrier of two workers fails. -/
theorem usm_status_contract_two : ∃ p, usmPoolCreate 2 2 2 1 true 100 = some p ∧
    let good : UsmFrame := ⟨⟨some 0, 3, some 0, 3, 128⟩, usmAllGood, fun _ => 7⟩
    let bad := { good with outcome := { usmAllGood with gateOk := false } }
    (bad.apply (usmPoolAfter p [good])).status = .outputUncertain ∧
      UsmStatusLaw (usmPoolAfter p [good]) bad :=
  ⟨_, rfl, by decide, usm_status_contract (show usmPoolCreate 2 2 2 1 true 100 = some _ from rfl) _ _⟩

/-- The scratch allocation fails, and the next call has the amount `-1`. -/
theorem negative_amount_after_failed_start : ∃ p, usmPoolCreate 2 2 2 1 true 100 = some p ∧
    let first : UsmFrame := ⟨⟨some 0, 3, some 0, 3, 128⟩,
      { usmAllGood with start := { usmAllGood.start with prepare := false } }, fun _ => 7⟩
    let next : UsmFrame := ⟨⟨some 0, 3, some 0, 3, -1⟩, usmAllGood, fun _ => 7⟩
    first.StartFails p ∧ next.call.amountQ8 ≠ 0 ∧
      (next.apply (first.apply p).pool).status = .ok :=
  ⟨_, rfl, ⟨_, .head _, by decide⟩, by decide, by decide⟩

end AutoUpscale
