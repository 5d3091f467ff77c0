/-
What adaptive worker selection does to the pixels.

`StatusContract` is what `up_usm_pool_apply` promises of one call: success is one
application of the mask, `FAILED_UNCHANGED` writes nothing.  The pools of
`src/usm_pool.c` keep it (`usmPoolEnv_contract`), whatever else goes wrong.

* **`adaptive_selection_keeps_pixels`** — in every state of a run, a call that
  reports success sharpens the plane once, a call that reports
  `FAILED_UNCHANGED` leaves it alone, and nothing is applied on top of what a trial
  pool leaves uncertain.
-/
import AutoUpscale.AdaptivePools
import AutoUpscale.UsmStatus

namespace AutoUpscale.Adaptive

open PlaneMemory UsmSystem

variable {Pool Plane : Type*} {s s' : UsmSystem Pool Plane} {env : FrameEnv Pool Plane}
  {Good : Pool → Prop} {usm : ℤ → Plane → Plane → Prop} {c : UsmConfig} {threads : Pool → ℤ}

/-! ### The contract -/

/-- The status contract of `up_usm_pool_apply`; `usm` is one application. -/
structure StatusContract (Good : Pool → Prop) (usm : ℤ → Plane → Plane → Prop) (c : UsmConfig)
    (env : FrameEnv Pool Plane) : Prop extends KeepsPools Good c env where
  ok : ∀ {h p amountQ8 plane}, Good p → (env.apply h p amountQ8 plane).status = .ok →
    usm amountQ8 plane (env.apply h p amountQ8 plane).plane
  unchanged : ∀ {h p amountQ8 plane}, Good p →
    (env.apply h p amountQ8 plane).status = .failedUnchanged →
    (env.apply h p amountQ8 plane).plane = plane

/-- The pool an event puts to work, and how that ends. -/
def Event.application : Event → Option (ℕ × UsmStatus)
  | .applied h status => some (h, status)
  | _ => none

/-- The pools that have worked, in order. -/
def applications (log : List Event) : List (ℕ × UsmStatus) := log.filterMap Event.application

/-- What a call of `up_usm_adaptive_apply` on `s` does to the plane. -/
structure PixelLaw (threads : Pool → ℤ) (usm : ℤ → Plane → Plane → Prop)
    (s : UsmSystem Pool Plane) (amountQ8 : ℤ) (out : UsmStatus × UsmSystem Pool Plane) :
    Prop where
  ok : out.1 = .ok → usm amountQ8 s.plane out.2.plane
  unchanged : out.1 = .failedUnchanged → out.2.plane = s.plane
  calls : ∃ calls, applications out.2.log = applications s.log ++ calls ∧
    -- one pool sharpens the plane, or none
    calls.countP (fun call => call.2 = .ok) = (if out.1 = .ok then 1 else 0) ∧
    -- after a trial that leaves the plane uncertain, the pool `b` in use is not applied,
    -- and does the next frame
    ∀ b t, s.pool = some b → t ≠ b → (t, .outputUncertain) ∈ calls →
      calls = [(t, .outputUncertain)] ∧ out.1 = .outputUncertain ∧ out.2.pool = some b ∧
        out.2.adaptive.retained = true ∧ ∃ p, s.heap b = some p ∧ out.2.heap b = some p ∧
          ∀ (plane : Plane) (env : FrameEnv Pool Plane) (amountQ8 : ℤ),
            let next := usmAdaptiveApply threads { out.2 with plane := plane } env amountQ8
            next.1 = (env.apply b p amountQ8 plane).status ∧
              next.2.plane = (env.apply b p amountQ8 plane).plane

/-! ### The pools at work -/

theorem applications_append (log log' : List Event) :
    applications (log ++ log') = applications log ++ applications log' :=
  List.filterMap_append

/-- Events that put no pool to work. -/
theorem applications_idle {log new : List Event} (h : ∀ e ∈ new, e.application = none) :
    applications (log ++ new) = applications log := by
  rw [applications_append, show applications new = [] from List.filterMap_eq_nil_iff.mpr h,
    List.append_nil]

theorem Chosen.applications {selected : Option ℕ} (h : Chosen threads s s' selected) :
    applications s'.log = applications s.log := by
  obtain ⟨new, hlog, hnew⟩ := h.log
  rw [hlog]
  refine applications_idle fun e he => ?_
  obtain ⟨k, rfl | rfl⟩ := hnew e he <;> rfl

theorem Cleared.applications (h : Cleared s s') : applications s'.log = applications s.log := by
  obtain ⟨new, hlog, hnew⟩ := h.log
  rw [hlog]
  refine applications_idle fun e he => ?_
  obtain ⟨k, rfl⟩ := hnew e he
  rfl

theorem AcceptLaw.applications (h : AcceptLaw threads s s') :
    applications s'.log = applications s.log := by
  obtain ⟨new, hlog, hnew⟩ := h.log
  rw [hlog]
  refine applications_idle fun e he => ?_
  obtain ⟨k, rfl | rfl⟩ := hnew e he <;> rfl

theorem applications_used (s : UsmSystem Pool Plane) (k : ℕ) (r : UsmReply Pool Plane) :
    applications (s.used k r).log = applications s.log ++ [(k, r.status)] :=
  applications_append _ _

/-- With adaptation off, the pool in use does the frame. -/
theorem usmAdaptiveApply_off (hoff : s.adaptive.enabled = false) {b : ℕ} {p : Pool}
    (hb : s.pool = some b) (hp : s.heap b = some p) (env : FrameEnv Pool Plane) (amountQ8 : ℤ) :
    usmAdaptiveApply threads s env amountQ8 = ((env.apply b p amountQ8 s.plane).status,
      (s.setAdaptive { s.adaptive with retained := false }).used b
        (env.apply b p amountQ8 s.plane)) := by
  have hp' : (s.setAdaptive { s.adaptive with retained := false }).heap b = some p := hp
  rw [usmAdaptiveApply_eq]
  have hchoose : usmAdaptiveChoose s env =
      (some b, none, s.setAdaptive { s.adaptive with retained := false }) := by
    simp [usmAdaptiveChoose, UsmSystem.setAdaptive, hoff, hb]
  rw [hchoose]
  unfold usmAdaptiveFinish
  rw [applyPool_live hp' env amountQ8]
  refine (if_neg ?_).trans (if_pos (.inr hoff))
  rintro ⟨-, hne⟩
  exact hne hb.symm

theorem usmAdaptiveApply_noPool (h : AdaptiveInv threads s) (hpool : s.pool = none)
    (env : FrameEnv Pool Plane) (amountQ8 : ℤ) : usmAdaptiveApply threads s env amountQ8 =
      (.failedUnchanged, s.setAdaptive { s.adaptive with retained := false }) := by
  have hoff := h.noPool hpool
  simp [usmAdaptiveApply, UsmSystem.setAdaptive, UsmSystem.applyPool, hoff, hpool]

theorem usmAdaptiveApply_next (hoff : s.adaptive.enabled = false) {b : ℕ} {p : Pool}
    (hb : s.pool = some b) (hp : s.heap b = some p) (plane : Plane) (env : FrameEnv Pool Plane)
    (amountQ8 : ℤ) :
    let next := usmAdaptiveApply threads { s with plane := plane } env amountQ8
    next.1 = (env.apply b p amountQ8 plane).status ∧
      next.2.plane = (env.apply b p amountQ8 plane).plane := by
  rw [usmAdaptiveApply_off (s := { s with plane := plane }) hoff hb hp env amountQ8]
  exact ⟨rfl, rfl⟩

/-! ### One call -/

theorem PixelLaw.of_ok {u : UsmSystem Pool Plane} {amountQ8 : ℤ} {k : ℕ}
    (hcalls : applications u.log = applications s.log ++ [(k, .ok)])
    (hplane : usm amountQ8 s.plane u.plane) : PixelLaw threads usm s amountQ8 (.ok, u) where
  ok _ := hplane
  unchanged := nofun
  calls := ⟨[(k, .ok)], hcalls, by simp, fun b t _ _ hmem => by simp at hmem⟩

theorem finish_pixels {k : ℕ} {p : Pool} (h : Chosen threads s s' (some k))
    (hk : s'.heap k = some p) (hgood : ∀ {j q}, s'.heap j = some q → Good q)
    (hpool : s.pool ≠ none) (henv : StatusContract Good usm c env) {amountQ8 : ℤ}
    {out : UsmStatus × UsmSystem Pool Plane}
    (hexit : FinishExit threads s' env amountQ8 k (env.apply k p amountQ8 s'.plane) out) :
    PixelLaw threads usm s amountQ8 out := by
  set r := env.apply k p amountQ8 s'.plane
  have hok : r.status = .ok → usm amountQ8 s'.plane r.plane := henv.ok (hgood hk)
  have hunchanged : r.status = .failedUnchanged → r.plane = s'.plane := henv.unchanged (hgood hk)
  have hused := h.owns.used hk r
  have hcalls : applications (s'.used k r).log = applications s.log ++ [(k, r.status)] := by
    rw [applications_used, h.applications]
  rw [h.plane] at hok hunchanged
  obtain ⟨b, hb⟩ := Option.ne_none_iff_exists'.mp hpool
  have hb' : s'.pool = some b := h.pool.trans hb
  cases hexit with
  | trialUncertain hne hstatus hout =>
    obtain ⟨hclear, hadaptive⟩ := usmAdaptiveStop_cleared hused
    obtain ⟨q, hq, hheap⟩ := h.owns.heap_stop_used hb' hk hne r
    rw [hout]
    refine ⟨nofun, nofun, [(k, .outputUncertain)], ?_, by simp, fun b' t hb₁ htb hmem => ?_⟩
    · exact hclear.applications.trans (hstatus ▸ hcalls)
    obtain rfl : b = b' := Option.some.inj (hb.symm.trans hb₁)
    obtain rfl : t = k := by simpa using hmem
    -- the next call is on the pool in use, and on no trial
    set u := (usmAdaptiveStop (s'.used t r)).setAdaptive
      { (usmAdaptiveStop (s'.used t r)).adaptive with retained := true } with hu
    have hoff : u.adaptive.enabled = false := by simp [hu, setAdaptive, hadaptive]
    exact ⟨rfl, rfl, hclear.pool.trans hb', rfl, q, (h.heap b hb).symm.trans hq, hheap,
      usmAdaptiveApply_next hoff (hclear.pool.trans hb') hheap⟩
  | trialFailed hne hstatus hout =>
    -- the pool in use finds the plane as it was
    obtain ⟨hclear, -⟩ := usmAdaptiveStop_cleared hused
    obtain ⟨q, hq, hheap⟩ := h.owns.heap_stop_used hb' hk hne r
    have hplane : (usmAdaptiveStop (s'.used k r)).plane = s.plane :=
      hclear.plane.trans (hunchanged hstatus)
    rw [hout, hb', applyPool_live hheap env amountQ8, hplane]
    set r' := env.apply b q amountQ8 s.plane with hr'
    refine ⟨henv.ok (hgood hq), henv.unchanged (hgood hq),
      [(k, .failedUnchanged), (b, r'.status)], ?_, ?_, fun b' t hb₁ htb hmem => ?_⟩
    · rw [applications_used, hclear.applications, hcalls, hstatus, List.append_assoc]
      rfl
    · simp [List.countP_cons]
    · obtain rfl : b = b' := Option.some.inj (hb.symm.trans hb₁)
      simp [htb] at hmem
  | failed heq hstatus hout =>
    obtain rfl : b = k := Option.some.inj (hb'.symm.trans heq)
    rw [hout]
    refine ⟨fun hs => absurd hs hstatus, hunchanged, [(b, r.status)], hcalls,
      by simp [List.countP_cons], fun b' t hb₁ htb hmem => ?_⟩
    obtain rfl : b = b' := Option.some.inj (hb.symm.trans hb₁)
    simp [htb] at hmem
  | off hstatus _ hout =>
    rw [hout]
    exact .of_ok (hstatus ▸ hcalls) (hok hstatus)
  | mismatch hstatus _ _ hout =>
    obtain ⟨hclear, -⟩ := usmAdaptiveStop_cleared (hused.remark (.inl rfl))
    rw [hout]
    refine .of_ok (k := k) (hclear.applications.trans ?_) (hclear.plane ▸ hok hstatus)
    exact (applications_idle (by simp [Event.application])).trans (hstatus ▸ hcalls)
  | untimed hstatus _ _ hout =>
    obtain ⟨hclear, -⟩ := usmAdaptiveStop_cleared hused
    rw [hout]
    exact .of_ok (hclear.applications.trans (hstatus ▸ hcalls)) (hclear.plane ▸ hok hstatus)
  | accepted elapsed _ hstatus hon hthreads hout =>
    have hlaw := usmAdaptiveAccept_law (h.checked hk hpool hon hthreads) elapsed
    rw [hout]
    exact .of_ok (hlaw.applications.trans (hstatus ▸ hcalls)) (hlaw.plane ▸ hok hstatus)

theorem usmAdaptiveApply_pixels (h : AdaptiveInv threads s) (hkept : Kept Good c s)
    (henv : StatusContract Good usm c env) (amountQ8 : ℤ) :
    PixelLaw threads usm s amountQ8 (usmAdaptiveApply threads s env amountQ8) := by
  by_cases hpool : s.pool = none
  · rw [usmAdaptiveApply_noPool h hpool]
    exact ⟨nofun, fun _ => rfl, [], (List.append_nil _).symm, rfl,
      fun b _ hb => absurd (hpool.symm.trans hb) nofun⟩
  have hchosen := usmAdaptiveChoose_chosen h env
  obtain ⟨k, p, hsel, hk⟩ := hchosen.live hpool
  have hkept' := hkept.choose henv.toKeepsPools
  rw [usmAdaptiveApply_eq]
  rw [hsel] at hchosen ⊢
  exact finish_pixels hchosen hk hkept'.pools hpool henv
    (usmAdaptiveFinish_exit threads hk env amountQ8 (usmAdaptiveChoose s env).2.1)

/-! ### The pools of `usm_pool.c` -/

section UsmPool

variable {arena : Set ℕ} {pixels : ℕ} {pitch : ℤ} {o : UsmPoolOutcome}

/-- A pool for the planned plane, with its scratch in `arena`. -/
structure UsmPlanned (c : UsmConfig) (arena : Set ℕ) (p : UsmPool) : Prop where
  inv : UsmInv p
  width : p.width = c.width.toNat
  height : p.height = c.height.toNat
  scratch : p.scratchRect ⊆ arena

/-- One application of the mask to the luma plane at `pixels`. -/
def Sharpened (c : UsmConfig) (arena : Set ℕ) (pixels : ℕ) (pitch amountQ8 : ℤ)
    (m m' : Memory) : Prop :=
  (∀ y < c.height.toNat, ∀ x < c.width.toNat, m' (addr pixels pitch.toNat y x) =
    usmAt (planeAt m pixels pitch.toNat) c.width.toNat c.height.toNat (clampAmountQ8 amountQ8)
      y x) ∧
  ∀ a ∉ rect pixels pitch.toNat c.width.toNat c.height.toNat, a ∉ arena → m' a = m a

/-- A new pool's scratch block is in `arena`, and the workers of every call leave off
in a memory they can leave. -/
structure UsmPoolOutcome.Fits (o : UsmPoolOutcome) (c : UsmConfig) (arena : Set ℕ) : Prop where
  scratch : rect o.scratch c.width.toNat c.width.toNat
    (usmPoolScratchRows * threadsMax.toNat) ⊆ arena
  ends : ∀ h (r : UsmApplied), r.Ends (o.finish h r)

theorem usmPoolResolveThreads_le_max (n height stripeMinRows : ℤ) :
    usmPoolResolveThreads n height stripeMinRows ≤ threadsMax := by
  unfold usmPoolResolveThreads
  dsimp only
  split_ifs <;> omega

theorem usmPoolCreate_planned (ho : o.Fits c arena) {n : ℤ} {p : UsmPool}
    (h : usmPoolCreate n c.width c.height c.stripeMin o.alloc o.scratch = some p) :
    UsmPlanned c arena p := by
  obtain ⟨hinv, hw, hh⟩ := usmReachable_inv (.create h)
  have hpool : p.scratch = o.scratch ∧ p.width = c.width.toNat ∧
      p.nThreadsPref = usmPoolResolveThreads n c.height c.stripeMin := by
    unfold usmPoolCreate at h
    split at h
    · cases h
    dsimp only at h
    split at h
    · cases h
    · rw [← Option.some.inj h]
      exact ⟨rfl, rfl, rfl⟩
  obtain ⟨hscratch, hwidth, hpref⟩ := hpool
  refine ⟨hinv, hwidth, by omega, ?_⟩
  have hle := usmPoolResolveThreads_le_max n c.height c.stripeMin
  rw [UsmPool.scratchRect, hscratch, hwidth]
  refine (rect_mono ?_).trans ho.scratch
  exact Nat.mul_le_mul_left _ (by omega)

theorem usmPoolEnv_keeps (ho : o.Fits c arena) :
    KeepsPools (UsmPlanned c arena) c (usmPoolEnv pixels pitch o) where
  create h := usmPoolCreate_planned ho h
  apply {h p amountQ8 m} hp := by
    obtain ⟨hinv, hsame⟩ := usmPoolApply_inv hp.inv
      ⟨some pixels, pitch, some pixels, pitch, amountQ8⟩ (o.outcome h) m
    exact ⟨hinv, hsame.width.trans hp.width, hsame.height.trans hp.height,
      hsame.scratchRect.symm ▸ hp.scratch⟩

/-- **The pools of `usm_pool.c` keep the status contract**, in place on a plane that
is clear of their scratch. -/
theorem usmPoolEnv_contract (ho : o.Fits c arena)
    (hplane : Disjoint arena (rect pixels pitch.toNat c.width.toNat c.height.toNat)) :
    StatusContract (UsmPlanned c arena) (Sharpened c arena pixels pitch) c
      (usmPoolEnv pixels pitch o) where
  toKeepsPools := usmPoolEnv_keeps ho
  ok {h p amountQ8 m} hp hok := by
    obtain ⟨hvalid, -⟩ := usmPoolApply_ok rfl rfl hok
    obtain ⟨hpitch, -⟩ := usmPoolValidateArgs_spec rfl rfl hvalid
    have hclear : Disjoint p.scratchRect (rect pixels pitch.toNat p.width p.height) := by
      rw [hp.width, hp.height]
      exact hplane.mono_left hp.scratch
    have hpitch' : p.width ≤ pitch.toNat := by
      have hpitch : (p.width : ℤ) ≤ pitch := hpitch
      omega
    obtain ⟨hval, hframe⟩ := usmPoolApply_eq hp.inv rfl rfl
      ⟨hpitch', hpitch', .inl ⟨rfl, rfl⟩, hclear, hclear⟩ hok (ho.ends h _)
    rw [hp.width, hp.height] at hval hframe
    exact ⟨hval, fun a ha harena => hframe a ha fun hs => harena (hp.scratch hs)⟩
  unchanged {h p amountQ8 m} hp hstatus :=
    (usmStatusLaw hp.inv ⟨⟨some pixels, pitch, some pixels, pitch, amountQ8⟩, o.outcome h, m⟩).unchanged
      hstatus _ (ho.ends h _)

end UsmPool

/-! ### The law -/

/-- **Adaptive worker selection never changes the pixels.**

`create` and `steps` are any first pool, frames, clocks and failures; `Good` is what
the contract may ask of a pool, `fun _ => True` for nothing. -/
theorem adaptive_selection_keeps_pixels (threads : Pool → ℤ)
    {create : ℤ → ℤ → ℤ → ℤ → Option Pool}
    (hcreate : ∀ n p, create n c.width c.height c.stripeMin = some p → Good p) (plane : Plane)
    {steps : List (Step Pool Plane)} (hsteps : ∀ st ∈ steps, st.Keeps Good c)
    (henv : StatusContract Good usm c env) (amountQ8 : ℤ) :
    let s := run threads (initUsmPool c create plane) steps
    PixelLaw threads usm s amountQ8 (usmAdaptiveApply threads s env amountQ8) :=
  usmAdaptiveApply_pixels (run_inv (initUsmPool_inv c create plane) steps)
    ((initUsmPool_kept (hcreate _ _) plane).run hsteps) henv amountQ8

theorem exists_ends (r : UsmApplied) : ∃ m', r.Ends m' := by
  unfold UsmApplied.Ends
  split
  · exact ⟨_, rfl⟩
  · obtain ⟨m', hrun⟩ := DisjointParallel.exists_interleaving RowStep.run
      (fun i : Fin r.pool.pool.nWorkers => usmWorkerSweep (r.pool.workers i)) r.memory
    exact ⟨m', fun _ => hrun⟩

/-- Nothing fails, and the workers run in some order. -/
noncomputable def wellOutcome : UsmPoolOutcome where
  alloc := true
  scratch := 4096
  outcome _ := usmAllGood
  finish _ r := (exists_ends r).choose
  startClock := some ⟨1, 0⟩
  endClock := some ⟨1, 1000⟩

/-- The second frame of a 16x32 picture, on a pool of four workers. -/
theorem adaptive_selection_keeps_pixels_second :
    let c : UsmConfig := ⟨100, fourcc 'I' '4' '2' '0', 0, 8, 16, 32, 8, 1⟩
    let env := usmPoolEnv 0 16 wellOutcome
    let s := run UsmPool.nThreads (initUsmPool c env.create (fun _ => 7))
      [.start (some ⟨1, 0⟩), .frame (fun _ => 7) env]
    let out := usmAdaptiveApply UsmPool.nThreads s env 256
    s.pool = some 0 ∧ out.1 = .ok ∧
      PixelLaw UsmPool.nThreads (Sharpened c {a | 4096 ≤ a} 0 16) s 256 out := by
  intro c env s out
  have hfits : wellOutcome.Fits c {a | 4096 ≤ a} := by
    refine ⟨?_, fun h r => (exists_ends r).choose_spec⟩
    rintro a ⟨y, -, x, -, rfl⟩
    exact (Nat.le_add_right 4096 (y * 16)).trans (Nat.le_add_right _ x)
  have hplane : Disjoint {a | 4096 ≤ a} (rect 0 16 16 32) := by
    rw [Set.disjoint_right]
    intro a ha hle
    have := (rect_subset_bytes le_rfl ha).2
    have hle : 4096 ≤ a := hle
    omega
  refine ⟨by decide +kernel, by decide +kernel, ?_⟩
  refine adaptive_selection_keeps_pixels UsmPool.nThreads
    (fun n p h => (usmPoolEnv_keeps hfits).create h) (fun _ => 7) ?_
    (usmPoolEnv_contract hfits hplane) 256
  simp only [List.mem_cons, List.not_mem_nil, or_false, forall_eq_or_imp, forall_eq]
  exact ⟨trivial, usmPoolEnv_keeps hfits⟩

end AutoUpscale.Adaptive
