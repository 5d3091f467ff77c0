/-
The counts that adaptation may ask for, and the clamp of the pool.

`up_usm_adaptive_init` and `usm_pool_resolve_threads` bound the count by the height
each for itself.  `usmAdaptiveInit_first` and `usmPoolResolveThreads_fixed` compare
them; `Sized` is the invariant that carries the comparison over a run, `SizedPools`
what it needs of the pools.

* **`adaptive_limits_agree`** — over every run with the pools of `src/usm_pool.c`.
-/
import AutoUpscale.AdaptivePools
import AutoUpscale.UsmStatus

namespace AutoUpscale.Adaptive

open PlaneMemory UsmSystem

/-! ### The two limits -/

/-- The most rows each worker gets leave this many workers. -/
theorem usmPoolResolveThreads_eq (n : ℤ) {height : ℤ} (hheight : 0 < height) (stripeRows : ℤ) :
    usmPoolResolveThreads n height stripeRows = min (min n threadsMax)
      (max 1 (height.tdiv (if stripeRows > 0 then stripeRows else 8))) := by
  have hrows : (if stripeRows ≤ 0 then usmStripeMinRows else stripeRows) =
      if stripeRows > 0 then stripeRows else 8 := by
    unfold usmStripeMinRows
    split_ifs <;> omega
  have hdiv : height.tdiv (if stripeRows > 0 then stripeRows else 8) =
      height / (if stripeRows > 0 then stripeRows else 8) :=
    Int.tdiv_eq_ediv_of_nonneg hheight.le
  unfold usmPoolResolveThreads
  dsimp only
  rw [hrows, hdiv]
  generalize height / (if stripeRows > 0 then stripeRows else 8) = byHeight
  split_ifs <;> omega

theorem usmAdaptiveInit_tuner (initial limit width height stripeRows : ℤ) :
    (usmAdaptiveInit initial limit width height stripeRows).tuner = workerTunerInit initial
      (min limit (height.tdiv (if stripeRows > 0 then stripeRows else 8))) := by
  unfold usmAdaptiveInit
  dsimp only
  congr 1
  split_ifs <;> omega

/-- The tuner's limit is no higher than the pool's. -/
theorem workerTunerInit_limit (initial limit : ℤ) :
    (workerTunerInit initial limit : WorkerTuner Float).limit = min (max 1 limit) threadsMax := by
  unfold workerTunerInit threadsMax
  dsimp only
  split_ifs <;> omega

theorem workerTunerInit_current (initial limit : ℤ) :
    (workerTunerInit initial limit : WorkerTuner Float).current =
      min (max 1 initial) (workerTunerInit initial limit : WorkerTuner Float).limit := by
  unfold workerTunerInit threadsMax
  dsimp only
  split_ifs <;> omega

/-- An explicit count is bounded by the cores and the maximum. -/
theorem threadsDecide_explicit {n : ℤ} (hn : 0 < n) (cores : ℤ) :
    threadsDecide n cores = min (min n (max 1 cores)) threadsMax := by
  rw [threadsDecide_eq, if_neg (show ¬ n ≤ threadsAuto from not_le.mpr hn)]
  unfold threadsMax
  omega

/-- The automatic count of the filter is an explicit one of at most 16. -/
theorem usmThreadsDecide_auto (cores : ℤ) {width height : ℤ} (hwidth : 0 < width)
    (hheight : 0 < height) : ∃ n, 0 < n ∧ n ≤ 16 ∧
      usmThreadsDecide threadsAuto cores width height = threadsDecide n cores := by
  unfold usmThreadsDecide
  rw [if_neg (lt_irrefl _), if_neg (by omega)]
  dsimp only
  split_ifs
  · exact ⟨8, by norm_num, by norm_num, rfl⟩
  · exact ⟨12, by norm_num, by norm_num, rfl⟩
  · exact ⟨16, by norm_num, by norm_num, rfl⟩

variable {c : UsmConfig}

/-- The tuner that `InitAdaptiveUsm` makes. -/
theorem initAdaptiveUsm_tuner (hthreads : c.threadsPref = threadsAuto) (hon : c.adaptiveUsm ≠ 0)
    (initial : ℤ) : (initAdaptiveUsm c initial).tuner = workerTunerInit initial
      (min (threadsDecide threadsMax c.cores)
        (c.height.tdiv (if c.stripeMin > 0 then c.stripeMin else 8))) := by
  unfold initAdaptiveUsm
  rw [if_neg hon, if_neg (not_not.mpr hthreads)]
  exact usmAdaptiveInit_tuner _ _ _ _ _

/-- **The first count is the one the first pool resolves.** -/
theorem initAdaptiveUsm_first (hthreads : c.threadsPref = threadsAuto) (hon : c.adaptiveUsm ≠ 0)
    (hwidth : 0 < c.width) (hheight : 0 < c.height) :
    (initAdaptiveUsm c c.initialThreads).tuner.current =
      usmPoolResolveThreads c.initialThreads c.height c.stripeMin := by
  obtain ⟨n, hn, hn16, hinitial⟩ := usmThreadsDecide_auto c.cores hwidth hheight
  rw [← hthreads] at hinitial
  have hinitial : c.initialThreads = threadsDecide n c.cores := hinitial
  rw [initAdaptiveUsm_tuner hthreads hon, workerTunerInit_current, workerTunerInit_limit,
    usmPoolResolveThreads_eq _ hheight, hinitial, threadsDecide_explicit hn,
    threadsDecide_explicit (show 0 < threadsMax by decide)]
  generalize c.height.tdiv (if c.stripeMin > 0 then c.stripeMin else 8) = byHeight
  unfold threadsMax
  -- the count is at most the cores and 16, so the limit of the cores is above it
  have hcores : 1 ≤ max 1 c.cores := le_max_left _ _
  generalize max 1 c.cores = cores at hcores ⊢
  have hcount : min n cores ≤ 16 := (min_le_left _ _).trans hn16
  have hpos : 1 ≤ min n cores := le_min hn hcores
  have hle : min n cores ≤ min 64 cores := min_le_min_right cores (by omega)
  have htop : min 64 cores ≤ 64 := min_le_left _ _
  generalize min n cores = count at *
  generalize min 64 cores = top at *
  rw [min_eq_left htop, min_eq_left (show count ≤ 64 by omega), max_eq_right hpos]
  omega

/-- **The pool resolves every count within the tuner's limit to itself.** -/
theorem usmPoolResolveThreads_fixed (hthreads : c.threadsPref = threadsAuto)
    (hon : c.adaptiveUsm ≠ 0) (hheight : 0 < c.height) {initial n : ℤ} (hpos : 1 ≤ n)
    (hle : n ≤ (initAdaptiveUsm c initial).tuner.limit) :
    usmPoolResolveThreads n c.height c.stripeMin = n := by
  rw [initAdaptiveUsm_tuner hthreads hon, workerTunerInit_limit] at hle
  rw [usmPoolResolveThreads_eq _ hheight]
  omega

/-! ### Sizes -/

section Sizes

variable {Pool Plane : Type*} {s s' : UsmSystem Pool Plane} {env : FrameEnv Pool Plane}
  {Good : Pool → Prop} {size threads : Pool → ℤ}

/-- Pools keep the size they were created with, and one that succeeds has worked
with that many workers. -/
structure SizedPools (Good : Pool → Prop) (size threads : Pool → ℤ) (c : UsmConfig)
    (env : FrameEnv Pool Plane) : Prop extends KeepsPools Good c env where
  created : ∀ {n p}, env.create n c.width c.height c.stripeMin = some p →
    size p = usmPoolResolveThreads n c.height c.stripeMin
  same : ∀ {h p amountQ8 plane}, Good p → size (env.apply h p amountQ8 plane).pool = size p
  ok : ∀ {h p amountQ8 plane}, Good p → 0 < amountQ8 →
    (env.apply h p amountQ8 plane).status = .ok →
    threads (env.apply h p amountQ8 plane).pool = size p

/-- The pools have the sizes that the tuner takes them for. -/
structure Sized (size : Pool → ℤ) (s : UsmSystem Pool Plane) : Prop where
  pool : s.adaptive.enabled = true → s.effectiveThreads size s.pool = s.adaptive.tuner.best
  trial : ∀ t, s.adaptive.trial = some t →
    s.effectiveThreads size (some t) = s.adaptive.trialCount
  matched : .mismatch ∉ s.log

theorem Sized.of_off (hoff : s.adaptive.enabled = false) (htrial : s.adaptive.trial = none)
    (hmatched : .mismatch ∉ s.log) : Sized size s :=
  ⟨fun hon => absurd (hoff.symm.trans hon) (by decide),
    fun _ ht => absurd (htrial.symm.trans ht) nofun, hmatched⟩

theorem matched_append {log new : List Event} (h : .mismatch ∉ log) (hnew : .mismatch ∉ new) :
    .mismatch ∉ log ++ new := by
  rw [List.mem_append, not_or]
  exact ⟨h, hnew⟩

theorem Cleared.matched (h : Cleared s s') (hs : .mismatch ∉ s.log) : .mismatch ∉ s'.log := by
  obtain ⟨new, hlog, hnew⟩ := h.log
  rw [hlog]
  refine matched_append hs fun hmem => ?_
  obtain ⟨k, hk⟩ := hnew _ hmem
  cases hk

theorem used_matched (hs : .mismatch ∉ s.log) (k : ℕ) (r : UsmReply Pool Plane) :
    .mismatch ∉ (s.used k r).log :=
  matched_append hs (by simp)

/-- Stopping drops the trial. -/
theorem Sized.stop (h : Owns s) (hs : .mismatch ∉ s.log) : Sized size (usmAdaptiveStop s) := by
  obtain ⟨hclear, hadaptive⟩ := usmAdaptiveStop_cleared h
  exact .of_off (by rw [hadaptive]) hclear.trial (hclear.matched hs)

/-- The counts that the tuner may ask for are what the pool resolves them to. -/
def Resolves (c : UsmConfig) (t : WorkerTuner Float) : Prop :=
  ∀ n, 1 ≤ n → n ≤ t.limit → usmPoolResolveThreads n c.height c.stripeMin = n

/-- A new trial has the size asked for. -/
theorem Sized.select (h : Sized size s) (hinv : AdaptiveInv threads s) (hkept : Kept Good c s)
    (hon : s.adaptive.enabled = true) (henv : SizedPools Good size threads c env)
    (hresolves : Resolves c s.adaptive.tuner) :
    Sized size (usmAdaptiveSelect s env s.pool).2 := by
  unfold usmAdaptiveSelect
  split
  · exact h
  split
  · exact h
  obtain ⟨hclear, hadaptive⟩ := usmAdaptiveClearTrial_cleared hinv.owns
  have hgeometry := hkept.geometry hon
  simp only [UsmAdaptive.geometry, Prod.mk.injEq] at hgeometry
  obtain ⟨hwidth, hheight, hrows⟩ := hgeometry
  obtain ⟨hpos, hle⟩ := (hinv.running hon).tuner.current_range
  set u := usmAdaptiveClearTrial s
  dsimp only
  split
  · exact .stop hclear.owns (hclear.matched h.matched)
  rename_i p hp
  have hcreated : size p = s.adaptive.tuner.current := by
    rw [hadaptive, hwidth, hheight, hrows] at hp
    rw [henv.created hp]
    exact hresolves _ hpos hle
  refine ⟨fun _ => ?_, fun t ht => ?_, matched_append (hclear.matched h.matched) (by simp)⟩
  · -- the pool in use has another handle
    obtain ⟨b, hb⟩ := Option.ne_none_iff_exists'.mp fun hn =>
      absurd (hon.symm.trans (hinv.noPool hn)) (by decide)
    have hub : u.pool = some b := hclear.pool.trans hb
    have hbn : b ≠ u.next := fun heq => absurd (hclear.owns.below b (.inl hub)) (by omega)
    have hbest := h.pool hon
    simp only [effectiveThreads, hb, Option.bind_some] at hbest
    simp only [effectiveThreads, addPool, UsmSystem.setAdaptive, hub, Option.bind_some,
      Function.update_of_ne hbn, hclear.heap b hb, hadaptive]
    exact hbest
  · obtain rfl : u.next = t := Option.some.inj ht
    simp only [effectiveThreads, addPool, UsmSystem.setAdaptive, Option.bind_some,
      Function.update_self, hadaptive]
    exact hcreated

theorem Sized.flags (h : Sized size s) {a : UsmAdaptive}
    (hon : a.enabled = true → s.adaptive.enabled = true) (htrial : a.trial = s.adaptive.trial)
    (hcount : a.trialCount = s.adaptive.trialCount) (htuner : a.tuner = s.adaptive.tuner) :
    Sized size (s.setAdaptive a) :=
  ⟨fun ha => (h.pool (hon ha)).trans (by rw [← htuner]; rfl),
    fun t ht => (h.trial t (htrial.symm.trans ht)).trans hcount.symm, h.matched⟩

theorem Sized.choose (h : Sized size s) (hinv : AdaptiveInv threads s) (hkept : Kept Good c s)
    (henv : SizedPools Good size threads c env) (hresolves : Resolves c s.adaptive.tuner) :
    Sized size (usmAdaptiveChoose s env).2.2 := by
  set s₀ := s.setAdaptive { s.adaptive with retained := false } with hs₀
  have h₀ : Sized size s₀ := h.flags id rfl rfl rfl
  have hinv₀ : AdaptiveInv threads s₀ := hinv.flags false s.adaptive.framePending
    s.adaptive.frameTimed s.adaptive.frameStart s.plane
  have hkept₀ : Kept Good c s₀ := hkept.setAdaptive id rfl
  have hselect : Sized size
      (if s₀.adaptive.enabled then usmAdaptiveSelect s₀ env s₀.pool else (s₀.pool, s₀)).2 := by
    by_cases hon : s₀.adaptive.enabled = true
    · rw [if_pos hon]
      exact h₀.select hinv₀ hkept₀ hon henv hresolves
    · rwa [if_neg hon]
  unfold usmAdaptiveChoose usmAdaptiveTakeStart
  dsimp only
  rw [← hs₀]
  generalize (if s₀.adaptive.enabled then usmAdaptiveSelect s₀ env s₀.pool else (s₀.pool, s₀)) = r
    at hselect ⊢
  split_ifs
  · exact hselect
  all_goals exact hselect.flags id rfl rfl rfl

theorem effectiveThreads_used_same {k : ℕ} {p : Pool} (hk : s.heap k = some p)
    {r : UsmReply Pool Plane} (hr : size r.pool = size p) (h : Option ℕ) :
    (s.used k r).effectiveThreads size h = s.effectiveThreads size h := by
  by_cases hne : h = some k
  · subst hne
    rw [effectiveThreads_used, hr]
    simp only [effectiveThreads, Option.bind_some, hk]
  · exact effectiveThreads_used_of_ne hne r

theorem Sized.used (h : Sized size s) {k : ℕ} {p : Pool} (hk : s.heap k = some p)
    {r : UsmReply Pool Plane} (hr : size r.pool = size p) : Sized size (s.used k r) :=
  ⟨fun hon => (effectiveThreads_used_same hk hr s.pool).trans (h.pool hon),
    fun t ht => (effectiveThreads_used_same hk hr (some t)).trans (h.trial t ht),
    used_matched h.matched k r⟩

theorem destroyPool_matched (hs : .mismatch ∉ s.log) (k : Option ℕ) :
    .mismatch ∉ (s.destroyPool k).log := by
  unfold UsmSystem.destroyPool
  split
  · exact hs
  · split <;> exact matched_append hs (by simp)

/-- A pool that is promoted has the new best size. -/
theorem Sized.accept (h : Sized size s) (hchecked : Checked threads s)
    (elapsed : Float) : Sized size (usmAdaptiveAccept s elapsed) := by
  have hmove := workerTunerObserve_move hchecked.running.tuner (some elapsed)
  obtain ⟨b, hb⟩ := Option.ne_none_iff_exists'.mp hchecked.pool
  have hstay : (s.observed elapsed).adaptive.tuner.best = s.adaptive.tuner.best →
      Sized size (s.observed elapsed) := fun hbest =>
    ⟨fun hon => (h.pool hon).trans hbest.symm, h.trial, h.matched⟩
  unfold usmAdaptiveAccept
  dsimp only
  split
  · rename_i hbest
    split
    · -- the trial goes, the pool in use does not
      obtain ⟨hclear, hadaptive⟩ := usmAdaptiveClearTrial_cleared
        (hchecked.owns.observed elapsed)
      have htuner : (usmAdaptiveClearTrial (s.observed elapsed)).adaptive.tuner =
          (s.observed elapsed).adaptive.tuner := by rw [hadaptive]
      have hsize := (hclear.effectiveThreads size).trans ((hstay hbest).pool hchecked.on)
      exact ⟨fun _ => hsize.trans (congrArg WorkerTuner.best htuner.symm),
        fun t ht => absurd (hclear.trial.symm.trans ht) nofun, hclear.matched h.matched⟩
    · exact hstay hbest
  rename_i hbest
  -- another best count means that a confirmation has been accepted
  have hconfirm : s.adaptive.tuner.phase = .confirm ∧
      (s.observed elapsed).adaptive.tuner.best = s.adaptive.tuner.candidate := by
    cases hmove with
    | accept hbest' hphase => exact ⟨hphase, hbest'⟩
    | stay hbest' | leave hbest' | confirm hbest' | reject hbest' | restart hbest' =>
      exact absurd hbest' hbest
  obtain ⟨t, ht⟩ := Option.ne_none_iff_exists'.mp (hchecked.running.confirm hconfirm.1)
  obtain ⟨-, hcount, -⟩ := hchecked.running.trial t ht
  have htb : t ≠ b := fun heq => hchecked.owns.apart b hb (heq ▸ ht)
  obtain ⟨p, hp⟩ := hchecked.owns.heap_of_pool hb
  refine ⟨fun _ => ?_, nofun, ?_⟩
  · have hsize := h.trial t ht
    simp only [effectiveThreads, Option.bind_some] at hsize
    simp only [destroyPool, hb, hp, UsmSystem.setAdaptive, effectiveThreads, ht, Option.bind_some,
      Function.update_of_ne htb, hsize, hcount]
    exact hconfirm.2.symm
  · exact matched_append (destroyPool_matched (s := s.observed elapsed) h.matched _) (by simp)

/-- The check of the worker count does not fail. -/
theorem finish_sized {k : ℕ} {p : Pool} (hchosen : Chosen threads s s' (some k))
    (hk : s'.heap k = some p) (h : Sized size s') (hgood : ∀ {j q}, s'.heap j = some q → Good q)
    (hpool : s.pool ≠ none) (henv : SizedPools Good size threads c env) {amountQ8 : ℤ}
    (hamount : 0 < amountQ8) {out : UsmStatus × UsmSystem Pool Plane}
    (hexit : FinishExit threads s' env amountQ8 k (env.apply k p amountQ8 s'.plane) out) :
    Sized size out.2 := by
  set r := env.apply k p amountQ8 s'.plane
  have hok : r.status = .ok → threads r.pool = size p := henv.ok (hgood hk) hamount
  have hsame : size r.pool = size p := henv.same (hgood hk)
  have hused := hchosen.owns.used hk r
  have hsized := h.used hk hsame
  cases hexit with
  | trialUncertain _ _ hout =>
    rw [hout]
    exact (Sized.stop hused hsized.matched).flags id rfl rfl rfl
  | trialFailed hne _ hout =>
    obtain ⟨b, hb⟩ : ∃ b, s'.pool = some b :=
      Option.ne_none_iff_exists'.mp (hchosen.pool ▸ hpool)
    obtain ⟨q, hq, hheap⟩ := hchosen.owns.heap_stop_used hb hk hne r
    have hstop : Sized size (usmAdaptiveStop (s'.used k r)) := .stop hused hsized.matched
    -- the pool in use takes the frame over, with the size it had
    rw [hout, hb, applyPool_live hheap]
    exact hstop.used hheap (henv.same (hgood hq))
  | failed _ _ hout =>
    rw [hout]
    exact hsized
  | off _ _ hout =>
    rw [hout]
    exact hsized
  | mismatch hstatus hon hthreads hout =>
    have hsize : s'.effectiveThreads size (some k) = size p := by
      simp only [effectiveThreads, Option.bind_some, hk]
    -- the pool that was chosen has the size the tuner asked for
    refine absurd ((hok hstatus).trans ?_) hthreads
    rcases hchosen.usable with ⟨hsel, hrun⟩ | ⟨t, hsel, ht, -, hphase, hrun⟩
    · have hbest := h.pool hon
      rw [hchosen.pool, ← hsel, hsize] at hbest
      exact hbest.trans (hrun hon).1.symm
    · obtain rfl : k = t := Option.some.inj hsel
      obtain ⟨-, hcount, -⟩ := hrun.trial k ht
      calc size p = s'.adaptive.trialCount := hsize.symm.trans (h.trial k ht)
        _ = s'.adaptive.tuner.candidate := hcount
        _ = s'.adaptive.tuner.current := (hrun.tuner.current_trial hphase).symm
  | untimed _ _ _ hout =>
    rw [hout]
    exact .stop hused hsized.matched
  | accepted elapsed _ _ hon hthreads hout =>
    rw [hout]
    exact hsized.accept (hchosen.checked hk hpool hon hthreads) elapsed

/-- The environment of a frame. -/
def Step.SizedBy (Good : Pool → Prop) (size threads : Pool → ℤ) (c : UsmConfig) :
    Step Pool Plane → Prop
  | .frame _ env => SizedPools Good size threads c env
  | _ => True

theorem Sized.disable (h : Sized size s) (howns : Owns s) : Sized size (disableUsm s) := by
  have hoff : AdaptiveInv size (disableUsm s) := disableUsm_inv howns
  refine .of_off (hoff.noPool rfl) (hoff.off (hoff.noPool rfl)) ?_
  obtain ⟨hclear, -⟩ := usmAdaptiveStop_cleared
    (howns.setAmount 0)
  exact matched_append (destroyPool_matched (hclear.matched h.matched) _) (by simp)

theorem Sized.step (h : Sized size s) (hinv : AdaptiveInv threads s) (hkept : Kept Good c s)
    (hresolves : Resolves c s.adaptive.tuner) {st : Step Pool Plane}
    (hst : st.SizedBy Good size threads c) : Sized size (step threads s st) := by
  cases st with
  | start clock =>
    show Sized size (usmAdaptiveBegin s clock)
    obtain ⟨_, _, _, hbegin⟩ := usmAdaptiveBegin_eq s clock
    rw [hbegin]
    exact h.flags id rfl rfl rfl
  | frame plane env =>
    have hplane : Sized size { s with plane := plane } := ⟨h.pool, h.trial, h.matched⟩
    have hinv' : AdaptiveInv threads { s with plane := plane } :=
      hinv.flags s.adaptive.retained s.adaptive.framePending s.adaptive.frameTimed
        s.adaptive.frameStart plane
    have hkept' : Kept Good c { s with plane := plane } := ⟨hkept.geometry, hkept.pools⟩
    have hcall (hpool : s.pool ≠ none) (hamount : 0 < s.amountQ8) :
        Sized size (usmAdaptiveApply threads { s with plane := plane } env s.amountQ8).2 := by
      have hchosen := usmAdaptiveChoose_chosen hinv' env
      obtain ⟨k, p, hsel, hk⟩ := hchosen.live hpool
      have hsized := hplane.choose hinv' hkept' hst hresolves
      rw [usmAdaptiveApply_eq]
      rw [hsel] at hchosen ⊢
      exact finish_sized hchosen hk hsized (hkept'.choose hst.toKeepsPools).pools hpool hst hamount
        (usmAdaptiveFinish_exit threads hk env s.amountQ8 _)
    show Sized size (applyUsmIfEnabled threads { s with plane := plane } env).2
    cases applyUsmIfEnabled_exit threads { s with plane := plane } env with
    | off _ hout =>
      rw [hout]
      exact hplane
    | kept hamount hpool _ hout =>
      rw [hout]
      exact hcall hpool hamount
    | disabled hamount hpool _ _ hout =>
      rw [hout]
      exact (hcall hpool hamount).disable (usmAdaptiveApply_callLaw hinv' hpool env s.amountQ8).owns
  | disable => exact h.disable hinv.owns

theorem Observes.resolves {t t' : WorkerTuner Float} (h : Observes t t') (hr : Resolves c t) :
    Resolves c t' := by
  have hlimit : t'.limit = t.limit := by
    obtain rfl | ⟨elapsed, rfl⟩ := h
    · rfl
    · exact workerTunerObserve_limit t elapsed
  exact fun n hpos hle => hr n hpos (hlimit ▸ hle)

theorem Step.SizedBy.keeps {st : Step Pool Plane} (h : st.SizedBy Good size threads c) :
    st.Keeps Good c := by
  cases st with
  | frame plane env => exact SizedPools.toKeepsPools h
  | start | disable => trivial

theorem Sized.run (h : Sized size s) (hinv : AdaptiveInv threads s) (hkept : Kept Good c s)
    (hresolves : Resolves c s.adaptive.tuner) {steps : List (Step Pool Plane)}
    (hsteps : ∀ st ∈ steps, st.SizedBy Good size threads c) :
    Sized size (run threads s steps) := by
  induction steps generalizing s with
  | nil => exact h
  | cons st steps ih =>
    have hst := hsteps st (.head _)
    exact ih (h.step hinv hkept hresolves hst) (step_inv hinv st) (hkept.step hst.keeps)
      ((step_observes threads s st).resolves hresolves) fun st' hst' => hsteps st' (.tail _ hst')

end Sizes

/-! ### The pools of `usm_pool.c` -/

/-- A pool whose workers, once up, are all up. -/
structure FullPool (p : UsmPool) : Prop where
  inv : UsmInv p
  full : p.pool.lazyDone = true → (p.pool.nWorkers : ℤ) = p.nThreadsPref

theorem usmPoolCreate_spec {n width height rows : ℤ} {alloc : Bool} {scratch : ℕ} {p : UsmPool}
    (h : usmPoolCreate n width height rows alloc scratch = some p) :
    0 < width ∧ 0 < height ∧ FullPool p ∧ p.nThreads = usmPoolResolveThreads n height rows ∧
      p.nThreadsPref = usmPoolResolveThreads n height rows := by
  have hinv := (usmReachable_inv (.create h)).1
  unfold usmPoolCreate at h
  split at h
  · cases h
  rename_i hargs
  dsimp only at h
  split at h
  · cases h
  obtain rfl := Option.some.inj h
  exact ⟨by omega, by omega, ⟨hinv, nofun⟩, rfl, rfl⟩

theorem usmPoolEnsureStarted_full {p : UsmPool} (h : FullPool p) {o : StartOutcome}
    (hspawn : ∀ i, o.spawn i = true) : FullPool (usmPoolEnsureStarted p o).2 := by
  obtain ⟨hinv, hsame, -⟩ := usmPoolEnsureStarted_inv h.inv o
  refine ⟨hinv, ?_⟩
  rw [hsame.pref]
  show (workerPoolEnsureStarted p.pool (usmPoolStartOutcome p o)).pool.lazyDone = true →
    ((workerPoolEnsureStarted p.pool (usmPoolStartOutcome p o)).pool.nWorkers : ℤ) =
      p.nThreadsPref
  unfold workerPoolEnsureStarted
  split
  · exact h.full
  rename_i hdone
  split
  · exact h.full
  rename_i hfailed
  have hfresh := h.inv.fresh (by simpa using hdone) (by simpa using hfailed)
  have hstart := workerPoolStart_law p.pool (usmPoolStartOutcome p o) hfresh
  have hlazy : (workerPoolStart p.pool (usmPoolStartOutcome p o)).pool.lazyDone =
      p.pool.lazyDone := by rw [hstart.frame]
  dsimp only
  split
  · exact fun hd => absurd (hlazy.symm.trans hd) hdone
  · rename_i hok
    have hn := workerPoolStart_complete (o := usmPoolStartOutcome p o) hfresh (fun _ => rfl) hspawn
      (by simpa using hok)
    exact fun _ => hn.trans h.inv.pref

/-- A call without spawn failures keeps a pool full, and one that sharpens has all the
workers at work. -/
theorem usmPoolApply_full {p : UsmPool} (h : FullPool p) {f : UsmFrame}
    (hspawn : ∀ i, f.outcome.start.spawn i = true) : FullPool (f.apply p).pool ∧
      (0 < f.call.amountQ8 → (f.apply p).status = .ok →
        (f.apply p).pool.nThreads = p.nThreadsPref) := by
  obtain ⟨hinv, hsame⟩ := usmPoolApply_inv h.inv f.call f.outcome f.memory
  have hstarted := usmPoolEnsureStarted_full h (o := f.outcome.start) hspawn
  cases usmPoolApply_exit p f with
  | rejected _ hcall | broken _ _ hcall =>
    rw [hcall]
    exact ⟨h, fun _ => nofun⟩
  | identity _ _ hzero _ hpool =>
    rw [hpool]
    exact ⟨h, fun hamount => absurd hzero (clampAmountQ8_ne_zero hamount)⟩
  | startFailed _ _ _ _ hcall =>
    rw [hcall]
    exact ⟨hstarted, fun _ => nofun⟩
  | dispatched _ _ _ hstart _ hpool =>
    obtain ⟨-, hsame₁, hdone₁⟩ := usmPoolEnsureStarted_inv h.inv f.outcome.start
    have hframe := workerPoolDispatch_frame (usmPoolEnsureStarted p f.outcome.start).2.pool
      f.outcome.gateOk f.outcome.stop
    rw [← hpool] at hframe
    have hdone : (f.apply p).pool.pool.lazyDone = true := by
      rw [hframe.rest]
      exact hdone₁ hstart
    have hfull : ((f.apply p).pool.pool.nWorkers : ℤ) = p.nThreadsPref := by
      rw [hframe.rest]
      exact (hstarted.full (hdone₁ hstart)).trans hsame₁.pref
    exact ⟨⟨hinv, fun _ => hfull.trans hsame.pref.symm⟩,
      fun _ _ => (hinv.ready hdone).1.trans hfull⟩

/-- The pools of a frame in which every spawn succeeds. -/
theorem usmPoolEnv_sized (c : UsmConfig) (pixels : ℕ) (pitch : ℤ) {o : UsmPoolOutcome}
    (hspawn : ∀ h i, (o.outcome h).start.spawn i = true) :
    SizedPools FullPool UsmPool.nThreadsPref UsmPool.nThreads c (usmPoolEnv pixels pitch o) where
  create h := (usmPoolCreate_spec h).2.2.1
  apply {h _ amountQ8 m} hp :=
    (usmPoolApply_full hp (f := ⟨⟨some pixels, pitch, some pixels, pitch, amountQ8⟩, o.outcome h, m⟩)
      (hspawn h)).1
  created h := (usmPoolCreate_spec h).2.2.2.2
  same {h _ amountQ8 m} hp :=
    (usmPoolApply_inv hp.inv ⟨some pixels, pitch, some pixels, pitch, amountQ8⟩ (o.outcome h)
      m).2.pref
  ok {h _ amountQ8 m} hp hamount hstatus :=
    (usmPoolApply_full hp (f := ⟨⟨some pixels, pitch, some pixels, pitch, amountQ8⟩, o.outcome h, m⟩)
      (hspawn h)).2 hamount hstatus

/-! ### The law -/

/-- A step in which every spawn succeeds. -/
def Step.Spawns : Step UsmPool Memory → Prop
  | .frame _ env => ∃ pixels pitch o, env = usmPoolEnv pixels pitch o ∧
      ∀ h i, (o.outcome h).start.spawn i = true
  | _ => True

/-- `up_usm_pool_create` takes `count` as it is. -/
def CreatesWith (c : UsmConfig) (count : ℤ) : Prop :=
  ∀ scratch, ∃ p, usmPoolCreate count c.width c.height c.stripeMin true scratch = some p ∧
    p.nThreads = count ∧ p.nThreadsPref = count

/-- The limits of the tuner and of the pool, from the state `s₀` after `InitUsmPool`. -/
structure LimitLaw (c : UsmConfig) (s₀ : UsmSystem UsmPool Memory) : Prop where
  /-- The tuner starts with the workers of the first pool. -/
  first : ∃ b p, s₀.pool = some b ∧ s₀.heap b = some p ∧
    p.nThreads = usmPoolResolveThreads c.initialThreads c.height c.stripeMin ∧
    s₀.adaptive.tuner.current = p.nThreads
  /-- Whatever the tuner observes, the pool takes the count it selects. -/
  tuner : ∀ elapsed, CreatesWith c (tunerRun s₀.adaptive.tuner elapsed).current
  /-- Whatever happens to the filter. -/
  selected : ∀ steps, CreatesWith c (run UsmPool.nThreads s₀ steps).adaptive.tuner.current
  /-- Without spawn failures the check of the worker count never fails. -/
  matched : ∀ steps, (∀ st ∈ steps, st.Spawns) →
    .mismatch ∉ (run UsmPool.nThreads s₀ steps).log

theorem createsWith_of_inRange (hthreads : c.threadsPref = threadsAuto)
    (hon : c.adaptiveUsm ≠ 0) (hwidth : 0 < c.width) (hheight : 0 < c.height) {initial count : ℤ}
    (hpos : 1 ≤ count) (hle : count ≤ (initAdaptiveUsm c initial).tuner.limit) :
    CreatesWith c count := by
  intro scratch
  have hfixed := usmPoolResolveThreads_fixed hthreads hon hheight hpos hle
  obtain ⟨p, hp⟩ : ∃ p, usmPoolCreate count c.width c.height c.stripeMin true scratch =
      some p := by
    unfold usmPoolCreate
    rw [if_neg (by omega)]
    exact ⟨_, if_neg (by decide)⟩
  obtain ⟨-, -, -, hn, hpref⟩ := usmPoolCreate_spec hp
  exact ⟨p, hp, hn.trans hfixed, hpref.trans hfixed⟩

/-- **The limits of adaptation agree with the pool's own clamp.** -/
theorem adaptive_limits_agree (hthreads : c.threadsPref = threadsAuto) (hon : c.adaptiveUsm ≠ 0)
    {alloc : Bool} {scratch : ℕ} {m : Memory}
    (hpool : (initUsmPool c (fun n width height rows =>
      usmPoolCreate n width height rows alloc scratch) m).pool ≠ none) :
    LimitLaw c (initUsmPool c (fun n width height rows =>
      usmPoolCreate n width height rows alloc scratch) m) := by
  obtain ⟨p, hcreate, hb, hp, hadaptive, hlog⟩ := initUsmPool_some hpool
  obtain ⟨hwidth, hheight, hfull, hn, hpref⟩ := usmPoolCreate_spec hcreate
  have hfirst := initAdaptiveUsm_first hthreads hon hwidth hheight
  have htuner : TunerInv (initAdaptiveUsm c c.initialThreads).tuner := by
    rw [initAdaptiveUsm_tuner hthreads hon]
    exact workerTunerInit_inv _ _
  -- the counts the tuner visits are in its range, and those the pool takes
  have hselect (elapsed : List (Option Float)) :
      CreatesWith c (tunerRun (initAdaptiveUsm c c.initialThreads).tuner elapsed).current := by
    obtain ⟨hpos, hle⟩ := (tunerRun_inv htuner elapsed).current_range
    rw [tunerRun_limit] at hle
    exact createsWith_of_inRange hthreads hon hwidth hheight hpos hle
  set s₀ := initUsmPool c (fun n width height rows =>
    usmPoolCreate n width height rows alloc scratch) m with hs₀
  refine ⟨⟨0, p, hb, hp, hn, ?_⟩, fun elapsed => ?_, fun steps => ?_, fun steps hsteps => ?_⟩
  · rw [hadaptive, hn]
    exact hfirst
  · rw [hadaptive]
    exact hselect elapsed
  · obtain ⟨elapsed, hrun⟩ := run_tuner UsmPool.nThreads s₀ steps
    rw [hrun, hadaptive]
    exact hselect elapsed
  · -- at the start the only pool has the size of the first count
    have hsized : Sized UsmPool.nThreadsPref s₀ := by
      obtain ⟨htrial, -, -, hphase, -⟩ := initAdaptiveUsm_running c c.initialThreads
      refine ⟨fun _ => ?_, fun t ht => ?_, by simp [hlog]⟩
      · have hbest := htuner.current_eq (by rw [hphase]; decide)
        simp only [effectiveThreads, hb, Option.bind_some, hp, hadaptive]
        rw [hpref, ← hfirst, hbest]
      · rw [hadaptive, htrial] at ht
        cases ht
    have hkept : Kept FullPool c s₀ := initUsmPool_kept (fun h => (usmPoolCreate_spec h).2.2.1) m
    have hresolves : Resolves c s₀.adaptive.tuner := fun n hpos hle =>
      usmPoolResolveThreads_fixed hthreads hon hheight hpos (hadaptive ▸ hle)
    refine (hsized.run (initUsmPool_inv c _ m) hkept hresolves fun st hst => ?_).matched
    have hspawns := hsteps st hst
    cases st with
    | frame plane env =>
      obtain ⟨pixels, pitch, o, rfl, hspawn⟩ := hspawns
      exact usmPoolEnv_sized c pixels pitch hspawn
    | start | disable => trivial

/-- Eight cores and a 16x32 picture in stripes of eight rows: four workers at most. -/
theorem adaptive_limits_agree_small :
    let c : UsmConfig := ⟨100, fourcc 'I' '4' '2' '0', 0, 8, 16, 32, 8, 1⟩
    let s₀ := initUsmPool c (fun n width height rows =>
      usmPoolCreate n width height rows true 4096) (fun _ => 7)
    s₀.adaptive.tuner.limit = 4 ∧ s₀.adaptive.tuner.current = 4 ∧ LimitLaw c s₀ :=
  ⟨by decide, by decide, adaptive_limits_agree rfl (by decide) (by decide)⟩

end AutoUpscale.Adaptive
