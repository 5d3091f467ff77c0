/-
Who owns the pictures, and which backend is open, over a whole playback.

A playback is one Open, any number of Filter calls and one Close, with every
outcome of every call they make.  `backendStep` is the abstract life of the
backends: at most one is open, only an open one is processed or closed.
`FilterMove.replays` says that the code's events are such a life and that it ends
where `scaler.backend` says.

- `picture_and_backend_lifecycle`: the law of a playback (`PlaybackLaw`).
-/
import AutoUpscale.LabelledTrace
import AutoUpscale.Filter

namespace AutoUpscale

open LabelledTrace

/-! ### The life of the backends -/

/-- Which backend is open after an event; `none` when the event may not happen. -/
def backendStep (live : Option Backend) : PluginEvent → Option (Option Backend)
  | .openBackend b ok => if live = none then some (if ok then some b else none) else none
  | .process b _ => if live = some b then some live else none
  | .closeBackend b => if live = some b then some none else none
  | _ => some live

/-- Successful opens and closes of `b` in a log. -/
def opens (b : Backend) (log : List PluginEvent) : ℕ := log.count (.openBackend b true)
def closes (b : Backend) (log : List PluginEvent) : ℕ := log.count (.closeBackend b)

/-- In a life, what was opened was closed unless it is still open. -/
theorem opens_eq_closes {live live' : Option Backend} {log : List PluginEvent}
    (h : replay backendStep live log = some live') (b : Backend) :
    (if live = some b then 1 else 0) + opens b log =
      closes b log + if live' = some b then 1 else 0 := by
  refine replay_balance (m := fun l => if l = some b then 1 else 0) ?_ h
  intro l e l' hl
  cases e with
  | openBackend c ok =>
    simp only [backendStep, Option.ite_none_right_eq_some, Option.some.injEq] at hl
    obtain ⟨rfl, rfl⟩ := hl
    cases ok <;> by_cases hcb : c = b <;> simp [hcb]
  | closeBackend c =>
    simp only [backendStep, Option.ite_none_right_eq_some, Option.some.injEq] at hl
    obtain ⟨rfl, rfl⟩ := hl
    by_cases hcb : c = b <;> simp [hcb]
  | process c st =>
    simp only [backendStep, Option.ite_none_right_eq_some, Option.some.injEq] at hl
    obtain ⟨rfl, rfl⟩ := hl
    simp
  | _ =>
    obtain rfl : l = l' := by simpa [backendStep] using hl
    simp

/-! ### One Filter call -/

theorem runProbe_backend (s : FilterSys) (view : Option ProbeMetrics) :
    (runProbe s view).backend = s.backend ∧ (runProbe s view).priv = s.priv ∧
      (runProbe s view).backendPref = s.backendPref ∧
      (runProbe s view).fallbackTried = s.fallbackTried := by
  cases view with
  | none => exact ⟨rfl, rfl, rfl, rfl⟩
  | some m =>
    simp only [runProbe]
    repeat' split
    all_goals exact ⟨rfl, rfl, rfl, rfl⟩

/-- The USM pass leaves the backend alone. -/
theorem applyUsm_backend (s : FilterSys) (planes : ℤ) (o : FrameOutcome) :
    (applyUsmIfEnabled s planes o).1.backend = s.backend ∧
      (applyUsmIfEnabled s planes o).1.priv = s.priv ∧
      (applyUsmIfEnabled s planes o).1.backendPref = s.backendPref ∧
      (applyUsmIfEnabled s planes o).1.fallbackTried = s.fallbackTried := by
  simp only [applyUsmIfEnabled]
  repeat' split
  all_goals exact ⟨rfl, rfl, rfl, rfl⟩

theorem scalerPick_swscale (env : BackendEnv) (chroma : ℕ) (algo : ℤ) :
    scalerPick env backendSwscale chroma algo = none ∨
      scalerPick env backendSwscale chroma algo = some .swscale := by
  simp only [scalerPick, scalerPickWith, pickSwscaleIfOk]
  rw [if_neg (by decide), if_pos trivial]
  split
  · exact .inr rfl
  · exact .inl rfl

/-- Everything a Filter call can do: what it was dropped for, or the outcome of
the backend's `process` and of the USM pass. -/
inductive FilterMove (s : FilterSys) (o : FrameOutcome) (c : FilterCall) : Prop
  | noInput (hin : o.input = none) (hlog : c.log = []) (hret : c.returned = false)
      (hsys : c.sys = s)
  | noBackend (hin : o.input ≠ none) (hbe : s.backend = none) (hlog : c.log = [.releaseIn])
      (hret : c.returned = false) (hsys : c.sys = s)
  | noOutput (hin : o.input ≠ none) (hbe : s.backend ≠ none)
      (hlog : c.log = [.newPicture false, .releaseIn]) (hret : c.returned = false)
      (hbe' : c.sys.backend = s.backend)
  | failed (be : Backend) (st : ProcessStatus) (hst : st ≠ .ok) (hin : o.input ≠ none)
      (hbe : s.backend = some be)
      (hlog : c.log = [.newPicture true, .process be st, .releaseOut, .releaseIn])
      (hret : c.returned = false) (hbe' : c.sys.backend = s.backend)
  | retired (hin : o.input ≠ none) (hbe : s.backend = some .zimg)
      (htried : s.fallbackTried = false)
      (hlog : c.log = [.newPicture true, .process .zimg .fatal, .closeBackend .zimg,
        .releaseOut, .releaseIn])
      (hret : c.returned = false) (hbe' : c.sys.backend = none)
      (htried' : c.sys.fallbackTried = true)
  | replaced (ok : Bool) (hin : o.input ≠ none) (hbe : s.backend = some .zimg)
      (htried : s.fallbackTried = false) (hpref : s.backendPref ≠ backendZimg)
      (hlog : c.log = [.newPicture true, .process .zimg .fatal, .closeBackend .zimg,
        .openBackend .swscale ok, .releaseOut, .releaseIn])
      (hret : c.returned = false)
      (hbe' : c.sys.backend = if ok then some .swscale else none)
      (htried' : c.sys.fallbackTried = true)
  | finished (be : Backend) (usm : List PluginEvent) (hin : o.input ≠ none)
      (hbe : s.backend = some be)
      (husm : usm = [] ∨ usm = [.usmApply .ok] ∨ usm = [.usmApply .failedUnchanged])
      (hlog : c.log = [.newPicture true, .process be .ok] ++ usm ++ [.releaseIn])
      (hret : c.returned = true) (hbe' : c.sys.backend = s.backend)
  | uncertain (be : Backend) (hin : o.input ≠ none) (hbe : s.backend = some be)
      (hlog : c.log = [.newPicture true, .process be .ok, .usmApply .outputUncertain,
        .releaseOut, .releaseIn])
      (hret : c.returned = false) (hbe' : c.sys.backend = s.backend)

/-- What no Filter call changes. -/
structure FilterFrame (s s' : FilterSys) : Prop where
  pref : s'.backendPref = s.backendPref
  tried : s.fallbackTried = true → s'.fallbackTried = true

theorem applyUsm_move (s : FilterSys) (planes : ℤ) (o : FrameOutcome) :
    ((applyUsmIfEnabled s planes o).2.2 = .outputUncertain ∧
        (applyUsmIfEnabled s planes o).2.1 = [.usmApply .outputUncertain]) ∨
      ((applyUsmIfEnabled s planes o).2.2 ≠ .outputUncertain ∧
        ((applyUsmIfEnabled s planes o).2.1 = [] ∨
          (applyUsmIfEnabled s planes o).2.1 = [.usmApply .ok] ∨
          (applyUsmIfEnabled s planes o).2.1 = [.usmApply .failedUnchanged])) := by
  simp only [applyUsmIfEnabled]
  split
  · exact .inr ⟨by simp, .inl rfl⟩
  split
  · exact .inr ⟨by simp, .inl rfl⟩
  split
  · cases hu : o.usm with
    | ok => rename_i hne; exact absurd hu hne
    | failedUnchanged => exact .inr ⟨by simp, .inr (.inr rfl)⟩
    | outputUncertain => exact .inl ⟨rfl, rfl⟩
  · exact .inr ⟨by simp, .inr (.inl rfl)⟩

theorem tryBackendFallback_frame (env : BackendEnv) (s : FilterSys) (be : Backend)
    (ok : Bool) : FilterFrame s (tryBackendFallback env s be ok).1 := by
  simp only [tryBackendFallback, retireBackend]
  repeat' split
  all_goals exact ⟨rfl, fun h => by first | exact h | rfl⟩

/-- The fallback keeps the backend, retires zimg, or puts swscale in its place. -/
theorem tryBackendFallback_move (env : BackendEnv) (s : FilterSys) (be : Backend) (ok : Bool)
    (hbe : s.backend = some be) :
    let r := tryBackendFallback env s be ok
    (r.2 = [] ∧ r.1.backend = s.backend) ∨
      (be = .zimg ∧ s.fallbackTried = false ∧ r.1.fallbackTried = true ∧
        ((r.2 = [.closeBackend .zimg] ∧ r.1.backend = none) ∨
          (s.backendPref ≠ backendZimg ∧
            r.2 = [.closeBackend .zimg, .openBackend .swscale ok] ∧
            r.1.backend = if ok then some .swscale else none))) := by
  intro r
  simp only [r, tryBackendFallback]
  by_cases htried : s.fallbackTried = true
  · rw [if_pos htried]
    exact .inl ⟨rfl, rfl⟩
  rw [if_neg htried]
  cases be with
  | swscale =>
    rw [if_pos (by decide)]
    exact .inl ⟨rfl, rfl⟩
  | zimg =>
    rw [if_neg (by decide)]
    refine .inr ⟨rfl, by simpa using htried, ?_⟩
    by_cases hpref : s.backendPref = backendZimg
    · rw [if_pos hpref]
      exact ⟨rfl, .inl ⟨rfl, rfl⟩⟩
    rw [if_neg hpref]
    rcases scalerPick_swscale env s.scaler.chroma s.scaler.algo with hsw | hsw <;>
      simp only [hsw]
    · exact ⟨rfl, .inl ⟨rfl, rfl⟩⟩
    · cases ok
      · exact ⟨rfl, .inr ⟨hpref, rfl, rfl⟩⟩
      · exact ⟨rfl, .inr ⟨hpref, rfl, rfl⟩⟩

theorem filter_move (env : BackendEnv) (s : FilterSys) (o : FrameOutcome) :
    FilterMove s o (filter env s o) ∧ FilterFrame s (filter env s o).sys := by
  unfold filter
  cases hin : o.input with
  | none => exact ⟨.noInput hin rfl rfl rfl, rfl, id⟩
  | some inPlanes =>
  have hin' : o.input ≠ none := by simp [hin]
  cases hbe : s.backend with
  | none => exact ⟨.noBackend hin' hbe rfl rfl rfl, rfl, id⟩
  | some be =>
  -- the probe does not touch what the lifecycle is about
  obtain ⟨hbe₁, -, hpref₁, htried₁⟩ :
      (if s.probe.active ∧ inPlanes ≥ 1 then runProbe s o.srcView else s).backend = s.backend ∧
      (if s.probe.active ∧ inPlanes ≥ 1 then runProbe s o.srcView else s).priv = s.priv ∧
      (if s.probe.active ∧ inPlanes ≥ 1 then runProbe s o.srcView else s).backendPref =
        s.backendPref ∧
      (if s.probe.active ∧ inPlanes ≥ 1 then runProbe s o.srcView else s).fallbackTried =
        s.fallbackTried := by
    split
    · exact runProbe_backend s o.srcView
    · exact ⟨rfl, rfl, rfl, rfl⟩
  simp only
  generalize (if s.probe.active ∧ inPlanes ≥ 1 then runProbe s o.srcView else s) = s₁ at *
  have hkeep : ∀ s₂, FilterFrame s₁ s₂ → FilterFrame s s₂ := fun s₂ h =>
    ⟨h.pref.trans hpref₁, fun ht => h.tried (htried₁.trans ht)⟩
  cases hout : o.output with
  | none => exact ⟨.noOutput hin' (by simp [hbe]) rfl rfl hbe₁, hkeep _ ⟨rfl, id⟩⟩
  | some outPlanes =>
  simp only
  by_cases hok : o.process = .ok
  swap
  · rw [if_pos hok]
    cases hfatal : processNeedsFallback o.process with
    | false =>
      exact ⟨.failed be o.process hok hin' hbe rfl rfl hbe₁, hkeep _ ⟨rfl, id⟩⟩
    | true =>
      have hst : o.process = .fatal := by simpa [processNeedsFallback] using hfatal
      refine ⟨?_, hkeep _ (tryBackendFallback_frame env s₁ be o.fallbackOpens)⟩
      simp only [if_true]
      rcases tryBackendFallback_move env s₁ be o.fallbackOpens (hbe₁.trans hbe) with
        ⟨hlog, hb⟩ | ⟨rfl, ht, ht', ⟨hlog, hb⟩ | ⟨hp, hlog, hb⟩⟩
      · exact .failed be o.process hok hin' hbe (by simp [hlog]) rfl (hb.trans hbe₁)
      · exact .retired hin' hbe (htried₁ ▸ ht) (by simp [hlog, hst]) rfl hb ht'
      · exact .replaced o.fallbackOpens hin' hbe (htried₁ ▸ ht) (hpref₁ ▸ hp)
          (by simp [hlog, hst]) rfl hb ht'
  · rw [if_neg (by simp [hok])]
    obtain ⟨hb, -, hp, ht⟩ := applyUsm_backend s₁ outPlanes o
    simp only [finishScaledFrame]
    rcases applyUsm_move s₁ outPlanes o with ⟨hu, hlog⟩ | ⟨hu, hlog⟩
    · rw [if_pos hu]
      exact ⟨.uncertain be hin' hbe (by simp [hlog]) rfl (hb.trans hbe₁),
        hkeep _ ⟨hp, fun h => ht.trans h⟩⟩
    · rw [if_neg hu]
      exact ⟨.finished be _ hin' hbe hlog (by simp) rfl (hb.trans hbe₁),
        hkeep _ ⟨hp, fun h => ht.trans h⟩⟩

/-! ### What one call does to the pictures and the backends -/

/-- The law of one Filter call. -/
structure CallLaw (o : FrameOutcome) (c : FilterCall) : Prop where
  /-- An input picture is released once, a NULL one never. -/
  input : c.log.count .releaseIn = if o.input = none then 0 else 1
  /-- An output picture is allocated at most once, and then either released
  once or returned. -/
  output : c.log.count (.newPicture true) ≤ 1 ∧
    c.log.count .releaseOut + (if c.returned then 1 else 0) = c.log.count (.newPicture true)
  /-- A picture is returned exactly when one was allocated, the backend
  succeeded and the USM pass left no doubt about it. -/
  returned : c.returned = true ↔ .newPicture true ∈ c.log ∧ (∃ b, .process b .ok ∈ c.log) ∧
    .usmApply .outputUncertain ∉ c.log

theorem FilterMove.callLaw {s : FilterSys} {o : FrameOutcome} {c : FilterCall}
    (h : FilterMove s o c) : CallLaw o c := by
  cases h with
  | noInput hin hlog hret => constructor <;> simp [hin, hlog, hret]
  | noBackend hin _ hlog hret => constructor <;> simp [hin, hlog, hret]
  | noOutput hin _ hlog hret => constructor <;> simp [hin, hlog, hret]
  | failed be st hst hin _ hlog hret =>
    constructor <;> simp [hin, hlog, hret, Ne.symm hst]
  | retired hin _ _ hlog hret => constructor <;> simp [hin, hlog, hret]
  | replaced ok hin _ _ _ hlog hret => constructor <;> simp [hin, hlog, hret]
  | finished be usm hin _ husm hlog hret =>
    rcases husm with rfl | rfl | rfl <;> constructor <;> simp [hin, hlog, hret]
  | uncertain be hin _ hlog hret => constructor <;> simp [hin, hlog, hret]

/-- The events of a call are a stretch of the backends' life, from the backend
in place before it to the one in place after it. -/
theorem FilterMove.replays {s : FilterSys} {o : FrameOutcome} {c : FilterCall}
    (h : FilterMove s o c) : replay backendStep s.backend c.log = some c.sys.backend := by
  cases h with
  | noInput _ hlog _ hsys => simp [hlog, hsys]
  | noBackend _ _ hlog _ hsys => simp [hlog, hsys, backendStep]
  | noOutput _ _ hlog _ hbe' => simp [hlog, hbe', backendStep]
  | failed be st _ _ hbe hlog _ hbe' => simp [hlog, hbe', hbe, backendStep]
  | retired _ hbe _ hlog _ hbe' => simp [hlog, hbe', hbe, backendStep]
  | replaced ok _ hbe _ _ hlog _ hbe' => simp [hlog, hbe', hbe, backendStep]
  | finished be usm _ hbe husm hlog _ hbe' =>
    rcases husm with rfl | rfl | rfl <;> simp [hlog, hbe', hbe, backendStep]
  | uncertain be _ hbe hlog _ hbe' => simp [hlog, hbe', hbe, backendStep]

theorem filter_priv (env : BackendEnv) (s : FilterSys) (o : FrameOutcome)
    (h : s.priv = s.backend.isSome) :
    (filter env s o).sys.priv = (filter env s o).sys.backend.isSome := by
  have hprobe : ∀ v, (runProbe s v).priv = (runProbe s v).backend.isSome := by
    intro v
    obtain ⟨hb, hp, -, -⟩ := runProbe_backend s v
    rw [hb, hp, h]
  have hfallback : ∀ s₁ : FilterSys, s₁.priv = s₁.backend.isSome → ∀ be ok,
      (tryBackendFallback env s₁ be ok).1.priv =
        (tryBackendFallback env s₁ be ok).1.backend.isSome := by
    intro s₁ h₁ be ok
    simp only [tryBackendFallback, retireBackend]
    repeat' split
    all_goals first
      | exact h₁
      | rfl
  have husm : ∀ s₁ : FilterSys, s₁.priv = s₁.backend.isSome → ∀ planes,
      (applyUsmIfEnabled s₁ planes o).1.priv =
        (applyUsmIfEnabled s₁ planes o).1.backend.isSome := by
    intro s₁ h₁ planes
    obtain ⟨hb, hp, -, -⟩ := applyUsm_backend s₁ planes o
    rw [hb, hp, h₁]
  unfold filter
  cases o.input with
  | none => exact h
  | some inPlanes =>
  cases hbe : s.backend with
  | none => rw [hbe] at h; simpa [hbe] using h
  | some be =>
  have h₁ : (if s.probe.active ∧ inPlanes ≥ 1 then runProbe s o.srcView else s).priv =
      (if s.probe.active ∧ inPlanes ≥ 1 then runProbe s o.srcView else s).backend.isSome := by
    split
    · exact hprobe _
    · exact h
  simp only
  generalize (if s.probe.active ∧ inPlanes ≥ 1 then runProbe s o.srcView else s) = s₁ at *
  cases o.output with
  | none => exact h₁
  | some outPlanes =>
  simp only
  split
  · split
    · exact hfallback s₁ h₁ be _
    · exact h₁
  · simp only [finishScaledFrame]
    split <;> exact husm s₁ h₁ outPlanes

/-! ### Runs of frames -/

/-- All events of the Filter calls. -/
def filterRunLog (env : BackendEnv) (s : FilterSys) (frames : List FrameOutcome) :
    List PluginEvent :=
  (filterRun env s frames).flatMap FilterCall.log

/-- The k-th call works on the state the first k calls left. -/
theorem filterRun_getElem (env : BackendEnv) (s : FilterSys) (frames : List FrameOutcome)
    (k : ℕ) : (filterRun env s frames)[k]? =
      (frames[k]?).map fun o => filter env (filterRunSys env s (frames.take k)) o := by
  induction frames generalizing s k with
  | nil => rfl
  | cons o os ih =>
    cases k with
    | zero => rfl
    | succ k => exact ih (filter env s o).sys k

theorem filterRun_replays (env : BackendEnv) (s : FilterSys) (frames : List FrameOutcome) :
    replay backendStep s.backend (filterRunLog env s frames) =
      some (filterRunSys env s frames).backend := by
  induction frames generalizing s with
  | nil => rfl
  | cons o os ih =>
    rw [filterRunLog, filterRun, List.flatMap_cons, replay_append,
      (filter_move env s o).1.replays, Option.bind_some]
    exact ih _

theorem filterRun_priv (env : BackendEnv) (s : FilterSys) (frames : List FrameOutcome)
    (h : s.priv = s.backend.isSome) :
    (filterRunSys env s frames).priv = (filterRunSys env s frames).backend.isSome := by
  induction frames generalizing s with
  | nil => exact h
  | cons o os ih => exact ih _ (filter_priv env s o h)

/-- A pool without a backend drops every frame, calling nothing. -/
theorem filterRun_dropped (env : BackendEnv) (s : FilterSys) (frames : List FrameOutcome)
    (h : s.backend = none) :
    filterRun env s frames = frames.map fun o =>
      ⟨s, if o.input = none then [] else [.releaseIn], false⟩ := by
  induction frames with
  | nil => rfl
  | cons o os ih =>
    have hcall : filter env s o = ⟨s, if o.input = none then [] else [.releaseIn], false⟩ := by
      unfold filter
      cases o.input with
      | none => rfl
      | some planes => simp [h]
    rw [filterRun, hcall, List.map_cons, ih]

/-- No event of `log` opens a backend. -/
def NoOpen (log : List PluginEvent) : Prop :=
  ∀ b ok, .openBackend b ok ∉ log

theorem FilterMove.noOpen {s : FilterSys} {o : FrameOutcome} {c : FilterCall}
    (h : FilterMove s o c) : NoOpen c.log ∨ (s.fallbackTried = false ∧
      s.backendPref ≠ backendZimg ∧ c.sys.fallbackTried = true ∧ ∃ ok,
        c.log = [.newPicture true] ++ [.process .zimg .fatal, .closeBackend .zimg,
          .openBackend .swscale ok] ++ [.releaseOut, .releaseIn]) := by
  cases h with
  | replaced ok _ _ htried hpref hlog _ _ htried' =>
    exact .inr ⟨htried, hpref, htried', ok, hlog⟩
  | noInput _ hlog | noBackend _ _ hlog | noOutput _ _ hlog | failed _ _ _ _ _ hlog
  | retired _ _ _ hlog | uncertain _ _ _ hlog => left; intro b ok; simp [hlog]
  | finished be usm _ _ husm hlog =>
    left
    intro b ok
    rcases husm with rfl | rfl | rfl <;> simp [hlog]

/-- After Open a backend is opened at most once: swscale, right after zimg
failed fatally and was closed, and not when zimg is forced. -/
def SwitchLaw (pref : ℤ) (log : List PluginEvent) : Prop :=
  NoOpen log ∨ (pref ≠ backendZimg ∧ ∃ pre ok post,
    log = pre ++ [.process .zimg .fatal, .closeBackend .zimg, .openBackend .swscale ok] ++ post ∧
      NoOpen pre ∧ NoOpen post)

theorem NoOpen.append {log log' : List PluginEvent} (h : NoOpen log) (h' : NoOpen log') :
    NoOpen (log ++ log') := by
  intro b ok hmem
  rcases List.mem_append.mp hmem with hm | hm
  · exact h b ok hm
  · exact h' b ok hm

theorem filterRun_noOpen (env : BackendEnv) (s : FilterSys) (frames : List FrameOutcome)
    (h : s.fallbackTried = true) : NoOpen (filterRunLog env s frames) := by
  induction frames generalizing s with
  | nil => intro b ok hmem; simp [filterRunLog, filterRun] at hmem
  | cons o os ih =>
    obtain ⟨hmove, hframe⟩ := filter_move env s o
    rw [filterRunLog, filterRun, List.flatMap_cons]
    refine NoOpen.append ?_ (ih _ (hframe.tried h))
    rcases hmove.noOpen with hno | ⟨hfalse, -⟩
    · exact hno
    · simp [h] at hfalse

theorem filterRun_switchLaw (env : BackendEnv) (s : FilterSys) (frames : List FrameOutcome) :
    SwitchLaw s.backendPref (filterRunLog env s frames) := by
  induction frames generalizing s with
  | nil => exact .inl fun b ok hmem => by simp [filterRunLog, filterRun] at hmem
  | cons o os ih =>
    obtain ⟨hmove, hframe⟩ := filter_move env s o
    rw [filterRunLog, filterRun, List.flatMap_cons]
    rcases hmove.noOpen with hno | ⟨-, hpref, htried', ok, hlog⟩
    · rcases ih (filter env s o).sys with hrest | ⟨hpref, pre, ok, post, hrest, hpre, hpost⟩
      · exact .inl (hno.append hrest)
      · rw [hframe.pref] at hpref
        refine .inr ⟨hpref, (filter env s o).log ++ pre, ok, post, ?_, hno.append hpre, hpost⟩
        rw [filterRunLog] at hrest
        rw [hrest]
        simp
    · -- the switch is made here, and never again
      have hrest := filterRun_noOpen env (filter env s o).sys os htried'
      refine .inr ⟨hpref, [.newPicture true], ok,
        [.releaseOut, .releaseIn] ++ filterRunLog env (filter env s o).sys os, ?_, ?_, ?_⟩
      · rw [hlog, filterRunLog]
        simp
      · intro b ok; simp
      · exact NoOpen.append (fun b ok => by simp) hrest

/-! ### Open and Close -/

theorem openScalerOrFallback_replays (env : BackendEnv) (pref : ℤ) (chroma : ℕ) (algo : ℤ)
    (preferred : Backend) (opens : Backend → Bool) :
    replay backendStep none (openScalerOrFallback env pref chroma algo preferred opens).2 =
      some (openScalerOrFallback env pref chroma algo preferred opens).1 := by
  simp only [openScalerOrFallback, scalerOpenWithFallback]
  cases hp : opens preferred with
  | true => simp [hp, backendStep]
  | false =>
    simp only [Bool.false_eq_true, if_false]
    split
    · simp [hp, backendStep]
    · rename_i f _
      split
      · simp [hp, backendStep]
      · cases hf : opens f <;> simp [hp, hf, backendStep]

theorem openScalerOrFallback_closes (env : BackendEnv) (pref : ℤ) (chroma : ℕ) (algo : ℤ)
    (preferred : Backend) (opens : Backend → Bool) (b : Backend) :
    closes b (openScalerOrFallback env pref chroma algo preferred opens).2 = 0 := by
  refine List.count_eq_zero.mpr fun hmem => ?_
  simp [openScalerOrFallback] at hmem

/-- Open leaves exactly the backend open that the filter's state names, and
none when it fails; it closes none. -/
theorem autoupscaleOpen_replays (env : BackendEnv) (fmt : VideoFormat) (cfg : Config)
    (pc : ProbeConfig) (cores : ℤ) (o : OpenOutcome) :
    match autoupscaleOpen env fmt cfg pc cores o with
    | (none, log) => replay backendStep none log = some none ∧ ∀ b, closes b log = 0
    | (some s, log) => replay backendStep none log = some s.backend ∧ s.priv = s.backend.isSome ∧
        s.backendPref = (clampConfig cfg).backend := by
  have hopen := openScalerOrFallback_replays env (clampConfig cfg).backend fmt.chroma
    (clampConfig cfg).algo
  have hclose := openScalerOrFallback_closes env (clampConfig cfg).backend fmt.chroma
    (clampConfig cfg).algo
  unfold autoupscaleOpen
  cases planOpen fmt cfg cores with
  | none => exact ⟨rfl, fun _ => rfl⟩
  | some ctx =>
  simp only
  cases pickBackendOrReject env fmt.chroma (clampConfig cfg).algo (clampConfig cfg).backend with
  | none => exact ⟨rfl, fun _ => rfl⟩
  | some be =>
  simp only
  split
  · rename_i log heq
    split at heq
    · cases heq
      exact ⟨rfl, fun _ => rfl⟩
    · have hr := hopen be o.opens
      split at heq
      · rename_i hnone
        cases heq
        exact ⟨by rw [hr, hnone], hclose be o.opens⟩
      · cases heq
  · rename_i s log heq
    split at heq
    · cases heq
    · have hr := hopen be o.opens
      split at heq
      · cases heq
      · rename_i opened hsome
        cases heq
        rw [hr, hsome]
        simp only [initProbe, initUsmPool]
        repeat' split
        all_goals exact ⟨rfl, rfl, rfl⟩

/-! ### The law of a playback -/

/-- What a playback that opened in state `s` with the events `log` promises for
the given frames. -/
structure PlaybackLaw (env : BackendEnv) (pref : ℤ) (s : FilterSys) (log : List PluginEvent)
    (frames : List FrameOutcome) : Prop where
  /-- Each call releases or returns its pictures, each once. -/
  calls : ∀ (k : ℕ) o c, frames[k]? = some o → (filterRun env s frames)[k]? = some c → CallLaw o c
  /-- A backend is processed or closed only between its open and its close. -/
  used : ∀ pre e post b, log ++ filterRunLog env s frames ++
      autoupscaleClose (filterRunSys env s frames) = pre ++ e :: post →
    (e = .closeBackend b ∨ ∃ st, e = .process b st) → opens b pre = closes b pre + 1
  /-- After Close every backend that was opened has been closed once. -/
  balanced : ∀ b, opens b (log ++ filterRunLog env s frames ++
      autoupscaleClose (filterRunSys env s frames)) =
    closes b (log ++ filterRunLog env s frames ++ autoupscaleClose (filterRunSys env s frames))
  /-- The backend is switched at most once, from zimg to swscale. -/
  switch : SwitchLaw pref (filterRunLog env s frames)
  /-- Between the calls the private state is there exactly with the backend. -/
  priv : ∀ k, (filterRunSys env s (frames.take k)).priv =
    (filterRunSys env s (frames.take k)).backend.isSome
  /-- Once no backend is left every later frame is dropped without calling one. -/
  dropped : ∀ k, (filterRunSys env s (frames.take k)).backend = none →
    ∀ (j : ℕ) o c, k ≤ j → frames[j]? = some o → (filterRun env s frames)[j]? = some c →
      c.returned = false ∧ c.log = if o.input = none then [] else [.releaseIn]

/-- An event of a life that names a backend finds it open. -/
theorem replay_used {live live' : Option Backend} {pre post : List PluginEvent}
    {e : PluginEvent} {b : Backend} (h : replay backendStep live (pre ++ e :: post) = some live')
    (he : e = .closeBackend b ∨ ∃ st, e = .process b st) :
    replay backendStep live pre = some (some b) := by
  obtain ⟨l, l', hpre, hl, -⟩ := replay_split h
  rw [hpre]
  rcases he with rfl | ⟨st, rfl⟩ <;>
  · simp only [backendStep, Option.ite_none_right_eq_some] at hl
    rw [hl.1]

theorem filterRunSys_append (env : BackendEnv) (s : FilterSys) (fs fs' : List FrameOutcome) :
    filterRunSys env s (fs ++ fs') = filterRunSys env (filterRunSys env s fs) fs' := by
  induction fs generalizing s with
  | nil => rfl
  | cons o os ih => exact ih _

theorem filterRunSys_of_none (env : BackendEnv) (s : FilterSys) (frames : List FrameOutcome)
    (h : s.backend = none) : (filterRunSys env s frames).backend = none := by
  have hlog := filterRun_replays env s frames
  rw [filterRunLog, filterRun_dropped env s frames h, h] at hlog
  have hquiet : ∀ log : List PluginEvent, (∀ e ∈ log, e = .releaseIn) →
      replay backendStep none log = some none := by
    intro log hall
    induction log with
    | nil => rfl
    | cons e log ih =>
      obtain rfl := hall e (by simp)
      exact ih fun e he => hall e (List.mem_cons_of_mem _ he)
  rw [hquiet] at hlog
  · simpa using hlog.symm
  · intro e he
    simp only [List.flatMap_map, List.mem_flatMap] at he
    obtain ⟨o, -, ho⟩ := he
    split at ho <;> simp_all

/-- **Picture ownership and backend lifecycle.**  For every outcome of every
call: an Open that fails leaves nothing open, and one that succeeds starts a
playback that obeys the law, whatever frames follow. -/
theorem picture_and_backend_lifecycle (env : BackendEnv) (fmt : VideoFormat) (cfg : Config)
    (pc : ProbeConfig) (cores : ℤ) (o : OpenOutcome) (frames : List FrameOutcome) :
    match autoupscaleOpen env fmt cfg pc cores o with
    | (none, log) => ∀ b, opens b log = 0 ∧ closes b log = 0
    | (some s, log) => PlaybackLaw env (clampConfig cfg).backend s log frames := by
  have hopen := autoupscaleOpen_replays env fmt cfg pc cores o
  split
  · rename_i log heq
    rw [heq] at hopen
    intro b
    have hcount := opens_eq_closes hopen.1 b
    rw [hopen.2 b] at hcount
    exact ⟨by simpa using hcount, hopen.2 b⟩
  · rename_i s log heq
    rw [heq] at hopen
    obtain ⟨hlog, hpriv, hpref⟩ := hopen
    set tr := log ++ filterRunLog env s frames ++
      autoupscaleClose (filterRunSys env s frames) with htr
    -- the life of the backend from Open to Close
    have hlife : replay backendStep none tr = some none := by
      rw [htr, replay_append, replay_append, hlog, Option.bind_some, filterRun_replays,
        Option.bind_some, autoupscaleClose]
      cases hb : (filterRunSys env s frames).backend with
      | none => rfl
      | some be => simp [backendStep]
    refine ⟨fun k f c hf hc => ?_, fun pre e post b hsplit he => ?_, fun b => ?_, ?_,
      fun k => filterRun_priv env s _ hpriv, fun k hnone j f c hkj hf hc => ?_⟩
    · rw [filterRun_getElem, hf, Option.map_some, Option.some.injEq] at hc
      exact hc ▸ (filter_move env _ f).1.callLaw
    · rw [← htr] at hsplit
      rw [hsplit] at hlife
      simpa using opens_eq_closes (replay_used hlife he) b
    · have hcount := opens_eq_closes hlife b
      simp only [reduceCtorEq, if_false, zero_add, add_zero] at hcount
      exact hcount
    · rw [← hpref]
      exact filterRun_switchLaw env s frames
    · -- without a backend there is none later
      have hj : (filterRunSys env s (frames.take j)).backend = none := by
        rw [← List.take_append_drop k (frames.take j), List.take_take, min_eq_left hkj,
          filterRunSys_append]
        exact filterRunSys_of_none env _ _ hnone
      rw [filterRun_getElem, hf, Option.map_some, Option.some.injEq] at hc
      have hcall := filterRun_dropped env (filterRunSys env s (frames.take j)) [f] hj
      simp only [filterRun, List.map_cons, List.map_nil, List.cons.injEq, and_true] at hcall
      rw [← hc, hcall]
      exact ⟨rfl, rfl⟩

end AutoUpscale
