/-
The x86-64 level probes (`src/cpu_level.h`), the choice of a sharpening variant
when the plugin is loaded (`src/usm_pool_dispatch.c`) and the check before its
open (`src/autoupscale_module.c`).

A machine answers every CPUID query, those beyond its highest leaf with what
some other leaf holds, and knows XGETBV only where the system has enabled it.

- `HasLevel`: the levels as sets of features, each reported by a leaf the
  machine has, with the vector state saved by the system.
- `collect_exact`: the probes run no XGETBV the machine does not know, and each
  finds exactly its level.
- `cpu_level_gates`: the probes are exact, the variant that is bound is the
  highest the machine can run, and the plugin opens only where it can run its
  code.
-/
import Mathlib.Tactic

namespace AutoUpscale

/-! ### Machines -/

/-- The registers CPUID writes. -/
structure CpuidRegs where
  eax : BitVec 32
  ebx : BitVec 32
  ecx : BitVec 32
  edx : BitVec 32

inductive CpuidReg
  | ebx | ecx | edx
  deriving DecidableEq

def CpuidRegs.get (r : CpuidRegs) : CpuidReg → BitVec 32
  | .ebx => r.ebx
  | .ecx => r.ecx
  | .edx => r.edx

/-- `cpuid leaf subleaf` is the answer to a query; `osxsave` is what the system
has set, which leaf 1 reports. -/
structure X86Machine where
  cpuid : BitVec 32 → BitVec 32 → CpuidRegs
  xcr0 : BitVec 64
  osxsave : Bool
  reported : 1#32 ≤ (cpuid 0 0).eax → (cpuid 1 0).ecx.getLsbD 27 = osxsave

/-- The bits of `cpu_level.h`. -/
inductive X86Feature
  | sse2
  | sse3 | ssse3 | cx16 | sse41 | sse42 | popcnt | lahf
  | fma | movbe | osxsave | avx | f16c | bmi | avx2 | bmi2 | lzcnt
  | avx512f | avx512dq | avx512cd | avx512bw | avx512vl
  deriving DecidableEq

/-- Where CPUID reports a feature: leaf, register and bit. -/
def X86Feature.place : X86Feature → BitVec 32 × CpuidReg × ℕ
  | .sse3 => (1, .ecx, 0)
  | .ssse3 => (1, .ecx, 9)
  | .fma => (1, .ecx, 12)
  | .cx16 => (1, .ecx, 13)
  | .sse41 => (1, .ecx, 19)
  | .sse42 => (1, .ecx, 20)
  | .movbe => (1, .ecx, 22)
  | .popcnt => (1, .ecx, 23)
  | .osxsave => (1, .ecx, 27)
  | .avx => (1, .ecx, 28)
  | .f16c => (1, .ecx, 29)
  | .sse2 => (1, .edx, 26)
  | .bmi => (7, .ebx, 3)
  | .avx2 => (7, .ebx, 5)
  | .bmi2 => (7, .ebx, 8)
  | .avx512f => (7, .ebx, 16)
  | .avx512dq => (7, .ebx, 17)
  | .avx512cd => (7, .ebx, 28)
  | .avx512bw => (7, .ebx, 30)
  | .avx512vl => (7, .ebx, 31)
  | .lahf => (0x80000001, .ecx, 0)
  | .lzcnt => (0x80000001, .ecx, 5)

/-- The mask constant of a feature. -/
def X86Feature.mask (f : X86Feature) : BitVec 32 := 1#32 <<< f.place.2.2

/-! ### The probes -/

/-- `up_cpu_x86_features_t` -/
structure CpuFeatures where
  maxBasic : BitVec 32
  maxExt : BitVec 32
  leaf1Ecx : BitVec 32
  leaf1Edx : BitVec 32
  leaf7Ebx : BitVec 32
  ext1Ecx : BitVec 32
  xcr0 : BitVec 64

/-- `up_cpu_has_all`, and the two tests of XCR0, which do the same at 64 bits. -/
def cpuHasAll {w : ℕ} (value mask : BitVec w) : Bool := value &&& mask == mask

/-- `up_cpu_xcr0_has_avx` -/
def cpuXcr0HasAvx (xcr0 : BitVec 64) : Bool := cpuHasAll xcr0 0x6

/-- `up_cpu_xcr0_has_avx512` -/
def cpuXcr0HasAvx512 (xcr0 : BitVec 64) : Bool := cpuHasAll xcr0 0xe6

open X86Feature in
/-- `up_cpu_features_support_v2` on features that exist. -/
def cpuFeaturesSupportV2 (f : CpuFeatures) : Bool :=
  let ecx := sse3.mask ||| ssse3.mask ||| cx16.mask ||| sse41.mask ||| sse42.mask ||| popcnt.mask
  decide (1 ≤ f.maxBasic) && decide (0x80000001 ≤ f.maxExt) && cpuHasAll f.leaf1Ecx ecx &&
    cpuHasAll f.leaf1Edx sse2.mask && cpuHasAll f.ext1Ecx lahf.mask

open X86Feature in
/-- `up_cpu_features_support_v3` -/
def cpuFeaturesSupportV3 (f : CpuFeatures) : Bool :=
  let ecx := fma.mask ||| movbe.mask ||| osxsave.mask ||| avx.mask ||| f16c.mask
  let ebx := bmi.mask ||| avx2.mask ||| bmi2.mask
  cpuFeaturesSupportV2 f && decide (7 ≤ f.maxBasic) && cpuHasAll f.leaf1Ecx ecx &&
    cpuHasAll f.leaf7Ebx ebx && cpuHasAll f.ext1Ecx lzcnt.mask && cpuXcr0HasAvx f.xcr0

open X86Feature in
/-- `up_cpu_features_support_v4` -/
def cpuFeaturesSupportV4 (f : CpuFeatures) : Bool :=
  let ebx := avx512f.mask ||| avx512dq.mask ||| avx512cd.mask ||| avx512bw.mask ||| avx512vl.mask
  cpuFeaturesSupportV3 f && cpuHasAll f.leaf7Ebx ebx && cpuXcr0HasAvx512 f.xcr0

/-- `up_cpu_xgetbv0`; `none` is an invalid opcode. -/
def X86Machine.xgetbv0 (m : X86Machine) : Option (BitVec 64) :=
  if m.osxsave then some m.xcr0 else none

/-- The query of leaf 1 in `up_cpu_collect_x86_features`, with XCR0. -/
def X86Machine.collectLeaf1 (m : X86Machine) (f : CpuFeatures) : Option CpuFeatures :=
  if 1 ≤ f.maxBasic then
    let r := m.cpuid 1 0
    let f := { f with leaf1Ecx := r.ecx, leaf1Edx := r.edx }
    if r.ecx &&& X86Feature.osxsave.mask ≠ 0 then
      m.xgetbv0.map fun xcr0 => { f with xcr0 := xcr0 }
    else some f
  else some f

/-- Its queries of leaf 7 and of the extended leaf. -/
def X86Machine.collectUpper (m : X86Machine) (f : CpuFeatures) : CpuFeatures :=
  let f := if 7 ≤ f.maxBasic then { f with leaf7Ebx := (m.cpuid 7 0).ebx } else f
  if 0x80000001 ≤ f.maxExt then { f with ext1Ecx := (m.cpuid 0x80000001 0).ecx } else f

/-- `up_cpu_collect_x86_features` -/
def X86Machine.collect (m : X86Machine) : Option CpuFeatures :=
  (m.collectLeaf1 ⟨(m.cpuid 0 0).eax, (m.cpuid 0x80000000 0).eax, 0, 0, 0, 0, 0⟩).map
    m.collectUpper

/-- `up_cpu_supports_v3` and `up_cpu_supports_v4`: what the compiler's builtin
says of a level where the build uses it, else the features collected here. -/
def X86Machine.supports (m : X86Machine) (builtin : Option (ℕ → Bool)) (level : ℕ) :
    Option Bool :=
  match builtin with
  | some b => some (b level)
  | none => m.collect.map (if level = 4 then cpuFeaturesSupportV4 else cpuFeaturesSupportV3)

/-! ### What they decide -/

/-- The compiled objects of `usm_pool.c`. -/
inductive UsmVariant
  | sse2 | avx2 | avx512
  deriving DecidableEq

/-- The x86-64 level an object is compiled for. -/
def UsmVariant.level : UsmVariant → ℕ
  | .sse2 => 1
  | .avx2 => 3
  | .avx512 => 4

/-- `usm_pool_ops_t`: of which object each entry point is, and the name. -/
structure UsmPoolOps where
  create : UsmVariant
  destroy : UsmVariant
  apply : UsmVariant
  effectiveThreads : UsmVariant
  name : String
  deriving DecidableEq

/-- `usm_pool_select_ops` -/
def usmPoolSelectOps (haveV4 haveV3 : Bool) : UsmPoolOps :=
  if haveV4 then ⟨.avx512, .avx512, .avx512, .avx512, "avx512"⟩
  else if haveV3 then ⟨.avx2, .avx2, .avx2, .avx2, "avx2"⟩
  else ⟨.sse2, .sse2, .sse2, .sse2, "sse2"⟩

/-- `up_usm_pool_dispatch_init` -/
def usmPoolDispatchInit (m : X86Machine) (builtin : Option (ℕ → Bool)) : Option UsmPoolOps := do
  let haveV4 ← m.supports builtin 4
  let haveV3 ← m.supports builtin 3
  pure (usmPoolSelectOps haveV4 haveV3)

/-- `CheckCpuLevel` of a build with this `UP_REQUIRED_CPU_LEVEL`: whether
`up_autoupscale_open_checked` goes on to the open. -/
def checkCpuLevel (m : X86Machine) (builtin : Option (ℕ → Bool)) (required : ℕ) : Option Bool :=
  if required = 4 then m.supports builtin 4
  else if required = 3 then m.supports builtin 3
  else some true

/-! ### Levels -/

/-- The lowest level a feature belongs to. -/
def X86Feature.level : X86Feature → ℕ
  | .sse2 => 1
  | .sse3 | .ssse3 | .cx16 | .sse41 | .sse42 | .popcnt | .lahf => 2
  | .fma | .movbe | .osxsave | .avx | .f16c | .bmi | .avx2 | .bmi2 | .lzcnt => 3
  | .avx512f | .avx512dq | .avx512cd | .avx512bw | .avx512vl => 4

/-- The parts of the register state a level needs saved: SSE and AVX, then
opmask and both halves of the 512-bit registers. -/
def stateBits (level : ℕ) : List ℕ :=
  (if 3 ≤ level then [1, 2] else []) ++ if 4 ≤ level then [5, 6, 7] else []

namespace X86Machine

/-- The machine has the leaf: it is not beyond the highest of its range. -/
def HasLeaf (m : X86Machine) (leaf : BitVec 32) : Prop :=
  if 0x80000000 ≤ leaf then leaf ≤ (m.cpuid 0x80000000 0).eax else leaf ≤ (m.cpuid 0 0).eax

/-- A leaf the machine has reports the feature. -/
def Has (m : X86Machine) (f : X86Feature) : Prop :=
  m.HasLeaf f.place.1 ∧ ((m.cpuid f.place.1 0).get f.place.2.1).getLsbD f.place.2.2 = true

/-- The machine runs code of the level. -/
def HasLevel (m : X86Machine) (level : ℕ) : Prop :=
  (∀ f : X86Feature, f.level ≤ level → m.Has f) ∧ ∀ b ∈ stateBits level, m.xcr0.getLsbD b = true

end X86Machine

/-! ### Masks and bits -/

section Masks

variable {w : ℕ}

theorem cpuHasAll_iff {value mask : BitVec w} : cpuHasAll value mask = true ↔
    ∀ i < w, mask.getLsbD i = true → value.getLsbD i = true := by
  rw [cpuHasAll, beq_iff_eq]
  constructor
  · intro h i _ hi
    have hbit := congrArg (BitVec.getLsbD · i) h
    simpa [hi] using hbit
  · intro h
    refine BitVec.eq_of_getLsbD_eq fun i hi => ?_
    rw [BitVec.getLsbD_and]
    cases hm : mask.getLsbD i with
    | false => rw [Bool.and_false]
    | true => rw [h i hi hm, Bool.and_true]

theorem cpuHasAll_or (value a b : BitVec w) :
    cpuHasAll value (a ||| b) = (cpuHasAll value a && cpuHasAll value b) := by
  rw [Bool.eq_iff_iff, Bool.and_eq_true, cpuHasAll_iff, cpuHasAll_iff, cpuHasAll_iff]
  simp only [BitVec.getLsbD_or, Bool.or_eq_true, or_imp, forall_and]

theorem getLsbD_bit (i : ℕ) {j : ℕ} (hj : j < w) :
    (1#w <<< i).getLsbD j = decide (j = i) := by
  rw [BitVec.getLsbD_shiftLeft, BitVec.getLsbD_one]
  by_cases h : j = i
  · subst h
    simp [hj, Nat.pos_of_ne_zero (show w ≠ 0 by omega)]
  · simp [h]
    omega

theorem cpuHasAll_bit (value : BitVec w) {i : ℕ} (hi : i < w) :
    cpuHasAll value (1#w <<< i) = value.getLsbD i := by
  rw [Bool.eq_iff_iff, cpuHasAll_iff]
  constructor
  · intro h
    exact h i hi ((getLsbD_bit i hi).trans (decide_eq_true rfl))
  · intro h j hj hmask
    obtain rfl : j = i := by simpa [getLsbD_bit i hj] using hmask
    exact h

/-- A mask of one bit tests that bit. -/
theorem and_bit_ne_zero (value : BitVec w) {i : ℕ} (hi : i < w) :
    value &&& 1#w <<< i ≠ 0 ↔ value.getLsbD i = true := by
  constructor
  · intro h
    by_contra hbit
    refine h (BitVec.eq_of_getLsbD_eq fun j hj => ?_)
    rw [BitVec.getLsbD_and, getLsbD_bit i hj]
    by_cases hji : j = i
    · subst hji
      simp [Bool.eq_false_iff.mpr hbit]
    · simp [hji]
  · intro hbit hzero
    have hset := congrArg (BitVec.getLsbD · i) hzero
    simp [getLsbD_bit i hi, hbit] at hset

theorem cpuHasAll_mask (value : BitVec 32) (f : X86Feature) :
    cpuHasAll value f.mask = value.getLsbD f.place.2.2 :=
  cpuHasAll_bit value (by cases f <;> decide)

theorem cpuXcr0HasAvx_iff {xcr0 : BitVec 64} :
    cpuXcr0HasAvx xcr0 = true ↔ ∀ b ∈ stateBits 3, xcr0.getLsbD b = true := by
  rw [cpuXcr0HasAvx, show (0x6 : BitVec 64) = 1#64 <<< 1 ||| 1#64 <<< 2 by decide, cpuHasAll_or,
    cpuHasAll_bit _ (by decide), cpuHasAll_bit _ (by decide)]
  simp [stateBits]

theorem cpuXcr0HasAvx512_iff {xcr0 : BitVec 64} :
    cpuXcr0HasAvx512 xcr0 = true ↔ ∀ b ∈ stateBits 4, xcr0.getLsbD b = true := by
  rw [cpuXcr0HasAvx512, show (0xe6 : BitVec 64) =
      1#64 <<< 1 ||| 1#64 <<< 2 ||| 1#64 <<< 5 ||| 1#64 <<< 6 ||| 1#64 <<< 7 by decide]
  simp only [cpuHasAll_or, cpuHasAll_bit _ (show 1 < 64 by decide),
    cpuHasAll_bit _ (show 2 < 64 by decide), cpuHasAll_bit _ (show 5 < 64 by decide),
    cpuHasAll_bit _ (show 6 < 64 by decide), cpuHasAll_bit _ (show 7 < 64 by decide)]
  simp [stateBits, and_assoc]

end Masks

/-! ### What is collected -/

namespace X86Machine

variable {m : X86Machine}

/-- What is collected of a machine: each field is the answer of the leaf it is
named after when the machine has that leaf. -/
structure Collected (m : X86Machine) (f : CpuFeatures) : Prop where
  maxBasic : f.maxBasic = (m.cpuid 0 0).eax
  maxExt : f.maxExt = (m.cpuid 0x80000000 0).eax
  leaf1 : 1 ≤ f.maxBasic → f.leaf1Ecx = (m.cpuid 1 0).ecx ∧ f.leaf1Edx = (m.cpuid 1 0).edx
  leaf7 : 7 ≤ f.maxBasic → f.leaf7Ebx = (m.cpuid 7 0).ebx
  ext1 : 0x80000001 ≤ f.maxExt → f.ext1Ecx = (m.cpuid 0x80000001 0).ecx
  xcr0 : 1 ≤ f.maxBasic → m.osxsave = true → f.xcr0 = m.xcr0

/-- XGETBV is only run where leaf 1 says that it can be. -/
theorem collectLeaf1_some {f : CpuFeatures} (hbasic : f.maxBasic = (m.cpuid 0 0).eax) :
    ∃ f', m.collectLeaf1 f = some f' ∧ f'.maxBasic = f.maxBasic ∧ f'.maxExt = f.maxExt ∧
      (1 ≤ f.maxBasic → f'.leaf1Ecx = (m.cpuid 1 0).ecx ∧ f'.leaf1Edx = (m.cpuid 1 0).edx ∧
        (m.osxsave = true → f'.xcr0 = m.xcr0)) := by
  have hbit : (m.cpuid 1 0).ecx &&& X86Feature.osxsave.mask ≠ 0 ↔
      (m.cpuid 1 0).ecx.getLsbD 27 = true := and_bit_ne_zero _ (by decide)
  unfold collectLeaf1
  by_cases h1 : 1 ≤ f.maxBasic
  · have hreported := m.reported (hbasic ▸ h1)
    rw [if_pos h1]
    dsimp only
    cases hos : m.osxsave with
    | true =>
      rw [if_pos (hbit.mpr (hreported.trans hos)), xgetbv0, if_pos hos]
      exact ⟨_, rfl, rfl, rfl, fun _ => ⟨rfl, rfl, fun _ => rfl⟩⟩
    | false =>
      rw [if_neg fun hx => absurd ((hbit.mp hx).symm.trans (hreported.trans hos)) (by simp)]
      exact ⟨_, rfl, rfl, rfl, fun _ => ⟨rfl, rfl, by simp⟩⟩
  · rw [if_neg h1]
    exact ⟨f, rfl, rfl, rfl, fun h => absurd h h1⟩

theorem collect_some (m : X86Machine) : ∃ f, m.collect = some f ∧ m.Collected f := by
  obtain ⟨f, hf, hbasic, hext, hleaf⟩ := collectLeaf1_some (m := m)
    (f := ⟨(m.cpuid 0 0).eax, (m.cpuid 0x80000000 0).eax, 0, 0, 0, 0, 0⟩) rfl
  refine ⟨m.collectUpper f, by rw [collect, hf]; rfl, ?_⟩
  have hupper : (m.collectUpper f).maxBasic = f.maxBasic ∧ (m.collectUpper f).maxExt = f.maxExt ∧
      (m.collectUpper f).leaf1Ecx = f.leaf1Ecx ∧ (m.collectUpper f).leaf1Edx = f.leaf1Edx ∧
      (m.collectUpper f).xcr0 = f.xcr0 ∧
      (7 ≤ f.maxBasic → (m.collectUpper f).leaf7Ebx = (m.cpuid 7 0).ebx) ∧
      (0x80000001 ≤ f.maxExt → (m.collectUpper f).ext1Ecx = (m.cpuid 0x80000001 0).ecx) := by
    unfold collectUpper
    dsimp only
    split_ifs with h7 h8 h8
    · exact ⟨rfl, rfl, rfl, rfl, rfl, fun _ => rfl, fun _ => rfl⟩
    · exact ⟨rfl, rfl, rfl, rfl, rfl, fun _ => rfl, fun h => absurd h h8⟩
    · exact ⟨rfl, rfl, rfl, rfl, rfl, fun h => absurd h h7, fun _ => rfl⟩
    · exact ⟨rfl, rfl, rfl, rfl, rfl, fun h => absurd h h7, fun h => absurd h h8⟩
  obtain ⟨hb, he, hc, hd, hx, h7, h8⟩ := hupper
  refine ⟨hb.trans hbasic, he.trans hext, fun h => ?_, fun h => h7 (hb ▸ h), fun h => h8 (he ▸ h),
    fun h hos => ?_⟩
  · obtain ⟨h1, h2, -⟩ := hleaf (by rwa [hb, hbasic] at h)
    exact ⟨hc.trans h1, hd.trans h2⟩
  · exact hx.trans ((hleaf (by rwa [hb, hbasic] at h)).2.2 hos)

/-! ### Levels -/

theorem hasLeaf_basic {leaf : BitVec 32} (h : ¬ 0x80000000 ≤ leaf) :
    m.HasLeaf leaf ↔ leaf ≤ (m.cpuid 0 0).eax := by
  rw [HasLeaf, if_neg h]

theorem hasLeaf_ext {leaf : BitVec 32} (h : 0x80000000 ≤ leaf) :
    m.HasLeaf leaf ↔ leaf ≤ (m.cpuid 0x80000000 0).eax := by
  rw [HasLeaf, if_pos h]

/-- A level needs what the one below it needs. -/
theorem HasLevel.mono {l l' : ℕ} (h : m.HasLevel l) (hl : l' ≤ l) : m.HasLevel l' := by
  refine ⟨fun f hf => h.1 f (hf.trans hl), fun b hb => h.2 b ?_⟩
  rcases List.mem_append.mp hb with hb | hb
  · by_cases h3 : 3 ≤ l'
    · rw [if_pos h3] at hb
      exact List.mem_append_left _ (by rwa [if_pos (h3.trans hl)])
    · rw [if_neg h3] at hb
      cases hb
  · by_cases h4 : 4 ≤ l'
    · rw [if_pos h4] at hb
      exact List.mem_append_right _ (by rwa [if_pos (h4.trans hl)])
    · rw [if_neg h4] at hb
      cases hb

/-- A level is the one below it, the features it adds and the state it needs. -/
theorem hasLevel_succ {l : ℕ} : m.HasLevel (l + 1) ↔
    m.HasLevel l ∧ (∀ f : X86Feature, f.level = l + 1 → m.Has f) ∧
      ∀ b ∈ stateBits (l + 1), m.xcr0.getLsbD b = true := by
  constructor
  · intro h
    exact ⟨h.mono (Nat.le_succ l), fun f hf => h.1 f hf.le, h.2⟩
  · rintro ⟨hbelow, hadded, hstate⟩
    refine ⟨fun f hf => ?_, hstate⟩
    rcases Nat.le_succ_iff.mp hf with hf | hf
    · exact hbelow.1 f hf
    · exact hadded f hf

namespace Collected

variable {f : CpuFeatures}

theorem maxes (h2 : cpuFeaturesSupportV2 f = true) :
    1 ≤ f.maxBasic ∧ 0x80000001 ≤ f.maxExt := by
  simp only [cpuFeaturesSupportV2, Bool.and_eq_true, decide_eq_true_eq] at h2
  exact h2.1.1.1

theorem hasLeaves (h : m.Collected f) (h1 : 1 ≤ f.maxBasic) (h8 : 0x80000001 ≤ f.maxExt) :
    m.HasLeaf 1 ∧ m.HasLeaf 0x80000001 :=
  ⟨(hasLeaf_basic (by decide)).mpr (h.maxBasic ▸ h1),
    (hasLeaf_ext (by decide)).mpr (h.maxExt ▸ h8)⟩

theorem supportV2 (h : m.Collected f) :
    cpuFeaturesSupportV2 f = true ↔ m.HasLevel 2 := by
  simp only [cpuFeaturesSupportV2, cpuHasAll_or, cpuHasAll_mask, Bool.and_eq_true,
    decide_eq_true_eq]
  -- the leaves that the code compares are those that the features are read from
  constructor
  · rintro ⟨⟨⟨⟨h1, h8⟩, ⟨⟨⟨⟨hsse3, hssse3⟩, hcx16⟩, hsse41⟩, hsse42⟩, hpopcnt⟩, hsse2⟩, hlahf⟩
    obtain ⟨hecx, hedx⟩ := h.leaf1 h1
    obtain ⟨hl1, hl8⟩ := h.hasLeaves h1 h8
    rw [hecx] at hsse3 hssse3 hcx16 hsse41 hsse42 hpopcnt
    rw [hedx] at hsse2
    rw [h.ext1 h8] at hlahf
    refine ⟨fun g hg => ?_, by simp [stateBits]⟩
    cases g with
    | sse2 => exact ⟨hl1, hsse2⟩
    | sse3 => exact ⟨hl1, hsse3⟩
    | ssse3 => exact ⟨hl1, hssse3⟩
    | cx16 => exact ⟨hl1, hcx16⟩
    | sse41 => exact ⟨hl1, hsse41⟩
    | sse42 => exact ⟨hl1, hsse42⟩
    | popcnt => exact ⟨hl1, hpopcnt⟩
    | lahf => exact ⟨hl8, hlahf⟩
    | _ => exact absurd hg (by decide)
  · intro hlevel
    have hhas : ∀ g : X86Feature, g.level ≤ 2 → m.Has g := hlevel.1
    have h1 : 1 ≤ f.maxBasic :=
      h.maxBasic ▸ (hasLeaf_basic (by decide)).mp (hhas .sse3 (by decide)).1
    have h8 : 0x80000001 ≤ f.maxExt :=
      h.maxExt ▸ (hasLeaf_ext (by decide)).mp (hhas .lahf (by decide)).1
    obtain ⟨hecx, hedx⟩ := h.leaf1 h1
    rw [hecx, hedx, h.ext1 h8]
    exact ⟨⟨⟨⟨h1, h8⟩, ⟨⟨⟨⟨(hhas .sse3 (by decide)).2, (hhas .ssse3 (by decide)).2⟩,
      (hhas .cx16 (by decide)).2⟩, (hhas .sse41 (by decide)).2⟩, (hhas .sse42 (by decide)).2⟩,
      (hhas .popcnt (by decide)).2⟩, (hhas .sse2 (by decide)).2⟩, (hhas .lahf (by decide)).2⟩

theorem supportV3 (h : m.Collected f) :
    cpuFeaturesSupportV3 f = true ↔ m.HasLevel 3 := by
  rw [hasLevel_succ, ← h.supportV2]
  simp only [cpuFeaturesSupportV3, cpuHasAll_or, cpuHasAll_mask, Bool.and_eq_true,
    decide_eq_true_eq]
  constructor
  · rintro ⟨⟨⟨⟨⟨h2, h7⟩, ⟨⟨⟨hfma, hmovbe⟩, hosxsave⟩, havx⟩, hf16c⟩, ⟨hbmi, havx2⟩, hbmi2⟩, hlzcnt⟩,
      hxcr0⟩
    obtain ⟨h1, h8⟩ := maxes h2
    obtain ⟨hl1, hl8⟩ := h.hasLeaves h1 h8
    have hl7 : m.HasLeaf 7 := (hasLeaf_basic (by decide)).mpr (h.maxBasic ▸ h7)
    rw [(h.leaf1 h1).1] at hfma hmovbe hosxsave havx hf16c
    rw [h.leaf7 h7] at hbmi havx2 hbmi2
    rw [h.ext1 h8] at hlzcnt
    -- leaf 1 reports what the system has set, so XCR0 was read
    have hos : m.osxsave = true := (m.reported (h.maxBasic ▸ h1)).symm.trans hosxsave
    rw [h.xcr0 h1 hos] at hxcr0
    refine ⟨h2, fun g hg => ?_, cpuXcr0HasAvx_iff.mp hxcr0⟩
    cases g with
    | fma => exact ⟨hl1, hfma⟩
    | movbe => exact ⟨hl1, hmovbe⟩
    | osxsave => exact ⟨hl1, hosxsave⟩
    | avx => exact ⟨hl1, havx⟩
    | f16c => exact ⟨hl1, hf16c⟩
    | bmi => exact ⟨hl7, hbmi⟩
    | avx2 => exact ⟨hl7, havx2⟩
    | bmi2 => exact ⟨hl7, hbmi2⟩
    | lzcnt => exact ⟨hl8, hlzcnt⟩
    | _ => exact absurd hg (by decide)
  · rintro ⟨h2, hhas, hstate⟩
    obtain ⟨h1, h8⟩ := maxes h2
    have h7 : 7 ≤ f.maxBasic := h.maxBasic ▸ (hasLeaf_basic (by decide)).mp (hhas .avx2 rfl).1
    have hos : m.osxsave = true :=
      (m.reported (h.maxBasic ▸ h1)).symm.trans (hhas .osxsave rfl).2
    rw [(h.leaf1 h1).1, h.leaf7 h7, h.ext1 h8, h.xcr0 h1 hos, cpuXcr0HasAvx_iff]
    exact ⟨⟨⟨⟨⟨h2, h7⟩, ⟨⟨⟨(hhas .fma rfl).2, (hhas .movbe rfl).2⟩, (hhas .osxsave rfl).2⟩,
      (hhas .avx rfl).2⟩, (hhas .f16c rfl).2⟩, ⟨(hhas .bmi rfl).2, (hhas .avx2 rfl).2⟩,
      (hhas .bmi2 rfl).2⟩, (hhas .lzcnt rfl).2⟩, hstate⟩

/-- A machine of the third level answered leaf 7, and its XCR0 was read. -/
theorem upper (h : m.Collected f) (h3 : cpuFeaturesSupportV3 f = true) :
    7 ≤ f.maxBasic ∧ f.leaf7Ebx = (m.cpuid 7 0).ebx ∧ f.xcr0 = m.xcr0 := by
  have hlevel := h.supportV3.mp h3
  have h1 : 1 ≤ f.maxBasic :=
    h.maxBasic ▸ (hasLeaf_basic (by decide)).mp (hlevel.1 .osxsave (by decide)).1
  have h7 : 7 ≤ f.maxBasic :=
    h.maxBasic ▸ (hasLeaf_basic (by decide)).mp (hlevel.1 .avx2 (by decide)).1
  exact ⟨h7, h.leaf7 h7,
    h.xcr0 h1 ((m.reported (h.maxBasic ▸ h1)).symm.trans (hlevel.1 .osxsave (by decide)).2)⟩

theorem supportV4 (h : m.Collected f) :
    cpuFeaturesSupportV4 f = true ↔ m.HasLevel 4 := by
  rw [hasLevel_succ, ← h.supportV3]
  simp only [cpuFeaturesSupportV4, cpuHasAll_or, cpuHasAll_mask, Bool.and_eq_true]
  constructor
  · rintro ⟨⟨h3, ⟨⟨⟨hf, hdq⟩, hcd⟩, hbw⟩, hvl⟩, hxcr0⟩
    obtain ⟨h7, hleaf7, hx⟩ := h.upper h3
    have hl7 : m.HasLeaf 7 := (hasLeaf_basic (by decide)).mpr (h.maxBasic ▸ h7)
    rw [hleaf7] at hf hdq hcd hbw hvl
    rw [hx] at hxcr0
    refine ⟨h3, fun g hg => ?_, cpuXcr0HasAvx512_iff.mp hxcr0⟩
    cases g with
    | avx512f => exact ⟨hl7, hf⟩
    | avx512dq => exact ⟨hl7, hdq⟩
    | avx512cd => exact ⟨hl7, hcd⟩
    | avx512bw => exact ⟨hl7, hbw⟩
    | avx512vl => exact ⟨hl7, hvl⟩
    | _ => exact absurd hg (by decide)
  · rintro ⟨h3, hhas, hstate⟩
    obtain ⟨-, hleaf7, hx⟩ := h.upper h3
    rw [hleaf7, hx, cpuXcr0HasAvx512_iff]
    exact ⟨⟨h3, ⟨⟨⟨(hhas .avx512f rfl).2, (hhas .avx512dq rfl).2⟩, (hhas .avx512cd rfl).2⟩,
      (hhas .avx512bw rfl).2⟩, (hhas .avx512vl rfl).2⟩, hstate⟩

end Collected

/-- The probes run on every machine, and each finds exactly its level. -/
theorem collect_exact (m : X86Machine) : ∃ f, m.collect = some f ∧
    (cpuFeaturesSupportV2 f = true ↔ m.HasLevel 2) ∧
    (cpuFeaturesSupportV3 f = true ↔ m.HasLevel 3) ∧
    (cpuFeaturesSupportV4 f = true ↔ m.HasLevel 4) := by
  obtain ⟨f, hf, hcollected⟩ := m.collect_some
  exact ⟨f, hf, hcollected.supportV2, hcollected.supportV3, hcollected.supportV4⟩

theorem supports_exact (m : X86Machine) {level : ℕ} (hlevel : level = 3 ∨ level = 4) :
    ∃ ok, m.supports none level = some ok ∧ (ok = true ↔ m.HasLevel level) := by
  obtain ⟨f, hf, -, h3, h4⟩ := m.collect_exact
  rcases hlevel with rfl | rfl
  · exact ⟨cpuFeaturesSupportV3 f, by rw [supports, hf]; rfl, h3⟩
  · exact ⟨cpuFeaturesSupportV4 f, by rw [supports, hf]; rfl, h4⟩

/-- A builtin that is right about the machine says what the features say. -/
theorem supports_builtin (m : X86Machine) {b : ℕ → Bool} {level : ℕ}
    (hlevel : level = 3 ∨ level = 4) (hb : b level = true ↔ m.HasLevel level) :
    m.supports (some b) level = m.supports none level := by
  obtain ⟨ok, hok, hexact⟩ := m.supports_exact hlevel
  rw [hok, supports, Bool.eq_iff_iff.mpr (hb.trans hexact.symm)]

end X86Machine

/-! ### What is bound and what is opened -/

/-- The name that is logged for a variant. -/
def UsmVariant.name : UsmVariant → String
  | .sse2 => "sse2"
  | .avx2 => "avx2"
  | .avx512 => "avx512"

/-- All entry points are those of one variant. -/
def UsmVariant.ops (v : UsmVariant) : UsmPoolOps := ⟨v, v, v, v, v.name⟩

theorem usmPoolSelectOps_highest {m : X86Machine} {haveV4 haveV3 : Bool} (h1 : m.HasLevel 1)
    (h4 : haveV4 = true ↔ m.HasLevel 4) (h3 : haveV3 = true ↔ m.HasLevel 3) :
    ∃ v : UsmVariant, usmPoolSelectOps haveV4 haveV3 = v.ops ∧ m.HasLevel v.level ∧
      ∀ v' : UsmVariant, m.HasLevel v'.level → v'.level ≤ v.level := by
  cases haveV4 with
  | true =>
    refine ⟨.avx512, rfl, h4.mp rfl, fun v' _ => ?_⟩
    cases v' <;> decide
  | false =>
    have hno4 : ¬ m.HasLevel 4 := fun h => absurd (h4.mpr h) (by decide)
    cases haveV3 with
    | true =>
      refine ⟨.avx2, rfl, h3.mp rfl, fun v' hv' => ?_⟩
      cases v' with
      | avx512 => exact absurd hv' hno4
      | _ => decide
    | false =>
      have hno3 : ¬ m.HasLevel 3 := fun h => absurd (h3.mpr h) (by decide)
      refine ⟨.sse2, rfl, h1, fun v' hv' => ?_⟩
      cases v' with
      | sse2 => exact le_rfl
      | avx2 => exact absurd hv' hno3
      | avx512 => exact absurd hv' hno4

/-- On every machine of the architecture: the probes run and find exactly the
levels, loading the plugin binds one variant, the highest the machine runs, and a
build opens exactly where its own code runs.  A build that asks the compiler's
builtin does the same where that is right. -/
theorem cpu_level_gates (m : X86Machine) (h1 : m.HasLevel 1) :
    (∃ f, m.collect = some f ∧ (cpuFeaturesSupportV2 f = true ↔ m.HasLevel 2) ∧
      (cpuFeaturesSupportV3 f = true ↔ m.HasLevel 3) ∧
      (cpuFeaturesSupportV4 f = true ↔ m.HasLevel 4)) ∧
    (∃ v : UsmVariant, usmPoolDispatchInit m none = some v.ops ∧ m.HasLevel v.level ∧
      ∀ v' : UsmVariant, m.HasLevel v'.level → v'.level ≤ v.level) ∧
    (∀ required, required = 0 ∨ required = 3 ∨ required = 4 →
      ∃ ok, checkCpuLevel m none required = some ok ∧ (ok = true ↔ m.HasLevel required)) ∧
    ∀ b : ℕ → Bool, (b 3 = true ↔ m.HasLevel 3) → (b 4 = true ↔ m.HasLevel 4) →
      usmPoolDispatchInit m (some b) = usmPoolDispatchInit m none ∧
      checkCpuLevel m (some b) = checkCpuLevel m none := by
  obtain ⟨ok3, hs3, h3⟩ := m.supports_exact (.inl rfl)
  obtain ⟨ok4, hs4, h4⟩ := m.supports_exact (.inr rfl)
  refine ⟨m.collect_exact, ?_, ?_, ?_⟩
  · obtain ⟨v, hv, hlevel, hhighest⟩ := usmPoolSelectOps_highest h1 h4 h3
    refine ⟨v, ?_, hlevel, hhighest⟩
    rw [usmPoolDispatchInit, hs4, hs3, ← hv]
    rfl
  · rintro required (rfl | rfl | rfl)
    · refine ⟨true, rfl, fun _ => ⟨fun f hf => ?_, fun b hb => ?_⟩, fun _ => rfl⟩
      · exact absurd hf (by cases f <;> decide)
      · cases hb
    · exact ⟨ok3, hs3, h3⟩
    · exact ⟨ok4, hs4, h4⟩
  · intro b hb3 hb4
    have hsame3 := m.supports_builtin (.inl rfl) hb3
    have hsame4 := m.supports_builtin (.inr rfl) hb4
    constructor
    · rw [usmPoolDispatchInit, usmPoolDispatchInit, hsame3, hsame4]
    · funext required
      rw [checkCpuLevel, checkCpuLevel, hsame3, hsame4]

/-- An AVX2 machine whose system has enabled XGETBV but does not save the upper
halves of the vector registers. -/
def sseOnlySystem : X86Machine where
  cpuid leaf _ :=
    if leaf = 0 then ⟨7, 0, 0, 0⟩
    else if leaf = 0x80000000 then ⟨0x80000001, 0, 0, 0⟩
    else ⟨0, 0xffffffff, 0xffffffff, 0xffffffff⟩
  xcr0 := 0x3
  osxsave := true
  reported _ := by decide

/-- It reports every feature, has level 2 only, and is given the SSE2 variant. -/
theorem cpu_level_gates_sseOnlySystem :
    usmPoolDispatchInit sseOnlySystem none = some UsmVariant.sse2.ops ∧
      (∃ f, sseOnlySystem.collect = some f ∧ cpuFeaturesSupportV2 f = true ∧
        sseOnlySystem.HasLevel 2 ∧ ¬ sseOnlySystem.HasLevel 3 ∧ ¬ sseOnlySystem.HasLevel 4) ∧
      (∃ v : UsmVariant, usmPoolDispatchInit sseOnlySystem none = some v.ops ∧
        sseOnlySystem.HasLevel v.level ∧
        ∀ v' : UsmVariant, sseOnlySystem.HasLevel v'.level → v'.level ≤ v.level) ∧
      ∃ ok, checkCpuLevel sseOnlySystem none 3 = some ok ∧
        (ok = true ↔ sseOnlySystem.HasLevel 3) := by
  have h1 : sseOnlySystem.HasLevel 1 := by
    refine ⟨fun f hf => ?_, by simp [stateBits]⟩
    cases f with
    | sse2 => exact ⟨(X86Machine.hasLeaf_basic (by decide)).mpr (by decide), by decide⟩
    | _ => exact absurd hf (by decide)
  have hverdicts : sseOnlySystem.collect.map (fun f =>
      (cpuFeaturesSupportV2 f, cpuFeaturesSupportV3 f, cpuFeaturesSupportV4 f)) =
        some (true, false, false) := by decide
  obtain ⟨⟨f, hf, h2, h3, h4⟩, hbound, hopen, -⟩ := cpu_level_gates sseOnlySystem h1
  rw [hf, Option.map_some, Option.some.injEq, Prod.mk.injEq, Prod.mk.injEq] at hverdicts
  obtain ⟨hv2, hv3, hv4⟩ := hverdicts
  refine ⟨by decide, ⟨f, hf, hv2, h2.mp hv2, fun h => ?_, fun h => ?_⟩, hbound,
    hopen 3 (.inr (.inl rfl))⟩
  · exact absurd (hv3.symm.trans (h3.mpr h)) (by decide)
  · exact absurd (hv4.symm.trans (h4.mpr h)) (by decide)

end AutoUpscale
