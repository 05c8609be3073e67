import Mathlib
import Knok.Ast
import Knok.CacheKey
import Knok.Control.Checked

/-!
# Compiler flags

The flags of a compilation are the backend's, the defaults that Cargo's profile and
target suggest, and the user's, in this order.  Which backends there are depends on the
host and on the features that the compiler crate is built with.  A user cannot select a
backend through flags, and a default gives way to a flag of the user's with the same
prefix (`flags_spec`).
-/

namespace Knok

open Control

/-- What the compiler crate is built with: for macOS (or its documentation), and with
the features `vulkan` and `cuda`. -/
structure BuildFeatures where
  macos : Bool := false
  vulkan : Bool := false
  cuda : Bool := false
  deriving DecidableEq

/-- The variants that `cfg` leaves in the enumeration. -/
def BuildFeatures.hasBackend (features : BuildFeatures) : IreeBackend → Bool
  | .llvmCpu => true
  | .metalSpirv => features.macos
  | .vulkanSpirv => features.vulkan
  | .cuda => features.cuda

/-- `IreeBackend::from_target_backend`. -/
def IreeBackend.fromTargetBackend (features : BuildFeatures) : String → Option IreeBackend
  | "llvm-cpu" => some .llvmCpu
  | "metal-spirv" => if features.macos then some .metalSpirv else none
  | "vulkan-spirv" => if features.vulkan then some .vulkanSpirv else none
  | "cuda" => if features.cuda then some .cuda else none
  | _ => none

def supportedBackendNames (features : BuildFeatures) : List String :=
  ["llvm-cpu"] ++ (if features.macos then ["metal-spirv"] else []) ++
    (if features.vulkan then ["vulkan-spirv"] else []) ++ (if features.cuda then ["cuda"] else [])

def parseBackend (features : BuildFeatures) (backend : String) : Except Error IreeBackend :=
  match IreeBackend.fromTargetBackend features backend with
  | some parsed => .ok parsed
  | none =>
      let expected := String.intercalate ", "
        ((supportedBackendNames features).map fun name => s!"`{name}`")
      .error (.msg s!"unsupported IREE backend `{backend}`; expected one of {expected}")

/-- What Cargo tells a build script, if it can be read. -/
structure CargoProfile where
  optLevel : Option String
  target : Option String
  deriving DecidableEq

/-- `str::starts_with`. -/
def startsWith (flag start : String) : Bool := start.toList.isPrefixOf flag.toList

/-- `flag.split('=').next()`. -/
def flagName (flag : String) : String := String.ofList (flag.toList.takeWhile (· != '='))

def cargoIreeOptLevel : Option String → Option String
  | some "0" => some "O0"
  | some "1" => some "O1"
  | some "2" => some "O2"
  | some "3" => some "O3"
  | some "s" => some "O2"
  | some "z" => some "O2"
  | _ => none

/-- A default, unless some flag of the user's starts as it does. -/
def defaultFlag (start : String) (value : Option String) (extraFlags : List String) :
    List String :=
  match value with
  | none => []
  | some value => if extraFlags.any (startsWith · start) then [] else [start ++ value]

/-- The flags of a backend that is known; the code panics for other names. -/
def backendFlagsWithCargoEnv (capability : IreeBackend) (backend : String)
    (extraFlags : List String) (cargo : CargoProfile) : List String :=
  ["--iree-hal-target-backends=" ++ backend, "--iree-input-demote-f64-to-f32=false"] ++
    (if capability = .metalSpirv then ["--iree-metal-compile-to-metallib=false"] else []) ++
    (if capability = .llvmCpu then
      defaultFlag "--iree-opt-level=" (cargoIreeOptLevel cargo.optLevel) extraFlags ++
        defaultFlag "--iree-llvmcpu-target-triple=" cargo.target extraFlags
    else []) ++
    extraFlags

structure CompileOptions where
  flags : List String := []
  deriving DecidableEq

namespace CompileOptions

variable (options : CompileOptions)

def flag (flag : String) : CompileOptions := ⟨options.flags ++ [flag]⟩

def targetCpu (cpu : String) : CompileOptions := options.flag s!"--iree-llvmcpu-target-cpu={cpu}"

def cpuFeatures (features : String) : CompileOptions :=
  options.flag s!"--iree-llvmcpu-target-cpu-features={features}"

/-- `CompileOptions::flags`. -/
def resolve (features : BuildFeatures) (cargo : CargoProfile) (backend : String) :
    Except Error (List String) := do
  let capability ← parseBackend features backend
  failIf (options.flags.any fun flag => flagName flag == "--iree-hal-target-backends")
    "select the backend on the graph or MLIR model, not through compiler flags"
  return backendFlagsWithCargoEnv capability backend options.flags cargo

end CompileOptions

/-! ## What the flags are -/

/-- The flags that start in the same way. -/
def settings (start : String) (flags : List String) : List String :=
  flags.filter (startsWith · start)

theorem startsWith_append (start value : String) : startsWith (start ++ value) start = true := by
  rw [startsWith, String.toList_append, List.isPrefixOf_iff_prefix]
  exact List.prefix_append ..

/-- The name of a flag ends at the first equals sign. -/
theorem flagName_append (name : String) {start : String} (hstart : start = name ++ "=")
    (h : '=' ∉ name.toList) (value : String) : flagName (start ++ value) = name := by
  have hname : ∀ ch ∈ name.toList, (ch != '=') = true := by
    intro ch hch
    rw [bne_iff_ne]
    rintro rfl
    exact h hch
  rw [flagName, hstart, String.toList_append, String.toList_append, List.append_assoc,
    List.takeWhile_append_of_pos hname]
  simp

/-- A flag with one start has no other start, unless one of the two starts the other. -/
theorem startsWith_append_eq_false {start start' : String}
    (h : startsWith start start' = false) (h' : startsWith start' start = false) (value : String) :
    startsWith (start ++ value) start' = false := by
  rw [Bool.eq_false_iff] at h h' ⊢
  simp only [startsWith, String.toList_append, ne_eq, List.isPrefixOf_iff_prefix] at h h' ⊢
  intro hprefix
  rcases List.prefix_or_prefix_of_prefix (List.prefix_append start.toList value.toList) hprefix with
    hstart | hstart
  · exact h' hstart
  · exact h hstart

/-- A name selects a backend that there is. -/
theorem fromTargetBackend_eq_some_iff {features : BuildFeatures} {name : String}
    {backend : IreeBackend} :
    IreeBackend.fromTargetBackend features name = some backend ↔
      features.hasBackend backend = true ∧ backend.targetName = name := by
  constructor
  · intro h
    unfold IreeBackend.fromTargetBackend at h
    split at h
    · cases h
      exact ⟨rfl, rfl⟩
    · split_ifs at h with hmacos
      cases h
      exact ⟨hmacos, rfl⟩
    · split_ifs at h with hvulkan
      cases h
      exact ⟨hvulkan, rfl⟩
    · split_ifs at h with hcuda
      cases h
      exact ⟨hcuda, rfl⟩
    · cases h
  · rintro ⟨hfeature, rfl⟩
    cases backend with
    | llvmCpu => rfl
    | metalSpirv => exact if_pos hfeature
    | vulkanSpirv => exact if_pos hfeature
    | cuda => exact if_pos hfeature

/-- The backend flag's name is taken. -/
theorem CompileOptions.resolve_eq_ok_iff {options : CompileOptions} {features : BuildFeatures}
    {cargo : CargoProfile} {backend : String} {flags : List String} :
    options.resolve features cargo backend = .ok flags ↔
      ∃ capability, (features.hasBackend capability = true ∧ capability.targetName = backend) ∧
        (∀ flag ∈ options.flags, flagName flag ≠ "--iree-hal-target-backends") ∧
        backendFlagsWithCargoEnv capability backend options.flags cargo = flags := by
  have hparse : ∀ capability, parseBackend features backend = .ok capability ↔
      features.hasBackend capability = true ∧ capability.targetName = backend := by
    intro capability
    rw [← fromTargetBackend_eq_some_iff, parseBackend]
    cases IreeBackend.fromTargetBackend features backend <;> simp
  simp only [CompileOptions.resolve, except_bind_eq_ok_iff, hparse, failIf_eq_ok_iff,
    except_pure_eq_ok_iff, List.any_eq_false, beq_iff_eq]
  constructor
  · rintro ⟨capability, hcapability, _, hflags, rfl⟩
    exact ⟨capability, hcapability, hflags, rfl⟩
  · rintro ⟨capability, hcapability, hflags, rfl⟩
    exact ⟨capability, hcapability, (), hflags, rfl⟩

/-- What settings come to: the user's if there are any, and otherwise the default. -/
def settingsOr (start : String) (value : Option String) (userFlags : List String) : List String :=
  if settings start userFlags = [] then value.toList.map (start ++ ·) else settings start userFlags

/-- A default stands alone. -/
theorem settings_defaultFlag (start : String) (value : Option String) (extraFlags : List String) :
    settings start (defaultFlag start value extraFlags ++ extraFlags) =
      settingsOr start value extraFlags := by
  have hany : extraFlags.any (startsWith · start) = false ↔ settings start extraFlags = [] := by
    rw [settings, List.filter_eq_nil_iff, List.any_eq_false]
  unfold settingsOr defaultFlag
  cases value with
  | none =>
      by_cases h : settings start extraFlags = []
      · rw [if_pos h]
        exact h
      · rw [if_neg h]
        rfl
  | some text =>
      by_cases h : settings start extraFlags = []
      · rw [if_pos h, hany.mpr h]
        simp only [Bool.false_eq_true, if_false, settings, List.filter_append]
        rw [show extraFlags.filter _ = [] from h]
        simp [startsWith_append]
      · have hset : extraFlags.any (startsWith · start) = true := by simpa using mt hany.mp h
        rw [if_neg h]
        dsimp only
        rw [if_pos hset, List.nil_append]

theorem mem_defaultFlag {start flag : String} {value : Option String} {extraFlags : List String}
    (h : flag ∈ defaultFlag start value extraFlags) : ∃ text, flag = start ++ text := by
  unfold defaultFlag at h
  split at h
  · cases h
  · split at h
    · cases h
    · exact ⟨_, List.mem_singleton.mp h⟩

/-- Flags that start otherwise are not settings. -/
theorem settings_eq_nil {start : String} {flags : List String}
    (h : ∀ flag ∈ flags, startsWith flag start = false) : settings start flags = [] :=
  List.filter_eq_nil_iff.mpr fun flag hflag => by rw [h flag hflag]; decide

/-- A default is a setting of its own start only. -/
theorem settings_defaultFlag_eq_nil (start start' : String) (h : startsWith start start' = false)
    (h' : startsWith start' start = false) (value : Option String) (extraFlags : List String) :
    settings start' (defaultFlag start value extraFlags) = [] := by
  apply settings_eq_nil
  intro flag hflag
  obtain ⟨text, rfl⟩ := mem_defaultFlag hflag
  exact startsWith_append_eq_false h h' text

theorem settings_append (start : String) (flags flags' : List String) :
    settings start (flags ++ flags') = settings start flags ++ settings start flags' :=
  List.filter_append ..

@[simp] theorem settings_nil (start : String) : settings start [] = [] := rfl

theorem settings_singleton_of_startsWith {start flag : String} (h : startsWith flag start = true) :
    settings start [flag] = [flag] := by
  simp [settings, h]

/-- The levels of Cargo and of the compiler. -/
def ireeOptLevels : List (String × String) :=
  [("0", "O0"), ("1", "O1"), ("2", "O2"), ("3", "O3"), ("s", "O2"), ("z", "O2")]

theorem cargoIreeOptLevel_eq (level : Option String) :
    cargoIreeOptLevel level = level.bind fun level => ireeOptLevels.lookup level := by
  cases level with
  | none => rfl
  | some level =>
      unfold cargoIreeOptLevel
      split
      case h_7 =>
        refine (List.lookup_eq_none_iff.mpr ?_).symm
        simp_all [ireeOptLevels]
      all_goals
        next heq =>
          obtain rfl := Option.some.inj heq
          decide

/-- The flags of a backend that nothing changes. -/
def fixedFlags (capability : IreeBackend) : List String :=
  ["--iree-hal-target-backends=" ++ capability.targetName,
    "--iree-input-demote-f64-to-f32=false"] ++
    if capability = .metalSpirv then ["--iree-metal-compile-to-metallib=false"] else []

/-- The defaults that Cargo suggests. -/
def defaultFlags (capability : IreeBackend) (extraFlags : List String) (cargo : CargoProfile) :
    List String :=
  if capability = .llvmCpu then
    defaultFlag "--iree-opt-level=" (cargoIreeOptLevel cargo.optLevel) extraFlags ++
      defaultFlag "--iree-llvmcpu-target-triple=" cargo.target extraFlags
  else []

theorem backendFlags_eq (capability : IreeBackend) (extraFlags : List String)
    (cargo : CargoProfile) :
    backendFlagsWithCargoEnv capability capability.targetName extraFlags cargo =
      fixedFlags capability ++ defaultFlags capability extraFlags cargo ++ extraFlags := rfl

/-- The level and the triple come from Cargo for the processor, unless the user sets them. -/
theorem settings_defaultFlags (capability : IreeBackend) (extraFlags : List String)
    (cargo : CargoProfile) :
    settings "--iree-opt-level=" (defaultFlags capability extraFlags cargo ++ extraFlags) =
        settingsOr "--iree-opt-level="
          (if capability = .llvmCpu then cargoIreeOptLevel cargo.optLevel else none) extraFlags ∧
      settings "--iree-llvmcpu-target-triple="
          (defaultFlags capability extraFlags cargo ++ extraFlags) =
        settingsOr "--iree-llvmcpu-target-triple="
          (if capability = .llvmCpu then cargo.target else none) extraFlags := by
  unfold defaultFlags
  by_cases hcpu : capability = .llvmCpu
  · rw [if_pos hcpu, if_pos hcpu, if_pos hcpu]
    have htriple := settings_defaultFlag_eq_nil "--iree-llvmcpu-target-triple="
      "--iree-opt-level=" (by decide) (by decide) cargo.target extraFlags
    have hlevel := settings_defaultFlag_eq_nil "--iree-opt-level="
      "--iree-llvmcpu-target-triple=" (by decide) (by decide)
      (cargoIreeOptLevel cargo.optLevel) extraFlags
    rw [← settings_defaultFlag, ← settings_defaultFlag]
    simp only [settings_append, htriple, hlevel, List.append_nil, List.nil_append, and_self]
  · rw [if_neg hcpu, if_neg hcpu, if_neg hcpu]
    exact ⟨settings_defaultFlag _ none extraFlags, settings_defaultFlag _ none extraFlags⟩

/-- Defaults are settings of two kinds. -/
theorem mem_defaultFlags {capability : IreeBackend} {extraFlags : List String}
    {cargo : CargoProfile} {flag : String} (h : flag ∈ defaultFlags capability extraFlags cargo) :
    (∃ text, flag = "--iree-opt-level=" ++ text) ∨
      ∃ text, flag = "--iree-llvmcpu-target-triple=" ++ text := by
  unfold defaultFlags at h
  split_ifs at h
  · rcases List.mem_append.mp h with h | h
    · exact .inl (mem_defaultFlag h)
    · exact .inr (mem_defaultFlag h)
  · cases h

/-- What resolved flags are made of. -/
structure CompileOptions.Resolved (options : CompileOptions) (cargo : CargoProfile)
    (backend : String) (flags : List String) : Prop where
  selects : flags.filter (fun flag => flagName flag == "--iree-hal-target-backends") =
    ["--iree-hal-target-backends=" ++ backend]
  users : options.flags <:+ flags
  level : settings "--iree-opt-level=" flags =
    settingsOr "--iree-opt-level="
      (if backend = "llvm-cpu" then cargo.optLevel.bind fun level => ireeOptLevels.lookup level
        else none) options.flags
  triple : settings "--iree-llvmcpu-target-triple=" flags =
    settingsOr "--iree-llvmcpu-target-triple="
      (if backend = "llvm-cpu" then cargo.target else none) options.flags
  demotion : settings "--iree-input-demote-f64-to-f32=" flags =
    "--iree-input-demote-f64-to-f32=false" ::
      settings "--iree-input-demote-f64-to-f32=" options.flags
  metallib : settings "--iree-metal-compile-to-metallib=" flags =
    (if backend = "metal-spirv" then ["--iree-metal-compile-to-metallib=false"] else []) ++
      settings "--iree-metal-compile-to-metallib=" options.flags
  others : ∀ flag ∈ flags, flag ∈ options.flags ∨
    ∃ start ∈ ["--iree-hal-target-backends=", "--iree-opt-level=",
      "--iree-llvmcpu-target-triple=", "--iree-input-demote-f64-to-f32=",
      "--iree-metal-compile-to-metallib="], startsWith flag start = true

/-- What the flags of a backend are made of. -/
theorem resolved_backendFlags (options : CompileOptions) (capability : IreeBackend)
    (cargo : CargoProfile)
    (huser : ∀ flag ∈ options.flags, flagName flag ≠ "--iree-hal-target-backends") :
    options.Resolved cargo capability.targetName
      (backendFlagsWithCargoEnv capability capability.targetName options.flags cargo) := by
  have hcpu : capability.targetName = "llvm-cpu" ↔ capability = .llvmCpu := by
    cases capability <;> decide
  have hmetal : capability.targetName = "metal-spirv" ↔ capability = .metalSpirv := by
    cases capability <;> decide
  have hdefaults := settings_defaultFlags capability options.flags cargo
  -- defaults are settings of neither other kind
  have hnone : ∀ start, startsWith "--iree-opt-level=" start = false →
      startsWith start "--iree-opt-level=" = false →
      startsWith "--iree-llvmcpu-target-triple=" start = false →
      startsWith start "--iree-llvmcpu-target-triple=" = false →
      settings start (defaultFlags capability options.flags cargo) = [] := by
    intro start hlevel hlevel' htriple htriple'
    apply settings_eq_nil
    intro flag hflag
    obtain ⟨text, rfl⟩ | ⟨text, rfl⟩ := mem_defaultFlags hflag
    · exact startsWith_append_eq_false hlevel hlevel' text
    · exact startsWith_append_eq_false htriple htriple' text
  rw [backendFlags_eq]
  constructor
  · have hfixed : (fixedFlags capability).filter
        (fun flag => flagName flag == "--iree-hal-target-backends") =
          ["--iree-hal-target-backends=" ++ capability.targetName] := by
      cases capability <;> decide
    have hrest : (defaultFlags capability options.flags cargo ++ options.flags).filter
        (fun flag => flagName flag == "--iree-hal-target-backends") = [] := by
      rw [List.filter_eq_nil_iff]
      intro flag hflag
      rw [beq_iff_eq]
      rcases List.mem_append.mp hflag with hflag | hflag
      · obtain ⟨text, rfl⟩ | ⟨text, rfl⟩ := mem_defaultFlags hflag
        · rw [flagName_append "--iree-opt-level" (by decide) (by decide)]
          decide
        · rw [flagName_append "--iree-llvmcpu-target-triple" (by decide) (by decide)]
          decide
      · exact huser flag hflag
    rw [List.append_assoc, List.filter_append, hfixed, hrest, List.append_nil]
  · exact List.suffix_append ..
  · have hfixed : settings "--iree-opt-level=" (fixedFlags capability) = [] := by
      cases capability <;> decide
    rw [List.append_assoc, settings_append, hfixed, List.nil_append, hdefaults.1,
      cargoIreeOptLevel_eq]
    simp only [hcpu]
  · have hfixed : settings "--iree-llvmcpu-target-triple=" (fixedFlags capability) = [] := by
      cases capability <;> decide
    rw [List.append_assoc, settings_append, hfixed, List.nil_append, hdefaults.2]
    simp only [hcpu]
  · have hfixed : settings "--iree-input-demote-f64-to-f32=" (fixedFlags capability) =
        ["--iree-input-demote-f64-to-f32=false"] := by
      cases capability <;> decide
    rw [settings_append, settings_append, hfixed,
      hnone _ (by decide) (by decide) (by decide) (by decide), List.append_nil,
      List.singleton_append]
  · have hfixed : settings "--iree-metal-compile-to-metallib=" (fixedFlags capability) =
        if capability = .metalSpirv then ["--iree-metal-compile-to-metallib=false"] else [] := by
      cases capability <;> decide
    rw [settings_append, settings_append, hfixed,
      hnone _ (by decide) (by decide) (by decide) (by decide), List.append_nil]
    simp only [hmetal]
  · intro flag hflag
    rw [List.append_assoc, List.mem_append, List.mem_append] at hflag
    rcases hflag with hflag | hflag | hflag
    · have hfixed : ∀ flag ∈ fixedFlags capability,
          ∃ start ∈ ["--iree-hal-target-backends=", "--iree-opt-level=",
            "--iree-llvmcpu-target-triple=", "--iree-input-demote-f64-to-f32=",
            "--iree-metal-compile-to-metallib="], startsWith flag start = true := by
        cases capability <;> decide
      exact .inr (hfixed flag hflag)
    · obtain ⟨text, rfl⟩ | ⟨text, rfl⟩ := mem_defaultFlags hflag
      · exact .inr ⟨_, .tail _ (.head _), startsWith_append _ text⟩
      · exact .inr ⟨_, .tail _ (.tail _ (.head _)), startsWith_append _ text⟩
    · exact .inl hflag

/-- **The resolved flags.**  There are flags for the backends that the compiler crate is
built with, unless the user selects one.  The graph's backend is selected once; the
user's flags come last and in order; for the processor the optimization level and the
target triple are the user's settings, if there are any, or Cargo's; and what else is
set is fixed. -/
theorem flags_spec (options : CompileOptions) (features : BuildFeatures) (cargo : CargoProfile)
    (backend : String) :
    ((∃ flags, options.resolve features cargo backend = .ok flags) ↔
        (∃ capability, features.hasBackend capability = true ∧ capability.targetName = backend) ∧
          ∀ flag ∈ options.flags, flagName flag ≠ "--iree-hal-target-backends") ∧
      ∀ flags, options.resolve features cargo backend = .ok flags →
        options.Resolved cargo backend flags := by
  simp only [CompileOptions.resolve_eq_ok_iff]
  refine ⟨⟨?_, ?_⟩, ?_⟩
  · rintro ⟨_, capability, hcapability, huser, -⟩
    exact ⟨⟨capability, hcapability⟩, huser⟩
  · rintro ⟨⟨capability, hcapability⟩, huser⟩
    exact ⟨_, capability, hcapability, huser, rfl⟩
  · rintro _ ⟨capability, ⟨-, rfl⟩, huser, rfl⟩
    exact resolved_backendFlags options capability cargo huser

/-- Options that set the processor and the optimization level. -/
def tunedOptions : CompileOptions :=
  (CompileOptions.targetCpu {} "generic").flag "--iree-opt-level=O1"

/-- The flags they come to for a Linux target built with `opt-level = 3`. -/
def tunedFlags : List String :=
  ["--iree-hal-target-backends=llvm-cpu", "--iree-input-demote-f64-to-f32=false",
    "--iree-llvmcpu-target-triple=x86_64-unknown-linux-gnu",
    "--iree-llvmcpu-target-cpu=generic", "--iree-opt-level=O1"]

theorem resolve_tunedOptions :
    tunedOptions.resolve {} ⟨some "3", some "x86_64-unknown-linux-gnu"⟩ "llvm-cpu" =
      .ok tunedFlags := by
  decide +kernel

theorem flags_spec_tunedOptions :
    tunedOptions.Resolved ⟨some "3", some "x86_64-unknown-linux-gnu"⟩ "llvm-cpu" tunedFlags :=
  (flags_spec tunedOptions {} ⟨some "3", some "x86_64-unknown-linux-gnu"⟩ "llvm-cpu").2 _
    resolve_tunedOptions

end Knok
