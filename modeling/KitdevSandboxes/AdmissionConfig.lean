import Mathlib.Algebra.Group.Int.Defs
import Mathlib.Data.Int.Basic
import Mathlib.Data.List.Basic

/-! Host admission settings as `admission.Load` reads them from the environment.
Every accepted setting is positive, and `Config` carries that fact. -/
namespace KitdevSandboxes.AdmissionConfig

/-- The process environment seen through `os.LookupEnv`. -/
abbrev Environment := String → Option String

def digit (c : Char) : Option ℕ :=
  if '0' ≤ c ∧ c ≤ '9' then some (c.toNat - '0'.toNat) else none

def digits : List Char → ℕ → Option ℕ
  | [], acc => some acc
  | c :: cs, acc => (digit c).bind fun d => digits cs (10 * acc + d)

def unsigned : List Char → Option ℕ
  | [] => none
  | cs => digits cs 0

/-- `strconv.Atoi` on a 64-bit host: an optional sign, decimal digits, and the range of `int`. -/
def atoi (raw : String) : Option ℤ :=
  let value := match raw.toList with
    | '-' :: cs => (unsigned cs).map fun n => -(n : ℤ)
    | '+' :: cs => (unsigned cs).map fun n => (n : ℤ)
    | cs => (unsigned cs).map fun n => (n : ℤ)
  value.filter fun z => -2 ^ 63 ≤ z ∧ z < 2 ^ 63

def positiveInt (env : Environment) (name : String) : Except String { z : ℤ // 1 ≤ z } :=
  match env name with
  | none => .error ("required host admission setting " ++ name ++ " is missing")
  | some raw =>
    if raw = "" then .error ("required host admission setting " ++ name ++ " is missing")
    else match atoi raw with
      | none => .error ("host admission setting " ++ name ++ " must be a positive integer")
      | some value =>
        if h : value < 1 then
          .error ("host admission setting " ++ name ++ " must be a positive integer")
        else .ok ⟨value, Int.not_lt.mp h⟩

structure Config where
  maxLiveSandboxes : { z : ℤ // 1 ≤ z }
  maxConcurrentStarts : { z : ℤ // 1 ≤ z }
  maxConcurrentBuilds : { z : ℤ // 1 ≤ z }
  maxVCPU : { z : ℤ // 1 ≤ z }
  maxRAMMB : { z : ℤ // 1 ≤ z }
  maxDiskMB : { z : ℤ // 1 ≤ z }

/-- The settings are read in the order of the two tables of `Load`; the first bad one is reported. -/
def load (env : Environment) : Except String Config := do
  let maxLiveSandboxes ← positiveInt env "KITDEV_MAX_LIVE_SANDBOXES"
  let maxConcurrentStarts ← positiveInt env "KITDEV_MAX_CONCURRENT_STARTS"
  let maxConcurrentBuilds ← positiveInt env "KITDEV_MAX_CONCURRENT_BUILDS"
  let maxVCPU ← positiveInt env "KITDEV_MAX_VCPU"
  let maxRAMMB ← positiveInt env "KITDEV_MAX_RAM_MB"
  let maxDiskMB ← positiveInt env "KITDEV_MAX_DISK_MB"
  return ⟨maxLiveSandboxes, maxConcurrentStarts, maxConcurrentBuilds, maxVCPU, maxRAMMB, maxDiskMB⟩

theorem positiveInt_ok {env : Environment} {name : String} {value : { z : ℤ // 1 ≤ z }}
    (h : positiveInt env name = .ok value) : ∃ raw, env name = some raw ∧ atoi raw = some value := by
  unfold positiveInt at h
  split at h
  · cases h
  case h_2 raw hraw =>
    refine ⟨raw, hraw, ?_⟩
    split_ifs at h
    split at h
    · cases h
    · split_ifs at h
      cases h
      assumption

/-- Peel one setting off `load`. -/
private theorem setting_bind {α β : Type} {x : Except String α} {f : α → Except String β} {b : β} :
    (x >>= f) = .ok b ↔ ∃ a, x = .ok a ∧ f a = .ok b := by
  cases x with
  | error e => simp [bind, Except.bind]
  | ok a => simp [bind, Except.bind]

/-- An accepted configuration holds exactly the six values of the environment. -/
theorem load_ok {env : Environment} {cfg : Config} (h : load env = .ok cfg) :
    positiveInt env "KITDEV_MAX_LIVE_SANDBOXES" = .ok cfg.maxLiveSandboxes ∧
    positiveInt env "KITDEV_MAX_CONCURRENT_STARTS" = .ok cfg.maxConcurrentStarts ∧
    positiveInt env "KITDEV_MAX_CONCURRENT_BUILDS" = .ok cfg.maxConcurrentBuilds ∧
    positiveInt env "KITDEV_MAX_VCPU" = .ok cfg.maxVCPU ∧
    positiveInt env "KITDEV_MAX_RAM_MB" = .ok cfg.maxRAMMB ∧
    positiveInt env "KITDEV_MAX_DISK_MB" = .ok cfg.maxDiskMB := by
  unfold load at h
  obtain ⟨live, hlive, h⟩ := setting_bind.mp h
  obtain ⟨starts, hstarts, h⟩ := setting_bind.mp h
  obtain ⟨builds, hbuilds, h⟩ := setting_bind.mp h
  obtain ⟨vcpu, hvcpu, h⟩ := setting_bind.mp h
  obtain ⟨ram, hram, h⟩ := setting_bind.mp h
  obtain ⟨disk, hdisk, h⟩ := setting_bind.mp h
  cases h
  exact ⟨hlive, hstarts, hbuilds, hvcpu, hram, hdisk⟩

end KitdevSandboxes.AdmissionConfig
