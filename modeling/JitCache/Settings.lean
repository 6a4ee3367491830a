/-
  JitCache.Settings
  ─────────────────
  **What can be configured, and when a configuration is usable.**

  `Settings` carries the capacities of the three regions and the thresholds of
  tiering, allocation and consolidation, each with its default.  `fault?` names
  the first thing wrong with it, in a fixed order: method capacities, compile
  threshold, probes, percentage.
-/
import JitCache.CacheError

namespace JitCache

/-- The configuration of a cache. -/
structure Settings where
  /-- Bytes of the profiled region. -/
  profiledCapacity : UInt64 := 2 * 1024 * 1024
  /-- Bytes of the non-profiled region. -/
  nonProfiledCapacity : UInt64 := 2 * 1024 * 1024
  /-- Bytes of the non-method region. -/
  nonMethodCapacity : UInt64 := 512 * 1024
  /-- Invocations after which a method is queued for compilation. -/
  compileThreshold : UInt64 := 1000
  /-- Free spans looked at before code space is taken from the top. -/
  maxFitProbes : UInt64 := 16
  /-- Whether method code may spill into the non-method region. -/
  allowNonMethodFallback : Bool := true
  /-- Whether a collection also drains nearly empty method regions. -/
  consolidateOnCollect : Bool := false
  /-- How much of a region may be used, in percent, for it to count as nearly empty. -/
  consolidationPercent : UInt8 := 10
  deriving DecidableEq

namespace Settings

instance : Inhabited Settings := ⟨{}⟩

/-- The bytes of a region. -/
def capacity (settings : Settings) : RegionKind → UInt64
  | .profiled => settings.profiledCapacity
  | .nonProfiled => settings.nonProfiledCapacity
  | .nonMethod => settings.nonMethodCapacity

/-- The first thing wrong with the settings. -/
def fault? (settings : Settings) : Option SettingsFault :=
  if settings.profiledCapacity = 0 ∨ settings.nonProfiledCapacity = 0 then some .noMethodRoom
  else if settings.compileThreshold = 0 then some .zeroThreshold
  else if settings.maxFitProbes = 0 then some .zeroProbes
  else if 100 < settings.consolidationPercent then
    some (.percentTooLarge settings.consolidationPercent)
  else none

/-- Passes usable settings on and refuses others. -/
def validate (settings : Settings) : Except CacheError Settings :=
  match settings.fault? with
  | none => .ok settings
  | some fault => .error (.badSettings fault)

theorem validate_eq_ok_iff {settings checked : Settings} :
    settings.validate = .ok checked ↔ checked = settings ∧ settings.fault? = none := by
  unfold validate
  split
  · next h => simp [h, eq_comm]
  · next fault h => simp [h]

end Settings

end JitCache
