/-
  JitCache.Settings.Reader
  ────────────────────────
  **Settings from a TOML document.**

  Each setting is an entry of the document's root table; what is missing takes
  its default, and entries of other names are ignored.  A value of the wrong
  type, or one that does not fit, makes the whole document unreadable; only
  readable settings are checked for being usable.

  This too belongs to the outer layer (see `JitCache.Toml.Document`): no theorem
  speaks of the text that settings come from.
-/
import JitCache.Settings
import JitCache.Toml.Document

namespace JitCache.Settings

open Toml (Entries Value)

/-- An integer that is not negative, as a machine word. -/
def wordOf? : Value → Option UInt64
  | .integer n => if 0 ≤ n then some (.ofNat n.toNat) else none
  | _ => none

/-- An integer that fits a byte. -/
def byteOf? : Value → Option UInt8
  | .integer n => if 0 ≤ n ∧ n < 256 then some (.ofNat n.toNat) else none
  | _ => none

/-- A truth value. -/
def flagOf? : Value → Option Bool
  | .boolean b => some b
  | _ => none

/-- The setting under a key: the default if there is no such key, nothing if
its value does not do. -/
def setting? {α : Type} (entries : Entries) (key : String) (read? : Value → Option α)
    (default : α) : Option α :=
  match entries.value? key with
  | none => some default
  | some value => read? value

/-- The settings in a document. -/
def ofEntries? (entries : Entries) : Option Settings := do
  let base : Settings := {}
  let profiledCapacity ← setting? entries "profiled_capacity" wordOf? base.profiledCapacity
  let nonProfiledCapacity ←
    setting? entries "non_profiled_capacity" wordOf? base.nonProfiledCapacity
  let nonMethodCapacity ← setting? entries "non_method_capacity" wordOf? base.nonMethodCapacity
  let compileThreshold ← setting? entries "compile_threshold" wordOf? base.compileThreshold
  let maxFitProbes ← setting? entries "max_fit_probes" wordOf? base.maxFitProbes
  let allowNonMethodFallback ←
    setting? entries "allow_non_method_fallback" flagOf? base.allowNonMethodFallback
  let consolidateOnCollect ←
    setting? entries "consolidate_on_collect" flagOf? base.consolidateOnCollect
  let consolidationPercent ←
    setting? entries "consolidation_occupancy_percent" byteOf? base.consolidationPercent
  return { profiledCapacity, nonProfiledCapacity, nonMethodCapacity, compileThreshold,
           maxFitProbes, allowNonMethodFallback, consolidateOnCollect, consolidationPercent }

/-- Reads and checks the settings in a text. -/
def read (text : String) : Except CacheError Settings :=
  match (Toml.read? text).bind ofEntries? with
  | some settings => settings.validate
  | none => .error (.badSettings .unreadable)

end JitCache.Settings
