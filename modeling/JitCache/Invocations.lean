/-
  JitCache.Invocations
  ────────────────────
  **How often each method has been invoked.**

  Counts are machine words.  A method without an entry has the count zero, and
  starting over is losing the entry.

  Main statements:
    `count_increment`, `count_reset` — what each operation does to the counts
-/
import JitCache.Id
import JitCache.Table.Lemmas

namespace JitCache

/-- Invocation counts by method. -/
structure Invocations where
  counts : Table MethodId UInt64 := ∅
  deriving DecidableEq

namespace Invocations

instance : Inhabited Invocations := ⟨{}⟩

/-- How often a method has been invoked. -/
def count (invocations : Invocations) (method : MethodId) : UInt64 :=
  (invocations.counts.get? method).getD 0

/-- Counts one invocation. -/
def increment (invocations : Invocations) (method : MethodId) : Invocations :=
  ⟨invocations.counts.insert method (invocations.count method + 1)⟩

/-- The number of the invocation about to be counted; at the largest word it
stays there. -/
def ordinal (invocations : Invocations) (method : MethodId) : UInt64 :=
  let count := invocations.count method
  if count + 1 = 0 then count else count + 1

/-- Lets the count of a method start over. -/
def reset (invocations : Invocations) (method : MethodId) : Invocations :=
  ⟨invocations.counts.erase method⟩

theorem count_increment (invocations : Invocations) (method other : MethodId) :
    (invocations.increment method).count other
      = if method = other then invocations.count other + 1 else invocations.count other := by
  unfold increment count
  rw [Table.get?_insert]
  split
  · next h => rw [h, Option.getD_some]
  · rfl

theorem count_reset (invocations : Invocations) (method other : MethodId) :
    (invocations.reset method).count other
      = if method = other then 0 else invocations.count other := by
  unfold reset count
  rw [Table.get?_erase]
  split <;> rfl

end Invocations

end JitCache
