/-
  JitCache.Collection.FrameSnapshot
  ─────────────────────────────────
  **Which code is being executed.**

  A snapshot of all call stacks, reduced to the set of entry addresses found on
  them.
-/
import JitCache.Id
import JitCache.Table.Lemmas

namespace JitCache

/-- The entry addresses found on call stacks. -/
structure FrameSnapshot where
  entries : Table EntryAddress Unit := ∅
  deriving DecidableEq

namespace FrameSnapshot

instance : Inhabited FrameSnapshot := ⟨{}⟩

/-- Adds an entry address. -/
def insert (frames : FrameSnapshot) (entry : EntryAddress) : FrameSnapshot :=
  ⟨frames.entries.insert entry ()⟩

/-- The frames at these addresses. -/
def ofList (entries : List EntryAddress) : FrameSnapshot := entries.foldl insert {}

/-- Whether an entry address was found. -/
def contains (frames : FrameSnapshot) (entry : EntryAddress) : Bool := frames.entries.contains entry

/-- How many addresses were found. -/
def size (frames : FrameSnapshot) : Nat := frames.entries.size

theorem contains_insert (frames : FrameSnapshot) (entry other : EntryAddress) :
    (frames.insert entry).contains other = (decide (entry = other) || frames.contains other) := by
  unfold insert contains Table.contains
  rw [Table.get?_insert]
  by_cases h : entry = other <;> simp [h]

theorem contains_ofList {entries : List EntryAddress} {entry : EntryAddress} :
    (ofList entries).contains entry = true ↔ entry ∈ entries := by
  suffices ∀ frames : FrameSnapshot, (entries.foldl insert frames).contains entry = true
      ↔ entry ∈ entries ∨ frames.contains entry = true by
    have hempty : ¬ (({} : FrameSnapshot).contains entry = true) := Bool.false_ne_true
    exact (this {}).trans (or_iff_left hempty)
  induction entries with
  | nil => simp
  | cons head rest ih =>
    intro frames
    rw [List.foldl_cons, ih, contains_insert]
    simp only [Bool.or_eq_true, decide_eq_true_eq, List.mem_cons]
    constructor
    · rintro (h | h | h)
      · exact .inl (.inr h)
      · exact .inl (.inl h.symm)
      · exact .inr h
    · rintro ((h | h) | h)
      · exact .inr (.inl h.symm)
      · exact .inl h
      · exact .inr (.inr h)

end FrameSnapshot

end JitCache
