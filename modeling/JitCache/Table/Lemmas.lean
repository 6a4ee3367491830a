/-
  JitCache.Table.Lemmas
  ─────────────────────
  **The laws of tables, all through `get?`.**

  Main statements:
    `Table.get?_insert`    — reading after a write
    `Table.get?_erase`     — reading after an erasure
    `Table.get?_modify`    — reading after a change
    `Table.mem_entries_iff` — an entry is a key with its value
    `Table.ext`            — tables that answer alike are equal
-/
import JitCache.Table.Basic

namespace JitCache

variable {K V : Type} [Numbered K]

/-! ## §1. Entry lists. -/

namespace Entries

theorem find?_eq_none_of_forall_ne {key : K} {entries : List (K × V)}
    (h : ∀ entry ∈ entries, number entry.1 ≠ number key) : find? key entries = none := by
  induction entries with
  | nil => rfl
  | cons head rest ih =>
    rw [find?, if_neg (h head List.mem_cons_self)]
    exact ih fun entry hmem => h entry (List.mem_cons_of_mem _ hmem)

/-- At and below the head's key, the tail holds nothing. -/
theorem find?_tail_eq_none {key : K} {head : K × V} {rest : List (K × V)}
    (h : Ascending (head :: rest)) (hle : number key ≤ number head.1) :
    find? key rest = none :=
  find?_eq_none_of_forall_ne fun entry hmem =>
    Nat.ne_of_gt (Nat.lt_of_le_of_lt hle ((List.pairwise_cons.mp h).1 entry hmem))

theorem find?_put {entries : List (K × V)} (h : Ascending entries) (key other : K) (value : V) :
    find? other (put key value entries)
      = if number key = number other then some value else find? other entries := by
  induction entries with
  | nil => rfl
  | cons head rest ih =>
    have hrest := (List.pairwise_cons.mp h).2
    unfold put
    split
    · rfl
    · split
      · next hgt =>
        rw [find?, find?, ih hrest]
        by_cases hhead : number head.1 = number other
        · have hne : number key ≠ number other := by omega
          rw [if_pos hhead, if_neg hne, if_pos hhead]
        · rw [if_neg hhead, if_neg hhead]
      · next hle hge =>
        have heq : number key = number head.1 := by omega
        rw [find?, find?, heq]
        split <;> rfl

theorem find?_strike (key other : K) (entries : List (K × V)) :
    find? other (strike key entries)
      = if number key = number other then none else find? other entries := by
  induction entries with
  | nil => simp [strike, find?]
  | cons head rest ih =>
    unfold strike at ih ⊢
    rw [List.filter_cons]
    split
    · next hkeep =>
      rw [find?, find?, ih]
      by_cases hhead : number head.1 = number other
      · have hne : number key ≠ number other := fun h => by simp [h, hhead] at hkeep
        rw [if_pos hhead, if_neg hne, if_pos hhead]
      · rw [if_neg hhead, if_neg hhead]
    · next hdrop =>
      have heq : number head.1 = number key := by simpa using hdrop
      rw [ih, find?, heq]
      split <;> rfl

theorem find?_eq_some_iff {key : K} {value : V} {entries : List (K × V)} (h : Ascending entries) :
    find? key entries = some value ↔ (key, value) ∈ entries := by
  induction entries with
  | nil => simp [find?]
  | cons head rest ih =>
    obtain ⟨hhead, hrest⟩ := List.pairwise_cons.mp h
    rw [find?, List.mem_cons]
    split
    · next heq =>
      have hkey : head.1 = key := Numbered.number_injective heq
      refine ⟨fun hv => .inl ?_, fun hmem => ?_⟩
      · rw [← hkey, ← Option.some.inj hv]
      · rcases hmem with heq' | hmem
        · rw [← heq']
        · have hlt : number head.1 < number key := hhead _ hmem
          omega
    · next hne =>
      rw [ih hrest]
      refine ⟨.inr, fun hmem => hmem.resolve_left fun heq => hne ?_⟩
      rw [← heq]

theorem eq_of_find?_eq {a b : List (K × V)} (ha : Ascending a) (hb : Ascending b)
    (h : ∀ key, find? key a = find? key b) : a = b := by
  induction a generalizing b with
  | nil =>
    cases b with
    | nil => rfl
    | cons head rest => have := h head.1; simp [find?] at this
  | cons x xs ih =>
    cases b with
    | nil => have := h x.1; simp [find?] at this
    | cons y ys =>
      have hxs := (List.pairwise_cons.mp ha).2
      have hys := (List.pairwise_cons.mp hb).2
      -- the smaller head would be missing from the other list
      rcases Nat.lt_trichotomy (number x.1) (number y.1) with hlt | heq | hgt
      · have hx := h x.1
        rw [find?, if_pos rfl, find?, if_neg (Nat.ne_of_gt hlt),
          find?_tail_eq_none hb (Nat.le_of_lt hlt)] at hx
        cases hx
      · have hx := h x.1
        rw [find?, if_pos rfl, find?, if_pos heq.symm] at hx
        have hhead : x = y := Prod.ext (Numbered.number_injective heq) (Option.some.inj hx)
        subst hhead
        congr 1
        refine ih hxs hys fun key => ?_
        by_cases hkey : number x.1 = number key
        · rw [find?_tail_eq_none ha (Nat.le_of_eq hkey.symm),
            find?_tail_eq_none hb (Nat.le_of_eq hkey.symm)]
        · have := h key
          rwa [find?, if_neg hkey, find?, if_neg hkey] at this
      · have hy := h y.1
        rw [find?, if_neg (Nat.ne_of_gt hgt), find?_tail_eq_none ha (Nat.le_of_lt hgt), find?,
          if_pos rfl] at hy
        cases hy

end Entries

/-! ## §2. Tables. -/

namespace Table

theorem number_eq_iff {a b : K} : number a = number b ↔ a = b :=
  ⟨Numbered.number_injective, fun h => h ▸ rfl⟩

@[simp] theorem get?_empty (key : K) : (∅ : Table K V).get? key = none := rfl

theorem get?_insert [DecidableEq K] (table : Table K V) (key other : K) (value : V) :
    (table.insert key value).get? other = if key = other then some value else table.get? other := by
  unfold get? insert
  rw [Entries.find?_put table.ascending]
  simp only [number_eq_iff]

@[simp] theorem get?_insert_self (table : Table K V) (key : K) (value : V) :
    (table.insert key value).get? key = some value := by
  unfold get? insert
  rw [Entries.find?_put table.ascending, if_pos rfl]

theorem get?_insert_of_ne (table : Table K V) {key other : K} (value : V) (h : key ≠ other) :
    (table.insert key value).get? other = table.get? other := by
  unfold get? insert
  rw [Entries.find?_put table.ascending, if_neg (mt number_eq_iff.mp h)]

theorem get?_erase [DecidableEq K] (table : Table K V) (key other : K) :
    (table.erase key).get? other = if key = other then none else table.get? other := by
  unfold get? erase
  rw [Entries.find?_strike]
  simp only [number_eq_iff]

@[simp] theorem get?_erase_self (table : Table K V) (key : K) :
    (table.erase key).get? key = none := by
  unfold get? erase
  rw [Entries.find?_strike, if_pos rfl]

theorem get?_erase_of_ne (table : Table K V) {key other : K} (h : key ≠ other) :
    (table.erase key).get? other = table.get? other := by
  unfold get? erase
  rw [Entries.find?_strike, if_neg (mt number_eq_iff.mp h)]

theorem get?_modify [DecidableEq K] (table : Table K V) (key other : K) (change : V → V) :
    (table.modify key change).get? other
      = if key = other then (table.get? other).map change else table.get? other := by
  unfold modify
  split
  · next h =>
    split
    · next heq => rw [← heq, h, Option.map_none]
    · rfl
  · next value h =>
    rw [get?_insert]
    split
    · next heq => rw [← heq, h, Option.map_some]
    · rfl

theorem contains_iff {table : Table K V} {key : K} :
    table.contains key = true ↔ ∃ value, table.get? key = some value :=
  Option.isSome_iff_exists

theorem contains_eq_false_iff {table : Table K V} {key : K} :
    table.contains key = false ↔ table.get? key = none :=
  Option.isSome_eq_false_iff.trans Option.isNone_iff_eq_none

/-- An entry is a key together with its value. -/
theorem mem_entries_iff {table : Table K V} {key : K} {value : V} :
    (key, value) ∈ table.entries ↔ table.get? key = some value :=
  (Entries.find?_eq_some_iff table.ascending).symm

/-- The listed keys are those that have a value. -/
theorem mem_keys_iff {table : Table K V} {key : K} :
    key ∈ table.keys ↔ table.contains key = true := by
  rw [contains, Option.isSome_iff_exists, keys, List.mem_map]
  refine ⟨fun ⟨entry, hmem, heq⟩ => ⟨entry.2, ?_⟩, fun ⟨value, h⟩ => ⟨_, mem_entries_iff.mpr h, rfl⟩⟩
  exact mem_entries_iff.mp (heq ▸ hmem)

/-- **Tables that answer every question alike are equal.** -/
theorem ext {a b : Table K V} (h : ∀ key, a.get? key = b.get? key) : a = b := by
  obtain ⟨as, ha⟩ := a
  obtain ⟨bs, hb⟩ := b
  congr
  exact Entries.eq_of_find?_eq ha hb h

end Table

end JitCache
