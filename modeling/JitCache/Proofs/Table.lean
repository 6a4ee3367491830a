/-
  JitCache.Proofs.Table
  ─────────────────────
  **Sums over tables, and tables computed from tables.**

  `total` is what the books of a region are checked against, so it is said here
  how an insertion and an erasure change it.  `Table.filterMap` keeps the values
  that a partial function maps; with it one table can be said to be a view of
  another.

  Main statements:
    `Table.total_insert`, `Table.total_erase` — what each adds or takes away
    `Table.total_modify`                      — what a change exchanges
    `Table.total_eq_total_iff`                — when two sums agree
    `Table.size_le_of_contains`, `Table.contains_of_size_eq` — counting the keys of a part
    `Table.sum_filter_values`                 — summing over some of the values
    `Table.get?_filterMap`                    — reading a view
    `Table.total_filterMap`                   — summing over a view
-/
import JitCache.Table.Lemmas
import Mathlib.Algebra.GroupWithZero.Nat
import Mathlib.Data.List.Perm.Subperm

namespace JitCache

variable {K V W : Type} [Numbered K]

/-! ## §1. Entry lists. -/

namespace Entries

/-- The sum of a measure over the values. -/
def sum (measure : V → Nat) (entries : List (K × V)) : Nat :=
  entries.foldr (fun entry sum => measure entry.2 + sum) 0

omit [Numbered K] in
theorem sum_cons (measure : V → Nat) (head : K × V) (rest : List (K × V)) :
    sum measure (head :: rest) = measure head.2 + sum measure rest := rfl

theorem sum_put {measure : V → Nat} {key : K} {value : V} {entries : List (K × V)}
    (h : ∀ entry ∈ entries, number entry.1 ≠ number key) :
    sum measure (put key value entries) = measure value + sum measure entries := by
  -- wherever the new entry is put, it is counted once
  induction entries with
  | nil => rfl
  | cons head rest ih =>
    have hhead := h head List.mem_cons_self
    have hrest := ih fun entry hmem => h entry (List.mem_cons_of_mem _ hmem)
    rw [put]
    split
    · rfl
    · split
      · rw [sum_cons, sum_cons, hrest]
        omega
      · omega

theorem strike_of_forall_ne {key : K} {entries : List (K × V)}
    (h : ∀ entry ∈ entries, number entry.1 ≠ number key) : strike key entries = entries :=
  List.filter_eq_self.mpr fun entry hmem => by simpa using h entry hmem

theorem sum_strike {measure : V → Nat} {key : K} {value : V} {entries : List (K × V)}
    (hasc : Ascending entries) (h : find? key entries = some value) :
    sum measure (strike key entries) + measure value = sum measure entries := by
  induction entries with
  | nil => cases h
  | cons head rest ih =>
    obtain ⟨hhead, hrest⟩ := List.pairwise_cons.mp hasc
    rw [find?] at h
    split at h
    · next heq =>
      cases h
      -- the keys are distinct, so nothing else is struck
      have hne : ∀ entry ∈ rest, number entry.1 ≠ number key := by
        intro entry hmem
        have hlt : number head.1 < number entry.1 := hhead entry hmem
        omega
      have hstrike : strike key (head :: rest) = rest := by
        rw [strike, List.filter_cons_of_neg (by simpa using heq)]
        exact strike_of_forall_ne hne
      rw [hstrike, sum_cons]
      omega
    · next hne =>
      have hstrike : strike key (head :: rest) = head :: strike key rest :=
        List.filter_cons_of_pos (by simpa using hne)
      have hrec := ih hrest h
      rw [hstrike, sum_cons, sum_cons]
      omega

/-- Keeps the values that are mapped, under their keys. -/
def filterMap (f : V → Option W) (entries : List (K × V)) : List (K × W) :=
  entries.filterMap fun entry => (f entry.2).map fun value => (entry.1, value)

theorem Ascending.filterMap {entries : List (K × V)} (h : Ascending entries) (f : V → Option W) :
    Ascending (filterMap f entries) := by
  -- a view keeps the keys, so it keeps their order
  refine List.Pairwise.filterMap _ ?_ h
  intro a b hlt a' ha b' hb
  obtain ⟨_, -, rfl⟩ := Option.map_eq_some_iff.mp ha
  obtain ⟨_, -, rfl⟩ := Option.map_eq_some_iff.mp hb
  exact hlt

omit [Numbered K] in
theorem sum_filterMap (measure : W → Nat) (f : V → Option W) (entries : List (K × V)) :
    sum measure (filterMap f entries)
      = sum (fun value => ((f value).map measure).getD 0) entries := by
  induction entries with
  | nil => rfl
  | cons head rest ih =>
    rw [sum_cons, ← ih]
    unfold filterMap
    cases hf : f head.2 with
    | none =>
      rw [List.filterMap_cons_none (by rw [hf]; rfl)]
      exact (Nat.zero_add _).symm
    | some value =>
      rw [List.filterMap_cons, hf]
      rfl

end Entries

/-! ## §2. Tables. -/

namespace Table

theorem mem_values_iff {table : Table K V} {value : V} :
    value ∈ table.values ↔ ∃ key, table.get? key = some value := by
  unfold values
  rw [List.mem_map]
  constructor
  · rintro ⟨⟨key, value⟩, hmem, rfl⟩
    exact ⟨key, mem_entries_iff.mp hmem⟩
  · rintro ⟨key, h⟩
    exact ⟨(key, value), mem_entries_iff.mpr h, rfl⟩

theorem nodup_keys (table : Table K V) : table.keys.Nodup := by
  refine List.pairwise_map.mpr (table.ascending.imp ?_)
  intro a b hlt heq
  rw [heq] at hlt
  exact Nat.lt_irrefl _ hlt

theorem length_keys (table : Table K V) : table.keys.length = table.size := List.length_map _

/-- A table that has all keys of another has no fewer. -/
theorem size_le_of_contains {part : Table K V} {whole : Table K W}
    (hpart : ∀ key, part.contains key = true → whole.contains key = true) :
    part.size ≤ whole.size := by
  have hsub : part.keys ⊆ whole.keys := fun key hmem =>
    mem_keys_iff.mpr (hpart key (mem_keys_iff.mp hmem))
  rw [← length_keys, ← length_keys]
  exact (part.nodup_keys.subperm hsub).length_le

/-- A table with as many keys as another that has them all has the same. -/
theorem contains_of_size_eq {part : Table K V} {whole : Table K W}
    (hpart : ∀ key, part.contains key = true → whole.contains key = true)
    (hsize : part.size = whole.size) {key : K} (h : whole.contains key = true) :
    part.contains key = true := by
  have hsub : part.keys ⊆ whole.keys := fun key hmem =>
    mem_keys_iff.mpr (hpart key (mem_keys_iff.mp hmem))
  have hperm := (part.nodup_keys.subperm hsub).perm_of_length_le
    (Nat.le_of_eq (by rw [length_keys, length_keys, hsize]))
  exact mem_keys_iff.mp (hperm.mem_iff.mpr (mem_keys_iff.mpr h))

theorem total_eq_sum (measure : V → Nat) (table : Table K V) :
    table.total measure = Entries.sum measure table.entries := rfl

theorem total_insert {table : Table K V} {key : K} (h : table.get? key = none)
    (measure : V → Nat) (value : V) :
    (table.insert key value).total measure = measure value + table.total measure := by
  refine Entries.sum_put ?_
  rintro ⟨other, present⟩ hmem heq
  -- an entry with this key would answer the look-up
  have hkey : other = key := Numbered.number_injective heq
  have hsome := mem_entries_iff.mp hmem
  rw [hkey, h] at hsome
  cases hsome

theorem total_erase {table : Table K V} {key : K} {value : V} (h : table.get? key = some value)
    (measure : V → Nat) :
    (table.erase key).total measure + measure value = table.total measure :=
  Entries.sum_strike table.ascending h

/-- Putting another value in place of one exchanges their measures. -/
theorem total_replace {table : Table K V} {key : K} {old : V} (h : table.get? key = some old)
    (measure : V → Nat) (new : V) :
    (table.insert key new).total measure + measure old = table.total measure + measure new := by
  have hreplace : table.insert key new = (table.erase key).insert key new := by
    apply ext
    intro other
    by_cases heq : key = other
    · rw [← heq, get?_insert_self, get?_insert_self]
    · rw [get?_insert_of_ne _ _ heq, get?_insert_of_ne _ _ heq, get?_erase_of_ne _ heq]
  rw [hreplace, total_insert (get?_erase_self table key), ← total_erase h measure]
  omega

/-- Changing a value exchanges its measure. -/
theorem total_modify {table : Table K V} {key : K} {old : V} (h : table.get? key = some old)
    (measure : V → Nat) (change : V → V) :
    (table.modify key change).total measure + measure old
      = table.total measure + measure (change old) := by
  have hmodify : table.modify key change = table.insert key (change old) := by
    unfold modify
    rw [h]
  rw [hmodify, total_replace h]

theorem modify_of_none {table : Table K V} {key : K} (h : table.get? key = none)
    (change : V → V) : table.modify key change = table := by
  unfold modify
  rw [h]

/-- A change that leaves the measure leaves the sum. -/
theorem total_modify_of_same {table : Table K V} {key : K} {measure : V → Nat} {change : V → V}
    (h : ∀ value, measure (change value) = measure value) :
    (table.modify key change).total measure = table.total measure := by
  cases hget : table.get? key with
  | none => rw [modify_of_none hget]
  | some old =>
    have hchanged := total_modify hget measure change
    rw [h] at hchanged
    omega

/-- A value's measure is part of the sum. -/
theorem le_total {table : Table K V} {key : K} {value : V} (h : table.get? key = some value)
    (measure : V → Nat) : measure value ≤ table.total measure := by
  have hsplit := total_erase h measure
  omega

theorem size_eq_total (table : Table K V) : table.size = table.total fun _ => 1 := by
  unfold size
  rw [total_eq_sum]
  induction table.entries with
  | nil => rfl
  | cons head rest ih => rw [Entries.sum_cons, ← ih, List.length_cons, Nat.add_comm]

theorem total_add (first second : V → Nat) (table : Table K V) :
    table.total first + table.total second
      = table.total fun value => first value + second value := by
  rw [total_eq_sum, total_eq_sum, total_eq_sum]
  induction table.entries with
  | nil => rfl
  | cons head rest ih =>
    rw [Entries.sum_cons, Entries.sum_cons, Entries.sum_cons, ← ih]
    omega

/-- Sums agree where the measures agree on the values there are. -/
theorem total_congr {table : Table K V} {first second : V → Nat}
    (h : ∀ key value, table.get? key = some value → first value = second value) :
    table.total first = table.total second := by
  have hentries : ∀ entry ∈ table.entries, first entry.2 = second entry.2 :=
    fun entry hmem => h entry.1 entry.2 (mem_entries_iff.mp hmem)
  rw [total_eq_sum, total_eq_sum]
  revert hentries
  induction table.entries with
  | nil => exact fun _ => rfl
  | cons head rest ih =>
    intro hentries
    rw [Entries.sum_cons, Entries.sum_cons, hentries head List.mem_cons_self,
      ih fun entry hmem => hentries entry (List.mem_cons_of_mem _ hmem)]

/-- A sum is zero just if nothing adds to it. -/
theorem total_eq_zero_iff {table : Table K V} {measure : V → Nat} :
    table.total measure = 0 ↔ ∀ key value, table.get? key = some value → measure value = 0 := by
  constructor
  · intro hzero key value hget
    exact Nat.le_zero.mp (hzero ▸ le_total hget measure)
  · intro hnone
    have hdouble : table.total (fun _ => 0) + table.total (fun _ => 0)
        = table.total fun _ => 0 := total_add (fun _ => 0) (fun _ => 0) table
    rw [total_congr hnone]
    omega

/-- Where only one value adds to a sum, the sum is its measure. -/
theorem total_eq_of_only {table : Table K V} {key : K} {value : V} {measure : V → Nat}
    (h : table.get? key = some value)
    (hothers : ∀ other found, key ≠ other → table.get? other = some found → measure found = 0) :
    table.total measure = measure value := by
  have hrest : (table.erase key).total measure = 0 := by
    refine total_eq_zero_iff.mpr fun other found hget => ?_
    by_cases heq : key = other
    · rw [← heq, get?_erase_self] at hget
      cases hget
    · rw [get?_erase_of_ne _ heq] at hget
      exact hothers other found heq hget
  rw [← total_erase h measure, hrest, Nat.zero_add]

/-- A measure and what another has beyond it make up the other's sum. -/
theorem total_add_excess {table : Table K V} {first second : V → Nat}
    (h : ∀ key value, table.get? key = some value → first value ≤ second value) :
    table.total first + table.total (fun value => second value - first value)
      = table.total second := by
  rw [total_add]
  exact total_congr fun key value hget => Nat.add_sub_cancel' (h key value hget)

/-- A measure that is nowhere larger has no larger sum. -/
theorem total_le_total {table : Table K V} {first second : V → Nat}
    (h : ∀ key value, table.get? key = some value → first value ≤ second value) :
    table.total first ≤ table.total second := by
  have hsum := total_add_excess h
  omega

/-- A measure that is nowhere larger has the same sum just if it is the same everywhere. -/
theorem total_eq_total_iff {table : Table K V} {first second : V → Nat}
    (h : ∀ key value, table.get? key = some value → first value ≤ second value) :
    table.total first = table.total second
      ↔ ∀ key value, table.get? key = some value → first value = second value := by
  refine ⟨fun hsame key value hget => ?_, total_congr⟩
  have hexcess : table.total (fun value => second value - first value) = 0 := by
    have hsum := total_add_excess h
    omega
  have hnone := total_eq_zero_iff.mp hexcess key value hget
  have hle := h key value hget
  omega

/-- Adding up over the list of values. -/
theorem sum_values (measure : V → Nat) (table : Table K V) :
    (table.values.map measure).sum = table.total measure := by
  rw [total_eq_sum, values]
  induction table.entries with
  | nil => rfl
  | cons head rest ih => rw [Entries.sum_cons, ← ih, List.map_cons, List.map_cons, List.sum_cons]

/-- Summing over the values that pass a test. -/
theorem sum_filter_values (measure : V → Nat) (test : V → Bool) (table : Table K V) :
    ((table.values.filter test).map measure).sum
      = table.total fun value => if test value then measure value else 0 := by
  rw [total_eq_sum, values]
  induction table.entries with
  | nil => rfl
  | cons head rest ih =>
    rw [Entries.sum_cons, ← ih, List.map_cons, List.filter_cons]
    split
    · rw [List.map_cons, List.sum_cons]
    · rw [Nat.zero_add]

/-- Counting the values that pass a test. -/
theorem length_filter_values (test : V → Bool) (table : Table K V) :
    (table.values.filter test).length = table.total fun value => if test value then 1 else 0 := by
  rw [← sum_filter_values (fun _ => 1) test table, List.map_const', List.sum_replicate_nat,
    Nat.mul_one]

/-- The view of a table through a partial function on its values. -/
def filterMap (f : V → Option W) (table : Table K V) : Table K W :=
  ⟨Entries.filterMap f table.entries, table.ascending.filterMap f⟩

theorem get?_filterMap (f : V → Option W) (table : Table K V) (key : K) :
    (table.filterMap f).get? key = (table.get? key).bind f := by
  apply Option.ext
  intro value
  rw [← mem_entries_iff, Option.bind_eq_some_iff]
  unfold filterMap Entries.filterMap
  rw [List.mem_filterMap]
  constructor
  · rintro ⟨⟨other, source⟩, hmem, heq⟩
    obtain ⟨image, hf, hpair⟩ := Option.map_eq_some_iff.mp heq
    cases hpair
    exact ⟨source, mem_entries_iff.mp hmem, hf⟩
  · rintro ⟨source, hget, hf⟩
    exact ⟨(key, source), mem_entries_iff.mpr hget, by rw [hf]; rfl⟩

/-- Views agree where the functions agree on the values there are. -/
theorem filterMap_congr {table : Table K V} {f g : V → Option W}
    (h : ∀ key value, table.get? key = some value → f value = g value) :
    table.filterMap f = table.filterMap g := by
  apply ext
  intro key
  rw [get?_filterMap, get?_filterMap]
  cases hget : table.get? key with
  | none => rfl
  | some value => exact h key value hget

theorem filterMap_some (table : Table K V) : table.filterMap some = table := by
  apply ext
  intro key
  rw [get?_filterMap, Option.bind_fun_some]

theorem filterMap_none (table : Table K V) :
    table.filterMap (fun _ => (none : Option W)) = ∅ := by
  apply ext
  intro key
  rw [get?_filterMap, Option.bind_fun_none, get?_empty]

/-- A view of a view. -/
theorem filterMap_filterMap {X : Type} (f : V → Option W) (g : W → Option X) (table : Table K V) :
    (table.filterMap f).filterMap g = table.filterMap fun value => (f value).bind g := by
  apply ext
  intro key
  rw [get?_filterMap, get?_filterMap, get?_filterMap, Option.bind_assoc]

/-- Tables that look the same have the same keys, with values that look the same. -/
theorem exists_of_view_eq {before after : Table K V} {look : V → W}
    (h : after.filterMap (fun value => some (look value))
      = before.filterMap fun value => some (look value))
    {key : K} {new : V} (hnew : after.get? key = some new) :
    ∃ old, before.get? key = some old ∧ look new = look old := by
  have hget := congrArg (fun table => table.get? key) h
  simp only [get?_filterMap] at hget
  rw [hnew, Option.bind_some] at hget
  obtain ⟨old, hold, hlook⟩ := Option.bind_eq_some_iff.mp hget.symm
  exact ⟨old, hold, (Option.some.inj hlook).symm⟩

theorem total_filterMap (measure : W → Nat) (f : V → Option W) (table : Table K V) :
    (table.filterMap f).total measure
      = table.total fun value => ((f value).map measure).getD 0 :=
  Entries.sum_filterMap measure f table.entries

/-- A view leaves entries out, and adds none. -/
theorem size_filterMap_le (f : V → Option W) (table : Table K V) :
    (table.filterMap f).size ≤ table.size := List.length_filterMap_le _ _

theorem size_filterMap (f : V → Option W) (table : Table K V) :
    (table.filterMap f).size = table.total fun value => if (f value).isSome then 1 else 0 := by
  rw [size_eq_total, total_filterMap]
  congr 1
  funext value
  cases f value <;> rfl

end Table

end JitCache
