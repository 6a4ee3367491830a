/-
  JitCache.Table.Basic
  ────────────────────
  **Finite tables with numbered keys.**

  A `Table K V` lists its entries by strictly ascending key number.  The order
  is part of the type, so a table has exactly one representation: two tables
  that answer every question alike are equal (`Table.ext`, beside the other
  laws in `JitCache.Table.Lemmas`), and listing a table is listing its entries.

  Operations: `get?`, `contains`, `insert` (replaces), `erase`, `modify`,
  `keys`, `values`, `total`, `size`.
-/

namespace JitCache

/-- Keys that are told apart by a natural number. -/
class Numbered (K : Type) where
  /-- The number of a key. -/
  number : K → Nat
  /-- No two keys share a number. -/
  number_injective : ∀ {a b : K}, number a = number b → a = b

export Numbered (number)

variable {K V : Type} [Numbered K]

/-! ## §1. Entry lists. -/

namespace Entries

/-- Strictly ascending by key number, so no key occurs twice. -/
def Ascending (entries : List (K × V)) : Prop :=
  entries.Pairwise fun a b => number a.1 < number b.1

/-- The value filed under a key. -/
def find? (key : K) : List (K × V) → Option V
  | [] => none
  | entry :: rest => if number entry.1 = number key then some entry.2 else find? key rest

/-- Files a value at the place its key number gives it; an entry with the same
key is replaced. -/
def put (key : K) (value : V) : List (K × V) → List (K × V)
  | [] => [(key, value)]
  | entry :: rest =>
    if number key < number entry.1 then (key, value) :: entry :: rest
    else if number entry.1 < number key then entry :: put key value rest
    else (key, value) :: rest

/-- Strikes the entry of a key. -/
def strike (key : K) (entries : List (K × V)) : List (K × V) :=
  entries.filter fun entry => number entry.1 ≠ number key

theorem mem_put {key : K} {value : V} {entry : K × V} {entries : List (K × V)}
    (h : entry ∈ put key value entries) : entry = (key, value) ∨ entry ∈ entries := by
  induction entries with
  | nil => exact .inl (List.mem_singleton.mp h)
  | cons head rest ih =>
    unfold put at h
    split at h
    · exact List.mem_cons.mp h
    · split at h
      · rcases List.mem_cons.mp h with rfl | h
        · exact .inr List.mem_cons_self
        · exact (ih h).imp id (List.mem_cons_of_mem _)
      · rcases List.mem_cons.mp h with rfl | h
        · exact .inl rfl
        · exact .inr (List.mem_cons_of_mem _ h)

theorem Ascending.put {entries : List (K × V)} (h : Ascending entries) (key : K) (value : V) :
    Ascending (put key value entries) := by
  induction entries with
  | nil => exact List.pairwise_singleton _ _
  | cons head rest ih =>
    obtain ⟨hhead, hrest⟩ := List.pairwise_cons.mp h
    unfold Entries.put
    split
    · next hlt =>
      refine List.pairwise_cons.mpr ⟨fun entry hmem => ?_, h⟩
      rcases List.mem_cons.mp hmem with rfl | hmem
      · exact hlt
      · exact Nat.lt_trans hlt (hhead entry hmem)
    · split
      · next hgt =>
        refine List.pairwise_cons.mpr ⟨fun entry hmem => ?_, ih hrest⟩
        rcases mem_put hmem with rfl | hmem
        · exact hgt
        · exact hhead entry hmem
      · next hle hge =>
        -- the key is the head's own: the value changes, the order does not
        have heq : number key = number head.1 := by omega
        exact List.pairwise_cons.mpr ⟨fun entry hmem => heq ▸ hhead entry hmem, hrest⟩

theorem Ascending.strike {entries : List (K × V)} (h : Ascending entries) (key : K) :
    Ascending (strike key entries) :=
  h.filter _

end Entries

/-! ## §2. Tables. -/

/-- A finite map whose entries stand in the order of their keys. -/
structure Table (K V : Type) [Numbered K] where
  /-- The entries, ascending by key. -/
  entries : List (K × V)
  ascending : Entries.Ascending entries

namespace Table

/-- The table without entries. -/
def empty : Table K V := ⟨[], .nil⟩

instance : EmptyCollection (Table K V) := ⟨empty⟩

instance : Inhabited (Table K V) := ⟨empty⟩

instance [DecidableEq K] [DecidableEq V] : DecidableEq (Table K V) := fun a b =>
  decidable_of_iff (a.entries = b.entries) <| by
    cases a
    cases b
    simp

/-- The value of a key, if it has one. -/
def get? (table : Table K V) (key : K) : Option V := Entries.find? key table.entries

/-- Whether a key has a value. -/
def contains (table : Table K V) (key : K) : Bool := (table.get? key).isSome

/-- Gives a key a value, in place of any it had. -/
def insert (table : Table K V) (key : K) (value : V) : Table K V :=
  ⟨Entries.put key value table.entries, table.ascending.put key value⟩

/-- Takes a key's value away. -/
def erase (table : Table K V) (key : K) : Table K V :=
  ⟨Entries.strike key table.entries, table.ascending.strike key⟩

/-- Changes a key's value, if it has one. -/
def modify (table : Table K V) (key : K) (change : V → V) : Table K V :=
  match table.get? key with
  | none => table
  | some value => table.insert key (change value)

/-- The keys, ascending. -/
def keys (table : Table K V) : List K := table.entries.map (·.1)

/-- The values, in the order of their keys. -/
def values (table : Table K V) : List V := table.entries.map (·.2)

/-- A measure of the values, added up. -/
def total (measure : V → Nat) (table : Table K V) : Nat :=
  table.entries.foldr (fun entry sum => measure entry.2 + sum) 0

/-- How many keys have a value. -/
def size (table : Table K V) : Nat := table.entries.length

end Table

end JitCache
