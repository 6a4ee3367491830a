/-
  JitCache.Proofs.Addresses
  ─────────────────────────
  **Handles and entry addresses are never reused.**

  A pass decides by the entry address alone whether a frame executes a blob; an
  address dealt twice would keep the wrong code alive, and free the right one.
  So each blob is dealt as many addresses as its span has bytes, and the next
  blob the addresses behind them: whatever became of the first, in whichever
  method and slot, wherever it was moved, and also if its code has no bytes.
  Attempts that fail use up a handle, but no addresses.

  The address is a word.  What is asked of it is just that the spans of all
  blobs ever made fit behind the base.

  Main statement:
    `addresses_never_reused` — the blobs of a session, pairwise
-/
import JitCache.Proofs.Session.Deeds
import Mathlib.Data.List.Pairwise

namespace JitCache

/-! ## §1. What blobs are dealt. -/

namespace Blob

/-- The first address behind those of the blob: there is one for each byte of its span. -/
def stop (blob : Blob) : Nat := blob.entry.number.toNat + blob.placement.span.length

/-- Whether the blob was dealt an address. -/
def Covers (blob : Blob) (address : Nat) : Prop :=
  blob.entry.number.toNat ≤ address ∧ address < blob.stop

/-- The first blob was dealt its handle and all its addresses before the second. -/
structure Precedes (first second : Blob) : Prop where
  id : first.id.number.toNat < second.id.number.toNat
  stop : first.stop ≤ second.entry.number.toNat

/-- The lengths of the spans of these blobs, added up. -/
def lengths (blobs : List Blob) : Nat :=
  (blobs.map fun blob => blob.placement.span.length).sum

theorem lengths_concat (blobs : List Blob) (blob : Blob) :
    lengths (blobs ++ [blob]) = lengths blobs + blob.placement.span.length := by
  unfold lengths
  rw [List.map_append, List.sum_append, List.map_singleton, List.sum_singleton]

/-- The two blobs share no address. -/
def Apart (first second : Blob) : Prop := ∀ address, first.Covers address → ¬ second.Covers address

instance : Std.Symm Apart where
  symm _ _ h address hsecond hfirst := h address hfirst hsecond

theorem Precedes.apart {first second : Blob} (h : first.Precedes second) : first.Apart second := by
  rintro address ⟨-, hbelow⟩ ⟨habove, -⟩
  have hstop := h.stop
  omega

end Blob

/-- The addresses of a new blob are the next ones, as long as the word does not come round. -/
theorem EntryAddress.toNat_advance {entry : EntryAddress} {length : Nat}
    (h : entry.number.toNat + length < UInt64.size) :
    (entry.advance length).number.toNat = entry.number.toNat + length := by
  show (entry.number + UInt64.ofNat length).toNat = _
  rw [UInt64.toNat_add, UInt64.toNat_ofNat', Nat.add_mod_mod]
  exact Nat.mod_eq_of_lt h

namespace Cache

/-- What a session has dealt to its blobs, each as it was made, and who these blobs are. -/
structure DealtOnce (start : Cache) (operations : List Operation) : Prop where
  precedes : (start.blobsMade operations).Pairwise Blob.Precedes
  aligned : ∀ blob ∈ start.blobsMade operations, Span.unit ∣ blob.entry.number.toNat
  base_le : ∀ blob ∈ start.blobsMade operations, EntryAddress.base.number ≤ blob.entry.number
  covers_entry : ∀ blob ∈ start.blobsMade operations, blob.Covers blob.entry.number.toNat
  apart : ∀ first ∈ start.blobsMade operations, ∀ second ∈ start.blobsMade operations,
    first.id ≠ second.id → first.Apart second
  held : ∀ blob ∈ start.blobsMade operations,
    ∃ now, (start.after operations).held? blob.id = some now ∧ blob.SameCode now
  made : ∀ {id now}, (start.after operations).held? id = some now →
    ∃ blob ∈ start.blobsMade operations, blob.SameCode now

/-! ## §2. One operation. -/

/-- A blob whose addresses are below the next one. -/
structure DealtBelow (next : Nat) (blob : Blob) : Prop where
  stop_le : blob.stop ≤ next
  aligned : Span.unit ∣ blob.entry.number.toNat
  base_le : EntryAddress.base.number ≤ blob.entry.number
  length_pos : 0 < blob.placement.span.length

/-- The addresses a cache has dealt to these blobs, which are all it has made. -/
structure Dealt (blobs : List Blob) (cache : Cache) : Prop where
  next : cache.nextEntry.number.toNat = EntryAddress.base.number.toNat + Blob.lengths blobs
  unit_dvd : Span.unit ∣ cache.nextEntry.number.toNat
  below : ∀ blob ∈ blobs, DealtBelow cache.nextEntry.number.toNat blob
  ordered : blobs.Pairwise fun first second => first.stop ≤ second.entry.number.toNat

variable {before after : Cache} {blob : Blob} {blobs : List Blob} {operation : Operation}

/-- Making a blob deals out the addresses of its span. -/
theorem Makes.nextEntry (h : before.Makes blob after) :
    after.nextEntry = before.nextEntry.advance blob.placement.span.length := by
  obtain ⟨kind, region, -, hafter⟩ := h.enters
  rw [hafter.nextEntry]
  exact nextEntry_closeOccupant _ _ _

/-- A blob is given whole units, one at least. -/
theorem Makes.lengthFor? (h : before.Makes blob after) :
    Span.lengthFor? blob.size = some blob.placement.span.length := by
  obtain ⟨kind, region, hreserve, -⟩ := h.enters
  exact Region.lengthFor?_of_reserve hreserve

/-- Nothing else deals out addresses. -/
theorem Does.nextEntry {deed : Option Deed} {outcome : Outcome}
    (h : Does operation before deed outcome after) (hnone : deed.bind Deed.made? = none) :
    after.nextEntry = before.nextEntry := by
  cases h with
  | installed | replaced => cases hnone
  | emptied _ _ hafter =>
    rw [hafter.nextEntry]
    exact nextEntry_closeOccupant _ _ _
  | nothing _ hslots => exact hslots.nextEntry

theorem Dealt.congr (h : before.Dealt blobs) (hnext : after.nextEntry = before.nextEntry) :
    after.Dealt blobs where
  next := hnext ▸ h.next
  unit_dvd := hnext ▸ h.unit_dvd
  below := hnext ▸ h.below
  ordered := h.ordered

/-- A blob that is made has its addresses behind those of all others. -/
theorem Dealt.makes (h : before.Dealt blobs) (hmakes : before.Makes blob after)
    (hspans : EntryAddress.base.number.toNat + Blob.lengths (blobs ++ [blob]) < UInt64.size) :
    after.Dealt (blobs ++ [blob]) := by
  have hentry : blob.entry.number.toNat = before.nextEntry.number.toNat :=
    congrArg (fun entry => entry.number.toNat) hmakes.entry
  have hstop : blob.stop = before.nextEntry.number.toNat + blob.placement.span.length :=
    congrArg (· + blob.placement.span.length) hentry
  have hlength := hmakes.lengthFor?
  have hstart := h.next
  rw [Blob.lengths_concat] at hspans
  have hnext : after.nextEntry.number.toNat = blob.stop := by
    rw [hmakes.nextEntry, EntryAddress.toNat_advance (by omega), hstop]
  constructor
  case next => rw [hnext, hstop, hstart, Blob.lengths_concat, Nat.add_assoc]
  case unit_dvd =>
    rw [hnext, hstop]
    exact Nat.dvd_add h.unit_dvd (Span.unit_dvd_of_lengthFor? hlength)
  case below =>
    intro other hmem
    rw [hnext]
    rcases List.mem_append.mp hmem with hold | hjust
    · have hbelow := h.below other hold
      exact { hbelow with stop_le := Nat.le_trans hbelow.stop_le (hstop ▸ Nat.le_add_right _ _) }
    · obtain rfl := List.mem_singleton.mp hjust
      refine ⟨Nat.le_refl _, hentry ▸ h.unit_dvd, ?_, Span.pos_of_lengthFor? hlength⟩
      rw [UInt64.le_iff_toNat_le, hentry, hstart]
      exact Nat.le_add_right _ _
  case ordered =>
    refine List.pairwise_append.mpr ⟨h.ordered, List.pairwise_singleton _ _, ?_⟩
    intro first hfirst second hsecond
    obtain rfl := List.mem_singleton.mp hsecond
    exact hentry ▸ (h.below first hfirst).stop_le

/-! ## §3. Whole sessions. -/

theorem dealt_after {settings : Settings} {start : Cache} {operations : List Operation}
    (hnew : Cache.new settings = .ok start) (hroom : start.attemptsIn operations < UInt64.size)
    (hspans : EntryAddress.base.number.toNat + Blob.lengths (start.blobsMade operations)
      < UInt64.size) :
    (start.after operations).Dealt (start.blobsMade operations) := by
  -- on the last operation: it makes the blob that is behind all others, or none
  induction operations using List.reverseRecOn with
  | nil =>
    rw [eq_of_new hnew]
    refine ⟨rfl, ?_, nofun, .nil⟩
    show Span.unit ∣ EntryAddress.base.number.toNat
    decide
  | append_singleton operations last ih =>
    obtain ⟨hearlier, hsound, hnow⟩ := sound_before hnew hroom
    have hdoes := perform_does hsound hnow
    rw [blobsMade_concat] at hspans ⊢
    rw [after_concat]
    cases hmade : ((start.after operations).deed? last).bind Deed.made? with
    | none =>
      rw [hmade, Option.toList_none, List.append_nil] at hspans
      rw [Option.toList_none, List.append_nil]
      exact (ih hearlier hspans).congr (hdoes.nextEntry hmade)
    | some blob =>
      rw [hmade, Option.toList_some] at hspans
      rw [Option.toList_some]
      have hbefore := hspans
      rw [Blob.lengths_concat] at hbefore
      exact (ih hearlier (by omega)).makes (hdoes.makes hmade).1 hspans

end Cache

open Cache in
/-- **Handles and entry addresses are never reused**: of two blobs that a session makes, the later
one has the larger handle and an address behind all those of the earlier one, as long as handles
and addresses last.  Refusals, passes, relocations and calls past the table make no difference. -/
theorem addresses_never_reused {settings : Settings} {start : Cache} {operations : List Operation}
    (hnew : Cache.new settings = .ok start) (hroom : start.attemptsIn operations < UInt64.size)
    (hspans : EntryAddress.base.number.toNat + Blob.lengths (start.blobsMade operations)
      < UInt64.size) :
    start.DealtOnce operations := by
  have hdealt := dealt_after hnew hroom hspans
  have hprecedes : (start.blobsMade operations).Pairwise Blob.Precedes :=
    ((ascending_blobsMade hnew hroom).and hdealt.ordered).imp fun h => ⟨h.1, h.2⟩
  constructor
  case precedes => exact hprecedes
  case aligned => exact fun blob hmem => (hdealt.below blob hmem).aligned
  case base_le => exact fun blob hmem => (hdealt.below blob hmem).base_le
  case covers_entry =>
    intro blob hmem
    exact ⟨Nat.le_refl _, Nat.lt_add_of_pos_right (hdealt.below blob hmem).length_pos⟩
  case apart =>
    intro first hfirst second hsecond hne
    -- one of the two was made before the other, whichever it is
    have happart := hprecedes.imp Blob.Precedes.apart
    exact happart.forall hfirst hsecond fun heq => hne (congrArg Blob.id heq)
  case held => exact fun blob hmem => held_of_made hnew hroom hmem
  case made => exact fun hheld => made_of_held hnew hroom hheld

/-- A blob without code is reclaimed and the next is made in its room, which cannot be made again in
a region of two bytes; then the method's other slot is filled. -/
def reuse : List Operation :=
  [.install ⟨1⟩ ⟨.tier4, ⟨#[]⟩⟩ .standard, .deoptimize ⟨1⟩ .standard,
    .collect ⟨false, 25, false⟩ {}, .install ⟨2⟩ ⟨.tier4, ⟨#[1, 2, 3]⟩⟩ .osr,
    .replace ⟨2⟩ .osr none (some .nonMethod), .install ⟨2⟩ ⟨.tier4, ⟨#[4]⟩⟩ .standard]

/-- The room is dealt out twice, handles and addresses are not. -/
theorem addresses_never_reused_in_the_same_room :
    ((Cache.ofSettings { nonMethodCapacity := 2 }).blobsMade reuse).map
          (fun blob => (blob.placement.span.offset, blob.id.number, blob.entry.number))
        = [(0, 1, 0x7f0000000000), (0, 2, 0x7f0000000020), (32, 4, 0x7f0000000040)]
      ∧ (Cache.ofSettings { nonMethodCapacity := 2 }).DealtOnce reuse := by
  have hnew : Cache.new { nonMethodCapacity := 2 }
      = .ok (Cache.ofSettings { nonMethodCapacity := 2 }) := rfl
  exact ⟨by decide, addresses_never_reused hnew (by decide) (by decide)⟩

end JitCache
