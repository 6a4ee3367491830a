/-
  JitCache.Id
  ───────────
  **The handles of the cache: methods, blobs and entry addresses.**

  All three are machine words with a type of their own.  A method's number is
  the caller's; blob numbers and entry addresses are dealt out by the cache, in
  ascending order.  Each has a written form, used in error messages:
  `method#7`, `blob#7`, `0x7f00`.
-/
import JitCache.Table.Basic

namespace JitCache

/-- The caller's stable handle of a method. -/
structure MethodId where
  number : UInt64
  deriving DecidableEq, Inhabited

/-- The handle of a compiled blob, unique within one cache. -/
structure BlobId where
  number : UInt64
  deriving DecidableEq, Inhabited

/-- The opaque address that calls of a blob jump to. -/
structure EntryAddress where
  number : UInt64
  deriving DecidableEq, Inhabited

instance : Numbered MethodId where
  number method := method.number.toNat
  number_injective {a b} h := by
    cases a
    cases b
    exact congrArg MethodId.mk (UInt64.toNat_inj.mp h)

instance : Numbered BlobId where
  number blob := blob.number.toNat
  number_injective {a b} h := by
    cases a
    cases b
    exact congrArg BlobId.mk (UInt64.toNat_inj.mp h)

instance : Numbered EntryAddress where
  number entry := entry.number.toNat
  number_injective {a b} h := by
    cases a
    cases b
    exact congrArg EntryAddress.mk (UInt64.toNat_inj.mp h)

/-- Where the entry addresses begin. -/
def EntryAddress.base : EntryAddress := ⟨0x7f0000000000⟩

/-- The written form of a method handle. -/
def MethodId.text (method : MethodId) : String :=
  "method#" ++ toString method.number.toNat

/-- The written form of a blob handle. -/
def BlobId.text (blob : BlobId) : String :=
  "blob#" ++ toString blob.number.toNat

/-- Addresses are written in lower-case hexadecimal. -/
def EntryAddress.text (entry : EntryAddress) : String :=
  "0x" ++ String.ofList (Nat.toDigits 16 entry.number.toNat)

/-- The handle dealt after this one. -/
def BlobId.next (blob : BlobId) : BlobId := ⟨blob.number + 1⟩

/-- The address `length` bytes further on. -/
def EntryAddress.advance (entry : EntryAddress) (length : Nat) : EntryAddress :=
  ⟨entry.number + UInt64.ofNat length⟩

end JitCache
