import OrdinalDB.Lib.F32
import OrdinalDB.Lib.SwapRemove

/-!
# The dense index without ids

`OrdinalIndex` of `ordinaldb/src/ordinal.rs`: construction, `add_2d` and
`swap_remove`. The `ordvec` stores `RankQuant` and `SignBitmap` are arrays of
row codes with append and swap-remove. What a row's code is, is the parameter
`Ordvec`.

A method that takes `&mut self` and returns a `Result` yields the result and
the state it leaves behind, also after an error. A panic is `none`.
-/

namespace OrdinalDB

open Float32Bits (F32)

/-- `1e16_f32`. -/
def maxInputMagnitude : F32 := ⟨0x5a0e1bca⟩

/-- A coordinate the index accepts: finite and of magnitude below `1e16`. -/
def validCoord (v : F32) : Bool := v.isFinite && v.abs < maxInputMagnitude.abs

inductive ConstructError
  | unsupportedBits (bits : UInt8)
  | dimInvalid (dim : Nat)
  | dimNotCompatibleWithBits (dim : Nat) (bits : UInt8) (reason : String)
  | signSidecarUnsupported (dim : Nat) (bits : UInt8) (requiredMultiple : Option Nat)
  | signSidecarUnsupportedBits (bits : UInt8)
deriving DecidableEq, Repr

inductive AddError
  | dimInvalid (dim : Nat)
  | dimMismatch (existing got : Nat)
  | dimNotCompatibleWithBits (dim : Nat) (bits : UInt8) (reason : String)
  | vectorBufferNotMultipleOfDim (vectorsLen dim : Nat)
  | invalidInputValue (vectorIndex coordIndex : Nat) (value : F32)
  | idsCountMismatch (expected got : Nat)
  | idAlreadyPresent (id : UInt64)
  | signSidecarUnsupported (dim : Nat) (bits : UInt8) (requiredMultiple : Option Nat)
deriving DecidableEq, Repr

inductive SignPolicy
  | disabled
  | optional
  | required
deriving DecidableEq, Repr

/-! ## Shape checks -/

def validateBits (bits : UInt8) : Except ConstructError Unit :=
  if bits = 1 ∨ bits = 2 ∨ bits = 4 then .ok () else .error (.unsupportedBits bits)

/-- The packing and the bucket-balance modulus. -/
def rankquantModuli (bits : UInt8) : Nat × Nat := (8 / bits.toNat, 2 ^ bits.toNat)

inductive DimBitsViolation
  | dimOutOfRange
  | notCompatible (reason : String)
deriving DecidableEq, Repr

def checkDimBits (dim : Nat) (bits : UInt8) : Except DimBitsViolation Unit :=
  if dim < 2 ∨ dim > 65535 then .error .dimOutOfRange
  else if dim % (rankquantModuli bits).1 ≠ 0 then
    .error (.notCompatible "dim must be divisible by 8 / bits for packed RankQuant storage")
  else if dim % (rankquantModuli bits).2 ≠ 0 then
    .error (.notCompatible "dim must be divisible by 2^bits for RankQuant bucket balance")
  else .ok ()

def validateDimBits (dim : Nat) (bits : UInt8) : Except ConstructError Unit :=
  (checkDimBits dim bits).mapError fun
    | .dimOutOfRange => .dimInvalid dim
    | .notCompatible reason => .dimNotCompatibleWithBits dim bits reason

def validateAddDimBits (dim : Nat) (bits : UInt8) : Except AddError Unit :=
  (checkDimBits dim bits).mapError fun
    | .dimOutOfRange => .dimInvalid dim
    | .notCompatible reason => .dimNotCompatibleWithBits dim bits reason

/-- `check_dim_bits` as a condition on the shape. -/
def CompatibleDim (dim : Nat) (bits : UInt8) : Prop :=
  2 ≤ dim ∧ dim ≤ 65535 ∧ dim % (8 / bits.toNat) = 0 ∧ dim % 2 ^ bits.toNat = 0

theorem checkDimBits_ok_iff {dim : Nat} {bits : UInt8} :
    checkDimBits dim bits = .ok () ↔ CompatibleDim dim bits := by
  simp only [checkDimBits, CompatibleDim, rankquantModuli]
  by_cases hrange : dim < 2 ∨ dim > 65535
  · rw [if_pos hrange]
    simp only [reduceCtorEq, false_iff]
    omega
  rw [if_neg hrange]
  by_cases hpack : dim % (8 / bits.toNat) = 0
  · by_cases hbucket : dim % 2 ^ bits.toNat = 0
    · simp only [hpack, hbucket, ne_eq, not_true_eq_false, if_false, and_self, and_true, true_iff]
      omega
    · simp [hpack, hbucket]
  · simp [hpack]

theorem validateAddDimBits_ok_iff {dim : Nat} {bits : UInt8} :
    validateAddDimBits dim bits = .ok () ↔ CompatibleDim dim bits := by
  rw [← checkDimBits_ok_iff, validateAddDimBits]
  cases checkDimBits dim bits <;> simp [Except.mapError]

def rankquantCompatible (dim : Nat) (bits : UInt8) : Bool :=
  (validateBits bits).isOk && (checkDimBits dim bits).isOk

def signRequiredMultiple (bits : UInt8) : Option Nat := if bits = 2 then some 64 else none

def signCompatible (dim : Nat) (bits : UInt8) : Bool :=
  rankquantCompatible dim bits && (signRequiredMultiple bits).any fun multiple => dim % multiple == 0

/-! ## The row stores -/

/-- What the two `ordvec` stores keep of a row. -/
structure Ordvec (R S : Type) where
  rankRow : Nat → UInt8 → List F32 → R
  signRow : Nat → List F32 → S

/-- Row `i` of a flat row-major buffer. -/
def rowAt (dim : Nat) (vectors : List F32) (i : Nat) : List F32 :=
  (vectors.drop (i * dim)).take dim

/-- The rows of a flat row-major buffer. -/
def rowsOf (dim : Nat) (vectors : List F32) : List (List F32) :=
  (List.range (vectors.length / dim)).map (rowAt dim vectors)

@[simp] theorem rowsOf_length (dim : Nat) (vectors : List F32) :
    (rowsOf dim vectors).length = vectors.length / dim := by
  simp [rowsOf]

structure RankQuant (R : Type) where
  dim : Nat
  bits : UInt8
  rows : List R
deriving DecidableEq, Repr

structure SignBitmap (S : Type) where
  dim : Nat
  rows : List S
deriving DecidableEq, Repr

variable {R S : Type}

namespace RankQuant

def new (dim : Nat) (bits : UInt8) : RankQuant R := ⟨dim, bits, []⟩

def len (self : RankQuant R) : Nat := self.rows.length

def add (ov : Ordvec R S) (self : RankQuant R) (vectors : List F32) : RankQuant R :=
  { self with rows := self.rows ++ (rowsOf self.dim vectors).map (ov.rankRow self.dim self.bits) }

def swapRemove (self : RankQuant R) (idx : Nat) : Option (Nat × RankQuant R) :=
  if idx < self.rows.length then
    some (self.rows.length - 1, { self with rows := SlotTable.swapRemove self.rows idx })
  else none

end RankQuant

namespace SignBitmap

def new (dim : Nat) : SignBitmap S := ⟨dim, []⟩

def add (ov : Ordvec R S) (self : SignBitmap S) (vectors : List F32) : SignBitmap S :=
  { self with rows := self.rows ++ (rowsOf self.dim vectors).map (ov.signRow self.dim) }

def swapRemove (self : SignBitmap S) (idx : Nat) : Option (SignBitmap S) :=
  if idx < self.rows.length then
    some { self with rows := SlotTable.swapRemove self.rows idx }
  else none

end SignBitmap

def maybeNewSign (dim : Nat) (bits : UInt8) (policy : SignPolicy) :
    Except ConstructError (Option (SignBitmap S)) :=
  let compatible := signCompatible dim bits
  match policy with
  | .disabled => .ok none
  | .optional => .ok (if compatible then some (.new dim) else none)
  | .required =>
    if compatible then .ok (some (.new dim))
    else .error (.signSidecarUnsupported dim bits (signRequiredMultiple bits))

/-! ## The index -/

structure OrdinalIndex (R S : Type) where
  dim : Option Nat
  bits : UInt8
  inner : Option (RankQuant R)
  sign : Option (SignBitmap S)
  signPolicy : SignPolicy
deriving DecidableEq, Repr

/-- The first offending coordinate as (row, coordinate, value). Large buffers
first get a sweep that only looks for an offender. -/
def firstInvalidCoord (values : List F32) (dim : Nat) : Option (Nat × Nat × F32) :=
  if 2 ^ 20 ≤ values.length ∧ values.all validCoord then none
  else values.zipIdx.findSome? fun (value, i) =>
    if !value.isFinite || value.abs ≥ maxInputMagnitude.abs then some (i / dim, i % dim, value)
    else none

namespace OrdinalIndex

def newWithBuildOptions (dim : Nat) (bits : UInt8) (sign : SignPolicy) :
    Except ConstructError (OrdinalIndex R S) := do
  validateBits bits
  validateDimBits dim bits
  let store ← maybeNewSign dim bits sign
  return ⟨some dim, bits, some (.new dim bits), store, sign⟩

def newLazyWithBuildOptions (bits : UInt8) (sign : SignPolicy) :
    Except ConstructError (OrdinalIndex R S) := do
  validateBits bits
  if sign = .required ∧ (signRequiredMultiple bits).isNone then
    throw (.signSidecarUnsupportedBits bits)
  return ⟨none, bits, none, none, sign⟩

def len (self : OrdinalIndex R S) : Nat := (self.inner.map RankQuant.len).getD 0

/-- Append a validated batch to both stores. -/
def appendRows (ov : Ordvec R S) (self : OrdinalIndex R S) (vectors : List F32) :
    OrdinalIndex R S :=
  { self with
    inner := self.inner.map (·.add ov vectors)
    sign := self.sign.map (·.add ov vectors) }

/-- The tail of `add_2d`: commit `dim` on a lazy index, then append. -/
def commitRows (ov : Ordvec R S) (self : OrdinalIndex R S) (vectors : List F32) (dim : Nat) :
    Except AddError Unit × OrdinalIndex R S :=
  match self.inner with
  | some _ => (.ok (), self.appendRows ov vectors)
  | none =>
    match maybeNewSign dim self.bits self.signPolicy with
    | .error _ =>
      (.error (.signSidecarUnsupported dim self.bits (signRequiredMultiple self.bits)), self)
    | .ok sign =>
      let self := { self with inner := some (.new dim self.bits), sign, dim := some dim }
      (.ok (), self.appendRows ov vectors)

def add2d (ov : Ordvec R S) (self : OrdinalIndex R S) (vectors : List F32) (dim : Nat) :
    Except AddError Unit × OrdinalIndex R S :=
  match validateAddDimBits dim self.bits with
  | .error e => (.error e, self)
  | .ok () =>
    if vectors.length % dim ≠ 0 then
      (.error (.vectorBufferNotMultipleOfDim vectors.length dim), self)
    else
      let n := vectors.length / dim
      let insertRows :=
        match firstInvalidCoord vectors dim with
        | some (vectorIndex, coordIndex, value) =>
          (.error (.invalidInputValue vectorIndex coordIndex value), self)
        | none => if n = 0 then (.ok (), self) else self.commitRows ov vectors dim
      match self.dim with
      | some existing =>
        if existing ≠ dim then (.error (.dimMismatch existing dim), self) else insertRows
      | none => if n = 0 then (.ok (), self) else insertRows

def swapRemove (self : OrdinalIndex R S) (idx : Nat) : Option (Nat × OrdinalIndex R S) := do
  guard self.dim.isSome
  let (movedFrom, inner) ← (← self.inner).swapRemove idx
  match self.sign with
  | none => return (movedFrom, { self with inner := some inner })
  | some sign =>
    let sign ← sign.swapRemove idx
    return (movedFrom, { self with inner := some inner, sign := some sign })

end OrdinalIndex

end OrdinalDB
