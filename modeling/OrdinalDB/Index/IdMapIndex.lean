import OrdinalDB.Index.OrdinalIndex
import OrdinalDB.Lib.Machine

/-!
# The dense index with caller-supplied ids

`IdMapIndex` of `ordinaldb/src/id_map.rs` over `OrdinalIndex`: the batch add
with its checks in source order, `remove` with its two debug assertions, and
the calls of an index as one step function.
-/

namespace OrdinalDB

open Float32Bits (F32)

variable {R S : Type}

structure IdMapIndex (R S : Type) where
  inner : OrdinalIndex R S
  slotToId : List UInt64
  idToSlot : Finmap fun _ : UInt64 => Nat

/-- The first id that is already in the index or repeats within the batch. -/
def firstClash (idToSlot : Finmap fun _ : UInt64 => Nat) :
    List UInt64 → List UInt64 → Option UInt64
  | _, [] => none
  | batchIds, id :: ids =>
    if id ∈ idToSlot ∨ id ∈ batchIds then some id
    else firstClash idToSlot (id :: batchIds) ids

namespace IdMapIndex

def newWithBuildOptions (dim : Nat) (bits : UInt8) (sign : SignPolicy) :
    Except ConstructError (IdMapIndex R S) := do
  let inner ← OrdinalIndex.newWithBuildOptions dim bits sign
  return ⟨inner, [], ∅⟩

def newLazyWithBuildOptions (bits : UInt8) (sign : SignPolicy) :
    Except ConstructError (IdMapIndex R S) := do
  let inner ← OrdinalIndex.newLazyWithBuildOptions bits sign
  return ⟨inner, [], ∅⟩

def len (self : IdMapIndex R S) : Nat := self.slotToId.length

def addWithIds2d (ov : Ordvec R S) (self : IdMapIndex R S) (vectors : List F32) (dim : Nat)
    (ids : List UInt64) : Except AddError Unit × IdMapIndex R S :=
  if dim < 2 ∨ dim > 65535 then (.error (.dimInvalid dim), self)
  else if vectors.length % dim ≠ 0 then
    (.error (.vectorBufferNotMultipleOfDim vectors.length dim), self)
  else
    let rowCount := vectors.length / dim
    if ids.length ≠ rowCount then (.error (.idsCountMismatch rowCount ids.length), self)
    else
      match firstClash self.idToSlot [] ids with
      | some id => (.error (.idAlreadyPresent id), self)
      | none =>
        if rowCount = 0 then (.ok (), self)
        else
          let firstNewSlot := self.inner.len
          match self.inner.add2d ov vectors dim with
          | (.error e, inner) => (.error e, { self with inner })
          | (.ok (), inner) =>
            (.ok (), {
              inner
              idToSlot := SlotTable.insertFrom self.idToSlot firstNewSlot ids
              slotToId := self.slotToId ++ ids })

/-- `none` is the panic on a lazy index. -/
def addWithIds (ov : Ordvec R S) (self : IdMapIndex R S) (vectors : List F32)
    (ids : List UInt64) : Option (Except AddError Unit × IdMapIndex R S) := do
  let dim ← self.inner.dim
  return self.addWithIds2d ov vectors dim ids

/-- `none` is a panic: a slot out of range or a failed debug assertion. -/
def remove (self : IdMapIndex R S) (id : UInt64) : Option (Bool × IdMapIndex R S) :=
  match self.idToSlot.lookup id with
  | none => some (false, self)
  | some slot => do
    let idToSlot := self.idToSlot.erase id
    let (backfilledFrom, inner) ← self.inner.swapRemove slot
    guard (backfilledFrom = self.slotToId.length - 1)
    let evicted ← self.slotToId[slot]?
    guard (evicted = id)
    let slotToId := SlotTable.swapRemove self.slotToId slot
    return (true, { inner, slotToId, idToSlot := SlotTable.relocate idToSlot slotToId slot })

/-! ## Calls -/

inductive Call
  | addWithIds (vectors : List F32) (ids : List UInt64)
  | addWithIds2d (vectors : List F32) (dim : Nat) (ids : List UInt64)
  | remove (id : UInt64)

inductive Reply
  | added (result : Except AddError Unit)
  | removed (found : Bool)
  | panicked

/-- One call. The panic of `add_with_ids` comes before any write; `remove` has none in a
reachable index (`remove_spec`). -/
def answer (ov : Ordvec R S) (self : IdMapIndex R S) : Call → Reply × IdMapIndex R S
  | .addWithIds vectors ids =>
    match self.addWithIds ov vectors ids with
    | some (result, self) => (.added result, self)
    | none => (.panicked, self)
  | .addWithIds2d vectors dim ids =>
    let (result, self) := self.addWithIds2d ov vectors dim ids
    (.added result, self)
  | .remove id =>
    match self.remove id with
    | some (found, self) => (.removed found, self)
    | none => (.panicked, self)

end IdMapIndex

/-! ## What the index is for -/

/-- A partial map from ids to vectors, and the dimension they share. -/
structure VectorMap where
  dim : Option Nat
  vectors : UInt64 → Option (List F32)

namespace VectorMap

/-- Assign every pair in turn, so the last vector given to an id stays. -/
def assign (f : UInt64 → Option (List F32)) (pairs : List (UInt64 × List F32)) :
    UInt64 → Option (List F32) :=
  pairs.foldl (fun f pair => Function.update f pair.1 (some pair.2)) f

/-- An accepted batch. An empty one leaves the dimension open. -/
def add (s : VectorMap) (vectors : List F32) (dim : Nat) (ids : List UInt64) : VectorMap :=
  if ids = [] then s
  else ⟨some dim, assign s.vectors (ids.zip (rowsOf dim vectors))⟩

/-- Follow one call and its reply: accepted adds and successful removes count. -/
def apply (s : VectorMap) : IdMapIndex.Call → IdMapIndex.Reply → VectorMap
  | .addWithIds vectors ids, .added (.ok _) => s.add vectors (s.dim.getD 0) ids
  | .addWithIds2d vectors dim ids, .added (.ok _) => s.add vectors dim ids
  | .remove id, .removed true => { s with vectors := Function.update s.vectors id none }
  | _, _ => s

end VectorMap

end OrdinalDB
