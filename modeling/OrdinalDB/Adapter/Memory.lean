import OrdinalDB.Adapter.Load
import OrdinalDB.Index.OrdinalIndex
import OrdinalDB.Lib.Machine

/-!
# The adapter store in memory

`AdapterStore.add` and `AdapterStore.delete` of `adapters/_common.py` over the
five dicts, the slot list, the id allocator and the native index. The native
index is an array of rows with `append` and `swap_remove`; it takes every batch
that passes `_preflight_batch`. The state of a call that breaks off in the middle
is not modelled: no call does (`call_kept`).
-/

namespace OrdinalDB.Adapter

open Float32Bits (F32)

variable {M T : Type}

/-! ## Arguments -/

/-- A Python value, as the checks of a batch see it. The strings are of any type: where nothing
depends on their code points they are `String`. -/
inductive PyValue (M : Type) (T : Type := String)
  | str (text : T)
  | dict (items : M)
  | other (truthy : Bool)

instance emptyCollectionText : EmptyCollection String := ⟨""⟩

@[simp] theorem empty_string : (∅ : String) = "" := rfl

section Texts

variable [DecidableEq T] [EmptyCollection T]

def requireStringId : PyValue M T → Option T
  | .str text => if text = ∅ then none else some text
  | _ => none

def requireDocument : PyValue M T → Option T
  | .str text => some text
  | _ => none

/-- `_require_metadata(value or {})`; an empty dict is falsy and is replaced by itself. -/
def requireMetadata? [EmptyCollection M] : PyValue M T → Option M
  | .dict items => some items
  | .str text => if text = ∅ then some ∅ else none
  | .other truthy => if truthy then none else some ∅

end Texts

/-- What `np.asarray` makes of the embeddings. -/
structure FloatArray where
  shape : List Nat
  values : List F32
  sized : values.length = shape.prod

/-- A two-dimensional array, row by row. -/
structure Vectors where
  dim : Nat
  rows : List (List F32)

/-- `_vectors_array`. -/
def vectorsArray (embeddings : Option FloatArray) : Option Vectors := do
  let array ← embeddings
  match array.shape with
  | [count, dim] =>
    if array.values.all validCoord then
      some ⟨dim, (List.range count).map (rowAt dim array.values)⟩
    else none
  | _ => none

structure AddArguments (M : Type) (T : Type := String) where
  ids : List (PyValue M T)
  embeddings : Option FloatArray
  documents : List (PyValue M T)
  metadatas : Option (List (PyValue M T))
  upsert : Bool

/-! ## State -/

structure NativeIndex where
  bits : Nat
  dimOpt : Option Nat
  rows : List (List F32)

namespace NativeIndex

def add (index : NativeIndex) (vectors : Vectors) : NativeIndex :=
  { index with dimOpt := some vectors.dim, rows := index.rows ++ vectors.rows }

def swapRemove (index : NativeIndex) (slot : Nat) : Option NativeIndex :=
  if slot < index.rows.length then
    some { index with rows := SlotTable.swapRemove index.rows slot }
  else none

end NativeIndex

/-- The in-memory working copy of a directory. -/
structure WorkingCopy (M : Type) (T : Type := String) where
  index : NativeIndex
  stringToU64 : Finmap fun _ : T => Nat
  u64ToString : Finmap fun _ : Nat => T
  u64ToSlot : Finmap fun _ : Nat => Nat
  slotToU64 : List Nat
  documents : Finmap fun _ : T => T
  metadata : Finmap fun _ : T => M
  nextU64Id : Nat

/-- A row of the store: what the dicts and the index hold at one slot. -/
structure Row (M : Type) (T : Type := String) where
  u64 : Nat
  id : T
  vector : List F32
  document : T
  metadata : M

def zipRows : List Nat → List T → List (List F32) → List T → List M → List (Row M T)
  | u64 :: u64s, id :: ids, vector :: vectors, document :: documents, metadata :: metadatas =>
    ⟨u64, id, vector, document, metadata⟩ :: zipRows u64s ids vectors documents metadatas
  | _, _, _, _, _ => []

namespace WorkingCopy

/-- `AdapterStore(bits=…, dim=…)`. -/
def new (bits : Nat) (dim : Option Nat) : WorkingCopy M T where
  index := ⟨bits, dim, []⟩
  stringToU64 := ∅
  u64ToString := ∅
  u64ToSlot := ∅
  slotToU64 := []
  documents := ∅
  metadata := ∅
  nextU64Id := 1

variable [DecidableEq T]

/-! ## Consistency -/

/-- `_validate_consistency`. -/
def validateConsistency (store : WorkingCopy M T) : Bool :=
  let u64Values := store.stringToU64.entries.map Sigma.snd
  store.slotToU64.length = store.index.rows.length &&
    store.documents.keys = store.stringToU64.keys &&
    store.metadata.keys = store.stringToU64.keys &&
    u64Values.Nodup &&
    store.u64ToSlot.keys = u64Values.toFinset &&
    -- two dicts are equal when they have the same keys and agree on them
    (store.u64ToString.keys = u64Values.toFinset &&
      decide (∀ entry ∈ store.stringToU64.entries,
        store.u64ToString.lookup entry.2 = some entry.1)) &&
    decide (∀ entry ∈ store.u64ToSlot.entries, entry.2 < store.index.rows.length ∧
      store.slotToU64[entry.2]? = some entry.1) &&
    (store.u64ToSlot.entries.map Sigma.snd).Nodup &&
    decide (∀ u64 ∈ u64Values, u64 < store.nextU64Id)

/-! ## Ids -/

/-- The loop of `_allocate_u64`; it passes each taken id at most once. -/
def firstFree (taken : Finmap fun _ : Nat => Nat) : Nat → Nat → Nat
  | 0, next => next
  | fuel + 1, next => if next ∈ taken then firstFree taken fuel (next + 1) else next

/-- `[self._allocate_u64() for _ in ids]`, and the counter behind it. -/
def allocate (taken : Finmap fun _ : Nat => Nat) : Nat → Nat → List Nat × Nat
  | 0, next => ([], next)
  | count + 1, next =>
    let value := firstFree taken taken.keys.card next
    let rest := allocate taken count (value + 1)
    (value :: rest.1, rest.2)

/-- `_remove_u64`. -/
def removeU64 (store : WorkingCopy M T) (u64 : Nat) : Option (WorkingCopy M T) := do
  let slot ← store.u64ToSlot.lookup u64
  let movedU64 ← store.slotToU64.getLast?
  let index ← store.index.swapRemove slot
  let rest := store.u64ToSlot.erase u64
  pure { store with
    index
    u64ToString := store.u64ToString.erase u64
    u64ToSlot := if slot = store.slotToU64.length - 1 then rest else rest.insert movedU64 slot
    slotToU64 := (store.slotToU64.set slot movedU64).dropLast }

def removeU64s (store : WorkingCopy M T) : List Nat → Option (WorkingCopy M T)
  | [] => some store
  | u64 :: u64s => (store.removeU64 u64).bind (·.removeU64s u64s)

/-! ## Adding -/

/-- The dimension of an index without one is set by the first batch. -/
def acceptsDim (store : WorkingCopy M T) (dim : Nat) : Bool :=
  match store.index.dimOpt with
  | some existing => dim = existing
  | none => validateDimCompatibleWithBits dim store.index.bits

/-- `_preflight_batch`. -/
def preflightBatch (store : WorkingCopy M T) (ids : List T) (embeddings : Option FloatArray)
    (documents : List T) (metadatas : List M) (upsert : Bool) : Option Vectors := do
  guard (ids.length = documents.length ∧ ids.length = metadatas.length)
  guard ids.Nodup
  guard (upsert || ids.all (· ∉ store.stringToU64))
  let vectors ← vectorsArray embeddings
  guard (vectors.rows.length = ids.length)
  guard (store.acceptsDim vectors.dim)
  pure vectors

/-- What the last loop before the removals writes for a row. -/
def put (store : WorkingCopy M T) (row : Row M T) : WorkingCopy M T :=
  { store with
    stringToU64 := store.stringToU64.insert row.id row.u64
    u64ToString := store.u64ToString.insert row.u64 row.id
    documents := store.documents.insert row.id row.document
    metadata := store.metadata.insert row.id row.metadata }

/-- The store with the new rows in the index and in the slot tables. -/
def appendRows (store : WorkingCopy M T) (count : Nat) (vectors : Vectors) : WorkingCopy M T :=
  let (newU64s, nextU64Id) := allocate store.u64ToSlot count store.nextU64Id
  { store with
    index := store.index.add vectors
    slotToU64 := store.slotToU64 ++ newU64s
    u64ToSlot := SlotTable.insertFrom store.u64ToSlot store.slotToU64.length newU64s
    nextU64Id }

/-- The part of `add` behind the checks. -/
def addBatch (store : WorkingCopy M T) (ids documents : List T) (metadata : List M)
    (vectors : Vectors) : Option (WorkingCopy M T) :=
  let replacementU64s := ids.filterMap store.stringToU64.lookup
  let newU64s := (allocate store.u64ToSlot ids.length store.nextU64Id).1
  let appended := store.appendRows ids.length vectors
  let rows := zipRows newU64s ids vectors.rows documents metadata
  (rows.foldl put appended).removeU64s replacementU64s

end WorkingCopy

inductive Reply (T : Type := String)
  | added (ids : List T)
  | deleted (changed : Bool)
  /-- An error of the arguments. -/
  | rejected
  /-- A `KeyError` or `IndexError`, or an error of `_validate_consistency`. -/
  | broken
deriving DecidableEq, Repr

section Calls

variable [DecidableEq T]

namespace WorkingCopy

/-- The end of a call. -/
def validated (store : WorkingCopy M T) (next : Option (WorkingCopy M T)) (reply : Reply T) :
    Reply T × WorkingCopy M T :=
  match next with
  | none => (.broken, store)
  | some next => (if next.validateConsistency then reply else .broken, next)

variable [EmptyCollection T]

/-- The documents, metadata and vectors of a batch with these ids. -/
def readBatch [EmptyCollection M] (store : WorkingCopy M T) (ids : List T)
    (arguments : AddArguments M T) : Option (List T × List M × Vectors) := do
  let documents ← arguments.documents.mapM requireDocument
  let metadatas := arguments.metadatas.getD (ids.map fun _ => .dict ∅)
  let metadata ← metadatas.mapM requireMetadata?
  let vectors ←
    store.preflightBatch ids arguments.embeddings documents metadata arguments.upsert
  pure (documents, metadata, vectors)

def add [EmptyCollection M] (store : WorkingCopy M T) (arguments : AddArguments M T) :
    Reply T × WorkingCopy M T :=
  match arguments.ids.mapM requireStringId with
  | none => (.rejected, store)
  | some [] => (.added [], store)
  | some ids =>
    match store.readBatch ids arguments with
    | none => (.rejected, store)
    | some (documents, metadata, vectors) =>
      store.validated (store.addBatch ids documents metadata vectors) (.added ids)

/-! ## Deleting -/

/-- The loop of `delete`, with its `changed`. -/
def deleteIds (store : WorkingCopy M T) (changed : Bool) :
    List T → Option (WorkingCopy M T × Bool)
  | [] => some (store, changed)
  | id :: ids =>
    match store.stringToU64.lookup id with
    | none => store.deleteIds changed ids
    | some u64 =>
      let popped := { store with
        stringToU64 := store.stringToU64.erase id
        documents := store.documents.erase id
        metadata := store.metadata.erase id }
      (popped.removeU64 u64).bind (·.deleteIds true ids)

/-- `delete`; a single string is a list of one. -/
def delete (store : WorkingCopy M T) (ids : List (PyValue M T)) (missingOk : Bool) :
    Reply T × WorkingCopy M T :=
  match ids.mapM requireStringId with
  | none => (.rejected, store)
  | some ids =>
    if !missingOk && ids.any (· ∉ store.stringToU64) then (.rejected, store)
    else
      let deleted := store.deleteIds false ids
      store.validated (deleted.map Prod.fst) (.deleted (deleted.any Prod.snd))

end WorkingCopy

/-! ## Calls -/

inductive Call (M : Type) (T : Type := String)
  | add (arguments : AddArguments M T)
  | delete (ids : List (PyValue M T)) (missingOk : Bool)

variable [EmptyCollection T]

def WorkingCopy.answer [EmptyCollection M] (store : WorkingCopy M T) :
    Call M T → Reply T × WorkingCopy M T
  | .add arguments => store.add arguments
  | .delete ids missingOk => store.delete ids missingOk

/-- The ids of a call whose arguments are strings. -/
def Call.ids : Call M T → List T
  | .add arguments => (arguments.ids.mapM requireStringId).getD []
  | .delete ids _ => (ids.mapM requireStringId).getD []

/-- The u64 ids that a call allocates. -/
def WorkingCopy.assigned [EmptyCollection M] (store : WorkingCopy M T) (call : Call M T) :
    List Nat :=
  match call, (store.answer call).1 with
  | .add _, .added ids => (WorkingCopy.allocate store.u64ToSlot ids.length store.nextU64Id).1
  | _, _ => []

/-- A call, beside the list of all u64 ids that have been allocated. -/
def WorkingCopy.step [EmptyCollection M] (state : WorkingCopy M T × List Nat) (call : Call M T) :
    Reply T × WorkingCopy M T × List Nat :=
  let (reply, next) := state.1.answer call
  (reply, next, state.2 ++ state.1.assigned call)

end Calls

/-! ## What a reader sees -/

/-- What the store keeps for a string id. -/
structure Record (M : Type) (T : Type := String) where
  vector : List F32
  document : T
  metadata : M

namespace WorkingCopy

variable [DecidableEq T]

/-- The record that `get` returns for an id, with the row of the index at its slot. -/
def get (store : WorkingCopy M T) (id : T) : Option (Record M T) := do
  let u64 ← store.stringToU64.lookup id
  let slot ← store.u64ToSlot.lookup u64
  let vector ← store.index.rows[slot]?
  let document ← store.documents.lookup id
  let metadata ← store.metadata.lookup id
  pure { vector, document, metadata }

/-- The record that `search_by_vector` returns for a slot that the index has found. -/
def recordAt (store : WorkingCopy M T) (slot : Nat) : Option (T × Record M T) := do
  let u64 ← store.slotToU64[slot]?
  let id ← store.u64ToString.lookup u64
  let vector ← store.index.rows[slot]?
  let document ← store.documents.lookup id
  let metadata ← store.metadata.lookup id
  pure (id, { vector, document, metadata })

end WorkingCopy

end OrdinalDB.Adapter
