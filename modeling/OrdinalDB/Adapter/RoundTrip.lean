import OrdinalDB.Adapter.Agreement
import OrdinalDB.Adapter.Items
import OrdinalDB.Adapter.PyJson
import OrdinalDB.Adapter.Save

/-!
# The round trip of a save

`_sidecar_payloads` and `AdapterStore.save` on the working copy in memory, without
another process at the root. A save that returns is loaded as the same store exactly
when it was `Loadable` (`save_round_trips_iff`): its texts keep to the limits of the
reader, its metadata is plain JSON, no string spells a character as two surrogates, and
an empty store finds no directory of vectors.
-/

namespace OrdinalDB.Adapter

open Json Text Store

variable {Text Path N : Type}

/-! ## Payloads -/

section Payloads

variable {K V : Type} [LinearOrder K] [DecidableEq K]

/-- The items of a dict in the order of its keys. -/
def sortedItems (dict : Finmap fun _ : K => V) : List (K × V) :=
  dict.keys.sort.filterMap fun key => (dict.lookup key).map fun value => (key, value)

/-- The object that a reader finds for a dict. A key or a value that it does not find is an error,
and so are two keys of one name. -/
def dictObject (name : K → Option String) (raw : V → Option (Value N))
    (dict : Finmap fun _ : K => V) : Option (Object N) := do
  let rows ← (sortedItems dict).mapM fun row => do
    let text ← name row.1
    let value ← raw row.2
    pure (text, value)
  if (rows.map Prod.fst).Nodup then pure ((∅ : Object N).insertMany rows) else none

end Payloads

theorem isFinite_aboveU64 : (0x43f0000000000000 : UInt64) >>> 52 &&& 0x7ff ≠ 0x7ff := by decide

/-- An integer of Python; beyond `u64` a reader finds a float in its place. -/
def jsonInt (n : Nat) : Value :=
  if n < u64Bound then .number (.posInt (.ofNat n))
  else .number (.float 0x43f0000000000000 isFinite_aboveU64)

/-- `str` of an integer. -/
def intText (n : Nat) : String := String.ofList (decimal n)

/-- `_generation_index_path`. -/
def generationIndexPath (generationId : Nat) : String :=
  generationPath ((decimal generationId).leftpad 12 '0')

namespace WorkingCopy

def idMapPayload (store : WorkingCopy PyDict PyStr) : Option Object := do
  let strings ← dictObject PyStr.jsonText (some ∘ jsonInt) store.stringToU64
  let slots ← dictObject (some ∘ intText) (some ∘ jsonInt) store.u64ToSlot
  pure ((∅ : Object).insertMany
    [("schema_version", .string "ordinaldb.adapter.id_map.v1"),
      ("next_u64_id", jsonInt store.nextU64Id), ("string_to_u64", .ofTable strings),
      ("u64_to_slot", .ofTable slots)])

def documentsPayload (store : WorkingCopy PyDict PyStr) : Option Object := do
  let documents ← dictObject PyStr.jsonText (fun text => text.jsonText.map .string) store.documents
  pure ((∅ : Object).insertMany
    [("schema_version", .string "ordinaldb.adapter.documents.v1"),
      ("documents", .ofTable documents)])

/-- Metadata that JSON does not have is an error. -/
def metadataPayload (store : WorkingCopy PyDict PyStr) : Option (Object PyNumber) :=
  (dictObject PyStr.jsonText (fun dict => (PyObject.dict dict).dumps) store.metadata).map
    metadataObject

def isEmptyLazy (store : WorkingCopy PyDict PyStr) : Bool :=
  store.slotToU64.length = 0 && store.index.dimOpt.isNone

/-- What `save` writes of a store; `digest` is `_payload_digest` of a text. -/
def snapshot (json : JsonModule Text) (digest : Text → String) (store : WorkingCopy PyDict PyStr) :
    Option (Snapshot Text) := do
  let idMap ← store.idMapPayload
  let documents ← store.documentsPayload
  let metadata ← store.metadataPayload
  let idMapJson := json.codec.write (.ofTable idMap)
  let documentsJson := json.codec.write (.ofTable documents)
  let metadataJson := json.print ((Value.ofTable metadata).toRaw (PyNumber.print json.floats))
  pure {
    bits := .ofNat store.index.bits
    dim := store.index.dimOpt.map .ofNat
    emptyLazy := store.isEmptyLazy
    sidecarDigests := (∅ : Table String String).insertMany
      [("id_map.json", digest idMapJson), ("documents.json", digest documentsJson),
        ("metadata.json", digest metadataJson)]
    idMapJson
    documentsJson
    metadataJson }

end WorkingCopy

/-! ## Saving -/

/-- What a save finds: the arguments, the directory before and after the new generation is written,
and the id of this generation. -/
structure SaveCall (Text Path : Type) where
  target : Path
  adapterName : Option String
  dir : Directory Text
  env : Env
  generationId : Nat
  written : Bool

namespace WorkingCopy

/-- `save` when no other process has the database open. -/
def save [DecidableEq Path] (json : JsonModule Text) (digest : Text → String)
    (store : WorkingCopy PyDict PyStr) (base : Base Path) (call : SaveCall Text Path) :
    SaveResult × Base Path × StoreFile Text :=
  if store.validateConsistency then
    match store.snapshot json digest with
    | none => (.failed, base, call.dir.storeFile)
    | some snapshot =>
      Adapter.save json.codec call.env .none snapshot base call.target call.adapterName call.dir
        (generationIndexPath call.generationId) call.written
  else (.failed, base, call.dir.storeFile)

/-- A working copy and its base, made by calls of `add`, `delete` and `save`. -/
inductive Session [DecidableEq Path] (json : JsonModule Text) (digest : Text → String) :
    WorkingCopy PyDict PyStr → Base Path → Prop
  | new {bits : Nat} {dim : Option Nat} (base : Base Path)
      (hbits : bits = 1 ∨ bits = 2 ∨ bits = 4)
      (hdim : ∀ d, dim = some d → validateDimCompatibleWithBits d bits) :
      Session json digest (.new bits dim) base
  | call {store : WorkingCopy PyDict PyStr} {base : Base Path} (h : Session json digest store base)
      (call : Call PyDict PyStr) : Session json digest (store.answer call).2 base
  | save {store : WorkingCopy PyDict PyStr} {base : Base Path} (h : Session json digest store base)
      (call : SaveCall Text Path) :
      Session json digest store (store.save json digest base call).2.1

/-- The bit width and the dimension of an index are ones that the constructor accepts. -/
def Shaped (index : NativeIndex) : Prop :=
  (index.bits = 1 ∨ index.bits = 2 ∨ index.bits = 4) ∧
    ∀ dim, index.dimOpt = some dim → validateDimCompatibleWithBits dim index.bits

theorem shaped_swap : KeptBySwap Shaped := by
  intro index next slot h hremove
  obtain ⟨-, rfl⟩ := swapRemove_eq_some hremove
  exact h

theorem shaped_add (store : WorkingCopy PyDict PyStr) (vectors : Vectors) (h : Shaped store.index)
    (haccepts : store.acceptsDim vectors.dim) : Shaped (store.index.add vectors) := by
  refine ⟨h.1, fun dim hdim => ?_⟩
  obtain rfl := Option.some.inj hdim
  unfold acceptsDim at haccepts
  split at haccepts
  next existing hexisting =>
    rw [of_decide_eq_true haccepts]
    exact h.2 existing hexisting
  next => exact haccepts

theorem Session.shaped [DecidableEq Path] {json : JsonModule Text} {digest : Text → String}
    {store : WorkingCopy PyDict PyStr} {base : Base Path} (h : Session json digest store base) :
    Shaped store.index := by
  induction h with
  | new base hbits hdim => exact ⟨hbits, hdim⟩
  | @call store base h call ih => exact answer_index shaped_swap (shaped_add store) ih call
  | save h call ih => exact ih

/-! ## What the payloads say -/

section Items

variable {K V : Type} [LinearOrder K] [DecidableEq K]

theorem mem_sortedItems {dict : Finmap fun _ : K => V} {key : K} {value : V} :
    (key, value) ∈ sortedItems dict ↔ dict.lookup key = some value := by
  unfold sortedItems
  simp only [List.mem_filterMap, Finset.mem_sort, Finmap.mem_keys, Option.map_eq_some_iff,
    Prod.mk.injEq]
  constructor
  · rintro ⟨_, -, _, hlookup, rfl, rfl⟩
    exact hlookup
  · intro hlookup
    exact ⟨key, Finmap.lookup_isSome.mp (Option.isSome_of_eq_some hlookup), value, hlookup, rfl,
      rfl⟩

/-- The members of the object of a dict, and what is asked of the dict. -/
theorem dictObject_eq_some {name : K → Option String} {raw : V → Option (Value N)}
    {dict : Finmap fun _ : K => V} {object : Object N}
    (h : dictObject name raw dict = some object) :
    (∀ (text : String) (value : Value N), object[text]? = some value ↔
        ∃ key v, dict.lookup key = some v ∧ name key = some text ∧ raw v = some value) ∧
      ∀ key v, dict.lookup key = some v → (name key).isSome ∧ (raw v).isSome := by
  obtain ⟨rows, hread, hrows⟩ := Option.bind_eq_some_iff.mp h
  split at hrows
  next hnodup =>
    obtain rfl := Option.some.inj hrows
    constructor
    · intro text value
      have hmem : some (text, value) ∈ rows.map some ↔ (text, value) ∈ rows := by simp
      rw [Table.ofList_eq_some hnodup, ← hmem, ← Table.mapM_eq_some.mp hread, List.mem_map]
      constructor
      · rintro ⟨⟨key, v⟩, hitem, hrow⟩
        obtain ⟨text', hname, hrow⟩ := Option.bind_eq_some_iff.mp hrow
        obtain ⟨value', hraw, hrow⟩ := Option.bind_eq_some_iff.mp hrow
        obtain ⟨rfl, rfl⟩ := Prod.mk.inj (Option.some.inj hrow)
        exact ⟨key, v, mem_sortedItems.mp hitem, hname, hraw⟩
      · rintro ⟨key, v, hlookup, hname, hraw⟩
        exact ⟨(key, v), mem_sortedItems.mpr hlookup, by simp [hname, hraw]⟩
    · intro key v hlookup
      obtain ⟨row, hrow⟩ := Option.isSome_iff_exists.mp
        (Table.isSome_of_mapM hread _ (mem_sortedItems.mpr hlookup))
      obtain ⟨text, hname, hrow⟩ := Option.bind_eq_some_iff.mp hrow
      obtain ⟨value, hraw, -⟩ := Option.bind_eq_some_iff.mp hrow
      exact ⟨Option.isSome_of_eq_some hname, Option.isSome_of_eq_some hraw⟩
  next => cases hrows

end Items

/-- A dict that is read entry by entry comes back. -/
theorem parseEntries_eq_lookup {K V : Type} [DecidableEq K] [Ord K] [Std.TransOrd K]
    [Std.LawfulEqOrd K] {name : K → String} {raw : V → Value} {dict : Finmap fun _ : K => V}
    {entry : String → Value → Option (K × V)}
    (hentry : ∀ key value row, entry (name key) (raw value) = some row → row = (key, value))
    {object : Object} (hobject : ∀ text value, object[text]? = some value ↔
      ∃ key v, dict.lookup key = some v ∧ name key = text ∧ raw v = value)
    {table : Table K V} (h : parseEntries entry object = some table) (key : K) :
    table[key]? = dict.lookup key := by
  obtain ⟨rows, hread, rfl⟩ := Option.map_eq_some_iff.mp h
  have hread : object.toList.mapM (fun row => entry row.1 row.2) = some rows := hread
  have hrows : ∀ row, row ∈ rows ↔ dict.lookup row.1 = some row.2 := by
    intro row
    constructor
    · intro hrow
      have hsome := List.mem_map_of_mem (f := some) hrow
      rw [← Table.mapM_eq_some.mp hread] at hsome
      obtain ⟨⟨text, value⟩, hmem, hrow⟩ := List.mem_map.mp hsome
      obtain ⟨k, v, hlookup, rfl, rfl⟩ := (hobject text value).mp
        (Std.ExtTreeMap.mem_toList_iff_getElem?_eq_some.mp hmem)
      rw [hentry k v row hrow]
      exact hlookup
    · intro hlookup
      have hmem : (name row.1, raw row.2) ∈ object.toList :=
        Std.ExtTreeMap.mem_toList_iff_getElem?_eq_some.mpr
          ((hobject _ _).mpr ⟨_, _, hlookup, rfl, rfl⟩)
      obtain ⟨out, hout⟩ := Option.isSome_iff_exists.mp (Table.isSome_of_mapM hread _ hmem)
      obtain rfl : out = row := hentry _ _ _ hout
      have hsome := List.mem_map_of_mem (f := fun row => entry row.1 row.2) hmem
      rw [Table.mapM_eq_some.mp hread, hout] at hsome
      obtain ⟨found, hfound, heq⟩ := List.mem_map.mp hsome
      exact Option.some.inj heq ▸ hfound
  cases hlookup : dict.lookup key with
  | none =>
    rw [Table.insertMany_of_not_mem fun hmem => ?_]
    · simp
    · obtain ⟨row, hrow, rfl⟩ := List.mem_map.mp hmem
      rw [(hrows row).mp hrow] at hlookup
      cases hlookup
  | some value =>
    have hmem : (key, value) ∈ rows := (hrows (key, value)).mpr hlookup
    refine Table.insertMany_of_agree (fun row hrow hkey => ?_) (List.mem_map_of_mem hmem)
    have hsame := (hrows row).mp hrow
    rw [hkey, hlookup] at hsame
    exact (Option.some.inj hsame).symm

theorem withStringId_of_isSome {V : Type} {read : Value → Option V} {key : String} {value : Value}
    (h : (withStringId read key value).isSome) :
    withStringId read key value = (read value).map fun v => (key, v) := by
  unfold withStringId at h ⊢
  split at h
  next => cases h
  next hkey => rw [if_neg hkey]

/-- Every member of a map of strings is read. -/
theorem parseStrings_member {V : Type} {read : Value → Option V} {object : Object}
    {table : Table String V} (h : parseEntries (withStringId read) object = some table)
    {text : String} {value : Value} (hvalue : object[text]? = some value) :
    (withStringId read text value).isSome := by
  obtain ⟨rows, hread, -⟩ := Option.map_eq_some_iff.mp h
  exact Table.isSome_of_mapM hread _ (Std.ExtTreeMap.mem_toList_iff_getElem?_eq_some.mpr hvalue)

/-- A map of strings is read member by member. -/
theorem parseStrings_lookup {V : Type} {read : Value → Option V} {object : Object}
    {table : Table String V} (h : parseEntries (withStringId read) object = some table)
    (text : String) (v : V) :
    table[text]? = some v ↔ ∃ value, object[text]? = some value ∧ read value = some v := by
  have hmember : ∀ value : Value, object[text]? = some value → withStringId read text value =
      (read value).map fun v => (text, v) := fun value hvalue =>
    withStringId_of_isSome (parseStrings_member h hvalue)
  obtain ⟨rows, hread, rfl⟩ := Option.map_eq_some_iff.mp h
  have hread : object.toList.mapM (fun row => withStringId read row.1 row.2) = some rows := hread
  have hkeys : rows.map Prod.fst = object.toList.map Prod.fst :=
    Table.map_of_mapM hread fun row out hout => withStringId_key hout
  have hmem : some (text, v) ∈ rows.map some ↔ (text, v) ∈ rows := by simp
  rw [Table.ofList_eq_some (hkeys ▸ Table.nodup_keys_toList object), ← hmem,
    ← Table.mapM_eq_some.mp hread, List.mem_map]
  constructor
  · rintro ⟨⟨key, value⟩, hitem, hrow⟩
    obtain rfl := withStringId_key hrow
    have hvalue := Std.ExtTreeMap.mem_toList_iff_getElem?_eq_some.mp hitem
    obtain ⟨out, hout, heq⟩ := Option.map_eq_some_iff.mp ((hmember value hvalue).symm.trans hrow)
    exact ⟨value, hvalue, by rw [hout, (Prod.mk.inj heq).2]⟩
  · rintro ⟨value, hvalue, hv⟩
    exact ⟨(text, value), Std.ExtTreeMap.mem_toList_iff_getElem?_eq_some.mpr hvalue,
      (hmember value hvalue).trans (by rw [hv, Option.map_some])⟩

/-! ## Numbers -/

theorem asU64_jsonInt (n : Nat) : asU64 (jsonInt n) = if n < u64Bound then some n else none := by
  unfold jsonInt
  split
  next h => exact congrArg some (UInt64.toNat_ofNat_of_lt' h)
  next => rfl

theorem asU64_jsonInt_eq_some {n k : Nat} (h : asU64 (jsonInt n) = some k) : k = n := by
  rw [asU64_jsonInt] at h
  exact (Option.some.inj (Option.ite_none_right_eq_some.mp h).2).symm

theorem canonical_jsonInt (n : Nat) : (jsonInt n).Canonical := by
  unfold jsonInt
  split <;> rfl

theorem toList_intText (n : Nat) : (intText n).toList = decimal n := String.toList_ofList

theorem intText_injective : Function.Injective intText := by
  intro m n h
  refine decimal_injective ?_
  rw [← toList_intText, h, toList_intText]

theorem plus_not_mem_decimal (n : Nat) : '+' ∉ decimal n :=
  fun hmem => absurd (isDigit_of_mem_decimal hmem) (by decide)

theorem parseU64_intText {n k : Nat} (h : parseU64 (intText n) = some k) :
    k = n ∧ n < u64Bound := by
  unfold parseU64 at h
  rw [toList_intText] at h
  split at h
  next digits htext =>
    refine absurd ?_ (plus_not_mem_decimal n)
    rw [htext]
    exact List.mem_cons_self
  next =>
    unfold parseDecimal at h
    split at h
    next => cases h
    next =>
      obtain ⟨hbound, hvalue⟩ := Option.ite_none_right_eq_some.mp h
      have hsame : Nat.ofDigitChars 10 (decimal n) 0 = n := Nat.ofDigitChars_ten_toDigits
      rw [hsame] at hbound hvalue
      exact ⟨(Option.some.inj hvalue).symm, hbound⟩

/-! ## What is read of the payloads -/

section Read

variable {json : JsonModule Text} {digest : Text → String} {store : WorkingCopy PyDict PyStr}

theorem canonical_dictObject {K V : Type} [LinearOrder K] [DecidableEq K] {name : K → Option String}
    {raw : V → Option (Value N)} (hraw : ∀ v value, raw v = some value → value.Canonical)
    {dict : Finmap fun _ : K => V} {object : Object N}
    (h : dictObject name raw dict = some object) :
    (Value.ofTable object).Canonical := by
  refine Value.canonical_ofTable fun text value hvalue => ?_
  obtain ⟨_, v, -, -, hv⟩ := ((dictObject_eq_some h).1 text value).mp hvalue
  exact hraw v value hv

theorem canonical_some_jsonInt (n : Nat) (value : Value) (h : (some ∘ jsonInt) n = some value) :
    value.Canonical := Option.some.inj h ▸ canonical_jsonInt n

/-- The objects of the id map. -/
structure IdMapOf (store : WorkingCopy PyDict PyStr) (idMap strings slots : Object) : Prop where
  stringDict : dictObject PyStr.jsonText (some ∘ jsonInt) store.stringToU64 = some strings
  slotDict : dictObject (some ∘ intText) (some ∘ jsonInt) store.u64ToSlot = some slots
  requiredStrings : requiredObject idMap "string_to_u64" = some strings
  requiredSlots : requiredObject idMap "u64_to_slot" = some slots
  nextU64Id : idMap["next_u64_id"]? = some (jsonInt store.nextU64Id)
  canonical : (Value.ofTable idMap).Canonical

theorem requiredObject_eq {object inner : Object} {field : String}
    (h : object[field]? = some (.ofTable inner)) : requiredObject object field = some inner := by
  rw [requiredObject, h, Option.bind_some, Value.asObject_ofTable]

theorem idMapPayload_eq_some {idMap : Object} (h : store.idMapPayload = some idMap) :
    ∃ strings slots, IdMapOf store idMap strings slots := by
  obtain ⟨strings, hstrings, h⟩ := Option.bind_eq_some_iff.mp h
  obtain ⟨slots, hslots, h⟩ := Option.bind_eq_some_iff.mp h
  obtain rfl := Option.some.inj h
  refine ⟨strings, slots, hstrings, hslots,
    requiredObject_eq (Table.insertMany_of_nodup (by simp) (by simp)),
    requiredObject_eq (Table.insertMany_of_nodup (by simp) (by simp)),
    Table.insertMany_of_nodup (by simp) (by simp), ?_⟩
  refine Value.canonical_ofTable fun key value hvalue => ?_
  have hmem := (Table.ofList_eq_some (by simp)).mp hvalue
  simp only [List.mem_cons, Prod.mk.injEq, List.not_mem_nil, or_false] at hmem
  rcases hmem with ⟨-, rfl⟩ | ⟨-, rfl⟩ | ⟨-, rfl⟩ | ⟨-, rfl⟩
  · rfl
  · exact canonical_jsonInt _
  · exact canonical_dictObject canonical_some_jsonInt hstrings
  · exact canonical_dictObject canonical_some_jsonInt hslots

theorem documentsPayload_eq_some {object : Object} (h : store.documentsPayload = some object) :
    (Value.ofTable object).Canonical ∧ ∃ documents,
      dictObject PyStr.jsonText (fun text => text.jsonText.map .string) store.documents =
        some documents ∧ requiredObject object "documents" = some documents := by
  obtain ⟨documents, hdocuments, h⟩ := Option.bind_eq_some_iff.mp h
  obtain rfl := Option.some.inj h
  refine ⟨Value.canonical_ofTable fun key value hvalue => ?_, documents, hdocuments,
    requiredObject_eq (Table.insertMany_of_nodup (by simp) (by simp))⟩
  have hmem := (Table.ofList_eq_some (by simp)).mp hvalue
  simp only [List.mem_cons, Prod.mk.injEq, List.not_mem_nil, or_false] at hmem
  rcases hmem with ⟨-, rfl⟩ | ⟨-, rfl⟩
  · rfl
  · refine canonical_dictObject (fun text value hvalue => ?_) hdocuments
    obtain ⟨s, -, rfl⟩ := Option.map_eq_some_iff.mp hvalue
    rfl

/-- Each metadata dict is written under its id. -/
structure MetadataOf (store : WorkingCopy PyDict PyStr) (records : Object PyNumber) : Prop where
  lookup : ∀ (text : String) (value : Value PyNumber), records[text]? = some value ↔
    ∃ id dict, store.metadata.lookup id = some dict ∧ id.jsonText = some text ∧
      (PyObject.dict dict).dumps = some value
  written : ∀ id dict, store.metadata.lookup id = some dict →
    id.jsonText.isSome ∧ (PyObject.dict dict).dumps.isSome

theorem metadataPayload_eq_some {metadata : Object PyNumber}
    (h : store.metadataPayload = some metadata) :
    ∃ records, metadata = metadataObject records ∧ MetadataOf store records := by
  obtain ⟨records, hrecords, rfl⟩ := Option.map_eq_some_iff.mp h
  obtain ⟨hlookup, hwritten⟩ := dictObject_eq_some hrecords
  exact ⟨records, rfl, hlookup, hwritten⟩

theorem MetadataOf.canonical {records : Object PyNumber} (h : MetadataOf store records) :
    (Value.ofTable (metadataObject records)).Canonical := by
  refine Value.canonical_ofTable fun key value hvalue => ?_
  have hmem := (Table.ofList_eq_some (by simp)).mp hvalue
  simp only [List.mem_cons, Prod.mk.injEq, List.not_mem_nil, or_false] at hmem
  rcases hmem with ⟨-, rfl⟩ | ⟨-, rfl⟩
  · rfl
  · refine Value.canonical_ofTable fun text value hvalue => ?_
    obtain ⟨_, _, -, -, hdumps⟩ := (h.lookup text value).mp hvalue
    exact PyObject.canonical_dumps hdumps

/-- What is written of the metadata is what `json.loads` returns. -/
theorem MetadataOf.loads {records : Object PyNumber} (h : MetadataOf store records) :
    ∃ members, loadsDict json (json.print ((Value.ofTable (metadataObject records)).toRaw
        (PyNumber.print json.floats))) = some members ∧
      members.distinct = some (metadataObject records) := by
  have hread : ∀ n ∈ (Value.ofTable (metadataObject records)).numbers,
      PyNumber.read json.floats (n.print json.floats) = some n := by
    intro n hn
    obtain ⟨text, value, hvalue, hn⟩ := mem_numbers_ofTable.mp (mem_numbers_metadataObject.mp hn)
    obtain ⟨_, _, -, -, hdumps⟩ := (h.lookup text value).mp hvalue
    exact PyNumber.read_print (PyObject.numbers_dumps hdumps n hn)
  have hcanonical : (Value.ofTable (metadataObject records)).distinct = some _ := h.canonical
  refine ⟨.ofList (metadataObject records).toList, ?_, ?_⟩
  · simp only [loadsDict, json.tree_print, Value.toValue_toRaw hread, hcanonical,
      Option.bind_eq_bind, Option.bind_some, Option.isSome_some, guard, if_true, Option.pure_def]
    rfl
  · obtain ⟨read, hread, heq⟩ := Option.map_eq_some_iff.mp hcanonical
    rw [hread, Value.ofTable_injective heq]

/-- The payloads say what the working copy holds. -/
structure PayloadsOf (store : WorkingCopy PyDict PyStr) (parsed : ParsedPayloads) : Prop where
  bits : parsed.bits = store.index.bits
  dim : parsed.dim = store.index.dimOpt
  emptyLazy : parsed.emptyLazy = store.isEmptyLazy
  stringToU64 : ∀ (text : String) (u64 : Nat), parsed.stringToU64[text]? = some u64 ↔
    ∃ id, store.stringToU64.lookup id = some u64 ∧ id.jsonText = some text
  strings : ∀ id u64, store.stringToU64.lookup id = some u64 → id.jsonText.isSome
  u64ToSlot : ∀ u64, parsed.u64ToSlot[u64]? = store.u64ToSlot.lookup u64
  nextU64Id : parsed.nextU64Id = store.nextU64Id
  documents : ∀ text document : String, parsed.documents[text]? = some document ↔
    ∃ id held, store.documents.lookup id = some held ∧ id.jsonText = some text ∧
      held.jsonText = some document
  texts : ∀ id held, store.documents.lookup id = some held →
    id.jsonText.isSome ∧ held.jsonText.isSome

theorem slotEntry_eq (u64 slot : Nat) (row : Nat × Nat)
    (h : slotEntry (intText u64) (jsonInt slot) = some row) : row = (u64, slot) := by
  obtain ⟨hid, hslot⟩ := slotEntry_eq_some h
  exact Prod.ext (parseU64_intText hid).1 (asU64_jsonInt_eq_some hslot)

theorem maps_of_parse {idMap strings slots documents texts adapter metadata : Object}
    {parsed : ParsedPayloads} (hidMap : IdMapOf store idMap strings slots)
    (hdocuments : dictObject PyStr.jsonText (fun text => text.jsonText.map .string)
      store.documents = some texts)
    (hrequired : requiredObject documents "documents" = some texts)
    (h : ParsedPayloads.parseObjects adapter idMap documents metadata = some parsed) :
    (∀ (text : String) (u64 : Nat), parsed.stringToU64[text]? = some u64 ↔
        ∃ id, store.stringToU64.lookup id = some u64 ∧ id.jsonText = some text) ∧
      (∀ u64, parsed.u64ToSlot[u64]? = store.u64ToSlot.lookup u64) ∧
      parsed.nextU64Id = store.nextU64Id ∧
      ∀ text document : String, parsed.documents[text]? = some document ↔
        ∃ id held, store.documents.lookup id = some held ∧ id.jsonText = some text ∧
          held.jsonText = some document := by
  obtain ⟨-, -, hstrings, hslots, hnext⟩ := ParsedPayloads.parseObjects_idMap h
  obtain ⟨⟨-, -, htexts⟩, -, -, -⟩ := parseObjects_maps h
  rw [hidMap.requiredStrings, Option.bind_some] at hstrings
  rw [hrequired, Option.bind_some] at htexts
  rw [hidMap.requiredSlots, Option.bind_some] at hslots
  rw [requiredU64, hidMap.nextU64Id, Option.bind_some] at hnext
  refine ⟨fun text u64 => ?_, ?_, asU64_jsonInt_eq_some hnext, fun text document => ?_⟩
  · rw [parseStrings_lookup hstrings]
    constructor
    · rintro ⟨value, hvalue, hread⟩
      obtain ⟨id, v, hlookup, hname, hv⟩ := ((dictObject_eq_some hidMap.stringDict).1 _ _).mp hvalue
      obtain rfl := Option.some.inj hv
      exact ⟨id, asU64_jsonInt_eq_some hread ▸ hlookup, hname⟩
    · rintro ⟨id, hlookup, hname⟩
      have hvalue := ((dictObject_eq_some hidMap.stringDict).1 text (jsonInt u64)).mpr
        ⟨id, u64, hlookup, hname, rfl⟩
      have hmember := parseStrings_member hstrings hvalue
      rw [withStringId_of_isSome hmember, Option.isSome_map] at hmember
      obtain ⟨out, hout⟩ := Option.isSome_iff_exists.mp hmember
      exact ⟨_, hvalue, asU64_jsonInt_eq_some hout ▸ hout⟩
  · refine parseEntries_eq_lookup slotEntry_eq (fun text value => ?_) hslots
    simpa using (dictObject_eq_some hidMap.slotDict).1 text value
  · rw [parseStrings_lookup htexts]
    constructor
    · rintro ⟨value, hvalue, hread⟩
      obtain ⟨id, held, hlookup, hname, hv⟩ := ((dictObject_eq_some hdocuments).1 _ _).mp hvalue
      obtain ⟨s, hs, rfl⟩ := Option.map_eq_some_iff.mp hv
      obtain rfl := Option.some.inj hread
      exact ⟨id, held, hlookup, hname, hs⟩
    · rintro ⟨id, held, hlookup, hname, hheld⟩
      exact ⟨.string document, ((dictObject_eq_some hdocuments).1 _ _).mpr
        ⟨id, held, hlookup, hname, by rw [hheld, Option.map_some]⟩, rfl⟩

/-- The parts of a snapshot. -/
structure SnapshotOf (json : JsonModule Text) (store : WorkingCopy PyDict PyStr)
    (snapshot : Snapshot Text) (idMap strings slots documents : Object)
    (records : Object PyNumber) : Prop where
  ids : IdMapOf store idMap strings slots
  texts : store.documentsPayload = some documents
  metadata : MetadataOf store records
  bits : snapshot.bits = .ofNat store.index.bits
  dim : snapshot.dim = store.index.dimOpt.map .ofNat
  emptyLazy : snapshot.emptyLazy = store.isEmptyLazy
  idMapJson : snapshot.idMapJson = json.codec.write (.ofTable idMap)
  documentsJson : snapshot.documentsJson = json.codec.write (.ofTable documents)
  metadataJson : snapshot.metadataJson = json.print
    ((Value.ofTable (metadataObject records)).toRaw (PyNumber.print json.floats))

theorem snapshot_eq_some {snapshot : Snapshot Text}
    (h : store.snapshot json digest = some snapshot) :
    ∃ idMap strings slots documents records,
      SnapshotOf json store snapshot idMap strings slots documents records := by
  obtain ⟨idMap, hidMap, h⟩ := Option.bind_eq_some_iff.mp h
  obtain ⟨documents, hdocuments, h⟩ := Option.bind_eq_some_iff.mp h
  obtain ⟨metadata, hmetadata, hsnapshot⟩ := Option.bind_eq_some_iff.mp h
  obtain ⟨strings, slots, hparts⟩ := idMapPayload_eq_some hidMap
  obtain ⟨records, rfl, hrecords⟩ := metadataPayload_eq_some hmetadata
  obtain rfl := Option.some.inj hsnapshot
  exact ⟨idMap, strings, slots, documents, records, hparts, hdocuments, hrecords, rfl, rfl, rfl,
    rfl, rfl, rfl⟩

/-- The bit width and the dimension are small, so that nothing is cut off. -/
theorem shape_of_parse {snapshot : Snapshot Text} {adapterName indexPath : String}
    {idMap strings slots documents : Object} {records : Object PyNumber}
    (hshaped : Shaped store.index)
    (hsnapshot : SnapshotOf json store snapshot idMap strings slots documents records)
    {idMap' documents' metadata' : Object} {parsed : ParsedPayloads}
    (h : ParsedPayloads.parseObjects (adapterObject snapshot adapterName indexPath) idMap'
      documents' metadata' = some parsed) :
    parsed.bits = store.index.bits ∧ parsed.dim = store.index.dimOpt := by
  obtain ⟨-, -, -, hbits, hdim, -⟩ := ParsedPayloads.parseObjects_adapter h
  obtain ⟨hnumber, -⟩ := Option.filter_eq_some_iff.mp hbits
  constructor
  · have hsmall : store.index.bits < 2 ^ 64 := by
      rcases hshaped.1 with hwidth | hwidth | hwidth <;> rw [hwidth] <;> norm_num
    rw [requiredU64, adapterObject_bits, hsnapshot.bits] at hnumber
    exact (Option.some.inj hnumber).symm.trans (UInt64.toNat_ofNat_of_lt' hsmall)
  · rw [optionalDim, adapterObject_dim, hsnapshot.dim] at hdim
    cases hfound : store.index.dimOpt with
    | none =>
      rw [hfound] at hdim
      exact (Option.some.inj hdim).symm
    | some dim =>
      have hcompatible := hshaped.2 dim hfound
      simp only [validateDimCompatibleWithBits, Bool.and_eq_true, decide_eq_true_eq]
        at hcompatible
      have hsmall : dim < 2 ^ 64 := hcompatible.1.2.trans_lt (by norm_num)
      rw [hfound] at hdim
      obtain ⟨found, hread, hparsed⟩ := Option.map_eq_some_iff.mp hdim
      obtain ⟨hnumber, -⟩ := Option.filter_eq_some_iff.mp hread
      rw [← hparsed, ← Option.some.inj hnumber]
      exact congrArg some (UInt64.toNat_ofNat_of_lt' hsmall)

theorem holds_of_parse {snapshot : Snapshot Text} {adapterName indexPath : String}
    (hshaped : Shaped store.index) (hsnapshot : store.snapshot json digest = some snapshot)
    {parsed : ParsedPayloads}
    (h : ParsedPayloads.parse json.codec (snapshot.payloads json.codec adapterName indexPath) =
      some parsed) : PayloadsOf store parsed := by
  obtain ⟨idMap, strings, slots, documents, records, hparts⟩ := snapshot_eq_some hsnapshot
  obtain ⟨adapter, idMap', documents', metadata', hadapter, hidMap, hdocuments, -, hobjects⟩ :=
    ParsedPayloads.parse_eq_some.mp h
  obtain ⟨hcanonical, texts, htexts, hrequired⟩ := documentsPayload_eq_some hparts.texts
  simp only [Snapshot.payloads, hparts.idMapJson, hparts.documentsJson]
    at hadapter hidMap hdocuments
  obtain rfl := object_of_write (canonical_adapterObject snapshot adapterName indexPath) hadapter
  obtain rfl := object_of_write hparts.ids.canonical hidMap
  obtain rfl := object_of_write hcanonical hdocuments
  obtain ⟨hbits, hdim⟩ := shape_of_parse hshaped hparts hobjects
  obtain ⟨hstrings, hslots, hnext, hdocuments⟩ :=
    maps_of_parse hparts.ids htexts hrequired hobjects
  exact {
    bits := hbits
    dim := hdim
    emptyLazy := (parse_snapshot h).1.trans hparts.emptyLazy
    stringToU64 := hstrings
    strings := fun id u64 hid => ((dictObject_eq_some hparts.ids.stringDict).2 id u64 hid).1
    u64ToSlot := hslots
    nextU64Id := hnext
    documents := hdocuments
    texts := fun id held hheld => by
      obtain ⟨hname, hraw⟩ := (dictObject_eq_some htexts).2 id held hheld
      exact ⟨hname, by rwa [Option.isSome_map] at hraw⟩ }

/-- The keys of the slots are plain decimal numbers. -/
theorem plainKeys_slots {slots : Object}
    (h : dictObject (some ∘ intText) (some ∘ jsonInt) store.u64ToSlot = some slots)
    (hparse : ∀ key ∈ slots.keys, (parseU64 key).isSome) : PlainKeys slots.keys := by
  have hkeys : ∀ key ∈ slots.keys, ∃ u64, intText u64 = key := by
    intro key hkey
    obtain ⟨value, hvalue⟩ := Option.isSome_iff_exists.mp
      (Std.ExtTreeMap.mem_iff_isSome_getElem?.mp (Std.ExtTreeMap.mem_keys.mp hkey))
    obtain ⟨u64, _, -, hname, -⟩ := ((dictObject_eq_some h).1 key value).mp hvalue
    exact ⟨u64, Option.some.inj hname⟩
  refine ⟨fun key hkey => ?_, Std.ExtTreeMap.nodup_keys.map_on fun a ha b hb hsame => ?_⟩
  · obtain ⟨u64, rfl⟩ := hkeys key hkey
    obtain ⟨n, hn⟩ := Option.isSome_iff_exists.mp (hparse _ hkey)
    rw [toList_intText]
    refine ⟨fun hhead => plus_not_mem_decimal u64 (List.mem_of_head? hhead), ?_⟩
    have hdigits : (decimal u64).length ≤ 20 :=
      Nat.toDigits_length 10 u64 20 (by norm_num) ((parseU64_intText hn).2.trans (by decide))
    exact hdigits.trans (by decide)
  · obtain ⟨m, rfl⟩ := hkeys a ha
    obtain ⟨n, rfl⟩ := hkeys b hb
    rw [toList_intText, toList_intText, stripZeros_eq_iff (fun c => isDigit_of_mem_decimal)
      fun c => isDigit_of_mem_decimal] at hsame
    have hm : Nat.ofDigitChars 10 (decimal m) 0 = m := Nat.ofDigitChars_ten_toDigits
    have hn : Nat.ofDigitChars 10 (decimal n) 0 = n := Nat.ofDigitChars_ten_toDigits
    rw [hm, hn] at hsame
    rw [hsame]

theorem slotKeys_snapshot {snapshot : Snapshot Text} {idMap strings slots documents : Object}
    {records : Object PyNumber}
    (hparts : SnapshotOf json store snapshot idMap strings slots documents records)
    {adapterName indexPath : String} {parsed : ParsedPayloads}
    (h : ParsedPayloads.parse json.codec (snapshot.payloads json.codec adapterName indexPath) =
      some parsed) : slotKeys json.codec snapshot.idMapJson = slots.keys := by
  obtain ⟨_, idMap', _, _, -, hidMap, -, -, -⟩ := ParsedPayloads.parse_eq_some.mp h
  have hread := hidMap
  simp only [Snapshot.payloads, hparts.idMapJson] at hread
  obtain rfl := object_of_write hparts.ids.canonical hread
  unfold slotKeys
  rw [show (parseJsonObject json.codec snapshot.idMapJson).bind Value.asObject = _ from hidMap,
    Option.bind_some, hparts.ids.requiredSlots, Option.elim_some]

end Read

/-! ## A save that returns -/

/-- Without another process no call fails on a lock. -/
theorem writeContended_quiet (codec : JsonCodec Text) (env : Env) (storeFile : StoreFile Text)
    (expected : Option StoreRevision) (payloads : LegacyPayloads Text) :
    (writeContended codec env .none storeFile expected payloads).1 ≠ .error .contended := by
  unfold writeContended
  split
  next => simp
  next =>
    rw [if_neg (by simp [Contention.none])]
    split
    next => simp
    next =>
      rw [if_neg (by simp [Contention.none])]
      split
      next => simp
      next =>
        rw [if_neg (by simp [Contention.none])]
        split <;> simp

theorem publish_file (base : Base Path) (target : Path) (adapterName : Option String)
    (indexPath : String) (manifest : Manifest) (storeFile : StoreFile Text) :
    (publish base target adapterName indexPath manifest storeFile).2.2 = storeFile := by
  unfold publish
  split <;> rfl

/-- What a save that returns has written opens. -/
theorem save_returned [DecidableEq Path] {codec : JsonCodec Text} {env : Env}
    {snapshot : Snapshot Text} {base : Base Path} {target : Path} {adapterName : Option String}
    {dir : Directory Text} {nextIndexPath : String} {written : Bool}
    (h : (Adapter.save codec env .none snapshot base target adapterName dir nextIndexPath
      written).1 = .returned) :
    ∃ verified, openVerified codec env.disk (Adapter.save codec env .none snapshot base target
        adapterName dir nextIndexPath written).2.2 none = some verified ∧
      verified.payloads = snapshot.payloads codec (adapterName.getD base.adapterName)
        (savedIndexPath snapshot nextIndexPath) := by
  revert h
  unfold Adapter.save
  split
  case isFalse => exact fun h => SaveResult.noConfusion h
  case isTrue =>
    split
    case isFalse => exact fun h => SaveResult.noConfusion h
    case isTrue =>
      dsimp only
      split
      next => exact fun h => SaveResult.noConfusion h
      next expected _ =>
        have hcases := writeContended_cases codec env .none dir.storeFile expected
          (snapshot.payloads codec (adapterName.getD base.adapterName)
            (savedIndexPath snapshot nextIndexPath))
        split
        next manifest storeFile hwrite =>
          intro _
          rw [publish_file]
          rw [hwrite] at hcases
          rcases hcases with ⟨_, hpublished, hanswer⟩ | ⟨-, _, hfailure⟩
          · obtain ⟨rfl, hopen⟩ := hanswer manifest rfl
            obtain ⟨verified, hverified⟩ := Option.isSome_iff_exists.mp hopen
            exact ⟨verified, hverified, (hpublished.opens hverified).2⟩
          · cases hfailure
        next => exact fun h => SaveResult.noConfusion h
        next storeFile hwrite =>
          refine absurd ?_ (writeContended_quiet codec env dir.storeFile expected
            (snapshot.payloads codec (adapterName.getD base.adapterName)
              (savedIndexPath snapshot nextIndexPath)))
          rw [hwrite]

/-! ## The round trip -/

/-- The loaded store is the one in memory. A loaded dict has the texts of its strings as keys. -/
structure RoundTrips (store : WorkingCopy PyDict PyStr) (loaded : AdapterStore) : Prop where
  bits : loaded.bits = store.index.bits
  dim : loaded.index.map (·.2.dim) = store.index.dimOpt
  stringToU64 : ∀ id : PyStr,
    id.toText.bind (loaded.idMap.stringToU64[·]?) = store.stringToU64.lookup id
  u64ToSlot : ∀ u64, loaded.idMap.u64ToSlot[u64]? = store.u64ToSlot.lookup u64
  nextU64Id : loaded.idMap.nextU64Id = store.nextU64Id
  documents : ∀ id : PyStr,
    (id.toText.bind (loaded.documents[·]?)).map PyStr.ofText = store.documents.lookup id
  metadata : ∀ id : PyStr,
    (store.metadata.lookup id).map (fun dict => (PyObject.dict dict).asLoaded) =
      (id.toText.bind (loaded.metadata[·]?)).map some

def indexPath (store : WorkingCopy PyDict PyStr) (call : SaveCall Text Path) : String :=
  if store.isEmptyLazy then indexDir else generationIndexPath call.generationId

/-- The documents that a save hands over. -/
def payloads (json : JsonModule Text) (digest : Text → String) (store : WorkingCopy PyDict PyStr)
    (base : Base Path) (call : SaveCall Text Path) : Option (LegacyPayloads Text) :=
  (store.snapshot json digest).map fun snapshot =>
    snapshot.payloads json.codec (call.adapterName.getD base.adapterName) (store.indexPath call)

/-- What the reader asks for and the writer does not check. -/
structure Loadable (json : JsonModule Text) (digest : Text → String) (around : Surroundings Text)
    (store : WorkingCopy PyDict PyStr) (base : Base Path) (call : SaveCall Text Path) : Prop where
  adapterSize : ∀ texts, store.payloads json digest base call = some texts →
    around.size texts.adapterJson ≤ maxAdapterJsonBytes
  sidecarSizes : ∀ texts, store.payloads json digest base call = some texts →
    ∀ text ∈ [texts.idMapJson, texts.documentsJson, texts.metadataJson],
      around.size text ≤ maxSidecarJsonBytes
  ids : ∀ id u64, store.stringToU64.lookup id = some u64 → id.hasPair = false
  documents : ∀ id text, store.documents.lookup id = some text →
    id.hasPair = false ∧ text.hasPair = false
  metadata : ∀ id dict, store.metadata.lookup id = some dict → id.hasPair = false ∧ dict.plain
  empty : store.isEmptyLazy → call.env.disk.index = none ∧ call.env.disk.vectors = none

theorem not_hasDot_generationIndexPath (generationId : Nat) :
    ¬HasDot (generationIndexPath generationId) := by
  have hdigits : ∀ c ∈ (decimal generationId).leftpad 12 '0', c.isDigit := by
    intro c hc
    rcases List.mem_append.mp hc with hzero | hdigit
    · rw [List.eq_of_mem_replicate hzero]
      decide
    · exact isDigit_of_mem_decimal hdigit
  unfold HasDot generationIndexPath
  rw [splitOn_generationPath hdigits]
  simp

theorem not_hasDot_indexPath (store : WorkingCopy PyDict PyStr) (call : SaveCall Text Path) :
    ¬HasDot (store.indexPath call) := by
  unfold indexPath
  split
  next => decide +kernel
  next => exact not_hasDot_generationIndexPath call.generationId

/-- What a save that returns has written is what the working copy holds. -/
theorem opens_of_returned [DecidableEq Path] {json : JsonModule Text} {digest : Text → String}
    {store : WorkingCopy PyDict PyStr} {base : Base Path} (hshaped : Shaped store.index)
    {call : SaveCall Text Path} (h : (store.save json digest base call).1 = .returned) :
    ∃ snapshot idMap strings slots documents records verified parsed generation,
      store.snapshot json digest = some snapshot ∧
      SnapshotOf json store snapshot idMap strings slots documents records ∧
      openVerified json.codec call.env.disk (store.save json digest base call).2.2 none =
        some verified ∧
      verified.payloads = snapshot.payloads json.codec (call.adapterName.getD base.adapterName)
        (store.indexPath call) ∧
      Opens json.codec call.env.disk (store.save json digest base call).2.2.rows none none verified
        parsed generation ∧
      parsed.indexPath = store.indexPath call ∧ PayloadsOf store parsed := by
  unfold save at h ⊢
  split at h
  next hconsistent =>
    rw [if_pos hconsistent]
    cases hsnapshot : store.snapshot json digest with
    | none =>
      rw [hsnapshot] at h
      cases h
    | some snapshot =>
      rw [hsnapshot] at h
      obtain ⟨verified, hverified, hpayloads⟩ := save_returned h
      obtain ⟨idMap, strings, slots, documents, records, hparts⟩ := snapshot_eq_some hsnapshot
      obtain ⟨parsed, generation, hopens⟩ := opens_of_openVerified hverified
      have hparses := hopens.parses
      rw [hpayloads] at hparses
      have hpath : savedIndexPath snapshot (generationIndexPath call.generationId) =
          store.indexPath call := by
        unfold savedIndexPath indexPath
        rw [hparts.emptyLazy]
      rw [hpath] at hpayloads
      exact ⟨snapshot, idMap, strings, slots, documents, records, verified, parsed, generation,
        rfl, hparts, hverified, hpayloads, hopens, (parse_snapshot hparses).2.trans hpath,
        holds_of_parse hshaped hsnapshot hparses⟩
  next => cases h

/-- What a save that returns has written keeps to the limits of the reader, its id map is read
as it was parsed, and its metadata is read. -/
structure Readable (json : JsonModule Text) (around : Surroundings Text) (disk : Disk)
    (payloads : LegacyPayloads Text) (parsed : ParsedPayloads) : Prop where
  fits : Fits around disk payloads parsed
  idMap : ∃ members, loadsObject json.codec payloads.idMapJson = some members ∧
    parseIdMap members = some (idMapOf parsed)
  metadata : ∃ tree records, SharedMetadata json payloads.metadataJson parsed tree records

theorem readable_of_returned [DecidableEq Path] {json : JsonModule Text} {digest : Text → String}
    {around : Surroundings Text} {store : WorkingCopy PyDict PyStr} {base : Base Path}
    (hshaped : Shaped store.index) {call : SaveCall Text Path}
    (hreturned : (store.save json digest base call).1 = .returned)
    (hloads : ∀ bundle, call.env.disk.bundle (store.indexPath call) = some bundle →
      around.loads bundle)
    (hadapter : ∀ texts, store.payloads json digest base call = some texts →
      around.size texts.adapterJson ≤ maxAdapterJsonBytes)
    (hsidecars : ∀ texts, store.payloads json digest base call = some texts →
      ∀ text ∈ [texts.idMapJson, texts.documentsJson, texts.metadataJson],
        around.size text ≤ maxSidecarJsonBytes)
    (hempty : store.isEmptyLazy → call.env.disk.index = none ∧ call.env.disk.vectors = none) :
    ∃ verified parsed generation,
      openVerified json.codec call.env.disk (store.save json digest base call).2.2 none =
        some verified ∧
      store.payloads json digest base call = some verified.payloads ∧
      Opens json.codec call.env.disk (store.save json digest base call).2.2.rows none none verified
        parsed generation ∧
      parsed.indexPath = store.indexPath call ∧ PayloadsOf store parsed ∧
      Readable json around call.env.disk verified.payloads parsed ∧
      ∀ tree records, SharedMetadata json verified.payloads.metadataJson parsed tree records →
        MetadataOf store (mapNumbers Prod.snd records) := by
  obtain ⟨snapshot, idMap, strings, slots', documents, records, verified, parsed, generation,
    hsnapshot, hparts, hverified, hpayloads, hopens, hpath, hholds⟩ :=
    opens_of_returned hshaped hreturned
  obtain ⟨members, slotsDict, slots, slotRows, htree⟩ := sharedTree hopens.parses
  have htexts : store.payloads json digest base call = some verified.payloads := by
    rw [payloads, hsnapshot, hpayloads]
    rfl
  obtain ⟨dict, hdict, hdistinct⟩ := @MetadataOf.loads _ json _ _ hparts.metadata
  rw [← hparts.metadataJson] at hdict
  have hdict : loadsDict json verified.payloads.metadataJson = some dict := by
    rw [hpayloads]
    exact hdict
  refine ⟨verified, parsed, generation, hverified, htexts, hopens, hpath, hholds,
    ⟨?_, ⟨members, htree.loads, ?_⟩, ?_⟩, fun tree both hshared => ?_⟩
  · refine ⟨hadapter _ htexts, hsidecars _ htexts, ?_, fun hlazy => ?_,
      fun _ bundle hbundle => ?_, fun dim hdim => ?_⟩
    · rw [hpath]
      exact not_hasDot_indexPath store call
    · exact hempty (hholds.emptyLazy.symm.trans hlazy)
    · exact hloads bundle (hpath ▸ hbundle)
    · rw [hholds.bits]
      exact hshaped.2 dim (hholds.dim.symm.trans hdim)
  · -- the slots are written under decimal keys, which Python reads as the same integers
    have hkeys := htree.parse_isSome
    have hsame : slots.keys = slots'.keys := by
      have hparses := hopens.parses
      rw [hpayloads] at hparses
      rw [← htree.keys, hpayloads]
      exact slotKeys_snapshot hparts hparses
    rw [hsame] at hkeys
    rw [htree.python,
      htree.dictItems_slots (hsame ▸ plainKeys_slots hparts.ids.slotDict hkeys)]
    rfl
  · obtain ⟨tree, hdocument, hreads⟩ := isSome_of_loadsDict hdict
    exact ⟨tree, sharedMetadata hopens hdocument hreads⟩
  · -- Python finds the tree that was written
    obtain ⟨dict', hdict', hdistinct', -⟩ := hshared.python
    obtain rfl := Option.some.inj (hdict.symm.trans hdict')
    have hsame := Option.some.inj (hdistinct.symm.trans hdistinct')
    exact metadataObject_injective hsame ▸ hparts.metadata

/-- Where no id has a pair of surrogates, the entries of a dict are found under their texts. -/
theorem bind_toText {V W : Type} {dict : Finmap fun _ : PyStr => V} {table : Table String W}
    (raw : V → Option W) (htable : ∀ (text : String) (w : W), table[text]? = some w ↔
      ∃ id v, dict.lookup id = some v ∧ id.jsonText = some text ∧ raw v = some w)
    (hwritten : ∀ id v, dict.lookup id = some v → id.jsonText.isSome ∧ (raw v).isSome)
    (hpairs : ∀ id v, dict.lookup id = some v → id.hasPair = false) (id : PyStr) :
    id.toText.bind (table[·]?) = (dict.lookup id).bind raw := by
  cases hlookup : dict.lookup id with
  | some v =>
    obtain ⟨hname, hraw⟩ := hwritten id v hlookup
    obtain ⟨text, htext⟩ := Option.isSome_iff_exists.mp hname
    obtain ⟨w, hw⟩ := Option.isSome_iff_exists.mp hraw
    rw [PyStr.toText_of_jsonText (hpairs id v hlookup) htext, Option.bind_some, Option.bind_some,
      hw, (htable text w).mpr ⟨id, v, hlookup, htext, hw⟩]
  | none =>
    rw [Option.bind_none, Option.bind_eq_none_iff]
    intro text htext
    by_contra hsome
    obtain ⟨w, hw⟩ := Option.ne_none_iff_exists'.mp hsome
    obtain ⟨id', v, hlookup', htext', -⟩ := (htable text w).mp hw
    have hsame := PyStr.toText_eq_some.mp
      (PyStr.toText_of_jsonText (hpairs id' v hlookup') htext')
    rw [hsame, ← PyStr.toText_eq_some.mp htext, hlookup] at hlookup'
    cases hlookup'

/-- A save that returns is loaded as the same store exactly when it was loadable. The generation
that it writes is one that `OrdinalIndex.load` takes. -/
theorem save_round_trips_iff [DecidableEq Path] (json : JsonModule Text) (digest : Text → String)
    (around : Surroundings Text) {store : WorkingCopy PyDict PyStr} {base : Base Path}
    (hsession : Session json digest store base) (call : SaveCall Text Path)
    (hreturned : (store.save json digest base call).1 = .returned)
    (hloads : ∀ bundle, call.env.disk.bundle (store.indexPath call) = some bundle →
      around.loads bundle) :
    (∃ loaded, AdapterStore.load json around call.env.disk
        (store.save json digest base call).2.2 none = some loaded ∧ RoundTrips store loaded) ↔
      Loadable json digest around store base call := by
  constructor
  · rintro ⟨loaded, hload, htrips⟩
    obtain ⟨snapshot, _, _, _, _, _, verified, parsed, generation, hsnapshot, -, hverified,
      hpayloads, hopens, -, hholds⟩ := opens_of_returned hsession.shaped hreturned
    obtain ⟨members, _, _, _, htree⟩ := sharedTree hopens.parses
    have htexts : store.payloads json digest base call = some verified.payloads := by
      rw [payloads, hsnapshot, hpayloads]
      rfl
    obtain ⟨hfits, token, index, idMap, slotToU64, tree, records, -, -, rfl⟩ :=
      of_load hopens hverified htree.loads hload
    -- an entry that is found under the text of its id has no pair of surrogates in the id
    have hpair : ∀ {V : Type} {id : PyStr} {found : String → Option V} {v : V},
        id.toText.bind found = some v → id.hasPair = false := by
      intro V id found v hfound
      obtain ⟨text, htext, -⟩ := Option.bind_eq_some_iff.mp hfound
      exact PyStr.hasPair_of_toText htext
    refine ⟨fun texts h => ?_, fun texts h => ?_, fun id u64 hid => ?_, fun id text hid => ?_,
      fun id dict hdict => ?_, fun hempty => hfits.lazy (hholds.emptyLazy.trans hempty)⟩
    · exact Option.some.inj (htexts.symm.trans h) ▸ hfits.adapterSize
    · exact Option.some.inj (htexts.symm.trans h) ▸ hfits.sidecarSizes
    · exact hpair ((htrips.stringToU64 id).trans hid)
    · obtain ⟨s, hs, rfl⟩ := Option.map_eq_some_iff.mp ((htrips.documents id).trans hid)
      exact ⟨hpair hs, PyStr.hasPair_of_toText (PyStr.toText_eq_some.mpr rfl)⟩
    · have hread := htrips.metadata id
      rw [hdict, Option.map_some] at hread
      obtain ⟨value, hvalue, hloaded⟩ := Option.map_eq_some_iff.mp hread.symm
      exact ⟨hpair hvalue, PyObject.plain_of_asLoaded (x := .dict dict) hloaded.symm⟩
  · intro hloadable
    obtain ⟨verified, parsed, generation, hverified, -, hopens, -, hholds,
      ⟨hfits, ⟨members, hmembers, hidMap⟩, tree, records, hshared⟩, hmetadata⟩ :=
      readable_of_returned hsession.shaped hreturned hloads hloadable.adapterSize
        hloadable.sidecarSizes hloadable.empty
    obtain ⟨index, slotToU64, hload, -, hdim⟩ :=
      load_of hopens hverified hmembers hfits hidMap hshared
    have hwritten := hmetadata tree records hshared
    refine ⟨_, hload, hholds.bits, hdim.trans hholds.dim, fun id => ?_, hholds.u64ToSlot,
      hholds.nextU64Id, fun id => ?_, fun id => ?_⟩
    · refine (bind_toText some (fun text u64 => ?_) (fun id u64 hid => ?_)
        hloadable.ids id).trans (Option.bind_fun_some _)
      · refine (hholds.stringToU64 text u64).trans ?_
        simp
      · exact ⟨hholds.strings id u64 hid, rfl⟩
    · refine (congrArg (Option.map PyStr.ofText) (bind_toText _ hholds.documents hholds.texts
        (fun id text hid => (hloadable.documents id text hid).1) id)).trans ?_
      cases hheld : store.documents.lookup id with
      | none => rfl
      | some held =>
        obtain ⟨s, hs⟩ := Option.isSome_iff_exists.mp (hholds.texts id held hheld).2
        rw [Option.bind_some, hs, Option.map_some, ← PyStr.toText_eq_some.mp
          (PyStr.toText_of_jsonText (hloadable.documents id held hheld).2 hs)]
    · have hfound := bind_toText (fun dict => (PyObject.dict dict).dumps) hwritten.lookup
        hwritten.written (fun id dict hid => (hloadable.metadata id dict hid).1) id
      refine Eq.trans ?_ (congrArg (Option.map some) hfound).symm
      cases hdict : store.metadata.lookup id with
      | none => rfl
      | some dict =>
        obtain ⟨value, hvalue⟩ := Option.isSome_iff_exists.mp (hwritten.written id dict hdict).2
        have hplain : (PyObject.dict dict).plain := (hloadable.metadata id dict hdict).2
        rw [Option.map_some, PyObject.asLoaded_of_plain hplain hvalue, Option.bind_some, hvalue,
          Option.map_some]

def idA : PyStr := .ofText "a"

def someText : PyStr := .ofText "text"

/-- A batch of one record. -/
def oneRecord (document : PyStr) (metadata : PyDict) : AddArguments PyDict PyStr where
  ids := [.str idA]
  embeddings := asarray [some (.zeros 8)]
  documents := [.str document]
  metadatas := some [.dict metadata]
  upsert := false

def freshBase : Base String := ⟨some "store", none, none, none, true, "langchain"⟩

/-- The first save into a directory. -/
def firstSave : SaveCall Raw String where
  target := "store"
  adapterName := none
  dir := ⟨.missing, ⟨none, none⟩, none⟩
  env := { singleEnv with disk :=
    ⟨none, some ((∅ : Table String Store.Node).insert "g000000000001.odb"
      (.dir (some ⟨2, 8, 1, "digest", 100⟩)))⟩ }
  generationId := 1
  written := true

/-- A store with one record. -/
def oneRecordStore (document : PyStr) (metadata : PyDict) : WorkingCopy PyDict PyStr :=
  ((new 2 none : WorkingCopy PyDict PyStr).answer (.add (oneRecord document metadata))).2

theorem session_oneRecordStore (document : PyStr) (metadata : PyDict) :
    Session exampleJson (fun _ => "") (oneRecordStore document metadata) freshBase :=
  .call (.new freshBase (.inr (.inl rfl)) fun d hd => absurd hd.symm (Option.some_ne_none d)) _

theorem lookup_insert_eq_some {K V : Type} [DecidableEq K] {key other : K} {value found : V}
    (h : ((∅ : Finmap fun _ : K => V).insert key value).lookup other = some found) :
    other = key ∧ found = value := by
  by_cases hkey : other = key
  · rw [hkey, Finmap.lookup_insert] at h
    exact ⟨hkey, (Option.some.inj h).symm⟩
  · rw [Finmap.lookup_insert_of_ne _ hkey, Finmap.lookup_empty] at h
    cases h

/-- A dict with the number 18446744073709551617. -/
def longNumber : PyDict := .cons (.str (PyStr.ofText "n")) (.number (.int (2 ^ 64 + 1))) .nil

theorem save_round_trips_single : ∃ loaded, AdapterStore.load exampleJson exampleAround
      firstSave.env.disk ((oneRecordStore someText longNumber).save exampleJson
        (fun _ => "") freshBase firstSave).2.2 none = some loaded ∧
    RoundTrips (oneRecordStore someText longNumber) loaded := by
  refine (save_round_trips_iff exampleJson (fun _ => "") exampleAround
    (session_oneRecordStore someText longNumber) firstSave (by decide +kernel)
    fun _ _ => rfl).mpr
    ⟨fun _ _ => Nat.zero_le _, fun _ _ _ _ => Nat.zero_le _, fun id u64 hid => ?_,
      fun id text hid => ?_, fun id dict hid => ?_, fun hempty => absurd hempty (by decide +kernel)⟩
  · have hids : (oneRecordStore someText longNumber).stringToU64 =
        (∅ : Finmap fun _ : PyStr => Nat).insert idA 1 := rfl
    rw [hids] at hid
    rw [(lookup_insert_eq_some hid).1]
    decide
  · have hdocuments : (oneRecordStore someText longNumber).documents =
        (∅ : Finmap fun _ : PyStr => PyStr).insert idA someText := rfl
    rw [hdocuments] at hid
    obtain ⟨rfl, rfl⟩ := lookup_insert_eq_some hid
    decide
  · have hmetadata : (oneRecordStore someText longNumber).metadata =
        (∅ : Finmap fun _ : PyStr => PyDict).insert idA longNumber := rfl
    rw [hmetadata] at hid
    obtain ⟨rfl, rfl⟩ := lookup_insert_eq_some hid
    decide

/-- A dict whose key is the number 1. -/
def numberKeyed : PyDict := .cons (.number "1") (.str (PyStr.ofText "x")) .nil

/-- U+1F600 as two surrogates. -/
def surrogates : PyStr := [0xd83d, 0xde00]

/-- The number comes back as the string `"1"`, and the two surrogates as one character. -/
theorem records_changed :
    (Session exampleJson (fun _ => "") (oneRecordStore someText numberKeyed) freshBase ∧
      ((oneRecordStore someText numberKeyed).save exampleJson (fun _ => "") freshBase
        firstSave).1 = .returned ∧
      ¬∃ loaded, AdapterStore.load exampleJson exampleAround firstSave.env.disk
          ((oneRecordStore someText numberKeyed).save exampleJson (fun _ => "") freshBase
            firstSave).2.2 none = some loaded ∧
        RoundTrips (oneRecordStore someText numberKeyed) loaded) ∧
    Session exampleJson (fun _ => "") (oneRecordStore surrogates ∅) freshBase ∧
      ((oneRecordStore surrogates ∅).save exampleJson (fun _ => "") freshBase firstSave).1 =
        .returned ∧
      ¬∃ loaded, AdapterStore.load exampleJson exampleAround firstSave.env.disk
          ((oneRecordStore surrogates ∅).save exampleJson (fun _ => "") freshBase
            firstSave).2.2 none = some loaded ∧
        RoundTrips (oneRecordStore surrogates ∅) loaded := by
  refine ⟨⟨session_oneRecordStore _ _, by decide +kernel, ?_⟩, session_oneRecordStore _ _,
    by decide +kernel, ?_⟩
  · rintro ⟨loaded, -, htrips⟩
    have hlookup : (oneRecordStore someText numberKeyed).metadata.lookup idA =
        some numberKeyed := rfl
    have hread := htrips.metadata idA
    rw [hlookup, Option.map_some] at hread
    obtain ⟨value, -, hvalue⟩ := Option.map_eq_some_iff.mp hread.symm
    cases hvalue
  · rintro ⟨loaded, -, htrips⟩
    have hlookup : (oneRecordStore surrogates ∅).documents.lookup idA =
        some surrogates := rfl
    obtain ⟨s, -, hs⟩ := Option.map_eq_some_iff.mp ((htrips.documents idA).trans hlookup)
    have hpair := PyStr.hasPair_of_toText (PyStr.toText_eq_some.mpr hs.symm)
    exact absurd hpair (by decide)

end WorkingCopy

end OrdinalDB.Adapter
