import OrdinalDB.Lib.Json
import OrdinalDB.Store.Disk

/-!
# The legacy JSON payloads

The four payload texts of an adapter store and their strict parsing
(`ParsedPayloads::parse` of `ordinaldb-adapter-store/src/lib.rs`).

JSON texts are of an arbitrary type; `JsonCodec` is what `serde_json` promises
about printing and reading them. The reader stops at its recursion limit, the
printer has none.
-/

namespace OrdinalDB.Store

open Json Text

/-! ## Texts -/

/-- The deepest nesting that the reader accepts. -/
def maxReadDepth : Nat := 127

structure JsonCodec (Text : Type) where
  /-- The tree of a text without trailing data; repeated keys are still there. -/
  read : Text → Option Value
  write : Value → Text
  read_write : ∀ value : Value, value.Canonical →
    read (write value) = if value.depth ≤ maxReadDepth then some value else none
  depth_read : ∀ text value, read text = some value → value.depth ≤ maxReadDepth

/-- Texts that are the trees themselves. -/
def JsonCodec.ofTrees : JsonCodec Value where
  read value := if value.depth ≤ maxReadDepth then some value else none
  write value := value
  read_write _ _ := rfl
  depth_read text value h := by
    split at h
    next hdepth =>
      cases h
      exact hdepth
    next => cases h

variable {Text : Type}

/-- `parse_json_object`: an object without repeated keys. -/
def parseJsonObject (codec : JsonCodec Text) (text : Text) : Option Value := do
  let value ← codec.read text
  let value ← value.distinct
  if value.asObject.isSome then pure value else none

/-! ## Fields -/

def asStr {N : Type} : Value N → Option String
  | .string s => some s
  | _ => none

def asU64 : Value → Option Nat
  | .number (.posInt n) => some n.toNat
  | _ => none

def asBool : Value → Option Bool
  | .bool b => some b
  | _ => none

/-- An object as the map of its members. -/
abbrev Object (N : Type := Number) := Table String (Value N)

variable {N : Type}

def requiredString (object : Object N) (field : String) : Option String := object[field]?.bind asStr

def requiredU64 (object : Object) (field : String) : Option Nat := object[field]?.bind asU64

def requiredBool (object : Object) (field : String) : Option Bool := object[field]?.bind asBool

def requiredObject (object : Object N) (field : String) : Option (Object N) :=
  object[field]?.bind Value.asObject

def requiredBits (object : Object) : Option Nat :=
  (requiredU64 object "bits").filter fun bits => bits = 1 ∨ bits = 2 ∨ bits = 4

/-- The outer option is the error; a missing or null `dim` is `none`. -/
def optionalDim (object : Object) : Option (Option Nat) :=
  match object["dim"]? with
  | none | some .null => some none
  | some value => ((asU64 value).filter fun dim => 0 < dim).map some

def requireExactKeys (object : Object N) (expected : List String) : Bool :=
  object.keys.all (· ∈ expected) && expected.all (· ∈ object)

/-! ## Maps -/

/-- Read every member of a map; a bad one is an error, and a later one wins. -/
def parseEntries {K V : Type} [Ord K] [Std.TransOrd K] (entry : String → Value N → Option (K × V))
    (object : Object N) : Option (Table K V) :=
  (object.toList.mapM fun (key, value) => entry key value).map
    fun rows => (∅ : Table K V).insertMany rows

/-- `str::parse::<u64>`. -/
def parseU64 (text : String) : Option Nat :=
  match text.toList with
  | '+' :: digits => parseDecimal u64Bound digits
  | digits => parseDecimal u64Bound digits

def withStringId {V : Type} (read : Value N → Option V) (key : String) (value : Value N) :
    Option (String × V) :=
  if key = "" then none else (read value).map fun v => (key, v)

def parseStringToU64 : Object → Option (Table String Nat) := parseEntries (withStringId asU64)

def parseU64ToSlot : Object → Option (Table Nat Nat) :=
  parseEntries fun key value => do
    let id ← parseU64 key
    let slot ← asU64 value
    pure (id, slot)

def parseDocuments : Object → Option (Table String String) := parseEntries (withStringId asStr)

def parseMetadata : Object N → Option (Table String (Value N)) :=
  parseEntries (withStringId fun value => if value.asObject.isSome then some value else none)

/-! ## Payloads -/

structure LegacyPayloads (Text : Type) where
  adapterJson : Text
  idMapJson : Text
  documentsJson : Text
  metadataJson : Text
deriving DecidableEq

structure ParsedPayloads where
  adapterName : String
  bits : Nat
  dim : Option Nat
  emptyLazy : Bool
  indexPath : String
  stringToU64 : Table String Nat
  u64ToSlot : Table Nat Nat
  documents : Table String String
  metadata : Table String Value
  nextU64Id : Nat

namespace ParsedPayloads

/-- The u64 ids of the active strings. -/
def u64Ids (parsed : ParsedPayloads) : List Nat := parsed.stringToU64.toList.map Prod.snd

/-- `validate_maps`. -/
structure ValidMaps (parsed : ParsedPayloads) : Prop where
  documents : parsed.documents.keys = parsed.stringToU64.keys
  metadata : parsed.metadata.keys = parsed.stringToU64.keys
  nonempty : "" ∉ parsed.stringToU64
  distinct : parsed.u64Ids.Nodup
  allocated : ∀ id ∈ parsed.u64Ids, id < parsed.nextU64Id
  slotKeys : (∀ id ∈ parsed.u64ToSlot.keys, id ∈ parsed.u64Ids) ∧
    ∀ id ∈ parsed.u64Ids, id ∈ parsed.u64ToSlot
  slots : (parsed.u64ToSlot.toList.map Prod.snd).Nodup

instance (parsed : ParsedPayloads) : Decidable parsed.ValidMaps :=
  decidable_of_iff
    (parsed.documents.keys = parsed.stringToU64.keys ∧
      parsed.metadata.keys = parsed.stringToU64.keys ∧ "" ∉ parsed.stringToU64 ∧
      parsed.u64Ids.Nodup ∧ (∀ id ∈ parsed.u64Ids, id < parsed.nextU64Id) ∧
      ((∀ id ∈ parsed.u64ToSlot.keys, id ∈ parsed.u64Ids) ∧
        ∀ id ∈ parsed.u64Ids, id ∈ parsed.u64ToSlot) ∧
      (parsed.u64ToSlot.toList.map Prod.snd).Nodup)
    ⟨fun ⟨h1, h2, h3, h4, h5, h6, h7⟩ => ⟨h1, h2, h3, h4, h5, h6, h7⟩,
      fun ⟨h1, h2, h3, h4, h5, h6, h7⟩ => ⟨h1, h2, h3, h4, h5, h6, h7⟩⟩

def parseObjects (adapter idMap documents metadata : Object) : Option ParsedPayloads := do
  guard (requireExactKeys adapter
    ["schema_version", "adapter", "bits", "dim", "empty_lazy", "index_path", "sidecars"])
  guard (requireExactKeys idMap ["schema_version", "next_u64_id", "string_to_u64", "u64_to_slot"])
  guard (requireExactKeys documents ["schema_version", "documents"])
  guard (requireExactKeys metadata ["schema_version", "metadata"])
  guard (requiredString adapter "schema_version" = some "ordinaldb.adapter.v1")
  guard (requiredString idMap "schema_version" = some "ordinaldb.adapter.id_map.v1")
  guard (requiredString documents "schema_version" = some "ordinaldb.adapter.documents.v1")
  guard (requiredString metadata "schema_version" = some "ordinaldb.adapter.metadata.v1")
  let parsed : ParsedPayloads := {
    adapterName := ← requiredString adapter "adapter"
    bits := ← requiredBits adapter
    dim := ← optionalDim adapter
    emptyLazy := ← requiredBool adapter "empty_lazy"
    indexPath := ← (requiredString adapter "index_path").filter validateIndexPath
    stringToU64 := ← (requiredObject idMap "string_to_u64").bind parseStringToU64
    u64ToSlot := ← (requiredObject idMap "u64_to_slot").bind parseU64ToSlot
    nextU64Id := ← requiredU64 idMap "next_u64_id"
    documents := ← (requiredObject documents "documents").bind parseDocuments
    metadata := ← (requiredObject metadata "metadata").bind parseMetadata }
  guard parsed.ValidMaps
  pure parsed

/-- `ParsedPayloads::parse`. -/
def parse (codec : JsonCodec Text) (payloads : LegacyPayloads Text) : Option ParsedPayloads := do
  let adapter ← (parseJsonObject codec payloads.adapterJson).bind Value.asObject
  let idMap ← (parseJsonObject codec payloads.idMapJson).bind Value.asObject
  let documents ← (parseJsonObject codec payloads.documentsJson).bind Value.asObject
  let metadata ← (parseJsonObject codec payloads.metadataJson).bind Value.asObject
  parseObjects adapter idMap documents metadata

def u64ForString (parsed : ParsedPayloads) (id : String) : Option Nat := parsed.stringToU64[id]?

end ParsedPayloads

/-! ## What parsing accepts -/

/-- The document that holds the metadata of a store. -/
def metadataObject (metadata : Table String (Value N)) : Object N :=
  (∅ : Object N).insertMany
    [("schema_version", .string "ordinaldb.adapter.metadata.v1"), ("metadata", .ofTable metadata)]

theorem parseJsonObject_eq_some {codec : JsonCodec Text} {text : Text} {value : Value} :
    parseJsonObject codec text = some value ↔
      ((codec.read text).bind Value.distinct = some value ∧ value.asObject.isSome) := by
  simp only [parseJsonObject, Option.bind_eq_bind, Option.bind_eq_some_iff, Option.pure_def,
    Option.ite_none_right_eq_some, Option.some.injEq]
  constructor
  · rintro ⟨raw, hraw, read, hread, hobject, rfl⟩
    exact ⟨⟨raw, hraw, hread⟩, hobject⟩
  · rintro ⟨⟨raw, hraw, hread⟩, hobject⟩
    exact ⟨raw, hraw, value, hread, hobject, rfl⟩

/-- What the reader accepts is canonical and not too deep. -/
theorem parseJsonObject_canonical {codec : JsonCodec Text} {text : Text} {value : Value}
    (h : parseJsonObject codec text = some value) :
    value.Canonical ∧ value.depth ≤ maxReadDepth := by
  obtain ⟨raw, hraw, hread⟩ := Option.bind_eq_some_iff.mp (parseJsonObject_eq_some.mp h).1
  exact ⟨Value.canonical_of_distinct hread,
    (Value.depth_distinct_le hread).trans (codec.depth_read text raw hraw)⟩

/-- A printed object is read back unless it nests too deep. -/
theorem parseJsonObject_write (codec : JsonCodec Text) {members : Object}
    (h : (Value.ofTable members).Canonical) :
    parseJsonObject codec (codec.write (.ofTable members)) =
      if (Value.ofTable members).depth ≤ maxReadDepth then some (.ofTable members) else none := by
  have hdistinct : (Value.ofTable members).distinct = some (.ofTable members) := h
  unfold parseJsonObject
  rw [codec.read_write _ h]
  split <;> simp [hdistinct]

theorem parseMetadata_eq_some {object : Object N} {metadata : Table String (Value N)} :
    parseMetadata object = some metadata ↔ metadata = object ∧
      ∀ (id : String) (value : Value N), object[id]? = some value →
        id ≠ "" ∧ value.asObject.isSome := by
  have hentry : ∀ (row row' : String × Value N), withStringId (fun value =>
      if value.asObject.isSome then some value else none) row.1 row.2 = some row' ↔
        row' = row ∧ row.1 ≠ "" ∧ row.2.asObject.isSome := by
    rintro ⟨id, value⟩ ⟨id', value'⟩
    by_cases hid : id = ""
    · simp [withStringId, hid]
    · by_cases hobject : value.asObject.isSome = true <;> simp [withStringId, hid, hobject]
      exact ⟨fun h => ⟨h.1.symm, h.2.symm⟩, fun h => ⟨h.1.symm, h.2.symm⟩⟩
  unfold parseMetadata parseEntries
  rw [Option.map_eq_some_iff]
  constructor
  · rintro ⟨rows, hrows, rfl⟩
    rw [Table.mapM_eq_some] at hrows
    have hsame : rows = object.toList := by
      refine List.map_injective_iff.mpr (Option.some_injective _) ?_
      rw [← hrows]
      refine List.map_congr_left fun row hrow => ?_
      obtain ⟨row', -, hrow'⟩ := List.mem_map.mp (hrows ▸ List.mem_map_of_mem hrow)
      rw [← hrow', ((hentry row row').mp hrow'.symm).1]
    subst hsame
    refine ⟨Table.ofList_toList object, fun id value hvalue => ?_⟩
    have hmem := Std.ExtTreeMap.mem_toList_iff_getElem?_eq_some.mpr hvalue
    obtain ⟨row', -, hrow'⟩ := List.mem_map.mp (hrows ▸ List.mem_map_of_mem hmem)
    exact ((hentry (id, value) row').mp hrow'.symm).2
  · rintro ⟨rfl, hvalues⟩
    refine ⟨metadata.toList, ?_, Table.ofList_toList metadata⟩
    have := Table.mapM_of_forall (g := id) (l := metadata.toList) fun row hrow =>
      (hentry row row).mpr ⟨rfl, hvalues _ _
        (Std.ExtTreeMap.mem_toList_iff_getElem?_eq_some.mp hrow)⟩
    simpa using this

theorem requireExactKeys_iff {object : Object N} {expected : List String} :
    requireExactKeys object expected ↔ ∀ key, key ∈ object ↔ key ∈ expected := by
  simp only [requireExactKeys, Bool.and_eq_true, List.all_eq_true, decide_eq_true_eq,
    Std.ExtTreeMap.mem_keys]
  exact ⟨fun h key => ⟨h.1 key, h.2 key⟩, fun h => ⟨fun key => (h key).mp, fun key => (h key).mpr⟩⟩

theorem mem_metadataObject {metadata : Table String (Value N)} {key : String} :
    key ∈ metadataObject metadata ↔ key ∈ ["schema_version", "metadata"] := by
  simp [metadataObject, Std.ExtTreeMap.mem_insertMany_list]

theorem getElem?_metadataObject {metadata : Table String (Value N)} :
    (metadataObject metadata)["schema_version"]? =
        some (.string "ordinaldb.adapter.metadata.v1") ∧
      (metadataObject metadata)["metadata"]? = some (.ofTable metadata) :=
  ⟨Table.insertMany_of_nodup (by simp) (by simp), Table.insertMany_of_nodup (by simp) (by simp)⟩

theorem ParsedPayloads.parseObjects_metadata {adapter idMap documents metadata : Object}
    {parsed : ParsedPayloads} (h : parseObjects adapter idMap documents metadata = some parsed) :
    parsed.ValidMaps ∧
      (requiredObject metadata "metadata").bind parseMetadata = some parsed.metadata := by
  simp only [parseObjects, Option.bind_eq_bind, Option.bind_eq_some_iff, Option.guard_eq_some',
    Option.pure_def, Option.some.injEq, exists_const] at h
  obtain ⟨-, -, -, -, -, -, -, -, _, -, _, -, _, -, _, -, _, -, _, -, _, -, _, -, _, -, metadata,
    hmetadata, hvalid, rfl⟩ := h
  exact ⟨hvalid, Option.bind_eq_some_iff.mpr hmetadata⟩

theorem ParsedPayloads.parseObjects_adapter {adapter idMap documents metadata : Object}
    {parsed : ParsedPayloads} (h : parseObjects adapter idMap documents metadata = some parsed) :
    "dim" ∈ adapter ∧ requiredString adapter "schema_version" = some "ordinaldb.adapter.v1" ∧
      requiredString adapter "adapter" = some parsed.adapterName ∧
      requiredBits adapter = some parsed.bits ∧ optionalDim adapter = some parsed.dim ∧
      requiredBool adapter "empty_lazy" = some parsed.emptyLazy ∧
      requiredString adapter "index_path" = some parsed.indexPath ∧
      validateIndexPath parsed.indexPath := by
  simp only [parseObjects, Option.bind_eq_bind, Option.bind_eq_some_iff, Option.guard_eq_some',
    Option.pure_def, Option.some.injEq, exists_const] at h
  obtain ⟨hkeys, -, -, -, hschema, -, -, -, _, hname, _, hbits, _, hdim, _, hlazy, _, hpath, _, -,
    _, -, _, -, _, -, _, -, -, rfl⟩ := h
  obtain ⟨hpath, hvalid⟩ := Option.filter_eq_some_iff.mp hpath
  exact ⟨(requireExactKeys_iff.mp hkeys "dim").mpr (by simp), hschema, hname, hbits, hdim, hlazy,
    hpath, hvalid⟩

theorem ParsedPayloads.parseObjects_idMap {adapter idMap documents metadata : Object}
    {parsed : ParsedPayloads} (h : parseObjects adapter idMap documents metadata = some parsed) :
    requireExactKeys idMap ["schema_version", "next_u64_id", "string_to_u64", "u64_to_slot"] ∧
      requiredString idMap "schema_version" = some "ordinaldb.adapter.id_map.v1" ∧
      (requiredObject idMap "string_to_u64").bind parseStringToU64 = some parsed.stringToU64 ∧
      (requiredObject idMap "u64_to_slot").bind parseU64ToSlot = some parsed.u64ToSlot ∧
      requiredU64 idMap "next_u64_id" = some parsed.nextU64Id := by
  simp only [parseObjects, Option.bind_eq_bind, Option.bind_eq_some_iff, Option.guard_eq_some',
    Option.pure_def, Option.some.injEq, exists_const] at h
  obtain ⟨-, hkeys, -, -, -, hschema, -, -, _, -, _, -, _, -, _, -, _, -, _, hstrings, _, hslots, _,
    hnext, _, -, _, -, -, rfl⟩ := h
  exact ⟨hkeys, hschema, Option.bind_eq_some_iff.mpr hstrings, Option.bind_eq_some_iff.mpr hslots,
    hnext⟩

theorem ParsedPayloads.parseObjects_withMetadata {adapter idMap documents metadata : Object}
    {parsed : ParsedPayloads} {patched : Table String Value}
    (h : parseObjects adapter idMap documents metadata = some parsed)
    (hvalid : ValidMaps { parsed with metadata := patched })
    (hpatched : parseMetadata patched = some patched) :
    parseObjects adapter idMap documents (metadataObject patched) =
      some { parsed with metadata := patched } := by
  have hkeys : requireExactKeys (metadataObject patched) ["schema_version", "metadata"] :=
    requireExactKeys_iff.mpr fun key => mem_metadataObject
  have hschema : requiredString (metadataObject patched) "schema_version" =
      some "ordinaldb.adapter.metadata.v1" := by
    simp [requiredString, getElem?_metadataObject.1, asStr]
  have hobject : requiredObject (metadataObject patched) "metadata" = some patched := by
    simp [requiredObject, getElem?_metadataObject.2]
  simp only [parseObjects, Option.bind_eq_bind, Option.bind_eq_some_iff, Option.guard_eq_some',
    Option.pure_def, Option.some.injEq, exists_const] at h
  obtain ⟨hadapter, hidMap, hdocuments, -, hadapterSchema, hidMapSchema, hdocumentsSchema, -,
    adapterName, hadapterName, bits, hbits, dim, hdim, emptyLazy, hemptyLazy, indexPath,
    hindexPath, strings, hstrings, slots, hslots, next, hnext, texts, htexts, _, -, -, hparsed⟩ := h
  subst hparsed
  have hvalid' : ValidMaps ⟨adapterName, bits, dim, emptyLazy, indexPath, strings, slots, texts,
    patched, next⟩ := hvalid
  simp only [parseObjects, hadapter, hidMap, hdocuments, hkeys, hadapterSchema, hidMapSchema,
    hdocumentsSchema, hschema, hadapterName, hbits, hdim, hemptyLazy, hindexPath,
    Option.bind_eq_some_iff.mpr hstrings, Option.bind_eq_some_iff.mpr hslots, hnext,
    Option.bind_eq_some_iff.mpr htexts, hobject]
  simp [hvalid', hpatched]

theorem ParsedPayloads.parse_eq_some {codec : JsonCodec Text} {payloads : LegacyPayloads Text}
    {parsed : ParsedPayloads} : parse codec payloads = some parsed ↔
      ∃ adapter idMap documents metadata,
        (parseJsonObject codec payloads.adapterJson).bind Value.asObject = some adapter ∧
        (parseJsonObject codec payloads.idMapJson).bind Value.asObject = some idMap ∧
        (parseJsonObject codec payloads.documentsJson).bind Value.asObject = some documents ∧
        (parseJsonObject codec payloads.metadataJson).bind Value.asObject = some metadata ∧
        parseObjects adapter idMap documents metadata = some parsed := by
  simp only [parse, Option.bind_eq_bind, Option.bind_eq_some_iff, exists_and_left]

/-- How deep a metadata value may nest: two objects of the payload surround it. -/
def maxMetadataDepth : Nat := 125

theorem ParsedPayloads.parse_validMaps {codec : JsonCodec Text} {payloads : LegacyPayloads Text}
    {parsed : ParsedPayloads} (h : parse codec payloads = some parsed) : parsed.ValidMaps := by
  obtain ⟨_, _, _, _, -, -, -, -, hobjects⟩ := parse_eq_some.mp h
  exact (parseObjects_metadata hobjects).1

/-- Parsed metadata values are canonical objects, and not too deep. -/
theorem ParsedPayloads.parse_metadata {codec : JsonCodec Text} {payloads : LegacyPayloads Text}
    {parsed : ParsedPayloads} (h : parse codec payloads = some parsed) {id : String} {value : Value}
    (hvalue : parsed.metadata[id]? = some value) :
    value.Canonical ∧ value.asObject.isSome ∧ value.depth ≤ maxMetadataDepth := by
  obtain ⟨_, _, _, metadata, -, -, -, hmetadata, hobjects⟩ := parse_eq_some.mp h
  obtain ⟨root, hroot, hrootObject⟩ := Option.bind_eq_some_iff.mp hmetadata
  obtain ⟨object, hobject, hparsed⟩ := Option.bind_eq_some_iff.mp (parseObjects_metadata hobjects).2
  obtain ⟨map, hmap, hmapObject⟩ := Option.bind_eq_some_iff.mp hobject
  obtain ⟨rfl, hvalues⟩ := parseMetadata_eq_some.mp hparsed
  have hread := parseJsonObject_canonical hroot
  obtain ⟨hrootTable, hmembers⟩ := hread.1.eq_ofTable hrootObject
  obtain ⟨hmapTable, hmapMembers⟩ := (hmembers _ _ hmap).eq_ofTable hmapObject
  -- the value lies in `metadata`, which lies in the document
  have hdepth : (Value.ofTable metadata).depth ≤ 126 + 1 := hrootTable ▸ hread.2
  have hmapDepth := Value.depth_ofTable_le.mp hdepth _ _ hmap
  rw [hmapTable] at hmapDepth
  exact ⟨hmapMembers _ _ hvalue, (hvalues _ _ hvalue).2,
    Value.depth_ofTable_le.mp hmapDepth _ _ hvalue⟩

theorem depth_metadataObject_le {metadata : Table String Value} :
    (Value.ofTable (metadataObject metadata)).depth ≤ maxReadDepth ↔
      ∀ (id : String) (value : Value), metadata[id]? = some value →
        value.depth ≤ maxMetadataDepth := by
  refine Value.depth_ofTable_le.trans (Iff.trans ?_ Value.depth_ofTable_le)
  constructor
  · intro h
    exact h _ _ getElem?_metadataObject.2
  · intro h key value hvalue
    have hkey : key ∈ metadataObject metadata :=
      Std.ExtTreeMap.mem_iff_isSome_getElem?.mpr (Option.isSome_of_eq_some hvalue)
    rcases List.mem_pair.mp (mem_metadataObject.mp hkey) with rfl | rfl
    · obtain rfl := Option.some.inj (getElem?_metadataObject.1.symm.trans hvalue)
      exact Nat.zero_le _
    · obtain rfl := Option.some.inj (getElem?_metadataObject.2.symm.trans hvalue)
      exact h

/-- Replace the metadata document by the printed one of other metadata: it is read back exactly
when no value nests too deep. -/
theorem ParsedPayloads.parse_withMetadata {codec : JsonCodec Text}
    {payloads : LegacyPayloads Text} {parsed : ParsedPayloads} {patched : Table String Value}
    (h : parse codec payloads = some parsed)
    (hvalid : ValidMaps { parsed with metadata := patched })
    (hvalues : ∀ (id : String) (value : Value), patched[id]? = some value →
      value.Canonical ∧ value.asObject.isSome) :
    parse codec { payloads with
      metadataJson := codec.write (.ofTable (metadataObject patched)) } =
      if (Value.ofTable (metadataObject patched)).depth ≤ maxReadDepth then
        some { parsed with metadata := patched } else none := by
  obtain ⟨adapter, idMap, documents, metadata, hadapter, hidMap, hdocuments, -, hobjects⟩ :=
    parse_eq_some.mp h
  have hpatched : parseMetadata patched = some patched := by
    refine parseMetadata_eq_some.mpr ⟨rfl, fun id value hvalue => ⟨?_, (hvalues id value hvalue).2⟩⟩
    rintro rfl
    refine hvalid.nonempty (Std.ExtTreeMap.mem_keys.mp ?_)
    rw [← hvalid.metadata, Std.ExtTreeMap.mem_keys, Std.ExtTreeMap.mem_iff_isSome_getElem?, hvalue]
    rfl
  have hcanonical : (Value.ofTable (metadataObject patched)).Canonical := by
    refine Value.canonical_ofTable fun key value hvalue => ?_
    have hkey : key ∈ metadataObject patched :=
      Std.ExtTreeMap.mem_iff_isSome_getElem?.mpr (Option.isSome_of_eq_some hvalue)
    rcases List.mem_pair.mp (mem_metadataObject.mp hkey) with rfl | rfl
    · obtain rfl := Option.some.inj (getElem?_metadataObject.1.symm.trans hvalue)
      rfl
    · obtain rfl := Option.some.inj (getElem?_metadataObject.2.symm.trans hvalue)
      exact Value.canonical_ofTable fun id value hvalue => (hvalues id value hvalue).1
  have hread := parseJsonObject_write codec hcanonical
  unfold parse
  rw [hadapter, hidMap, hdocuments, hread]
  split
  next => simp [parseObjects_withMetadata hobjects hvalid hpatched]
  next => simp

end OrdinalDB.Store
