import OrdinalDB.Adapter.Load
import OrdinalDB.Store.IndexPaths
import OrdinalDB.Store.PatchFrame
import OrdinalDB.Store.Reached

/-!
# Two readers of a root

`readers_agree_iff`: on a root that opens in Rust the Python reader succeeds, and
sees the same, exactly when the root is `Readable`. The rules differ in the
directory of an empty store, where Python tolerates no debris, in index paths with a
`.` component, in the keys of `u64_to_slot`, in the sizes of the payloads, and in
integers beyond 64 bits, which Rust rounds (`readers_disagree`).
-/

namespace OrdinalDB.Adapter

open Json Text Store

variable {Text N : Type} {json : JsonModule Text} {codec : JsonCodec Text}
  {around : Surroundings Text} {disk : Disk}
  {storeFile : StoreFile Text} {expected : Option String} {store : VerifiedAdapterStore Text}
  {parsed : ParsedPayloads} {generation : GenerationCheckpoint}

/-! ## The property and its condition -/

/-- Python has loaded the records and the generation that Rust has verified. -/
structure SameView (store : VerifiedAdapterStore Text) (parsed : ParsedPayloads)
    (loaded : AdapterStore) : Prop where
  adapterName : loaded.adapterName = parsed.adapterName
  bits : loaded.bits = parsed.bits
  stringToU64 : loaded.idMap.stringToU64 = parsed.stringToU64
  u64ToSlot : loaded.idMap.u64ToSlot = parsed.u64ToSlot
  nextU64Id : loaded.idMap.nextU64Id = parsed.nextU64Id
  documents : loaded.documents = parsed.documents
  /-- The numbers of the metadata are the same numbers. -/
  metadata : ∀ id : String, loaded.metadata[id]?.map (·.mapNumber PyNumber.toRat) =
    parsed.metadata[id]?.map (·.mapNumber Number.toRat)
  active : loaded.index.map Prod.fst = locate store.manifest.activeGenerationPath
  token : loaded.baseCommitToken = .fromManifest store.manifest

def ReadersAgree (json : JsonModule Text) (around : Surroundings Text) (disk : Disk)
    (storeFile : StoreFile Text) (expected : Option String) (store : VerifiedAdapterStore Text) :
    Prop :=
  ∃ parsed loaded, ParsedPayloads.parse json.codec store.payloads = some parsed ∧
    AdapterStore.load json around disk storeFile expected = some loaded ∧
    SameView store parsed loaded

/-- The slots of the ids when the last key of an id in the document counts. -/
def slotsInOrder (codec : JsonCodec Text) (idMapJson : Text) : Option (Table Nat Nat) := do
  let members ← loadsObject codec idMapJson
  let dict ← (getItem members "u64_to_slot").bind requireMapping
  dictItems slotEntry dict

/-- What Python asks for beyond Rust. -/
structure Readable (json : JsonModule Text) (around : Surroundings Text) (disk : Disk)
    (payloads : LegacyPayloads Text) (parsed : ParsedPayloads) : Prop where
  adapterSize : around.size payloads.adapterJson ≤ maxAdapterJsonBytes
  sidecarSizes : ∀ text ∈ [payloads.idMapJson, payloads.documentsJson, payloads.metadataJson],
    around.size text ≤ maxSidecarJsonBytes
  path : ¬HasDot parsed.indexPath
  keys : ∀ key ∈ slotKeys json.codec payloads.idMapJson,
    key.toList.head? ≠ some '+' ∧ key.toList.length ≤ maxStrDigits
  /-- Where two keys are one id, the last one in the document is the last one in the order. -/
  slots : slotsInOrder json.codec payloads.idMapJson = some parsed.u64ToSlot
  /-- Rust reads the numbers of the metadata exactly or as Python does. -/
  numbers : ∀ tree, json.tree payloads.metadataJson = some tree →
    ∀ literal ∈ tree.literals, json.floats.Alike literal
  lazy : parsed.emptyLazy = true → disk.index = none ∧ disk.vectors = none
  loads : parsed.emptyLazy = false → ∀ bundle, disk.bundle parsed.indexPath = some bundle →
    around.loads bundle
  dim : ∀ dim, parsed.dim = some dim → validateDimCompatibleWithBits dim parsed.bits

/-! ## The same trees -/

theorem loadsObject_of_parse {text : Text} {object : Object}
    (h : (parseJsonObject codec text).bind Value.asObject = some object) :
    ∃ members, loadsObject codec text = some members ∧ members.distinct = some object := by
  obtain ⟨root, hroot, hobject⟩ := Option.bind_eq_some_iff.mp h
  obtain ⟨raw, hraw, hread⟩ := Option.bind_eq_some_iff.mp (parseJsonObject_eq_some.mp hroot).1
  obtain ⟨members, hmembers, hdistinct⟩ := requireMapping_distinct hread hobject
  have hsome : raw.distinct.isSome := Option.isSome_of_eq_some hread
  refine ⟨members, ?_, hdistinct⟩
  cases raw <;> cases hmembers
  simp [loadsObject, hraw, hsome]

theorem asStr_distinct {raw value : Value N} (h : raw.distinct = some value) :
    asStr raw = asStr value := by
  cases raw with
  | array items =>
    obtain ⟨_, -, rfl⟩ := Option.map_eq_some_iff.mp h
    rfl
  | object members =>
    obtain ⟨_, -, rfl⟩ := Option.map_eq_some_iff.mp h
    rfl
  | null | bool | number | string =>
    obtain rfl := Option.some.inj h
    rfl

theorem asBool_distinct {raw value : Value} (h : raw.distinct = some value) :
    asBool raw = asBool value := by
  cases raw with
  | array items =>
    obtain ⟨_, -, rfl⟩ := Option.map_eq_some_iff.mp h
    rfl
  | object members =>
    obtain ⟨_, -, rfl⟩ := Option.map_eq_some_iff.mp h
    rfl
  | null | bool | number | string =>
    obtain rfl := Option.some.inj h
    rfl

/-- A field is read the same from the dict as from the map. -/
theorem getItem_bind {V : Type} {read : Value N → Option V}
    (hread : ∀ raw value : Value N, raw.distinct = some value → read raw = read value)
    {members : Members N} {object : Object N} (h : members.distinct = some object) {key : String}
    {v : V} (hfield : object[key]?.bind read = some v) :
    (getItem members key).bind read = some v := by
  obtain ⟨value, hvalue, hv⟩ := Option.bind_eq_some_iff.mp hfield
  obtain ⟨raw, hraw, hdistinct⟩ := getElem?_eq_some h hvalue
  rw [hraw, Option.bind_some, hread raw value hdistinct, hv]

theorem getItem_string {members : Members} {object : Object} (h : members.distinct = some object)
    {key s : String} (hfield : requiredString object key = some s) :
    getItem members key = some (.string s) := by
  obtain ⟨value, hvalue, hs⟩ := Option.bind_eq_some_iff.mp hfield
  obtain ⟨raw, hraw, hdistinct⟩ := getElem?_eq_some h hvalue
  cases value <;> cases hs
  rw [hraw, string_distinct hdistinct]

theorem requireDim_distinct {raw value : Value} (h : raw.distinct = some value) :
    requireDim raw = requireDim value := by
  cases raw with
  | array items =>
    obtain ⟨_, -, rfl⟩ := Option.map_eq_some_iff.mp h
    rfl
  | object members =>
    obtain ⟨_, -, rfl⟩ := Option.map_eq_some_iff.mp h
    rfl
  | null | bool | number | string =>
    obtain rfl := Option.some.inj h
    rfl

theorem getItem_dim {members : Members} {object : Object} (h : members.distinct = some object)
    (hkey : "dim" ∈ object) {dim : Option Nat} (hdim : optionalDim object = some dim) :
    (getItem members "dim").bind requireDim = some dim := by
  refine getItem_bind (fun _ _ => requireDim_distinct) h ?_
  obtain ⟨value, hvalue⟩ := Option.isSome_iff_exists.mp
    (Std.ExtTreeMap.mem_iff_isSome_getElem?.mp hkey)
  rw [optionalDim, hvalue] at hdim
  rw [hvalue, Option.bind_some]
  cases value <;> exact hdim

/-! ## Index paths -/

theorem foldl_decimalValue {digits : List Char} (h : ∀ c ∈ digits, c.isDigit) :
    ∃ values, digits.mapM decimalValue = some values ∧
      values.foldl (fun value digit => 10 * value + digit) 0 = Nat.ofDigitChars 10 digits 0 := by
  refine ⟨_, Table.mapM_of_forall fun c hc => decimalValue_digit (h c hc), ?_⟩
  rw [List.foldl_map, Nat.ofDigitChars_eq_foldl]

theorem generationIdFromDirName_of_parse {name : String} {id : Nat}
    (h : parseGenerationDir name = some id) : generationIdFromDirName name = some id := by
  have hpositive : 0 < id := by
    unfold parseGenerationDir at h
    split at h
    next =>
      obtain ⟨-, hid⟩ := Option.ite_none_right_eq_some.mp h
      simpa using (Option.filter_eq_some_iff.mp hid).2
    next => cases h
  obtain ⟨digits, htext, hwidth, hascii, -, hvalue⟩ := parseGenerationDir_eq_some.mp h
  obtain ⟨values, hvalues, hfold⟩ := foldl_decimalValue hascii
  have hlength : name.toList.length = 17 := by simp [htext, hwidth]
  have hdigits : (name.toList.drop 1).take (17 - 5) = digits := by
    rw [htext, List.drop_succ_cons, List.drop_zero]
    exact List.take_left' hwidth
  have hend : name.toList.drop (17 - 4) = ".odb".toList := by
    rw [htext]
    exact List.drop_left' (by simp [hwidth])
  have hhead : name.toList.head? = some 'g' := by rw [htext, List.head?_cons]
  rw [generationIdFromDirName, hlength, hdigits, hend, if_pos ⟨hhead, rfl, hwidth⟩, hvalues]
  simp [hfold, hvalue, hpositive]

/-- Python takes the index paths of Rust without a `.` component. -/
theorem locateIndexPath_eq {indexPath : String} (h : validateIndexPath indexPath) :
    locateIndexPath indexPath = if HasDot indexPath then none else locate indexPath := by
  split
  next hdot =>
    have hany : (indexPath.toList.splitOn '/').any (· ∈ [[], ['.'], ['.', '.']]) :=
      List.any_eq_true.mpr ⟨['.'], hdot, by decide⟩
    simp only [locateIndexPath, hany, if_true]
  next hdot =>
    cases (validateIndexPath_iff hdot).mp h with
    | index => decide
    | generation hwidth hascii hzero =>
      rename_i digits
      have hname := parseGenerationDir_eq_some.mpr
        ⟨digits, String.toList_ofList, hwidth, hascii, hzero, rfl⟩
      have hvectors : String.ofList "vectors".toList = vectorsDir := String.ofList_toList
      have hindex : generationPath digits ≠ indexDir := by
        intro heq
        have hsplit := splitOn_generationPath hascii
        rw [heq] at hsplit
        have hlength : (indexDir.toList.splitOn '/').length = 1 := by decide
        rw [hsplit] at hlength
        cases hlength
      rw [locate_generationPath hwidth hascii hzero, locateIndexPath,
        splitOn_generationPath hascii, if_neg (by simp), if_neg hindex]
      exact if_pos ⟨hvectors, Option.isSome_of_eq_some (generationIdFromDirName_of_parse hname)⟩

/-! ## The same payloads -/

/-- The fields of the adapter document. -/
theorem parseObjects_maps {adapter idMap documents metadata : Object}
    (h : ParsedPayloads.parseObjects adapter idMap documents metadata = some parsed) :
    (Store.requireExactKeys documents ["schema_version", "documents"] ∧
      requiredString documents "schema_version" = some "ordinaldb.adapter.documents.v1" ∧
      (requiredObject documents "documents").bind Store.parseDocuments =
        some parsed.documents) ∧
    Store.requireExactKeys metadata ["schema_version", "metadata"] ∧
      requiredString metadata "schema_version" = some "ordinaldb.adapter.metadata.v1" ∧
      (requiredObject metadata "metadata").bind Store.parseMetadata = some parsed.metadata := by
  simp only [ParsedPayloads.parseObjects, Option.bind_eq_bind, Option.bind_eq_some_iff,
    Option.guard_eq_some', Option.pure_def, Option.some.injEq, exists_const] at h
  obtain ⟨-, -, hdocuments, hmetadata, -, -, hdocumentsSchema, hmetadataSchema, _, -, _, -, _, -, _,
    -, _, -, _, -, _, -, _, -, _, hdocumentsRead, _, hmetadataRead, -, rfl⟩ := h
  exact ⟨⟨hdocuments, hdocumentsSchema, Option.bind_eq_some_iff.mpr hdocumentsRead⟩, hmetadata,
    hmetadataSchema, Option.bind_eq_some_iff.mpr hmetadataRead⟩

/-- Python reads a map of strings as Rust does. -/
theorem parseStringMap_eq {V : Type} {field schema : String} {read : Value N → Option V}
    {entry : Value N → Option V} {members : Members N} {object : Object N}
    (h : members.distinct = some object)
    (hkeys : Store.requireExactKeys object ["schema_version", field])
    (hschema : requiredString object "schema_version" = some schema) {table : Table String V}
    (htable : (requiredObject object field).bind (parseEntries (withStringId entry)) = some table)
    (hread : ∀ raw value : Value N, raw.distinct = some value → read raw = entry value) :
    parseStringMap field schema read members = some table := by
  obtain ⟨inner, hinner, hentries⟩ := Option.bind_eq_some_iff.mp htable
  obtain ⟨rows, hrows, rfl⟩ := Option.map_eq_some_iff.mp hentries
  have hrows : inner.toList.mapM (fun row => withStringId entry row.1 row.2) = some rows := hrows
  obtain ⟨dict, hdict, hdistinct⟩ := mapping_of_requiredObject h hinner
  have hrowKeys : rows.map Prod.fst = inner.toList.map Prod.fst :=
    Table.map_of_mapM hrows fun row out hout => withStringId_key hout
  have hitems : dictItems (withStringId read) dict =
      some ((∅ : Table String V).insertMany rows) := by
    refine dictItems_eq hdistinct (fun key raw value _ hvalue => ?_) hrows ?_
    · simp only [withStringId, hread raw value hvalue]
    · rw [hrowKeys]
      exact Table.nodup_keys_toList inner
  have hschema' : (getItem members "schema_version").bind asStr = some schema :=
    getItem_bind (fun _ _ => asStr_distinct) h hschema
  simp [parseStringMap, requireExactKeys_of_object h hkeys, hschema', hdict, hitems]

/-! ## The slots -/

/-- Python reads the slots of Rust when it reads all keys and the order makes no difference. -/
theorem SharedTree.items_iff {idMapJson : Text} {members slotsDict : Members} {slots : Object}
    {slotRows : List (Nat × Nat)}
    (h : SharedTree codec idMapJson parsed members slotsDict slots slotRows) :
    dictItems slotItem slotsDict = some parsed.u64ToSlot ↔
      (∀ key ∈ slots.keys, key.toList.head? ≠ some '+' ∧ key.toList.length ≤ maxStrDigits) ∧
        dictItems slotEntry slotsDict = some parsed.u64ToSlot := by
  have hread : ∀ entry ∈ slotsDict.toList, entry.1 ∈ slots.keys ∧ ∃ n,
      parseU64 entry.1 = some n ∧ requireU64Key entry.1 =
        if entry.1.toList.head? ≠ some '+' ∧ entry.1.toList.length ≤ maxStrDigits
        then some n else none := by
    intro entry hentry
    have hkey : entry.1 ∈ slots.keys := Std.ExtTreeMap.mem_keys.mpr
      ((mem_iff_getItem h.distinct).mpr (List.mem_map_of_mem hentry))
    obtain ⟨n, hn⟩ := Option.isSome_iff_exists.mp (h.parse_isSome entry.1 hkey)
    exact ⟨hkey, n, hn, requireU64Key_of_parseU64 hn⟩
  have hsame : (∀ key ∈ slots.keys, key.toList.head? ≠ some '+' ∧
      key.toList.length ≤ maxStrDigits) →
      dictItems slotItem slotsDict = dictItems slotEntry slotsDict := by
    intro hplain
    have hitems : slotsDict.toList.map (fun row => slotItem row.1 row.2) =
        slotsDict.toList.map fun row => slotEntry row.1 row.2 := by
      refine List.map_congr_left fun entry hentry => ?_
      obtain ⟨hkey, n, hn, hpython⟩ := hread entry hentry
      rw [if_pos (hplain entry.1 hkey)] at hpython
      simp only [slotItem, slotEntry, hn, hpython]
    refine congrArg (Option.map _) (Option.ext fun rows => ?_)
    have hleft := @Table.mapM_eq_some _ _ (fun row : String × Value => slotItem row.1 row.2)
      slotsDict.toList rows
    have hright := @Table.mapM_eq_some _ _ (fun row : String × Value => slotEntry row.1 row.2)
      slotsDict.toList rows
    rw [hitems] at hleft
    exact hleft.trans hright.symm
  constructor
  · intro hitems
    have hplain : ∀ key ∈ slots.keys,
        key.toList.head? ≠ some '+' ∧ key.toList.length ≤ maxStrDigits := by
      intro key hkey
      obtain ⟨rows, hrows, -⟩ := Option.map_eq_some_iff.mp hitems
      obtain ⟨entry, hentry, rfl⟩ := List.mem_map.mp
        ((mem_iff_getItem h.distinct).mp (Std.ExtTreeMap.mem_keys.mp hkey))
      obtain ⟨-, n, -, hpython⟩ := hread entry hentry
      obtain ⟨out, hout⟩ := Option.isSome_iff_exists.mp (Table.isSome_of_mapM hrows entry hentry)
      obtain ⟨u64, hu64, -⟩ := Option.bind_eq_some_iff.mp hout
      rw [hpython] at hu64
      exact (Option.ite_none_right_eq_some.mp hu64).1
    exact ⟨hplain, hsame hplain ▸ hitems⟩
  · rintro ⟨hplain, hitems⟩
    rw [hsame hplain]
    exact hitems

/-- The fields of an accepted adapter document. -/
def fieldsOf (parsed : ParsedPayloads) (location : Location) : AdapterFields :=
  ⟨parsed.adapterName, parsed.bits, parsed.dim, parsed.emptyLazy, parsed.indexPath, location⟩

/-- The id map of accepted payloads. -/
def idMapOf (parsed : ParsedPayloads) : IdMap :=
  ⟨parsed.stringToU64, parsed.u64ToSlot, parsed.nextU64Id⟩

section Opened

variable (h : Opens codec disk storeFile.rows expected none store parsed generation)

include h

theorem readFields_eq : ∃ members location,
    loadsObject codec store.payloads.adapterJson = some members ∧
      locate parsed.indexPath = some location ∧
      readFields expected members =
        if HasDot parsed.indexPath then none else some (fieldsOf parsed location) := by
  obtain ⟨adapter, _, _, _, hadapter, -, -, -, hobjects⟩ := ParsedPayloads.parse_eq_some.mp h.parses
  obtain ⟨hkey, hschema, hname, hbits, hdim, hlazy, hpath, hvalid⟩ :=
    ParsedPayloads.parseObjects_adapter hobjects
  obtain ⟨members, hmembers, hdistinct⟩ := loadsObject_of_parse hadapter
  obtain ⟨location, hlocation⟩ := Option.isSome_iff_exists.mp hvalid
  refine ⟨members, location, hmembers, hlocation, ?_⟩
  have hexpected : expected.all (parsed.adapterName = ·) := by
    have hshape := h.shape
    have hpayloads := h.manifestPayloads
    simp only [verifyManifestShape, Bool.and_eq_true] at hshape
    simp only [verifyManifestPayloads, Bool.and_eq_true, decide_eq_true_eq] at hpayloads
    rw [← hpayloads.1.1.1.1.1.1]
    exact hshape.2
  have hname' : (getItem members "adapter").bind asStr = some parsed.adapterName :=
    getItem_bind (fun _ _ => asStr_distinct) hdistinct hname
  obtain ⟨hnumber, hwidth⟩ := Option.filter_eq_some_iff.mp hbits
  have hbits' : (getItem members "bits").bind asU64 = some parsed.bits :=
    getItem_bind (fun _ _ => asU64_distinct) hdistinct hnumber
  have hlazy' : (getItem members "empty_lazy").bind asBool = some parsed.emptyLazy :=
    getItem_bind (fun _ _ => asBool_distinct) hdistinct hlazy
  have hpath' : (getItem members "index_path").bind asStr = some parsed.indexPath :=
    getItem_bind (fun _ _ => asStr_distinct) hdistinct hpath
  simp only [readFields, getItem_string hdistinct hschema, hname', hexpected, hbits', hlazy',
    getItem_dim hdistinct hkey hdim, hpath', locateIndexPath_eq hvalid, hlocation, guard, if_true,
    Option.bind_eq_bind, Option.bind_some, Option.pure_def, Option.filter_some, hwidth]
  split <;> rfl

theorem parseDocuments_eq : ∃ members,
    loadsObject codec store.payloads.documentsJson = some members ∧
      parseDocuments members = some parsed.documents := by
  obtain ⟨_, _, documents, _, -, -, hdocuments, -, hobjects⟩ :=
    ParsedPayloads.parse_eq_some.mp h.parses
  obtain ⟨⟨hkeys, hschema, htable⟩, -⟩ := parseObjects_maps hobjects
  obtain ⟨members, hmembers, hdistinct⟩ := loadsObject_of_parse hdocuments
  exact ⟨members, hmembers, parseStringMap_eq hdistinct hkeys hschema htable
    fun _ _ => asStr_distinct⟩

end Opened

/-! ## The metadata -/

/-- The metadata that both readers find: one tree for the two readings of its numbers. -/
structure SharedMetadata (json : JsonModule Text) (text : Text) (parsed : ParsedPayloads)
    (tree : Raw) (records : Object (Number × PyNumber)) : Prop where
  document : json.tree text = some tree
  reads : ∀ literal ∈ tree.literals, (json.floats.read literal).isSome ∧
    (PyNumber.read json.floats literal).isSome
  rust : parsed.metadata = mapNumbers Prod.fst records
  python : ∃ members, loadsDict json text = some members ∧
    members.distinct = some (metadataObject (mapNumbers Prod.snd records)) ∧
    parseMetadata members = some (mapNumbers Prod.snd records)
  numbers : ∀ n, n ∈ (Value.ofTable records).numbers ↔ ∃ literal ∈ tree.literals,
    json.floats.read literal = some n.1 ∧ PyNumber.read json.floats literal = some n.2

/-- Both readers find the same numbers exactly when all literals are alike. -/
theorem SharedMetadata.same_iff {text : Text} {tree : Raw}
    {records : Object (Number × PyNumber)} (h : SharedMetadata json text parsed tree records) :
    (∀ id : String, (mapNumbers Prod.snd records)[id]?.map (·.mapNumber PyNumber.toRat) =
        parsed.metadata[id]?.map (·.mapNumber Number.toRat)) ↔
      ∀ literal ∈ tree.literals, json.floats.Alike literal := by
  simp only [h.rust, getElem?_mapNumbers, Option.map_map, Function.comp_def,
    Value.mapNumber_mapNumber]
  constructor
  · intro hsame literal hliteral
    obtain ⟨hrust, hpython⟩ := h.reads literal hliteral
    obtain ⟨number, hnumber⟩ := Option.isSome_iff_exists.mp hrust
    obtain ⟨n, hn⟩ := Option.isSome_iff_exists.mp hpython
    obtain ⟨id, value, hvalue, hmem⟩ := mem_numbers_ofTable.mp
      ((h.numbers (number, n)).mpr ⟨literal, hliteral, hnumber, hn⟩)
    have hid := hsame id
    rw [hvalue, Option.map_some, Option.map_some, Option.some.injEq] at hid
    exact (PyNumber.toRat_eq_iff hnumber hn).mp ((value.mapNumber_eq_iff.mp hid) _ hmem).symm
  · intro halike id
    refine Option.map_congr fun value hvalue => value.mapNumber_eq_iff.mpr fun n hn => ?_
    obtain ⟨literal, hliteral, hnumber, hpython⟩ :=
      (h.numbers n).mp (mem_numbers_ofTable.mpr ⟨id, value, hvalue, hn⟩)
    exact ((PyNumber.toRat_eq_iff hnumber hpython).mpr (halike literal hliteral)).symm

theorem mapNumbers_metadataObject {M : Type} (f : N → M) (records : Object N) :
    mapNumbers f (metadataObject records) = metadataObject (mapNumbers f records) := by
  refine Std.ExtTreeMap.ext_getElem? fun key => ?_
  rw [getElem?_mapNumbers]
  by_cases hkey : key ∈ ["schema_version", "metadata"]
  · rcases List.mem_pair.mp hkey with rfl | rfl
    · rw [getElem?_metadataObject.1, getElem?_metadataObject.1]
      rfl
    · rw [getElem?_metadataObject.2, getElem?_metadataObject.2, Option.map_some,
        Value.mapNumber_ofTable]
  · rw [Std.ExtTreeMap.getElem?_eq_none (mt mem_metadataObject.mp hkey),
      Std.ExtTreeMap.getElem?_eq_none (mt mem_metadataObject.mp hkey)]
    rfl

theorem metadataObject_injective : Function.Injective (@metadataObject N) := fun records _ h =>
  Value.ofTable_injective (Option.some.inj (by
    rw [← (@getElem?_metadataObject N records).2, h, getElem?_metadataObject.2]))

/-- A metadata document with other numbers is a metadata document. -/
theorem metadataObject_of_mapNumber {M : Type} {f : N → M} {value : Value N}
    (h : value.Canonical) {metadata : Object M}
    (hmetadata : value.mapNumber f = .ofTable (metadataObject metadata)) :
    ∃ records, value = .ofTable (metadataObject records) ∧ mapNumbers f records = metadata := by
  obtain ⟨table, rfl, htable⟩ := h.of_mapNumber hmetadata
  have hmember : ∀ key : String, table[key]?.map (·.mapNumber f) =
      (metadataObject metadata)[key]? := fun key => by rw [← htable, getElem?_mapNumbers]
  have hschema := hmember "schema_version"
  have hrecords := hmember "metadata"
  rw [getElem?_metadataObject.1, Option.map_eq_some_iff] at hschema
  rw [getElem?_metadataObject.2, Option.map_eq_some_iff] at hrecords
  obtain ⟨schema, hschema, hversion⟩ := hschema
  obtain ⟨inner, hinner, hobject⟩ := hrecords
  have hcanonical : inner.Canonical :=
    (h.eq_ofTable (Value.asObject_ofTable table)).2 _ _ hinner
  obtain ⟨records, rfl, rfl⟩ := hcanonical.of_mapNumber hobject
  refine ⟨records, congrArg Value.ofTable (Std.ExtTreeMap.ext_getElem? fun key => ?_), rfl⟩
  by_cases hkey : key ∈ ["schema_version", "metadata"]
  · rcases List.mem_pair.mp hkey with rfl | rfl
    · rw [hschema, getElem?_metadataObject.1]
      cases schema <;> cases hversion
      rfl
    · rw [hinner, getElem?_metadataObject.2]
  · have hnone := hmember key
    rw [Std.ExtTreeMap.getElem?_eq_none (mt mem_metadataObject.mp hkey),
      Option.map_eq_none_iff] at hnone
    rw [hnone, Std.ExtTreeMap.getElem?_eq_none (mt mem_metadataObject.mp hkey)]

theorem mem_numbers_metadataObject {records : Object N} {n : N} :
    n ∈ (Value.ofTable (metadataObject records)).numbers ↔ n ∈ (Value.ofTable records).numbers := by
  rw [mem_numbers_ofTable]
  constructor
  · rintro ⟨key, value, hvalue, hn⟩
    have hkey : key ∈ metadataObject records :=
      Std.ExtTreeMap.mem_iff_isSome_getElem?.mpr (Option.isSome_of_eq_some hvalue)
    rcases List.mem_pair.mp (mem_metadataObject.mp hkey) with rfl | rfl
    · obtain rfl := Option.some.inj (getElem?_metadataObject.1.symm.trans hvalue)
      cases hn
    · obtain rfl := Option.some.inj (getElem?_metadataObject.2.symm.trans hvalue)
      exact hn
  · intro hn
    exact ⟨_, _, getElem?_metadataObject.2, hn⟩

/-- Python reads the records of a metadata document. -/
theorem parseMetadata_eq {members : Members N} {records : Object N}
    (h : members.distinct = some (metadataObject records))
    (hvalues : ∀ (id : String) (value : Value N), records[id]? = some value →
      id ≠ "" ∧ value.asObject.isSome) : parseMetadata members = some records := by
  have hkeys : Store.requireExactKeys (metadataObject records) ["schema_version", "metadata"] :=
    requireExactKeys_iff.mpr fun key => mem_metadataObject
  have hschema : requiredString (metadataObject records) "schema_version" =
      some "ordinaldb.adapter.metadata.v1" := by
    rw [requiredString, getElem?_metadataObject.1]
    rfl
  have hobject : requiredObject (metadataObject records) "metadata" = some records := by
    rw [requiredObject, getElem?_metadataObject.2, Option.bind_some, Value.asObject_ofTable]
  refine parseStringMap_eq h hkeys hschema
    ((congrArg (·.bind Store.parseMetadata) hobject).trans
      (parseMetadata_eq_some.mpr ⟨rfl, hvalues⟩)) fun raw value hvalue => ?_
  rw [requireMetadata, hvalue, Option.filter_some]

theorem isSome_asObject_mapNumber {M : Type} (f : N → M) (value : Value N) :
    (value.mapNumber f).asObject.isSome = value.asObject.isSome := by
  cases value <;> rfl

theorem isSome_of_loadsDict {text : Text} {members : Members PyNumber}
    (h : loadsDict json text = some members) : ∃ tree, json.tree text = some tree ∧
      ∀ literal ∈ tree.literals, (PyNumber.read json.floats literal).isSome := by
  obtain ⟨tree, htree, hread⟩ := Option.bind_eq_some_iff.mp h
  obtain ⟨value, hvalue, -⟩ := Option.bind_eq_some_iff.mp hread
  exact ⟨tree, htree, Raw.isSome_toValue.mp (Option.isSome_of_eq_some hvalue)⟩

/-- Rust reads all numbers of the metadata. -/
theorem metadataTree_of_parse {payloads : LegacyPayloads Text}
    (h : ParsedPayloads.parse json.codec payloads = some parsed) :
    ∃ tree, json.tree payloads.metadataJson = some tree ∧
      ∀ literal ∈ tree.literals, (json.floats.read literal).isSome := by
  obtain ⟨_, _, _, object, -, -, -, hobject, -⟩ := ParsedPayloads.parse_eq_some.mp h
  obtain ⟨root, hroot, -⟩ := Option.bind_eq_some_iff.mp hobject
  obtain ⟨tree, htree, hreads⟩ := parseJsonObject_reads hroot
  obtain ⟨value, hvalue, -⟩ := Option.bind_eq_some_iff.mp hreads
  exact ⟨tree, htree, Raw.isSome_toValue.mp (Option.isSome_of_eq_some hvalue)⟩

/-- Where Python reads all numbers of the metadata, the records are shared. -/
theorem sharedMetadata
    (h : Opens json.codec disk storeFile.rows expected none store parsed generation) {tree : Raw}
    (htree : json.tree store.payloads.metadataJson = some tree)
    (hpython : ∀ literal ∈ tree.literals, (PyNumber.read json.floats literal).isSome) :
    ∃ records, SharedMetadata json store.payloads.metadataJson parsed tree records := by
  obtain ⟨_, _, _, object, -, -, -, hobject, hparsed⟩ := ParsedPayloads.parse_eq_some.mp h.parses
  obtain ⟨root, hroot, hrootObject⟩ := Option.bind_eq_some_iff.mp hobject
  obtain ⟨tree', htree', hreads⟩ := parseJsonObject_reads hroot
  obtain rfl := Option.some.inj (htree.symm.trans htree')
  obtain ⟨value, hvalue, hdistinct⟩ := Option.bind_eq_some_iff.mp hreads
  have hcanonical := (parseJsonObject_canonical hroot).1
  obtain ⟨rfl, -⟩ := hcanonical.eq_ofTable hrootObject
  obtain rfl := parseObjects_metadataObject hparsed hcanonical
  obtain ⟨value', hvalue'⟩ := Option.isSome_iff_exists.mp (Raw.isSome_toValue.mpr hpython)
  -- the two readings are one tree of pairs, and so is what is left of it without repeated keys
  obtain ⟨both, rfl, rfl, hnumbers⟩ := Raw.toValue_both hvalue hvalue'
  rw [Value.distinct_mapNumber, Option.map_eq_some_iff] at hdistinct
  obtain ⟨read, hread, hrust⟩ := hdistinct
  obtain ⟨records, rfl, hrecords⟩ :=
    metadataObject_of_mapNumber (Value.canonical_of_distinct hread) hrust
  refine ⟨records, htree, fun literal hliteral => ⟨?_, hpython literal hliteral⟩, hrecords.symm, ?_,
    fun n => ?_⟩
  · exact Raw.isSome_toValue.mp (Option.isSome_of_eq_some hvalue) literal hliteral
  · have hrust := (parseObjects_maps hparsed).2.2.2
    rw [requiredObject, getElem?_metadataObject.2, Option.bind_some, Value.asObject_ofTable,
      Option.bind_some] at hrust
    have hvalues := (parseMetadata_eq_some.mp hrust).2
    have hdistinct : (both.mapNumber Prod.snd).distinct =
        some (.ofTable (metadataObject (mapNumbers Prod.snd records))) := by
      rw [Value.distinct_mapNumber, hread, Option.map_some, Value.mapNumber_ofTable,
        mapNumbers_metadataObject]
    have hobject : ∃ members, both.mapNumber Prod.snd = .object members := by
      cases both with
      | object members => exact ⟨_, rfl⟩
      | array items =>
        obtain ⟨_, -, heq⟩ := Option.map_eq_some_iff.mp hread
        cases heq
      | null | bool | number | string => cases hread
    obtain ⟨members, hmembers⟩ := hobject
    rw [hmembers] at hvalue' hdistinct
    have hmap : members.distinct =
        some (metadataObject (mapNumbers Prod.snd records)) := by
      obtain ⟨table, htable, heq⟩ := Option.map_eq_some_iff.mp hdistinct
      rw [htable, Value.ofTable_injective heq]
    refine ⟨members, ?_, hmap, parseMetadata_eq hmap fun id value hvalue => ?_⟩
    · simp [loadsDict, htree, hvalue', hdistinct, requireMapping]
    · rw [getElem?_mapNumbers, Option.map_eq_some_iff] at hvalue
      obtain ⟨pair, hpair, rfl⟩ := hvalue
      have hid := hvalues id (pair.mapNumber Prod.fst) (by
        rw [← hrecords, getElem?_mapNumbers, hpair, Option.map_some])
      rwa [isSome_asObject_mapNumber] at hid ⊢
  · rw [← hnumbers, ← Value.mem_numbers_distinct hread, mem_numbers_metadataObject]

/-! ## The index -/

theorem rejectArtifacts_iff {location : Location} :
    rejectEmptyLazyVectorArtifacts disk location = true ↔
      disk.index = none ∧ disk.vectors = none := by
  unfold rejectEmptyLazyVectorArtifacts
  rw [Bool.and_eq_true, Bool.and_eq_true, Option.isNone_iff_eq_none, Option.isNone_iff_eq_none,
    Option.isNone_iff_eq_none, and_assoc]
  refine and_iff_right_of_imp fun hmissing => ?_
  cases location with
  | index => exact hmissing.1
  | vectors name => simp [Disk.node, hmissing.2]

section Opened

variable (h : Opens codec disk storeFile.rows expected none store parsed generation)

include h

/-- In an empty store Python finds no index when there is no directory for one. -/
theorem readIndex_lazy (hlazy : parsed.emptyLazy = true) (location : Location)
    {metadata : Object PyNumber} (hmetadata : parsed.metadata = ∅ → metadata = ∅) :
    readIndex disk around.loads (fieldsOf parsed location) (decide (parsed.stringToU64 ≠ ∅ ∨
        parsed.u64ToSlot ≠ ∅ ∨ parsed.documents ≠ ∅ ∨ metadata ≠ ∅)) =
      if disk.index = none ∧ disk.vectors = none then some none else none := by
  have hvalid := h.validated
  simp only [ParsedPayloads.validateAgainstGeneration, hlazy, if_true, Bool.and_eq_true,
    decide_eq_true_eq] at hvalid
  obtain ⟨-, ⟨⟨⟨hdim, hstrings⟩, hslots⟩, hdocuments⟩, hempty⟩ := hvalid
  simp only [readIndex, fieldsOf, hlazy, hdim, hstrings, hslots, hdocuments, hmetadata hempty,
    if_true]
  by_cases hmissing : disk.index = none ∧ disk.vectors = none
  · simp [rejectArtifacts_iff.mpr hmissing, hmissing]
  · simp [Bool.eq_false_iff.mpr (mt rejectArtifacts_iff.mp hmissing), hmissing]

theorem readIndex_bundle (hlazy : parsed.emptyLazy = false) {location : Location}
    (hlocation : locate parsed.indexPath = some location) (hasRecords : Bool) :
    ∃ bundle, disk.bundle parsed.indexPath = some bundle ∧
      generation.vectorCount = bundle.vectorCount ∧
      readIndex disk around.loads (fieldsOf parsed location) hasRecords =
        if around.loads bundle then some (some (location, bundle)) else none := by
  have hcheckpoint := h.checkpoint
  unfold activeGenerationCheckpoint at hcheckpoint
  rw [hlazy, if_neg Bool.false_ne_true] at hcheckpoint
  obtain ⟨bundle, hbundle, hcheckpoint⟩ := Option.bind_eq_some_iff.mp hcheckpoint
  obtain ⟨id, -, hgeneration⟩ := Option.bind_eq_some_iff.mp hcheckpoint
  obtain rfl := Option.some.inj hgeneration
  have hvalid := h.validated
  simp only [ParsedPayloads.validateAgainstGeneration, hlazy, Bool.false_eq_true, if_false,
    Bool.and_eq_true, decide_eq_true_eq] at hvalid
  obtain ⟨-, ⟨⟨⟨⟨-, hbits⟩, hdim⟩, -⟩, -⟩, -⟩ := hvalid
  have hnode : (disk.node location).bind Node.bundle = some bundle := by
    simpa [Disk.bundle, hlocation] using hbundle
  refine ⟨bundle, hbundle, rfl, ?_⟩
  simp only [readIndex, fieldsOf, hlazy, hnode, hbits, hdim, Bool.false_eq_true, if_false]
  split <;> simp [*]

omit h in
/-- An index that is loaded has the dimension of the document. -/
theorem readIndex_dim (hlazy : parsed.emptyLazy = false) {location : Location} {hasRecords : Bool}
    {index : Option (Location × Bundle)}
    (hindex : readIndex disk around.loads (fieldsOf parsed location) hasRecords = some index) :
    parsed.dim = index.map (·.2.dim) := by
  simp only [readIndex, fieldsOf, hlazy, Bool.false_eq_true, if_false, Option.bind_eq_bind,
    Option.bind_eq_some_iff, Option.guard_eq_some', Option.pure_def, Option.some.injEq,
    exists_const] at hindex
  obtain ⟨-, bundle, -, -, -, hdim, rfl⟩ := hindex
  exact hdim

/-! ## The store -/

/-- The slots of accepted payloads are those of the rows of the generation. -/
theorem slots_fit : ∃ slots,
    slotMapFromU64ToSlot parsed.u64ToSlot generation.vectorCount = some slots ∧
      ∀ row ∈ parsed.u64ToSlot.toList, slots[row.2]? = some row.1 := by
  have hgeneration := h.validated
  have hfits : (∀ item ∈ parsed.u64ToSlot.toList, item.2 < generation.vectorCount) ∧
      parsed.u64ToSlot.size = generation.vectorCount := by
    cases hlazy : parsed.emptyLazy with
    | true =>
      obtain ⟨-, -, -, -, hcount⟩ := checkpoint_lazy h.checkpoint hlazy
      simp only [ParsedPayloads.validateAgainstGeneration, hlazy, if_true, Bool.and_eq_true,
        decide_eq_true_eq] at hgeneration
      rw [hgeneration.2.1.1.2, hcount]
      simp
    | false =>
      simp only [ParsedPayloads.validateAgainstGeneration, hlazy, Bool.false_eq_true, if_false,
        Bool.and_eq_true, decide_eq_true_eq, List.all_eq_true] at hgeneration
      exact ⟨hgeneration.2.2, hgeneration.2.1.2⟩
  obtain ⟨slots, hslots, -, hplaced⟩ :=
    slotMap_eq_some (ParsedPayloads.parse_validMaps h.parses).slots hfits.1 hfits.2
  exact ⟨slots, hslots, hplaced⟩

theorem init_eq {index : Option (Location × Bundle)} {metadata : Object PyNumber}
    (hmetadata : metadata.keys = parsed.metadata.keys) (token : StoreRevision) (location : Location)
    (hcount : index.elim 0 (·.2.vectorCount) = generation.vectorCount) :
    ∃ slotToU64, AdapterStore.init (fieldsOf parsed location) index (idMapOf parsed)
        parsed.documents metadata token =
      if parsed.dim.all fun dim => validateDimCompatibleWithBits dim parsed.bits then
        some ⟨parsed.adapterName, parsed.bits, index, idMapOf parsed, slotToU64, parsed.documents,
          metadata, parsed.indexPath, token⟩
      else none := by
  obtain ⟨slotToU64, hslots, hplaced⟩ := slots_fit h
  have hvalid := ParsedPayloads.parse_validMaps h.parses
  have hconsistent :
      validateConsistency (idMapOf parsed) slotToU64 parsed.documents metadata := by
    unfold validateConsistency
    simp only [idMapOf, Bool.and_eq_true, decide_eq_true_eq, List.all_eq_true]
    exact ⟨⟨⟨⟨⟨⟨decide_eq_true hvalid.documents, decide_eq_true (hmetadata.trans hvalid.metadata)⟩,
      decide_eq_true hvalid.distinct⟩, fun id hid => decide_eq_true (hvalid.slotKeys.1 id hid),
      fun id hid => decide_eq_true (hvalid.slotKeys.2 id hid)⟩, decide_eq_true hvalid.slots⟩,
      hplaced⟩, fun id hid => decide_eq_true (hvalid.allocated id hid)⟩
  refine ⟨slotToU64, ?_⟩
  simp only [AdapterStore.init, hcount, idMapOf, fieldsOf] at hconsistent ⊢
  rw [hslots]
  split <;> simp [*]

end Opened

/-! ## Agreement -/

theorem loadsStateJson_eq {loads : Text → Option (Members N)} {limit : Nat} {payload : Text} :
    loadsStateJson loads around.size limit payload =
      if around.size payload ≤ limit then loads payload else none := by
  unfold loadsStateJson
  split <;> simp [*]

/-- The token is that of the manifest when the path is spelled plainly. -/
theorem commitToken_eq (h : Opens codec disk storeFile.rows expected none store parsed generation)
    (hpath : ¬HasDot parsed.indexPath) :
    commitTokenFromManifest store.manifest = some (.fromManifest store.manifest) := by
  have hmanifest := h.manifestGeneration
  simp only [verifyManifestGeneration, Bool.and_eq_true, decide_eq_true_eq] at hmanifest
  have hactive : store.manifest.activeGenerationPath = generation.path := hmanifest.1.1.2
  have hplain : store.manifest.activeGenerationPath = "" ∨
      (locateIndexPath store.manifest.activeGenerationPath).isSome := by
    cases hlazy : parsed.emptyLazy with
    | true => exact .inl (hactive.trans (checkpoint_lazy h.checkpoint hlazy).2.2.1)
    | false =>
      obtain ⟨_, -, -, hsame, -⟩ := checkpoint_bundle h.checkpoint hlazy
      obtain ⟨_, location, -, hlocation, -⟩ := readFields_eq h
      have hvalid : validateIndexPath parsed.indexPath := Option.isSome_of_eq_some hlocation
      rw [hactive, hsame, locateIndexPath_eq hvalid, if_neg hpath, hlocation]
      exact .inr rfl
  simp [commitTokenFromManifest, hplain]

theorem opens_of_openVerified (h : openVerified codec disk storeFile expected = some store) :
    ∃ parsed generation, Opens codec disk storeFile.rows expected none store parsed generation := by
  unfold openVerified openVerifiedAtStoreFile at h
  cases storeFile with
  | missing => cases h
  | blank => cases h
  | tables tables => exact openTables_eq_some.mp h

/-- What Python asks for beside the id map. -/
structure Fits (around : Surroundings Text) (disk : Disk) (payloads : LegacyPayloads Text)
    (parsed : ParsedPayloads) : Prop where
  adapterSize : around.size payloads.adapterJson ≤ maxAdapterJsonBytes
  sidecarSizes : ∀ text ∈ [payloads.idMapJson, payloads.documentsJson, payloads.metadataJson],
    around.size text ≤ maxSidecarJsonBytes
  path : ¬HasDot parsed.indexPath
  lazy : parsed.emptyLazy = true → disk.index = none ∧ disk.vectors = none
  loads : parsed.emptyLazy = false → ∀ bundle, disk.bundle parsed.indexPath = some bundle →
    around.loads bundle
  dim : ∀ dim, parsed.dim = some dim → validateDimCompatibleWithBits dim parsed.bits

/-- The store that Python loads of accepted payloads. -/
def loadedStore (parsed : ParsedPayloads) (token : StoreRevision)
    (index : Option (Location × Bundle)) (idMap : IdMap) (slotToU64 : List Nat)
    (metadata : Object PyNumber) : AdapterStore :=
  ⟨parsed.adapterName, parsed.bits, index, idMap, slotToU64, parsed.documents, metadata,
    parsed.indexPath, token⟩

section Loaded

variable (h : Opens json.codec disk storeFile.rows expected none store parsed generation)
  (hopened : openVerified json.codec disk storeFile expected = some store)
  {members : Members} (hmembers : loadsObject json.codec store.payloads.idMapJson = some members)

include h hopened hmembers

theorem of_load {loaded : AdapterStore}
    (hload : AdapterStore.load json around disk storeFile expected = some loaded) :
    Fits around disk store.payloads parsed ∧ ∃ token index idMap slotToU64 tree records,
      parseIdMap members = some idMap ∧
        SharedMetadata json store.payloads.metadataJson parsed tree records ∧
        loaded = loadedStore parsed token index idMap slotToU64 (mapNumbers Prod.snd records) := by
  obtain ⟨adapter, location, hadapter, hlocation, hfields⟩ := readFields_eq h
  obtain ⟨documentsDict, hdocumentsDict, hdocuments⟩ := parseDocuments_eq h
  simp only [AdapterStore.load, hopened, Option.bind_eq_bind, Option.bind_some,
    Option.bind_eq_some_iff, loadsStateJson_eq, Option.ite_none_right_eq_some, hadapter,
    hmembers, hdocumentsDict, Option.some.injEq] at hload
  obtain ⟨_, ⟨hsize, rfl⟩, _, ⟨hidMapSize, rfl⟩, _, ⟨hdocumentsSize, rfl⟩, metadataDict,
    ⟨hmetadataSize, hmetadataDict⟩, fields, hread, idMap, hidMap, documents, hdocuments', metadata,
    hmetadata', token, -, index, hindex, hinit⟩ := hload
  obtain ⟨hpath, hread⟩ : ¬HasDot parsed.indexPath ∧ fieldsOf parsed location = fields := by
    rw [hfields] at hread
    split at hread
    next => cases hread
    next hpath => exact ⟨hpath, Option.some.inj hread⟩
  subst hread
  obtain rfl := Option.some.inj (hdocuments.symm.trans hdocuments')
  obtain ⟨tree, htree, hpython⟩ := isSome_of_loadsDict hmetadataDict
  obtain ⟨records, hshared⟩ := sharedMetadata h htree hpython
  obtain ⟨_, hmembers', -, hmetadata⟩ := hshared.python
  obtain rfl := Option.some.inj (hmetadataDict.symm.trans hmembers')
  obtain rfl := Option.some.inj (hmetadata.symm.trans hmetadata')
  obtain ⟨_, hguard, hinit⟩ := Option.bind_eq_some_iff.mp hinit
  obtain ⟨slotToU64, -, hinit⟩ := Option.bind_eq_some_iff.mp hinit
  obtain ⟨_, -, hloaded⟩ := Option.bind_eq_some_iff.mp hinit
  have hdimension : parsed.dim.all fun dim => validateDimCompatibleWithBits dim parsed.bits :=
    (Option.guard_eq_some' _).mp hguard
  refine ⟨⟨hsize, by simp [hidMapSize, hdocumentsSize, hmetadataSize], hpath, fun hlazy => ?_,
    fun hlazy bundle hbundle => ?_, fun dim hdim => ?_⟩, token, index, idMap, slotToU64, tree,
    records, hidMap, hshared, (Option.some.inj hloaded).symm⟩
  · simp only [readIndex, fieldsOf, hlazy, if_true, Option.bind_eq_bind, Option.bind_eq_some_iff,
      Option.guard_eq_some', exists_const] at hindex
    exact rejectArtifacts_iff.mp hindex.2.2.1
  · obtain ⟨bundle', hbundle', -, hbundleIndex⟩ := readIndex_bundle h hlazy hlocation _
    obtain rfl := Option.some.inj (hbundle.symm.trans hbundle')
    exact (Option.ite_none_right_eq_some.mp (hbundleIndex.symm.trans hindex)).1
  · rw [hdim] at hdimension
    exact hdimension

theorem load_of (hfits : Fits around disk store.payloads parsed)
    (hidMap : parseIdMap members = some (idMapOf parsed)) {tree : Raw}
    {records : Object (Number × PyNumber)}
    (hshared : SharedMetadata json store.payloads.metadataJson parsed tree records) :
    ∃ index slotToU64, AdapterStore.load json around disk storeFile expected =
        some (loadedStore parsed (.fromManifest store.manifest) index (idMapOf parsed) slotToU64
          (mapNumbers Prod.snd records)) ∧
      index.map Prod.fst = locate store.manifest.activeGenerationPath ∧
      index.map (·.2.dim) = parsed.dim := by
  obtain ⟨adapter, location, hadapter, hlocation, hfields⟩ := readFields_eq h
  obtain ⟨documentsDict, hdocumentsDict, hdocuments⟩ := parseDocuments_eq h
  obtain ⟨metadataDict, hmetadataDict, -, hmetadata⟩ := hshared.python
  have hmanifest := h.manifestGeneration
  simp only [verifyManifestGeneration, Bool.and_eq_true, decide_eq_true_eq] at hmanifest
  have hactive : store.manifest.activeGenerationPath = generation.path := hmanifest.1.1.2
  have hdimension : parsed.dim.all fun dim => validateDimCompatibleWithBits dim parsed.bits := by
    cases hdim : parsed.dim with
    | none => rfl
    | some dim => exact hfits.dim dim hdim
  -- the index is that of the active generation
  obtain ⟨index, hindex, hcount, hsame, hdim⟩ : ∃ index, readIndex disk around.loads
        (fieldsOf parsed location) (decide (parsed.stringToU64 ≠ ∅ ∨ parsed.u64ToSlot ≠ ∅ ∨
          parsed.documents ≠ ∅ ∨ mapNumbers Prod.snd records ≠ ∅)) = some index ∧
      index.elim 0 (·.2.vectorCount) = generation.vectorCount ∧
      index.map Prod.fst = locate store.manifest.activeGenerationPath ∧
      index.map (·.2.dim) = parsed.dim := by
    cases hlazy : parsed.emptyLazy with
    | true =>
      obtain ⟨-, -, hempty, -, hzero⟩ := checkpoint_lazy h.checkpoint hlazy
      have hvalid := h.validated
      simp only [ParsedPayloads.validateAgainstGeneration, hlazy, if_true, Bool.and_eq_true,
        decide_eq_true_eq] at hvalid
      refine ⟨none, ?_, hzero.symm, ?_, hvalid.2.1.1.1.1.symm⟩
      · rw [readIndex_lazy h hlazy location, if_pos (hfits.lazy hlazy)]
        rw [hshared.rust, mapNumbers_eq_empty, mapNumbers_eq_empty]
        exact id
      · rw [hactive, hempty]
        decide
    | false =>
      obtain ⟨bundle, hbundle, hcount, hindex⟩ := readIndex_bundle h hlazy hlocation _
      obtain ⟨_, -, -, hpath, -⟩ := checkpoint_bundle h.checkpoint hlazy
      rw [if_pos (hfits.loads hlazy bundle hbundle)] at hindex
      refine ⟨some (location, bundle), hindex, hcount.symm, ?_, ?_⟩
      · rw [hactive, hpath, hlocation]
        rfl
      · exact (readIndex_dim hlazy hindex).symm
  have hkeys : (mapNumbers Prod.snd records).keys = parsed.metadata.keys := by
    rw [hshared.rust, keys_mapNumbers, keys_mapNumbers]
  obtain ⟨slotToU64, hinit⟩ := init_eq h hkeys (.fromManifest store.manifest) location hcount
  rw [if_pos hdimension] at hinit
  refine ⟨index, slotToU64, ?_, hsame, hdim⟩
  have hsizes := hfits.sidecarSizes
  simp only [List.forall_mem_cons, List.not_mem_nil, false_imp_iff, implies_true, and_true]
    at hsizes
  simp only [AdapterStore.load, hopened, Option.bind_eq_bind, Option.bind_some,
    loadsStateJson_eq, hfits.adapterSize, hsizes, if_true, hadapter, hmembers,
    hdocumentsDict, hmetadataDict, hfields, if_neg hfits.path, hidMap, hdocuments, hmetadata,
    commitToken_eq h hfits.path]
  exact hindex ▸ hinit

end Loaded

/-- On a root that opens in Rust the readers agree exactly when it is readable. -/
theorem readers_agree_iff
    (hopened : openVerified json.codec disk storeFile expected = some store) :
    ReadersAgree json around disk storeFile expected store ↔
      ∃ parsed, ParsedPayloads.parse json.codec store.payloads = some parsed ∧
        Readable json around disk store.payloads parsed := by
  obtain ⟨parsed, generation, h⟩ := opens_of_openVerified hopened
  obtain ⟨members, slotsDict, slots, slotRows, htree⟩ := sharedTree h.parses
  have hinOrder : slotsInOrder json.codec store.payloads.idMapJson =
      dictItems slotEntry slotsDict := by
    simp [slotsInOrder, htree.loads, htree.mapping]
  constructor
  · rintro ⟨parsed', loaded, hparsed', hload, hview⟩
    obtain rfl := Option.some.inj (h.parses.symm.trans hparsed')
    obtain ⟨hfits, token, index, idMap, slotToU64, tree, records, hidMap, hshared, rfl⟩ :=
      of_load h hopened htree.loads hload
    have hslots : dictItems slotItem slotsDict = some parsed.u64ToSlot := by
      rw [htree.python] at hidMap
      obtain ⟨u64ToSlot, hitems, rfl⟩ := Option.map_eq_some_iff.mp hidMap
      rw [hitems, ← hview.u64ToSlot]
      rfl
    obtain ⟨hkeys, horder⟩ := htree.items_iff.mp hslots
    exact ⟨parsed, h.parses, hfits.adapterSize, hfits.sidecarSizes, hfits.path,
      fun key hkey => hkeys key (htree.keys ▸ hkey), hinOrder.trans horder,
      fun tree' htree' => Option.some.inj (hshared.document.symm.trans htree') ▸
        hshared.same_iff.mp hview.metadata, hfits.lazy, hfits.loads, hfits.dim⟩
  · rintro ⟨parsed', hparsed', hreadable⟩
    obtain rfl := Option.some.inj (h.parses.symm.trans hparsed')
    have hitems := htree.items_iff.mpr ⟨fun key hkey => hreadable.keys key (htree.keys.symm ▸ hkey),
      hinOrder.symm.trans hreadable.slots⟩
    have hidMap : parseIdMap members = some (idMapOf parsed) := by
      rw [htree.python, hitems]
      rfl
    obtain ⟨tree, hmetadata, hrust⟩ := metadataTree_of_parse h.parses
    have halike := hreadable.numbers tree hmetadata
    obtain ⟨records, hshared⟩ := sharedMetadata h hmetadata fun literal hliteral =>
      PyNumber.isSome_read (halike literal hliteral) (hrust literal hliteral)
    obtain ⟨index, slotToU64, hload, hsame, -⟩ := load_of h hopened htree.loads
      ⟨hreadable.adapterSize, hreadable.sidecarSizes, hreadable.path, hreadable.lazy,
        hreadable.loads, hreadable.dim⟩ hidMap hshared
    exact ⟨parsed, _, h.parses, hload,
      ⟨rfl, rfl, rfl, rfl, rfl, rfl, hshared.same_iff.mpr halike, hsame, rfl⟩⟩

/-! ## Examples -/

def exampleJson : JsonModule Raw := ⟨.ofTrees, exampleFloats⟩

/-- Surroundings where every text is short and every index loads. -/
def exampleAround : Surroundings Raw := ⟨fun _ => 0, fun _ => true⟩

theorem readable_pair : ∃ parsed,
    ParsedPayloads.parse exampleCodec (pairPayloads (memberN (.int false 1))) = some parsed ∧
      Readable exampleJson exampleAround pairEnv.disk (pairPayloads (memberN (.int false 1)))
        parsed := by
  let payloads := pairPayloads (memberN (.int false 1))
  have hsome : (ParsedPayloads.parse exampleCodec payloads).isSome := by decide +kernel
  obtain ⟨parsed, hparsed⟩ := Option.isSome_iff_exists.mp hsome
  have hpath : (ParsedPayloads.parse exampleCodec payloads).map (·.indexPath) =
      some "vectors/g000000000001.odb" := by decide +kernel
  have hslots : (slotsInOrder exampleCodec payloads.idMapJson).map (·.toList) =
      (ParsedPayloads.parse exampleCodec payloads).map (·.u64ToSlot.toList) := by decide +kernel
  have hlazy : (ParsedPayloads.parse exampleCodec payloads).map (·.emptyLazy) = some false := by
    decide +kernel
  have hshape : (ParsedPayloads.parse exampleCodec payloads).map (fun p => (p.bits, p.dim)) =
      some (2, some 8) := by decide +kernel
  have hkeys : slotKeys exampleCodec payloads.idMapJson = ["0", "1"] := by decide +kernel
  have hliterals : payloads.metadataJson.literals = [.int false 1] := by decide +kernel
  rw [hparsed, Option.map_some, Option.some.injEq] at hpath hlazy hshape
  rw [hparsed, Option.map_some, Option.map_eq_some_iff] at hslots
  obtain ⟨slots, hread, hsame⟩ := hslots
  obtain ⟨hbits, hdim⟩ := Prod.mk.inj hshape
  refine ⟨parsed, hparsed, Nat.zero_le _, fun _ _ => Nat.zero_le _, ?_, ?_, ?_, ?_,
    fun h => absurd (hlazy.symm.trans h) (by decide), fun _ _ _ => rfl, fun dim h => ?_⟩
  · rw [hpath]
    decide +kernel
  · intro key hkey
    have hkey : key ∈ slotKeys exampleCodec payloads.idMapJson := hkey
    rw [hkeys] at hkey
    rcases List.mem_pair.mp hkey with rfl | rfl <;> decide +kernel
  · exact hread.trans (congrArg some (Std.ExtTreeMap.toList_inj.mp hsame))
  · rintro tree htree literal hliteral
    obtain rfl := Option.some.inj htree
    have hliteral : literal ∈ payloads.metadataJson.literals := hliteral
    rw [hliterals, List.mem_singleton] at hliteral
    subst hliteral
    exact .inl (show 1 < 2 ^ 64 by norm_num)
  · rw [hdim, Option.some.injEq] at h
    rw [hbits, ← h]
    decide

theorem readers_agree_pair : ∃ store,
    openVerified exampleCodec pairEnv.disk (pairStore (memberN (.int false 1))) none = some store ∧
    ReadersAgree exampleJson exampleAround pairEnv.disk (pairStore (memberN (.int false 1))) none
      store := by
  have hsome : ((openVerified exampleCodec pairEnv.disk (pairStore (memberN (.int false 1)))
      none).map (·.payloads)) = some (pairPayloads (memberN (.int false 1))) := by decide +kernel
  obtain ⟨store, hopened, hpayloads⟩ := Option.map_eq_some_iff.mp hsome
  refine ⟨store, hopened, Iff.mpr (readers_agree_iff ?_) ?_⟩
  · exact hopened
  · rw [hpayloads]
    exact readable_pair

/-- An empty store. -/
def lazyPayloads : LegacyPayloads Raw where
  adapterJson := exampleFloats.ofValue (jsonObject
    [("schema_version", .string "ordinaldb.adapter.v1"), ("adapter", .string "langchain"),
      ("bits", jsonNat 2), ("dim", .null), ("empty_lazy", .bool true),
      ("index_path", .string "vectors/g000000000001.odb"), ("sidecars", .null)])
  idMapJson := exampleFloats.ofValue (jsonObject
    [("schema_version", .string "ordinaldb.adapter.id_map.v1"), ("next_u64_id", jsonNat 0),
      ("string_to_u64", jsonObject []), ("u64_to_slot", jsonObject [])])
  documentsJson := exampleFloats.ofValue (jsonObject
    [("schema_version", .string "ordinaldb.adapter.documents.v1"), ("documents", jsonObject [])])
  metadataJson := exampleFloats.ofValue (.ofTable (metadataObject ∅))

/-- An empty store whose first save of a vector has been cut behind making `vectors/`. -/
def debrisRoot : Root Raw where
  disk := ⟨none, some ∅⟩
  pins := ∅
  storeFile := ((Call.writeLegacySnapshot none lazyPayloads .created).run exampleCodec
    { pairEnv with disk := ⟨none, none⟩ } .missing).2
  named := by decide

theorem debrisRoot_reached : Reached exampleCodec debrisRoot := by
  have hstart : Reached exampleCodec (⟨⟨none, none⟩, ∅, .missing, by decide⟩ : Root Raw) :=
    .start ..
  exact (hstart.save pairEnv (.writeLegacySnapshot none lazyPayloads .created) rfl).change _ _ _

/-- The root of two records, the second one with a number. -/
def pairRoot (literal : Literal) : Root Raw where
  disk := pairEnv.disk
  pins := ∅
  storeFile := ((Call.writeLegacySnapshot none (pairPayloads (memberN literal)) .created).run
    exampleCodec pairEnv .missing).2
  named := by decide

theorem pairRoot_reached (literal : Literal) : Reached exampleCodec (pairRoot literal) := by
  have hstart : Reached exampleCodec (⟨pairEnv.disk, ∅, .missing, by decide⟩ : Root Raw) :=
    .start ..
  exact hstart.save pairEnv
    (.writeLegacySnapshot none (pairPayloads (memberN literal)) .created) rfl

theorem toRat_doubleAboveWords : Double.toRat doubleAboveWords = 2 ^ 64 := by
  have hexponent : ((0x43F0000000000000 : UInt64) >>> 52 &&& 0x7ff).toNat = 1087 := by
    decide +kernel
  have hfraction : ((0x43F0000000000000 : UInt64) &&& 0xfffffffffffff).toNat = 0 := by
    decide +kernel
  have hsign : ¬(0x43F0000000000000 : UInt64) >>> 63 = 1 := by decide +kernel
  simp only [Double.toRat, doubleAboveWords, hexponent, hfraction, hsign]
  norm_num [signed]

/-- Rust opens an empty store beside debris, and Python does not; of 18446744073709551617 Rust
makes a double and Python an `int`. -/
theorem readers_disagree :
    (∃ store, Reached exampleCodec debrisRoot ∧
      openVerified exampleCodec debrisRoot.disk debrisRoot.storeFile none = some store ∧
      ¬ReadersAgree exampleJson exampleAround debrisRoot.disk debrisRoot.storeFile none store) ∧
    ∃ store, Reached exampleCodec (pairRoot (.int false (2 ^ 64 + 1))) ∧
      openVerified exampleCodec pairEnv.disk (pairRoot (.int false (2 ^ 64 + 1))).storeFile none =
        some store ∧
      ¬ReadersAgree exampleJson exampleAround pairEnv.disk
        (pairRoot (.int false (2 ^ 64 + 1))).storeFile none store := by
  constructor
  · have hsome : (openVerified exampleCodec debrisRoot.disk debrisRoot.storeFile none).isSome := by
      decide +kernel
    obtain ⟨store, hopened⟩ := Option.isSome_iff_exists.mp hsome
    refine ⟨store, debrisRoot_reached, hopened, ?_⟩
    rintro ⟨_, loaded, -, hload, -⟩
    have hnone : (AdapterStore.load exampleJson exampleAround debrisRoot.disk
        debrisRoot.storeFile none).isNone := by decide +kernel
    rw [hload] at hnone
    cases hnone
  · have hpayloads : (openVerified exampleCodec pairEnv.disk
        (pairRoot (.int false (2 ^ 64 + 1))).storeFile none).map (·.payloads) =
          some (pairPayloads (memberN (.int false (2 ^ 64 + 1)))) := by decide +kernel
    obtain ⟨store, hopened, hpayloads⟩ := Option.map_eq_some_iff.mp hpayloads
    refine ⟨store, pairRoot_reached _, hopened, ?_⟩
    rintro ⟨parsed, loaded, hparsed, hload, hview⟩
    have hrust : (ParsedPayloads.parse exampleCodec
        (pairPayloads (memberN (.int false (2 ^ 64 + 1))))).map (·.metadata["b"]?) =
          some (some (.object (.cons "n" (.number (.float doubleAboveWords.1 doubleAboveWords.2))
            .nil))) := by
      decide +kernel
    have hpython : (AdapterStore.load exampleJson exampleAround pairEnv.disk
        (pairRoot (.int false (2 ^ 64 + 1))).storeFile none).map (·.metadata["b"]?) =
          some (some (.object (.cons "n" (.number (.int (2 ^ 64 + 1))) .nil))) := by
      decide +kernel
    have hparsed : ParsedPayloads.parse exampleCodec store.payloads = some parsed := hparsed
    rw [← hpayloads, hparsed, Option.map_some, Option.some.injEq] at hrust
    rw [hload, Option.map_some, Option.some.injEq] at hpython
    have hsame := hview.metadata "b"
    rw [hrust, hpython] at hsame
    simp only [Option.map_some, Value.mapNumber, Members.mapNumber, PyNumber.toRat, Number.toRat,
      Option.some.injEq, Value.object.injEq, Members.cons.injEq, Value.number.injEq, true_and,
      and_true] at hsame
    have hword : ((2 ^ 64 + 1 : Int) : ℚ) = 2 ^ 64 := hsame.trans toRat_doubleAboveWords
    norm_num at hword

end OrdinalDB.Adapter
