import OrdinalDB.Store.Transactions

/-!
# Verified rows

What a verified open says about the row tables, for tables of any content. The
identifier tables are the maps of the payloads. The documents and metadata
tables hold a row for every active id, but may hold more: their rows are looked
up one by one, and counted only against the manifest that is stored with them
(`rows_exact_iff`, `stray_document`).
-/

namespace OrdinalDB.Store

open Json

variable {Text : Type}

/-- The row tables are the payloads, spread out under u64 ids. A metadata row is an object that is
equal to the one of the payload. -/
structure RowsExact (codec : JsonCodec Text) (tables : Tables Text) (parsed : ParsedPayloads) :
    Prop where
  stringToU64 : tables.stringToU64 = parsed.stringToU64
  u64ToString : ∀ (u64 : Nat) (id : String),
    tables.u64ToString[u64]? = some id ↔ parsed.stringToU64[id]? = some u64
  u64ToSlot : tables.u64ToSlot = parsed.u64ToSlot
  documents : ∀ (u64 : Nat) (document : String), tables.documents[u64]? = some document ↔
    ∃ id : String, parsed.stringToU64[id]? = some u64 ∧ parsed.documents[id]? = some document
  metadata : ∀ (u64 : Nat) (text : Text), tables.metadata[u64]? = some text →
    ∃ (id : String) (stored value : Value), parsed.stringToU64[id]? = some u64 ∧
      parsed.metadata[id]? = some value ∧ parseJsonObject codec text = some stored ∧
      stored.equals value
  metadataRows : ∀ (id : String) (value : Value), parsed.metadata[id]? = some value →
    ∃ u64, parsed.stringToU64[id]? = some u64 ∧ u64 ∈ tables.metadata

/-- The documents and metadata tables have no more rows than the payloads have entries. -/
def NoStrayRows (tables : Tables Text) (parsed : ParsedPayloads) : Prop :=
  tables.documents.size = parsed.documents.size ∧ tables.metadata.size = parsed.metadata.size

theorem mem_of_getElem? {K V : Type} [Ord K] [Std.TransOrd K] {table : Table K V} {key : K}
    {value : V} (h : table[key]? = some value) : key ∈ table :=
  Std.ExtTreeMap.mem_iff_isSome_getElem?.mpr (Option.isSome_of_eq_some h)

theorem getElem?_of_mem {K V : Type} [Ord K] [Std.TransOrd K] {table : Table K V} {key : K}
    (h : key ∈ table) : ∃ value, table[key]? = some value :=
  Option.isSome_iff_exists.mp (Std.ExtTreeMap.mem_iff_isSome_getElem?.mp h)

/-- A table with a row for every id of a map holds the rows of the map alone exactly when its
size is the size of the map. -/
theorem rows_exact_of_size {V W : Type} {parsed : ParsedPayloads} (hvalid : parsed.ValidMaps)
    {values : Table String V} (hkeys : values.keys = parsed.stringToU64.keys) (table : Table Nat W)
    (hrows : ∀ id ∈ values, ∃ u64, parsed.u64ForString id = some u64 ∧ u64 ∈ table) :
    table.size = values.size ↔
      ∀ u64 ∈ table, ∃ id ∈ values, parsed.u64ForString id = some u64 := by
  obtain ⟨rows, -, hfst, hlength, hmem⟩ := parsed.u64Rows_eq_some hkeys
  have hnodup : (rows.map Prod.fst).Nodup := hfst ▸ hvalid.distinct
  have hkey : ∀ u64, u64 ∈ rows.map Prod.fst ↔
      ∃ id ∈ values, parsed.u64ForString id = some u64 := by
    intro u64
    rw [List.mem_map]
    constructor
    · rintro ⟨⟨_, value⟩, hrow, rfl⟩
      obtain ⟨id, hid, hvalue⟩ := (hmem _ value).mp hrow
      exact ⟨id, mem_of_getElem? hvalue, hid⟩
    · rintro ⟨id, hid, hu64⟩
      obtain ⟨value, hvalue⟩ := getElem?_of_mem hid
      exact ⟨(u64, value), (hmem u64 value).mpr ⟨id, hu64, hvalue⟩, rfl⟩
  have hsub : rows.map Prod.fst ⊆ table.keys := by
    intro u64 hu64
    obtain ⟨id, hid, hlookup⟩ := (hkey u64).mp hu64
    obtain ⟨u64', hlookup', htable⟩ := hrows id hid
    obtain rfl := Option.some.inj (hlookup.symm.trans hlookup')
    exact Std.ExtTreeMap.mem_keys.mpr htable
  rw [← Std.ExtTreeMap.length_keys, ← hlength, ← List.length_map (f := Prod.fst),
    Table.length_eq_iff_subset hnodup Std.ExtTreeMap.nodup_keys hsub]
  exact forall_congr' fun u64 => imp_congr Std.ExtTreeMap.mem_keys (hkey u64)

/-- An accepted store: the row tables are the payloads and the manifest counts them, exactly
when the documents and metadata tables have no stray rows. -/
theorem rows_exact_iff {codec : JsonCodec Text} {disk : Disk} {tables : Tables Text}
    {expectedAdapter : Option String} {store : VerifiedAdapterStore Text}
    (h : openVerified codec disk (.tables tables) expectedAdapter = some store) :
    ∃ parsed, ParsedPayloads.parse codec store.payloads = some parsed ∧
      ((RowsExact codec tables parsed ∧ store.manifest.tableCounts = tables.counts) ↔
        NoStrayRows tables parsed) := by
  obtain ⟨parsed, generation, hopens⟩ := openTables_eq_some.mp h
  have hvalid := ParsedPayloads.parse_validMaps hopens.parses
  obtain ⟨⟨hstrings, hreverse, hslots⟩, hdocuments, hmetadata⟩ :=
    verifyTablesMatchPayloads_iff.mp hopens.rows
  refine ⟨parsed, hopens.parses, ?_⟩
  -- verification finds a row for every payload; no stray row means equal sizes
  have hdocumentRows := rows_exact_of_size hvalid hvalid.documents tables.documents fun id hid => by
    obtain ⟨document, hdocument⟩ := getElem?_of_mem hid
    obtain ⟨u64, hu64, hrow⟩ := hdocuments id document hdocument
    exact ⟨u64, hu64, mem_of_getElem? hrow⟩
  have hmetadataRows := rows_exact_of_size hvalid hvalid.metadata tables.metadata fun id hid => by
    obtain ⟨value, hvalue⟩ := getElem?_of_mem hid
    obtain ⟨u64, _, _, hu64, hrow, -⟩ := hmetadata id value hvalue
    exact ⟨u64, hu64, mem_of_getElem? hrow⟩
  unfold NoStrayRows
  rw [hdocumentRows, hmetadataRows]
  constructor
  · rintro ⟨hexact, -⟩
    constructor
    · intro u64 hu64
      obtain ⟨document, hdocument⟩ := getElem?_of_mem hu64
      obtain ⟨id, hid, hvalue⟩ := (hexact.documents u64 document).mp hdocument
      exact ⟨id, mem_of_getElem? hvalue, hid⟩
    · intro u64 hu64
      obtain ⟨text, htext⟩ := getElem?_of_mem hu64
      obtain ⟨id, _, value, hid, hvalue, -⟩ := hexact.metadata u64 text htext
      exact ⟨id, mem_of_getElem? hvalue, hid⟩
  · rintro ⟨hdocumentIds, hmetadataIds⟩
    refine ⟨⟨hstrings, fun u64 id => ?_, hslots, fun u64 document => ?_, fun u64 text htext => ?_,
      fun id value hvalue => ?_⟩, hopens.counts⟩
    · rw [hreverse, ParsedPayloads.reverse,
        Table.ofList_eq_some (by rw [ParsedPayloads.swap_keys]; exact hvalid.distinct)]
      rw [← Std.ExtTreeMap.mem_toList_iff_getElem?_eq_some, List.mem_map]
      constructor
      · rintro ⟨⟨_, _⟩, hrow, heq⟩
        obtain ⟨rfl, rfl⟩ := Prod.mk.inj heq
        exact hrow
      · exact fun hrow => ⟨(id, u64), hrow, rfl⟩
    · constructor
      · intro hdocument
        obtain ⟨id, hid, hu64⟩ := hdocumentIds u64 (mem_of_getElem? hdocument)
        obtain ⟨expected, hexpected⟩ := getElem?_of_mem hid
        obtain ⟨u64', hu64', hrow⟩ := hdocuments id expected hexpected
        obtain rfl := Option.some.inj (hu64.symm.trans hu64')
        exact ⟨id, hu64, by rw [hexpected, ← hrow, hdocument]⟩
      · rintro ⟨id, hid, hdocument⟩
        obtain ⟨u64', hu64', hrow⟩ := hdocuments id document hdocument
        obtain rfl := Option.some.inj (hid.symm.trans hu64')
        exact hrow
    · obtain ⟨id, hid, hu64⟩ := hmetadataIds u64 (mem_of_getElem? htext)
      obtain ⟨value, hvalue⟩ := getElem?_of_mem hid
      obtain ⟨u64', text', stored, hu64', hrow, hparse, hequals⟩ := hmetadata id value hvalue
      obtain rfl := Option.some.inj (hu64.symm.trans hu64')
      obtain rfl := Option.some.inj (htext.symm.trans hrow)
      exact ⟨id, stored, value, hu64, hvalue, hparse, hequals⟩
    · obtain ⟨u64, _, _, hu64, hrow, -⟩ := hmetadata id value hvalue
      exact ⟨u64, hu64, mem_of_getElem? hrow⟩

/-! ## A stray row -/

def jsonObject (members : List (String × Value)) : Value :=
  .ofTable ((∅ : Object).insertMany members)

def jsonNat (n : Nat) : Value := .number (.posInt n.toUInt64)

/-- The payloads of one record, `a`, in the bundle at `indexPath`. -/
def singlePayloads (indexPath : String) : LegacyPayloads Value where
  adapterJson := jsonObject [("schema_version", .string "ordinaldb.adapter.v1"),
    ("adapter", .string "langchain"), ("bits", jsonNat 2), ("dim", jsonNat 8),
    ("empty_lazy", .bool false), ("index_path", .string indexPath), ("sidecars", .null)]
  idMapJson := jsonObject [("schema_version", .string "ordinaldb.adapter.id_map.v1"),
    ("next_u64_id", jsonNat 1), ("string_to_u64", jsonObject [("a", jsonNat 0)]),
    ("u64_to_slot", jsonObject [("0", jsonNat 0)])]
  documentsJson := jsonObject [("schema_version", .string "ordinaldb.adapter.documents.v1"),
    ("documents", jsonObject [("a", .string "text")])]
  metadataJson := .ofTable (metadataObject ((∅ : Object).insert "a" (jsonObject [])))

/-- A root with two bundles of one vector. -/
def singleEnv : Env where
  disk := {
    index := none
    vectors := some ((∅ : Table String Node).insertMany
      [("g000000000001.odb", .dir (some ⟨2, 8, 1, "digest", 100⟩)),
        ("g000000000002.odb", .dir (some ⟨2, 8, 1, "digest", 100⟩))]) }
  now _ := 0
  random _ := 0

/-- The first snapshot of one record. -/
def singleStore : StoreFile Value :=
  (writeLegacySnapshotInner .ofTrees singleEnv .missing none
    (singlePayloads "vectors/g000000000001.odb") .created).2

/-- Add a document that no payload has, and count it in the manifest. -/
def Tables.addStray (tables : Tables Value) : Tables Value :=
  { tables with
    documents := tables.documents.insert 7 "stray"
    metaRows := tables.metaRows.map fun _ row => row.map fun manifest =>
      { manifest with tableCounts := { manifest.tableCounts with documents := 2 } } }

theorem rows_exact_iff_single : ∃ store parsed,
    openVerified .ofTrees singleEnv.disk (.tables singleStore.rows) none = some store ∧
      ParsedPayloads.parse .ofTrees store.payloads = some parsed ∧
      RowsExact .ofTrees singleStore.rows parsed := by
  have hopen : (openVerified .ofTrees singleEnv.disk (.tables singleStore.rows) none).any
      fun store => (ParsedPayloads.parse .ofTrees store.payloads).any fun parsed =>
        singleStore.rows.documents.size = parsed.documents.size &&
          singleStore.rows.metadata.size = parsed.metadata.size := by
    decide +kernel
  obtain ⟨store, hstore, hparse⟩ := (Option.any_eq_true _ _).mp hopen
  obtain ⟨parsed, hparsed, hiff⟩ := rows_exact_iff hstore
  rw [hparsed, Option.any_some, Bool.and_eq_true, decide_eq_true_eq, decide_eq_true_eq] at hparse
  exact ⟨store, parsed, hstore, hparsed, (hiff.mpr hparse).1⟩

/-- The document under the unused id 7 is accepted. -/
theorem stray_document : ∃ (tables : Tables Value) (store : VerifiedAdapterStore Value)
    (parsed : ParsedPayloads),
    openVerified .ofTrees singleEnv.disk (.tables tables) none = some store ∧
      ParsedPayloads.parse .ofTrees store.payloads = some parsed ∧
      ¬RowsExact .ofTrees tables parsed := by
  have hopen : (openVerified .ofTrees singleEnv.disk (.tables singleStore.rows.addStray) none).any
      fun store => (ParsedPayloads.parse .ofTrees store.payloads).any fun parsed =>
        parsed.nextU64Id = 1 && singleStore.rows.addStray.documents[7]? = some "stray" := by
    decide +kernel
  obtain ⟨store, hstore, hparse⟩ := (Option.any_eq_true _ _).mp hopen
  obtain ⟨parsed, hparsed, hrow⟩ := (Option.any_eq_true _ _).mp hparse
  rw [Bool.and_eq_true, decide_eq_true_eq, decide_eq_true_eq] at hrow
  refine ⟨_, store, parsed, hstore, hparsed, fun hexact => ?_⟩
  obtain ⟨id, hid, -⟩ := (hexact.documents 7 "stray").mp hrow.2
  have hallocated := (ParsedPayloads.parse_validMaps hparsed).allocated 7
    (List.mem_map.mpr ⟨(id, 7), Std.ExtTreeMap.mem_toList_iff_getElem?_eq_some.mpr hid, rfl⟩)
  omega

end OrdinalDB.Store
