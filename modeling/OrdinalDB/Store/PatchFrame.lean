import OrdinalDB.Store.Edits
import OrdinalDB.Store.JsonTexts
import OrdinalDB.Store.VerifiedRows

/-!
# What a metadata patch changes

A metadata patch reads the metadata document of the store, replaces the values
of the patched ids and prints the document again, so the records that it does
not name go through a value of `serde_json` and back. Everything else is left
alone: the other documents, the tables, and the rows of the other ids.

`patch_frame_iff`: the other records stay the same JSON values exactly when their
numbers are integers of 64 bits, or what their nearest doubles are printed as.
-/

namespace OrdinalDB.Store

open Json

variable {Text : Type} {grammar : JsonGrammar Text} {floats : FloatText}

/-! ## The metadata document -/

/-- The metadata document of a store. -/
def metadataTree (grammar : JsonGrammar Text) (tables : Tables Text) : Option Raw :=
  tables.jsonPayloads["metadata"]?.bind grammar.tree

/-- The node at a place of the metadata document. -/
def metadataNode (grammar : JsonGrammar Text) (tables : Tables Text) (path : List Step) :
    Option Json.Node :=
  (metadataTree grammar tables).bind fun tree => tree.nodeAt path

/-- The place does not lie in a patched record. -/
def Untouched (patches : List MetadataPatch) (path : List Step) : Prop :=
  ∀ id rest, path = .key "metadata" :: .key id :: rest → lastPatch id patches = none

theorem child_ofTable (members : Object) (name : String) :
    (floats.ofValue (.ofTable members)).child (.key name) = members[name]?.map floats.ofValue := by
  rw [← lookup_toList, ← floats.lookup_toRaw]
  rfl

/-- Two maps of records with the same values outside the patched ones. -/
theorem nodeAt_records {metadata patched : Table String Value} {patches : List MetadataPatch}
    (h : ∀ id : String, lastPatch id patches = none → patched[id]? = metadata[id]?)
    {path : List Step} (hpath : Untouched patches (.key "metadata" :: path)) :
    (floats.ofValue (.ofTable patched)).nodeAt path =
      (floats.ofValue (.ofTable metadata)).nodeAt path := by
  cases path with
  | nil => rfl
  | cons step path =>
    cases step with
    | index i => rfl
    | key id =>
      unfold Raw.nodeAt Raw.find
      rw [child_ofTable, child_ofTable, h id (hpath id path rfl)]

/-- Two metadata documents with the same values outside the patched records. -/
theorem nodeAt_metadataObject {metadata patched : Table String Value}
    {patches : List MetadataPatch}
    (h : ∀ id : String, lastPatch id patches = none → patched[id]? = metadata[id]?)
    {path : List Step} (hpath : Untouched patches path) :
    (floats.ofValue (.ofTable (metadataObject patched))).nodeAt path =
      (floats.ofValue (.ofTable (metadataObject metadata))).nodeAt path := by
  cases path with
  | nil => rfl
  | cons step path =>
    cases step with
    | index i => rfl
    | key name =>
      unfold Raw.nodeAt Raw.find
      rw [child_ofTable, child_ofTable]
      by_cases hkey : name ∈ ["schema_version", "metadata"]
      · rcases List.mem_pair.mp hkey with rfl | rfl
        · rw [getElem?_metadataObject.1, getElem?_metadataObject.1]
        · rw [getElem?_metadataObject.2, getElem?_metadataObject.2]
          exact nodeAt_records h hpath
      · have hnone : ∀ metadata : Table String Value, (metadataObject metadata)[name]? = none :=
          fun metadata => Std.ExtTreeMap.getElem?_eq_none (mt mem_metadataObject.mp hkey)
        rw [hnone, hnone]

/-- The metadata document of a parsed store has no members of its own. -/
theorem parseObjects_metadataObject {adapter idMap documents object : Object}
    {parsed : ParsedPayloads}
    (h : ParsedPayloads.parseObjects adapter idMap documents object = some parsed)
    (hcanonical : (Value.ofTable object).Canonical) : object = metadataObject parsed.metadata := by
  have hmetadata := (ParsedPayloads.parseObjects_metadata h).2
  simp only [ParsedPayloads.parseObjects, Option.bind_eq_bind, Option.bind_eq_some_iff,
    Option.guard_eq_some', exists_const] at h
  obtain ⟨-, -, -, hkeys, -, -, -, hschema, -⟩ := h
  obtain ⟨schema, hschema, hstring⟩ := Option.bind_eq_some_iff.mp hschema
  have hversion : schema = .string "ordinaldb.adapter.metadata.v1" := by
    cases schema with
    | string s => exact congrArg Value.string (Option.some.inj hstring)
    | null | bool | number | array | object => cases hstring
  obtain ⟨records, hrecords, hparsed⟩ := Option.bind_eq_some_iff.mp hmetadata
  obtain ⟨rfl, -⟩ := parseMetadata_eq_some.mp hparsed
  obtain ⟨value, hvalue, hobject⟩ := Option.bind_eq_some_iff.mp hrecords
  obtain ⟨-, hmembers⟩ := hcanonical.eq_ofTable (Value.asObject_ofTable object)
  obtain ⟨hrecordsTable, -⟩ := (hmembers _ _ hvalue).eq_ofTable hobject
  refine Std.ExtTreeMap.ext_getElem? fun key => ?_
  by_cases hkey : key ∈ ["schema_version", "metadata"]
  · rcases List.mem_pair.mp hkey with rfl | rfl
    · rw [hschema, hversion, getElem?_metadataObject.1]
    · rw [hvalue, hrecordsTable, getElem?_metadataObject.2]
  · rw [Std.ExtTreeMap.getElem?_eq_none (mt (requireExactKeys_iff.mp hkeys key).mp hkey),
      Std.ExtTreeMap.getElem?_eq_none (mt mem_metadataObject.mp hkey)]

/-! ## The frame -/

/-- The manifest after a patch: the next commit, its time, and one more audit row. -/
def Manifest.patched (manifest : Manifest) (now : Nat) : Manifest :=
  { manifest with
    commitSequence := manifest.commitSequence + 1
    updatedAtUnixMs := some (unixMs now)
    tableCounts := { manifest.tableCounts with auditLog := manifest.tableCounts.auditLog + 1 } }

/-- The tables differ only in what the patches name. -/
structure OnlyPatched (grammar : JsonGrammar Text) (floats : FloatText) (now : Nat)
    (patches : List MetadataPatch) (before after : Tables Text) : Prop where
  manifest : ∃ manifest, before.manifest = some manifest ∧
    after.manifest = some (manifest.patched now)
  metaRows : ∀ key ≠ "manifest", after.metaRows[key]? = before.metaRows[key]?
  payloads : ∀ key ≠ "metadata", after.jsonPayloads[key]? = before.jsonPayloads[key]?
  stringToU64 : after.stringToU64 = before.stringToU64
  u64ToString : after.u64ToString = before.u64ToString
  u64ToSlot : after.u64ToSlot = before.u64ToSlot
  documents : after.documents = before.documents
  generations : after.generations = before.generations
  pendingBatches : after.pendingBatches = before.pendingBatches
  tombstones : after.tombstones = before.tombstones
  gcQueue : after.gcQueue = before.gcQueue
  audit : ∃ sequence row, sequence ∉ before.auditLog ∧
    after.auditLog = before.auditLog.insert sequence row
  otherRows : ∀ u64 : Nat, (∀ id : String, before.stringToU64[id]? = some u64 →
    lastPatch id patches = none) → after.metadata[u64]? = before.metadata[u64]?
  patchedRows : ∀ id patch u64, lastPatch id patches = some patch →
    before.stringToU64[id]? = some u64 →
    after.metadata[u64]? = some (grammar.print (floats.ofValue patch.value))
  patchedRecords : ∀ id patch, lastPatch id patches = some patch →
    (metadataTree grammar after).bind (·.find [.key "metadata", .key id]) =
      some (floats.ofValue patch.value)
  /-- The other records are the same JSON values. -/
  otherRecords : ∀ path, Untouched patches path →
    metadataNode grammar after path = metadataNode grammar before path

/-- Every number outside the patched records is read and printed exactly. -/
def NumbersExact (grammar : JsonGrammar Text) (floats : FloatText)
    (patches : List MetadataPatch) (before : Tables Text) : Prop :=
  ∀ path literal, Untouched patches path →
    (metadataTree grammar before).bind (·.find path) = some (.number literal) →
    floats.Exact literal

section Frame

variable {env : Env} {storeFile : StoreFile Text} {expected : StoreRevision}
  {patches : List MetadataPatch} {after : Tables Text} {store : VerifiedAdapterStore Text}
  {parsed : ParsedPayloads} {generation : GenerationCheckpoint} {metadata : Table String Value}
  {rows : List (Nat × Value)}

/-- The metadata document before a patch, and what reading and printing leaves of it. -/
theorem Patched.document (h : Patched (.ofGrammar grammar floats) env storeFile expected patches
    after store parsed generation metadata rows) :
    ∃ tree, metadataTree grammar storeFile.rows = some tree ∧
      floats.Reprinted tree (floats.ofValue (.ofTable (metadataObject parsed.metadata))) := by
  obtain ⟨_, _, _, object, -, -, -, hobject, hparsed⟩ :=
    ParsedPayloads.parse_eq_some.mp h.opens.parses
  obtain ⟨root, hroot, hrootObject⟩ := Option.bind_eq_some_iff.mp hobject
  obtain ⟨tree, htree, hreads⟩ := parseJsonObject_reads hroot
  have hcanonical := (parseJsonObject_canonical hroot).1
  obtain ⟨rfl, -⟩ := hcanonical.eq_ofTable hrootObject
  have hdocument := parseObjects_metadataObject hparsed hcanonical
  refine ⟨tree, ?_, ⟨_, hreads, by rw [hdocument]⟩⟩
  have htext := (mem_jsonPayloads_of_load h.opens.payloads).2.2.2
  rw [metadataTree, htext, Option.bind_some, htree]

/-- The metadata document that a patch leaves. -/
theorem Patched.document_after (h : Patched (.ofGrammar grammar floats) env storeFile expected
    patches after store parsed generation metadata rows) :
    metadataTree grammar after = some (floats.ofValue (.ofTable (metadataObject metadata))) := by
  rw [metadataTree, h.after, Table.getElem?_insert_self, Option.bind_some]
  exact grammar.tree_print _

theorem Patched.other_value (h : Patched (.ofGrammar grammar floats) env storeFile expected
    patches after store parsed generation metadata rows) (id : String)
    (hlast : lastPatch id patches = none) : metadata[id]? = parsed.metadata[id]? := by
  rw [h.values, hlast]
  rfl

/-- A place outside the patched records keeps its node unless the number there is not exact. -/
theorem Patched.metadataNode_iff (h : Patched (.ofGrammar grammar floats) env storeFile expected
    patches after store parsed generation metadata rows) {path : List Step}
    (hpath : Untouched patches path) :
    metadataNode grammar after path = metadataNode grammar storeFile.rows path ↔
      ∀ literal, (metadataTree grammar storeFile.rows).bind (·.find path) =
        some (.number literal) → floats.Exact literal := by
  obtain ⟨tree, htree, hreprinted⟩ := h.document
  unfold metadataNode
  rw [h.document_after, htree, Option.bind_some, Option.bind_some, Option.bind_some,
    nodeAt_metadataObject h.other_value hpath, eq_comm]
  exact hreprinted.nodeAt_iff path

/-- The rows of ids without a patch stay. -/
theorem Patched.otherRow (h : Patched (.ofGrammar grammar floats) env storeFile expected patches
    after store parsed generation metadata rows) {u64 : Nat}
    (hother : ∀ id : String, storeFile.rows.stringToU64[id]? = some u64 →
      lastPatch id patches = none) :
    after.metadata[u64]? = storeFile.rows.metadata[u64]? := by
  have hstrings := (verifyTablesMatchPayloads_iff.mp h.opens.rows).1.1
  rw [h.after]
  refine Table.insertMany_of_not_mem fun hkey => ?_
  simp only [List.map_map, List.mem_map, Function.comp_apply, Prod.exists, exists_and_right,
    exists_eq_right] at hkey
  obtain ⟨value, hrow⟩ := hkey
  obtain ⟨id, hpatched, hid, -⟩ := h.row_iff.mp hrow
  have hid' : storeFile.rows.stringToU64[id]? = some u64 := by rwa [hstrings]
  rw [hother id hid'] at hpatched
  cases hpatched

/-- The row of a patched id holds its last patch. -/
theorem Patched.patchedRow (h : Patched (.ofGrammar grammar floats) env storeFile expected patches
    after store parsed generation metadata rows) {id : String} {patch : MetadataPatch} {u64 : Nat}
    (hlast : lastPatch id patches = some patch)
    (hid : storeFile.rows.stringToU64[id]? = some u64) :
    after.metadata[u64]? = some (grammar.print (floats.ofValue patch.value)) := by
  have hstrings := (verifyTablesMatchPayloads_iff.mp h.opens.rows).1.1
  have hid' : parsed.u64ForString id = some u64 := by rwa [hstrings] at hid
  have hvalue : metadata[id]? = some patch.value := by
    rw [h.values, hlast]
    rfl
  rw [h.after]
  refine Table.insertMany_of_agree (fun row hrow hkey => ?_) ?_
  · -- another row of this id is the row of the same string
    obtain ⟨⟨u64', value'⟩, hmem, rfl⟩ := List.mem_map.mp hrow
    obtain ⟨id', -, hid'', hvalue'⟩ := h.row_iff.mp hmem
    obtain rfl : u64' = u64 := hkey
    obtain rfl :=
      (ParsedPayloads.parse_validMaps h.opens.parses).u64ForString_injective hid'' hid'
    rw [Option.some.inj (hvalue'.symm.trans hvalue)]
    rfl
  · refine List.mem_map.mpr ⟨_, List.mem_map.mpr ⟨(u64, patch.value), ?_, rfl⟩, rfl⟩
    exact h.row_iff.mpr ⟨id, Option.isSome_of_eq_some hlast, hid', hvalue⟩

/-- The audit row is a new one in a store that opens again. -/
theorem Patched.audit_new (h : Patched (.ofGrammar grammar floats) env storeFile expected patches
    after store parsed generation metadata rows) (hcounts : after.counts =
      { store.manifest.tableCounts with auditLog := store.manifest.tableCounts.auditLog + 1 }) :
    store.manifest.commitSequence + 1 ∉ storeFile.rows.auditLog := by
  intro hmem
  have hbefore : store.manifest.tableCounts.auditLog = storeFile.rows.auditLog.size :=
    congrArg TableCounts.auditLog h.opens.counts
  have hafter : after.auditLog.size = store.manifest.tableCounts.auditLog + 1 :=
    congrArg TableCounts.auditLog hcounts
  rw [h.after, hbefore] at hafter
  have hsize := Table.size_insert_of_mem
    (v := some (AuditRow.metadataPatched (store.manifest.commitSequence + 1) patches.length
      store.manifest.activeGenerationId store.manifest.activeGenerationPath (env.now 1))) hmem
  exact absurd (hsize.symm.trans hafter) (by omega)

/-- Every part of the frame but the values of the other records holds of every patch. -/
theorem Patched.onlyPatched (h : Patched (.ofGrammar grammar floats) env storeFile expected patches
    after store parsed generation metadata rows) (hcounts : after.counts =
      { store.manifest.tableCounts with auditLog := store.manifest.tableCounts.auditLog + 1 })
    (hrecords : ∀ path, Untouched patches path →
      metadataNode grammar after path = metadataNode grammar storeFile.rows path) :
    OnlyPatched grammar floats (env.now 0) patches storeFile.rows after where
  manifest := by
    refine ⟨store.manifest, h.opens.manifest, ?_⟩
    rw [h.after]
    simp [Tables.manifest, updateMetadataPatchManifest, Manifest.patched]
  metaRows key hkey := by rw [h.after, Table.getElem?_insert_of_ne hkey]
  payloads key hkey := by rw [h.after, Table.getElem?_insert_of_ne hkey]
  stringToU64 := by rw [h.after]
  u64ToString := by rw [h.after]
  u64ToSlot := by rw [h.after]
  documents := by rw [h.after]
  generations := by rw [h.after]
  pendingBatches := by rw [h.after]
  tombstones := by rw [h.after]
  gcQueue := by rw [h.after]
  audit := ⟨_, _, h.audit_new hcounts, by rw [h.after]⟩
  otherRows _ hother := h.otherRow hother
  patchedRows _ _ _ hlast hid := h.patchedRow hlast hid
  patchedRecords id patch hlast := by
    have hvalue : metadata[id]? = some patch.value := by
      rw [h.values, hlast]
      rfl
    rw [h.document_after, Option.bind_some, Raw.find, child_ofTable, getElem?_metadataObject.2,
      Option.map_some, Option.bind_some, Raw.find, child_ofTable, hvalue]
    rfl
  otherRecords := hrecords

end Frame

/-- A metadata patch that succeeds changes only what it names exactly when every number of the
other records is exact. -/
theorem patch_frame_iff {env : Env} {storeFile file : StoreFile Text} {expected : StoreRevision}
    {patches : List MetadataPatch} {store : VerifiedAdapterStore Text}
    (h : commitInner (.ofGrammar grammar floats) env storeFile expected (.patchMetadata patches) =
      (some store, file)) :
    OnlyPatched grammar floats (env.now 0) patches storeFile.rows file.rows ↔
      NumbersExact grammar floats patches storeFile.rows := by
  simp only [commitInner, commitMetadataPatch] at h
  cases htables : patchTransaction (.ofGrammar grammar floats) env storeFile expected patches with
  | none =>
    rw [htables] at h
    cases h
  | some after =>
    rw [htables] at h
    obtain ⟨hopen, rfl⟩ := Prod.mk.inj h
    obtain ⟨before, parsed, generation, metadata, rows, hpatched⟩ := patchTransaction_eq_some htables
    obtain ⟨_, _, hopens⟩ := openTables_eq_some.mp hopen
    have hcounts : after.counts = { before.manifest.tableCounts with
        auditLog := before.manifest.tableCounts.auditLog + 1 } := by
      have hmanifest : after.manifest = some (updateMetadataPatchManifest before.manifest
          (before.manifest.commitSequence + 1) (before.manifest.tableCounts.auditLog + 1)
          (env.now 0)) := by
        rw [hpatched.after]
        simp [Tables.manifest]
      have hsame := Option.some.inj (hmanifest.symm.trans hopens.manifest)
      rw [← hopens.counts, ← hsame]
      rfl
    constructor
    · intro honly path literal hpath hliteral
      exact (hpatched.metadataNode_iff hpath).mp (honly.otherRecords path hpath) literal hliteral
    · intro hexact
      exact hpatched.onlyPatched hcounts fun path hpath =>
        (hpatched.metadataNode_iff hpath).mpr fun literal => hexact path literal hpath

/-! ## A number that does not fit -/

/-- 2 to the 64. -/
def doubleAboveWords : Double := ⟨0x43F0000000000000, by decide⟩

/-- A conversion that is the real one on the numbers of the example: `18446744073709551617` is
read as 2 to the 64, which is printed as `1.8446744073709552e19`. Other doubles are printed as
their bits. -/
def exampleFloats : FloatText where
  parse
    | .int false magnitude => if magnitude = 2 ^ 64 + 1 then some doubleAboveWords else none
    | .decimal false mantissa exponent =>
      if mantissa = 18446744073709552 ∧ exponent = 3 then some doubleAboveWords
      else if h : mantissa.toUInt64 >>> 52 &&& 0x7ff ≠ 0x7ff then some ⟨mantissa.toUInt64, h⟩
      else none
    | _ => none
  print double :=
    if double = doubleAboveWords then (false, 18446744073709552, 3)
    else (false, double.1.toNat, 0)
  parse_print double := by
    by_cases hdouble : double = doubleAboveWords
    · simp [hdouble]
    · have hexponent : ¬(double.1.toNat = 18446744073709552 ∧ (0 : Int) = 3) := by simp
      simp only [if_neg hdouble, if_neg hexponent, UInt64.ofNat_toNat, Nat.toUInt64_eq]
      rw [dif_pos double.2]

def exampleCodec : JsonCodec Raw := .ofGrammar .ofTrees exampleFloats

/-- The payloads of the records `a`, without metadata, and `b`. -/
def pairPayloads (metadataOfB : Raw) : LegacyPayloads Raw where
  adapterJson := exampleFloats.ofValue (jsonObject
    [("schema_version", .string "ordinaldb.adapter.v1"), ("adapter", .string "langchain"),
      ("bits", jsonNat 2), ("dim", jsonNat 8), ("empty_lazy", .bool false),
      ("index_path", .string "vectors/g000000000001.odb"), ("sidecars", .null)])
  idMapJson := exampleFloats.ofValue (jsonObject
    [("schema_version", .string "ordinaldb.adapter.id_map.v1"), ("next_u64_id", jsonNat 2),
      ("string_to_u64", jsonObject [("a", jsonNat 0), ("b", jsonNat 1)]),
      ("u64_to_slot", jsonObject [("0", jsonNat 0), ("1", jsonNat 1)])])
  documentsJson := exampleFloats.ofValue (jsonObject
    [("schema_version", .string "ordinaldb.adapter.documents.v1"),
      ("documents", jsonObject [("a", .string "first"), ("b", .string "second")])])
  metadataJson := .object (.cons "schema_version" (.string "ordinaldb.adapter.metadata.v1")
    (.cons "metadata" (.object (.cons "a" (.object .nil) (.cons "b" metadataOfB .nil))) .nil))

def pairEnv : Env where
  disk := {
    index := none
    vectors := some ((∅ : Table String Node).insert "g000000000001.odb"
      (.dir (some ⟨2, 8, 2, "digest", 100⟩))) }
  now _ := 0
  random _ := 0

def pairStore (metadataOfB : Raw) : StoreFile Raw :=
  (writeLegacySnapshotInner exampleCodec pairEnv .missing none (pairPayloads metadataOfB)
    .created).2

/-- `{"n": literal}`. -/
def memberN (literal : Literal) : Raw := .object (.cons "n" (.number literal) .nil)

/-- Empty metadata for `a`. -/
def patchA : MetadataPatch := ⟨"a", ∅, by simp⟩

/-- The patch of `a` in a store where `b` has a number. -/
def patchPair (literal : Literal) : Option (StoreRevision × Outcome Raw) :=
  (pairStore (memberN literal)).rows.manifest.map fun manifest =>
    (.fromManifest manifest, commitInner exampleCodec pairEnv (pairStore (memberN literal))
      (.fromManifest manifest) (.patchMetadata [patchA]))

theorem patchPair_eq_some {literal : Literal} {expected : StoreRevision} {outcome : Outcome Raw}
    (h : patchPair literal = some (expected, outcome)) :
    commitInner exampleCodec pairEnv (pairStore (memberN literal)) expected
      (.patchMetadata [patchA]) = outcome := by
  obtain ⟨manifest, -, hpair⟩ := Option.map_eq_some_iff.mp h
  obtain ⟨rfl, hcommit⟩ := Prod.mk.inj hpair
  exact hcommit

theorem patch_frame_iff_pair : ∃ expected store file,
    commitInner exampleCodec pairEnv (pairStore (memberN (.int false 1))) expected
      (.patchMetadata [patchA]) = (some store, file) ∧
    OnlyPatched .ofTrees exampleFloats 0 [patchA] (pairStore (memberN (.int false 1))).rows
      file.rows := by
  have hrun : (patchPair (.int false 1)).any fun (_, outcome) => outcome.1.isSome := by
    decide +kernel
  obtain ⟨⟨expected, answer, file⟩, hpatch, hanswer⟩ := (Option.any_eq_true _ _).mp hrun
  obtain ⟨store, rfl⟩ := Option.isSome_iff_exists.mp hanswer
  have hcommit := patchPair_eq_some hpatch
  refine ⟨_, store, file, hcommit, (patch_frame_iff hcommit).mpr fun path literal _ hliteral => ?_⟩
  obtain ⟨tree, htree, hfind⟩ := Option.bind_eq_some_iff.mp hliteral
  have hliterals : ((metadataTree .ofTrees (pairStore (memberN (.int false 1))).rows).map
      Raw.literals) = some [.int false 1] := by decide +kernel
  rw [htree, Option.map_some, Option.some.injEq] at hliterals
  have hmem := Raw.mem_literals hfind
  rw [hliterals, List.mem_singleton] at hmem
  subst hmem
  exact .inl (show 1 < 2 ^ 64 by norm_num)

/-- Patch `a`: the 18446744073709551617 of `b` becomes 18446744073709552000. -/
theorem patch_changes_neighbour : ∃ expected store file,
    commitInner exampleCodec pairEnv (pairStore (memberN (.int false (2 ^ 64 + 1)))) expected
      (.patchMetadata [patchA]) = (some store, file) ∧
    ¬OnlyPatched .ofTrees exampleFloats 0 [patchA]
      (pairStore (memberN (.int false (2 ^ 64 + 1)))).rows file.rows := by
  have hrun : (patchPair (.int false (2 ^ 64 + 1))).any fun (_, outcome) => outcome.1.isSome &&
      metadataNode .ofTrees outcome.2.rows [.key "metadata", .key "b", .key "n"] =
        some (.number 18446744073709552000) := by
    decide +kernel
  obtain ⟨⟨expected, answer, file⟩, hpatch, hanswer⟩ := (Option.any_eq_true _ _).mp hrun
  obtain ⟨hsome, hafter⟩ := Bool.and_eq_true_iff.mp hanswer
  obtain ⟨store, rfl⟩ := Option.isSome_iff_exists.mp hsome
  have hcommit := patchPair_eq_some hpatch
  refine ⟨_, store, file, hcommit, fun honly => ?_⟩
  have huntouched : Untouched [patchA] [.key "metadata", .key "b", .key "n"] := by
    intro id rest hpath
    obtain ⟨rfl, -⟩ : "b" = id ∧ [Step.key "n"] = rest := by simpa using hpath
    decide
  have hsame := honly.otherRecords _ huntouched
  rw [of_decide_eq_true hafter] at hsame
  have hbefore : metadataNode .ofTrees (pairStore (memberN (.int false (2 ^ 64 + 1)))).rows
      [.key "metadata", .key "b", .key "n"] = some (.number 18446744073709551617) := by
    decide +kernel
  rw [hbefore] at hsame
  exact absurd (Node.number.inj (Option.some.inj hsame)) (by norm_num)

end OrdinalDB.Store
