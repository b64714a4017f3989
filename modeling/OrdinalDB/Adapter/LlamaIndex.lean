import OrdinalDB.Adapter.LlamaFilters

/-!
# The LlamaIndex vector store

`OrdinalDBVectorStore` of `llama_index.py` over the adapter store: nodes are stamped with the id of
their source document, and are deleted by source document, by node ids and by filters. Building a
node from a record is a parameter.

* `llama_call_does`: what each call does in every reachable store, and that a call that raises
  leaves the store.
* `llama_query_exact`: a query returns the front of the ranking of the records that the filters
  hold of.
-/

namespace OrdinalDB.Adapter.LlamaIndex

open WorkingCopy

abbrev Store := WorkingCopy (Metadata PyTree)

/-! ## Nodes -/

/-- `_NODE_PAYLOAD_KEY`. -/
def nodePayloadKey : String := "__ordinaldb_llama_index_node__"

/-- A node by what the adapter reads of it: `_node_id`, `_node_text`, the embedding (`none` is no
embedding), the metadata, `_node_payload` and `ref_doc_id`. -/
structure Node where
  id : Option String
  text : String
  embedding : Option (Option FloatArray)
  metadata : Metadata PyTree
  payload : Option (List (String × Value))
  refDocId : Option String

/-- `str(value)`; of floats and containers it is a parameter. -/
def pyStr (others : Value → String) : Value → String
  | .none => "None"
  | .bool true => "True"
  | .bool false => "False"
  | .int value => toString value
  | .str text => text
  | value => others value

/-- The keys that `_stamp_ref_doc_metadata` writes. -/
def stampedKeys : List String := ["ref_doc_id", "doc_id", "document_id"]

def setDefault (metadata : Metadata PyTree) (key : String) (value : Value) : Metadata PyTree :=
  if key ∈ metadata then metadata else metadata.insert key value

/-- `_stamp_ref_doc_metadata`. -/
def stampRefDocMetadata (others : Value → String) (refDocId : Option String)
    (metadata : Metadata PyTree) : Metadata PyTree :=
  match refDocId with
  | some stamp => stampedKeys.foldl (fun metadata key => metadata.insert key (.str stamp)) metadata
  | none =>
    let stamp :=
      match metadata.lookup "ref_doc_id" with
      | none | some .none => "None"
      | some existing => pyStr others existing
    stampedKeys.foldl (fun metadata key => setDefault metadata key (.str stamp)) metadata

/-- One round of the loop of `add`. -/
def Node.item (others : Value → String) (node : Node) : Option (Item (Metadata PyTree)) := do
  let embedding ← node.embedding
  let id ← node.id
  guard (nodePayloadKey ∉ node.metadata)
  let payload ← node.payload
  let metadata := node.metadata.insert nodePayloadKey (.container (.dict payload))
  pure ⟨id, node.text, embedding, stampRefDocMetadata others node.refDocId metadata⟩

/-! ## Calls -/

inductive LlamaReply
  | added (ids : List String)
  | done
  | raised
deriving DecidableEq, Repr

/-- A deletion of ids that may be missing. -/
def deleteMissingOk (store : Store) (ids : List String) : LlamaReply × Store :=
  match store.delete (ids.map .str) true with
  | (.deleted _, next) => (.done, next)
  | (_, next) => (.raised, next)

def add (others : Value → String) (store : Store) (nodes : List Node) : LlamaReply × Store :=
  match nodes.mapM (Node.item others) with
  | none => (.raised, store)
  | some items =>
    match store.add (.ofItems items false) with
    | (.added ids, next) => (.added ids, next)
    | (_, next) => (.raised, next)

/-- The record belongs to the source document: `str(metadata["ref_doc_id"])` is the target. -/
def refersTo (others : Value → String) (target : String) (metadata : Metadata PyTree) : Bool :=
  match metadata.lookup "ref_doc_id" with
  | none | some .none => false
  | some value => pyStr others value = target

/-- `delete(ref_doc_id)`. -/
def delete (others : Value → String) (store : Store) (refDocId : String) : LlamaReply × Store :=
  deleteMissingOk store (refDocId :: Agno.idsWhere store (refersTo others refDocId))

/-- The filters on a stored record; no filters are passed by every record. -/
def passes (comparisons : Comparisons) (filters : Option LlamaFilters)
    (record : Record (Metadata PyTree)) : Option Bool :=
  filters.elim (some true) (matchesLlamaFilters comparisons record.metadata)

/-- The ids of `iter_records()`, which comes in some order. -/
def recordIds (store : Store) : List String :=
  Agno.idsWhere store fun _ => true

/-- `self._store.get(ids)` or `iter_records()`. -/
def candidates (store : Store) (nodeIds : Option (List String)) :
    Option (List (String × Record (Metadata PyTree))) := do
  guard (nodeIds.all ("" ∉ ·))
  let ids := nodeIds.getD (recordIds store)
  pure (ids.filterMap fun id => (store.get id).map (id, ·))

/-- `_matching_records`. -/
def matchingRecords (comparisons : Comparisons) (store : Store) (nodeIds : Option (List String))
    (filters : Option LlamaFilters) : Option (List (String × Record (Metadata PyTree))) := do
  let records ← candidates store nodeIds
  guard (∀ record ∈ records, (passes comparisons filters record.2).isSome)
  pure (records.filter fun record => passes comparisons filters record.2 = some true)

def deleteNodes (comparisons : Comparisons) (store : Store) (nodeIds : Option (List String))
    (filters : Option LlamaFilters) : LlamaReply × Store :=
  if nodeIds.isNone && filters.isNone then (.done, store)
  else
    match matchingRecords comparisons store nodeIds filters with
    | none => (.raised, store)
    | some records => deleteMissingOk store (records.map Prod.fst)

def clear (store : Store) : LlamaReply × Store :=
  deleteMissingOk store (recordIds store)

inductive LlamaCall
  | add (nodes : List Node)
  | delete (refDocId : String)
  | deleteNodes (nodeIds : Option (List String)) (filters : Option LlamaFilters)
  | clear

def step (others : Value → String) (comparisons : Comparisons) (store : Store) :
    LlamaCall → LlamaReply × Store
  | .add nodes => LlamaIndex.add others store nodes
  | .delete refDocId => LlamaIndex.delete others store refDocId
  | .deleteNodes nodeIds filters => LlamaIndex.deleteNodes comparisons store nodeIds filters
  | .clear => LlamaIndex.clear store

/-! ## Queries -/

/-- How `TextNode`s are built. -/
structure TextNodes (N : Type) where
  fromDict : List (String × Value) → Option N
  ofText : String → String → Metadata PyTree → Option N

/-- `_node_from_record`; only text nodes are known. -/
def nodeFromRecord {N : Type} (nodes : TextNodes N) (id document : String)
    (metadata : Metadata PyTree) : Option N :=
  match metadata.lookup nodePayloadKey with
  | some (.container (.dict payload)) =>
    match payload.lookup "class_name" with
    | none | some .none => nodes.fromDict payload
    | some (.str className) => if className = "TextNode" then nodes.fromDict payload else none
    | _ => none
  | _ => nodes.ofText id document (metadata.erase nodePayloadKey)

def getNodes {N : Type} (nodes : TextNodes N) (comparisons : Comparisons) (store : Store)
    (nodeIds : Option (List String)) (filters : Option LlamaFilters) : Option (List N) := do
  let records ← matchingRecords comparisons store nodeIds filters
  records.mapM fun record => nodeFromRecord nodes record.1 record.2.document record.2.metadata

/-- `_llama_filters_to_callable`. -/
def toCallable (comparisons : Comparisons) (filters : LlamaFilters) : Filter PyTree :=
  .ofRecord fun _ metadata =>
    match matchesLlamaFilters comparisons metadata filters with
    | some verdict => .returned verdict
    | none => .raised

structure VectorStoreQuery where
  defaultMode : Bool
  queryEmbedding : Option (Option FloatArray)
  similarityTopK : Option Int
  filters : Option LlamaFilters

structure QueryResult (N : Type) where
  nodes : List N
  records : List (AdapterRecord (Metadata PyTree))

/-- `int(similarity_top_k or 4)`. -/
def topK (similarityTopK : Option Int) : Int :=
  match similarityTopK with
  | none | some 0 => 4
  | some k => k

def query {N : Type} (nodes : TextNodes N) (comparisons : Comparisons) (native : NativeSearch)
    (store : Store) (query : VectorStoreQuery) : Option (QueryResult N) := do
  guard query.defaultMode
  let embedding ← query.queryEmbedding
  let records ← searchByVector native store embedding (topK query.similarityTopK)
    (query.filters.map (toCallable comparisons)) none
  let found ← records.mapM fun record =>
    nodeFromRecord nodes record.id record.document record.metadata
  pure ⟨found, records⟩

theorem added_ne_raised {ids : List String} : LlamaReply.added ids ≠ .raised := by
  intro h
  cases h

theorem done_ne_raised : LlamaReply.done ≠ .raised := by decide

/-! ## Reachable stores -/

section Calls

variable {others : Value → String} {comparisons : Comparisons} {store : Store}
  {map : RecordMap (Metadata PyTree)}

theorem deleteMissingOk_store (store : Store) (ids : List String) :
    (deleteMissingOk store ids).2 = (store.delete (ids.map .str) true).2 := by
  unfold deleteMissingOk
  split
  next h => rw [h]
  next h => rw [h]

theorem add_store (store : Store) (nodes : List Node) :
    (LlamaIndex.add others store nodes).2 = store ∨ ∃ items,
      (LlamaIndex.add others store nodes).2 = (store.add (.ofItems items false)).2 := by
  unfold LlamaIndex.add
  split
  next => exact .inl rfl
  next items _ =>
    refine .inr ⟨items, ?_⟩
    split
    next h => rw [h]
    next h => rw [h]

theorem Reached.step (h : Agno.Reached store) (call : LlamaCall) :
    Agno.Reached (step others comparisons store call).2 := by
  have hdelete : ∀ ids, Agno.Reached (deleteMissingOk store ids).2 := by
    intro ids
    rw [deleteMissingOk_store]
    exact h.answer (.delete (ids.map .str) true)
  cases call with
  | add nodes =>
    rcases @add_store others store nodes with hsame | ⟨items, hadd⟩
    · show Agno.Reached (LlamaIndex.add others store nodes).2
      rwa [hsame]
    · show Agno.Reached (LlamaIndex.add others store nodes).2
      rw [hadd]
      exact h.answer (.add (.ofItems items false))
  | delete refDocId => exact hdelete _
  | deleteNodes nodeIds filters =>
    show Agno.Reached (LlamaIndex.deleteNodes comparisons store nodeIds filters).2
    unfold LlamaIndex.deleteNodes
    split
    next => exact h
    next =>
      split
      next => exact h
      next => exact hdelete _
  | clear => exact hdelete _

/-! ## Deletions -/

theorem deleteMissingOk_spec (h : Simulates store map) {ids : List String} (hids : "" ∉ ids) :
    ∃ next, deleteMissingOk store ids = (.done, next) ∧
      ∀ id, next.get id = if id ∈ ids then none else store.get id := by
  have hnonempty : ∀ id ∈ ids, id ≠ "" := fun id hid hempty => hids (hempty ▸ hid)
  obtain ⟨changed, next, hdelete, -, -, hget⟩ := Agno.delete_stored h hnonempty
  refine ⟨next, ?_, hget⟩
  unfold deleteMissingOk
  rw [hdelete]

theorem deleteMissingOk_raised {ids : List String} (hids : "" ∈ ids) :
    deleteMissingOk store ids = (.raised, store) := by
  have hread : (ids.map fun id => (PyValue.str id : PyValue (Metadata PyTree))).mapM
      requireStringId = none := by
    rw [← Option.not_isSome_iff_eq_none]
    intro hsome
    obtain ⟨read, hread⟩ := Option.isSome_iff_exists.mp hsome
    have hmem : requireStringId (.str "" : PyValue (Metadata PyTree)) ∈
        (ids.map fun id => PyValue.str id).map requireStringId :=
      List.mem_map_of_mem (List.mem_map_of_mem hids)
    rw [Table.mapM_eq_some.mp hread] at hmem
    obtain ⟨_, -, hsame⟩ := List.mem_map.mp hmem
    cases hsame
  unfold deleteMissingOk WorkingCopy.delete
  rw [hread]

/-! ## Selections -/

/-- The call looks at the record: its id is among the node ids, if there are any. -/
def LooksAt (store : Store) (nodeIds : Option (List String)) (id : String)
    (record : Record (Metadata PyTree)) : Prop :=
  store.get id = some record ∧ ∀ ids, nodeIds = some ids → id ∈ ids

/-- The filters hold of the record; without filters every record passes. -/
def Passes (comparisons : Comparisons) (filters : Option LlamaFilters)
    (record : Record (Metadata PyTree)) : Prop :=
  ∀ given, filters = some given → given.Hold comparisons record.metadata

theorem passes_spec {filters : Option LlamaFilters} {record : Record (Metadata PyTree)}
    {verdict : Bool} (h : passes comparisons filters record = some verdict) :
    Passes comparisons filters record ↔ verdict = true := by
  cases filters with
  | none =>
    obtain rfl := Option.some.inj h
    simp [Passes]
  | some given => simp [Passes, ← holds_of_verdict h]

theorem mem_keys_of_get (h : Simulates store map) {id : String}
    {record : Record (Metadata PyTree)} (hrecord : store.get id = some record) :
    id ∈ store.stringToU64.keys := by
  rw [h.refines.records id] at hrecord
  rw [h.refines.ids]
  exact Finmap.mem_keys.mpr (Finmap.mem_of_lookup_eq_some hrecord)

theorem ne_of_get (h : Simulates store map) (hnamed : Agno.Named store) {id : String}
    {record : Record (Metadata PyTree)} (hrecord : store.get id = some record) : id ≠ "" := by
  rintro rfl
  exact hnamed (Finmap.mem_keys.mp (mem_keys_of_get h hrecord))

theorem mem_recordIds (h : Simulates store map) {id : String} :
    id ∈ recordIds store ↔ ∃ record, store.get id = some record := by
  rw [recordIds, Agno.mem_idsWhere h]
  exact exists_congr fun record => and_iff_left rfl

theorem candidates_eq_some (h : Simulates store map) {nodeIds : Option (List String)}
    {records : List (String × Record (Metadata PyTree))}
    (hrecords : candidates store nodeIds = some records) {id : String}
    {record : Record (Metadata PyTree)} :
    (id, record) ∈ records ↔ LooksAt store nodeIds id record := by
  simp only [candidates, Option.bind_eq_bind, Option.bind_eq_some_iff, Option.guard_eq_some',
    exists_const, Option.pure_def, Option.some.injEq] at hrecords
  obtain ⟨-, rfl⟩ := hrecords
  have hmem : ∀ ids : List String, (id, record) ∈ ids.filterMap
      (fun id => (store.get id).map (id, ·)) ↔ id ∈ ids ∧ store.get id = some record := by
    intro ids
    simp only [List.mem_filterMap, Option.map_eq_some_iff, Prod.mk.injEq]
    constructor
    · rintro ⟨_, hid, _, hget, rfl, rfl⟩
      exact ⟨hid, hget⟩
    · rintro ⟨hid, hget⟩
      exact ⟨id, hid, record, hget, rfl, rfl⟩
  rw [hmem, LooksAt]
  cases nodeIds with
  | none =>
    rw [Option.getD_none, mem_recordIds h]
    constructor
    · rintro ⟨-, hget⟩
      exact ⟨hget, fun ids hids => absurd hids.symm (Option.some_ne_none ids)⟩
    · rintro ⟨hget, -⟩
      exact ⟨⟨record, hget⟩, hget⟩
  | some ids => simp [and_comm]

/-- What is selected when nothing raises. -/
theorem mem_matchingRecords (h : Simulates store map) {nodeIds : Option (List String)}
    {filters : Option LlamaFilters} {records : List (String × Record (Metadata PyTree))}
    (hrecords : matchingRecords comparisons store nodeIds filters = some records) {id : String}
    {record : Record (Metadata PyTree)} : (id, record) ∈ records ↔
      LooksAt store nodeIds id record ∧ Passes comparisons filters record := by
  simp only [matchingRecords, Option.bind_eq_bind, Option.bind_eq_some_iff, Option.guard_eq_some',
    exists_const, Option.pure_def, Option.some.injEq] at hrecords
  obtain ⟨looked, hlooked, hverdicts, rfl⟩ := hrecords
  rw [List.mem_filter, candidates_eq_some h hlooked, decide_eq_true_eq]
  refine and_congr_right fun hlooks => ?_
  obtain ⟨verdict, hverdict⟩ :=
    Option.isSome_iff_exists.mp (hverdicts _ ((candidates_eq_some h hlooked).mpr hlooks))
  rw [passes_spec hverdict, hverdict, Option.some_inj]

/-- When a selection raises. -/
theorem matchingRecords_eq_none (h : Simulates store map) {nodeIds : Option (List String)}
    {filters : Option LlamaFilters} :
    matchingRecords comparisons store nodeIds filters = none ↔
      (∃ ids, nodeIds = some ids ∧ "" ∈ ids) ∨ ∃ id record, LooksAt store nodeIds id record ∧
        passes comparisons filters record = none := by
  by_cases hnames : nodeIds.all ("" ∉ ·)
  · have hno : ¬∃ ids, nodeIds = some ids ∧ "" ∈ ids := by
      rintro ⟨ids, rfl, hmem⟩
      exact of_decide_eq_true hnames hmem
    rw [or_iff_right hno]
    obtain ⟨looked, hlooked⟩ : ∃ looked, candidates store nodeIds = some looked := by
      unfold candidates
      rw [guard, if_pos hnames]
      exact ⟨_, rfl⟩
    unfold matchingRecords
    rw [hlooked]
    simp only [Option.bind_eq_bind, Option.bind_some]
    by_cases hall : ∀ record ∈ looked, (passes comparisons filters record.2).isSome
    · rw [guard, if_pos hall]
      refine iff_of_false (Option.some_ne_none _) ?_
      rintro ⟨id, record, hlooks, hnone⟩
      have hsome := hall _ ((candidates_eq_some h hlooked).mpr hlooks)
      rw [hnone] at hsome
      cases hsome
    · rw [guard, if_neg hall]
      refine iff_of_true rfl ?_
      push Not at hall
      obtain ⟨⟨id, record⟩, hmem, hnone⟩ := hall
      exact ⟨id, record, (candidates_eq_some h hlooked).mp hmem, by simpa using hnone⟩
  · refine iff_of_true ?_ (.inl ?_)
    · unfold matchingRecords candidates
      rw [guard, if_neg hnames]
      rfl
    · cases nodeIds with
      | none => exact absurd rfl hnames
      | some ids => exact ⟨ids, rfl, by simpa using hnames⟩

/-! ## What calls do -/

/-- What a call that returns leaves. -/
def Leaves (others : Value → String) (comparisons : Comparisons) (store next : Store) :
    LlamaCall → LlamaReply → Prop
  | .add nodes, reply => ∃ items, nodes.mapM (Node.item others) = some items ∧
      reply = .added (items.map (·.id)) ∧ Replaced store next items ∧
      (∀ item ∈ items, item.id ∉ store.stringToU64) ∧
      -- a deletion of its source document finds the node
      ∀ node ∈ nodes, ∀ target, node.refDocId = some target → ∃ id record,
        node.id = some id ∧ next.get id = some record ∧ refersTo others target record.metadata
  | .delete refDocId, reply => reply = .done ∧ ∀ id, next.get id =
      if id = refDocId ∨ (store.get id).any fun record => refersTo others refDocId record.metadata
      then none else store.get id
  | .deleteNodes nodeIds filters, reply => reply = .done ∧
      ((nodeIds = none ∧ filters = none) ∧ next = store ∨
        (nodeIds ≠ none ∨ filters ≠ none) ∧ ∀ id record, next.get id = some record ↔
          store.get id = some record ∧
            ¬(LooksAt store nodeIds id record ∧ Passes comparisons filters record))
  | .clear, reply => reply = .done ∧ ∀ id, next.get id = none

/-- When a call raises. -/
def Raises (others : Value → String) (comparisons : Comparisons) (store : Store) :
    LlamaCall → LlamaReply → Prop
  | .add nodes, reply => ∀ items dim, nodes.mapM (Node.item others) = some items →
      store.acceptsDim dim → (∀ item ∈ items, item.WellFormed dim) → (items.map (·.id)).Nodup →
      (∀ item ∈ items, item.id ∉ store.stringToU64) → reply ≠ .raised
  | .delete refDocId, reply => reply = .raised ↔ refDocId = ""
  | .deleteNodes nodeIds filters, reply => reply = .raised ↔
      (nodeIds ≠ none ∨ filters ≠ none) ∧ ((∃ ids, nodeIds = some ids ∧ "" ∈ ids) ∨
        ∃ id record, LooksAt store nodeIds id record ∧ passes comparisons filters record = none)
  | .clear, reply => reply ≠ .raised

structure Does (others : Value → String) (comparisons : Comparisons) (store : Store)
    (call : LlamaCall) (outcome : LlamaReply × Store) : Prop where
  unchanged : outcome.1 = .raised → outcome.2 = store
  leaves : outcome.1 ≠ .raised → Leaves others comparisons store outcome.2 call outcome.1
  raises : Raises others comparisons store call outcome.1

/-- Without `upsert` the ids of a batch that was taken are new. -/
theorem new_of_added {items : List (Item (Metadata PyTree))} {ids : List String} {next : Store}
    (h : store.add (.ofItems items false) = (.added ids, next)) :
    ∀ item ∈ items, item.id ∉ store.stringToU64 := by
  intro item hitem
  unfold WorkingCopy.add at h
  split at h
  next => cases h
  next hids =>
    have hnone := ids_ofItems_eq_some hids
    rw [List.map_eq_nil_iff.mp hnone.symm] at hitem
    cases hitem
  next read hids =>
    obtain rfl := ids_ofItems_eq_some hids
    split at h
    next => cases h
    next batch hbatch =>
      simp only [readBatch, preflightBatch, Option.bind_eq_bind, Option.bind_eq_some_iff,
        Option.guard_eq_some', exists_const] at hbatch
      obtain ⟨_, _, _, _, _, ⟨-, -, hnew, -⟩, -⟩ := hbatch
      have hnew : ∀ other ∈ items, other.id ∉ store.stringToU64 := by
        simpa [AddArguments.ofItems] using hnew
      exact hnew item hitem

theorem stamp_refersTo {target : String} {metadata : Metadata PyTree} :
    refersTo others target (stampRefDocMetadata others (some target) metadata) := by
  have hlookup : (stampRefDocMetadata others (some target) metadata).lookup "ref_doc_id" =
      some (.str target) := by
    simp [stampRefDocMetadata, stampedKeys, Finmap.lookup_insert_of_ne]
  unfold refersTo
  rw [hlookup]
  exact decide_eq_true rfl

/-- What a round of the loop builds. -/
theorem item_eq_some {node : Node} {item : Item (Metadata PyTree)}
    (h : node.item others = some item) : node.id = some item.id ∧ ∃ metadata,
      item.metadata = stampRefDocMetadata others node.refDocId metadata := by
  simp only [Node.item, Option.bind_eq_bind, Option.bind_eq_some_iff, Option.guard_eq_some',
    exists_const, Option.pure_def, Option.some.injEq] at h
  obtain ⟨_, -, id, hid, -, payload, -, rfl⟩ := h
  exact ⟨hid, _, rfl⟩

theorem add_does (h : Simulates store map) (nodes : List Node) :
    Does others comparisons store (.add nodes) (LlamaIndex.add others store nodes) := by
  cases hitems : nodes.mapM (Node.item others) with
  | none =>
    have hraised : LlamaIndex.add others store nodes = (.raised, store) := by
      simp only [LlamaIndex.add, hitems]
    rw [hraised]
    refine ⟨fun _ => rfl, fun hreply => absurd rfl hreply, fun items dim hread => ?_⟩
    rw [hitems] at hread
    cases hread
  | some items =>
    rcases add_items h items false with ⟨next, hadd, hreplaced⟩ | hrejected
    · have hadded : LlamaIndex.add others store nodes = (.added (items.map (·.id)), next) := by
        simp only [LlamaIndex.add, hitems, hadd]
      rw [hadded]
      refine ⟨fun hreply => absurd hreply added_ne_raised, fun _ => ?_,
        fun _ _ _ _ _ _ _ => added_ne_raised⟩
      refine ⟨items, hitems, rfl, hreplaced, new_of_added hadd, fun node hnode target href => ?_⟩
      have hmapped := List.mem_map_of_mem (f := Node.item others) hnode
      rw [Table.mapM_eq_some.mp hitems] at hmapped
      obtain ⟨item, hitem, hread⟩ := List.mem_map.mp hmapped
      obtain ⟨hid, metadata, hmetadata⟩ := item_eq_some hread.symm
      refine ⟨item.id, item.record, hid, hreplaced.written item hitem, ?_⟩
      show refersTo others target item.metadata
      rw [hmetadata, href]
      exact stamp_refersTo
    · have hraised : LlamaIndex.add others store nodes = (.raised, store) := by
        simp only [LlamaIndex.add, hitems, hrejected]
      rw [hraised]
      refine ⟨fun _ => rfl, fun hreply => absurd rfl hreply, ?_⟩
      intro read dim hread hdim hwellFormed hnodup hnew _
      obtain rfl := Option.some.inj (hitems.symm.trans hread)
      obtain ⟨next, hadd, -⟩ := add_wellFormed h hdim hwellFormed hnodup (.inr hnew)
      rw [hrejected] at hadd
      cases hadd

theorem delete_does (h : Simulates store map) (hnamed : Agno.Named store) (refDocId : String) :
    Does others comparisons store (.delete refDocId)
      (LlamaIndex.delete others store refDocId) := by
  by_cases hempty : refDocId = ""
  · have hraised : LlamaIndex.delete others store refDocId = (.raised, store) :=
      deleteMissingOk_raised (hempty ▸ List.mem_cons_self)
    rw [hraised]
    exact ⟨fun _ => rfl, fun hreply => absurd rfl hreply, iff_of_true rfl hempty⟩
  · have hids : "" ∉ refDocId :: Agno.idsWhere store (refersTo others refDocId) := by
      rw [List.mem_cons, not_or]
      refine ⟨fun heq => hempty heq.symm, fun hmem => ?_⟩
      obtain ⟨record, hrecord, -⟩ := (Agno.mem_idsWhere h).mp hmem
      exact ne_of_get h hnamed hrecord rfl
    obtain ⟨next, hdeleted, hget⟩ := deleteMissingOk_spec h hids
    have hdone : LlamaIndex.delete others store refDocId = (.done, next) := hdeleted
    rw [hdone]
    refine ⟨fun hreply => absurd hreply done_ne_raised, fun _ => ⟨rfl, fun id => ?_⟩,
      iff_of_false done_ne_raised hempty⟩
    rw [hget]
    refine if_congr ?_ rfl rfl
    rw [List.mem_cons, Agno.mem_idsWhere h, Option.any_eq_true]

theorem deleteNodes_does (h : Simulates store map) (hnamed : Agno.Named store)
    (nodeIds : Option (List String)) (filters : Option LlamaFilters) :
    Does others comparisons store (.deleteNodes nodeIds filters)
      (LlamaIndex.deleteNodes comparisons store nodeIds filters) := by
  by_cases hnothing : nodeIds = none ∧ filters = none
  · have hdone : LlamaIndex.deleteNodes comparisons store nodeIds filters = (.done, store) := by
      simp [LlamaIndex.deleteNodes, hnothing]
    rw [hdone]
    refine ⟨fun hreply => absurd hreply done_ne_raised, fun _ => ⟨rfl, .inl ⟨hnothing, rfl⟩⟩,
      iff_of_false done_ne_raised ?_⟩
    rintro ⟨hids | hfilters, -⟩
    · exact hids hnothing.1
    · exact hfilters hnothing.2
  · have hgiven : nodeIds ≠ none ∨ filters ≠ none := not_and_or.mp hnothing
    have hcall : LlamaIndex.deleteNodes comparisons store nodeIds filters =
        match matchingRecords comparisons store nodeIds filters with
        | none => (.raised, store)
        | some records => deleteMissingOk store (records.map Prod.fst) := by
      unfold LlamaIndex.deleteNodes
      rw [if_neg]
      simpa using hnothing
    cases hrecords : matchingRecords comparisons store nodeIds filters with
    | none =>
      have hraised : LlamaIndex.deleteNodes comparisons store nodeIds filters =
          (.raised, store) := by
        rw [hcall, hrecords]
      rw [hraised]
      exact ⟨fun _ => rfl, fun hreply => absurd rfl hreply,
        iff_of_true rfl ⟨hgiven, (matchingRecords_eq_none h).mp hrecords⟩⟩
    | some records =>
      have hselected : ∀ id, id ∈ records.map Prod.fst ↔ ∃ record,
          LooksAt store nodeIds id record ∧ Passes comparisons filters record := by
        intro id
        rw [List.mem_map]
        constructor
        · rintro ⟨⟨_, record⟩, hmem, rfl⟩
          exact ⟨record, (mem_matchingRecords h hrecords).mp hmem⟩
        · rintro ⟨record, hselects⟩
          exact ⟨(id, record), (mem_matchingRecords h hrecords).mpr hselects, rfl⟩
      have hids : "" ∉ records.map Prod.fst := by
        intro hmem
        obtain ⟨record, hlooks, -⟩ := (hselected "").mp hmem
        exact ne_of_get h hnamed hlooks.1 rfl
      obtain ⟨next, hdeleted, hget⟩ := deleteMissingOk_spec h hids
      have hdone : LlamaIndex.deleteNodes comparisons store nodeIds filters = (.done, next) := by
        rw [hcall, hrecords]
        exact hdeleted
      rw [hdone]
      refine ⟨fun hreply => absurd hreply done_ne_raised,
        fun _ => ⟨rfl, .inr ⟨hgiven, fun id record => ?_⟩⟩, iff_of_false done_ne_raised ?_⟩
      · rw [hget, Option.ite_none_left_eq_some, hselected, and_comm]
        refine and_congr_right fun hrecord => not_congr ⟨?_, fun hselects => ⟨record, hselects⟩⟩
        rintro ⟨other, hlooks, hpasses⟩
        obtain rfl := Option.some.inj (hrecord.symm.trans hlooks.1)
        exact ⟨hlooks, hpasses⟩
      · rintro ⟨-, hraises⟩
        rw [(matchingRecords_eq_none h).mpr hraises] at hrecords
        cases hrecords

theorem clear_does (h : Simulates store map) (hnamed : Agno.Named store) :
    Does others comparisons store .clear (LlamaIndex.clear store) := by
  have hids : "" ∉ recordIds store := by
    rw [mem_recordIds h]
    rintro ⟨record, hrecord⟩
    exact hnamed (Finmap.mem_keys.mp (mem_keys_of_get h hrecord))
  obtain ⟨next, hdeleted, hget⟩ := deleteMissingOk_spec h hids
  have hdone : LlamaIndex.clear store = (.done, next) := hdeleted
  rw [hdone]
  refine ⟨fun hreply => absurd hreply done_ne_raised, fun _ => ⟨rfl, fun id => ?_⟩,
    done_ne_raised⟩
  rw [hget]
  split_ifs with hid
  · rfl
  · refine Option.eq_none_iff_forall_ne_some.mpr fun record hrecord => ?_
    exact hid ((mem_recordIds h).mpr ⟨record, hrecord⟩)

end Calls

theorem step_does {others : Value → String} {comparisons : Comparisons} {store : Store}
    (h : Agno.Reached store) (call : LlamaCall) :
    Does others comparisons store call (step others comparisons store call) := by
  obtain ⟨rows, hholds⟩ := h.sound.holds
  obtain ⟨map, hsimulates⟩ := hholds.simulates
  cases call with
  | add nodes => exact add_does hsimulates nodes
  | delete refDocId => exact delete_does hsimulates h.named refDocId
  | deleteNodes nodeIds filters => exact deleteNodes_does hsimulates h.named nodeIds filters
  | clear => exact clear_does hsimulates h.named

/-- `get_nodes` that returns has built one node for each selected record, and for no other. -/
theorem getNodes_selects {N : Type} {nodes : TextNodes N} {comparisons : Comparisons}
    {store : Store} {nodeIds : Option (List String)} {filters : Option LlamaFilters}
    {found : List N} (h : Agno.Reached store)
    (hfound : getNodes nodes comparisons store nodeIds filters = some found) :
    ∃ records : List (String × Record (Metadata PyTree)),
      records.map (fun record =>
        nodeFromRecord nodes record.1 record.2.document record.2.metadata) = found.map some ∧
      ∀ id record, (id, record) ∈ records ↔
        LooksAt store nodeIds id record ∧ Passes comparisons filters record := by
  obtain ⟨rows, hholds⟩ := h.sound.holds
  obtain ⟨map, hsimulates⟩ := hholds.simulates
  simp only [getNodes, Option.bind_eq_bind, Option.bind_eq_some_iff] at hfound
  obtain ⟨records, hrecords, hnodes⟩ := hfound
  exact ⟨records, Table.mapM_eq_some.mp hnodes,
    fun id record => mem_matchingRecords hsimulates hrecords⟩

theorem reached_run (others : Value → String) (comparisons : Comparisons) {start : Store}
    (hstart : Made start) (hnamed : Agno.Named start) (calls : List LlamaCall) :
    Agno.Reached (Machine.runCalls (step others comparisons) start calls).2 := by
  refine Machine.runCalls_invariant ?_ ⟨hstart.sound, hnamed⟩ calls
  exact fun store call h => Reached.step h call

/-- In every reachable store a call does what its name says, raises when its arguments are at fault
and then leaves the store. -/
theorem llama_call_does (others : Value → String) (comparisons : Comparisons) (start : Store)
    (hstart : Made start) (hnamed : Agno.Named start) (calls : List LlamaCall) (call : LlamaCall) :
    let store := (Machine.runCalls (step others comparisons) start calls).2
    Does others comparisons store call (step others comparisons store call) :=
  step_does (reached_run others comparisons hstart hnamed calls) call

/-- A node of the document `doc`. -/
def docNode : Node where
  id := some "n"
  text := "text"
  embedding := some (some (.zeros 8))
  metadata := finalVersion
  payload := some []
  refDocId := some "doc"

theorem docNode_deleted :
    (step (fun _ => "") strict (Machine.runCalls (step (fun _ => "") strict) (new 2 none)
      [.add [docNode]]).2 (.delete "doc")).1 = .done ∧
    Does (fun _ => "") strict (Machine.runCalls (step (fun _ => "") strict) (new 2 none)
      [.add [docNode]]).2 (.delete "doc")
      (step (fun _ => "") strict (Machine.runCalls (step (fun _ => "") strict) (new 2 none)
        [.add [docNode]]).2 (.delete "doc")) :=
  ⟨by decide +kernel, llama_call_does (fun _ => "") strict (new 2 none) (made_new 2 none)
    Finmap.notMem_empty [.add [docNode]] (.delete "doc")⟩

/-! ## Queries -/

section Queries

variable {comparisons : Comparisons} {native : NativeSearch} {store : Store}

theorem satisfied_toCallable {filters : LlamaFilters} {document : String}
    {metadata : Metadata PyTree} (h : (matchesLlamaFilters comparisons metadata filters).isSome) :
    (toCallable comparisons filters).Satisfied document metadata ↔
      filters.Hold comparisons metadata := by
  obtain ⟨verdict, hverdict⟩ := Option.isSome_iff_exists.mp h
  rw [holds_of_verdict hverdict]
  simp only [toCallable, Filter.Satisfied, hverdict, CallResult.returned.injEq]

/-- The filters of a search that returns have been evaluated on every record, if there is one. -/
theorem evaluated_of_search {filters : LlamaFilters} {embedding : Option FloatArray} {k : Int}
    {records : List (AdapterRecord (Metadata PyTree))} (hk : k ≠ 0) (hlazy : Lazy store)
    (h : searchByVector native store embedding k (some (toCallable comparisons filters)) none =
      some records)
    {id : String} {record : Record (Metadata PyTree)} (hrecord : store.get id = some record) :
    (matchesLlamaFilters comparisons record.metadata filters).isSome := by
  simp only [WorkingCopy.get, Option.bind_eq_bind, Option.bind_eq_some_iff, Option.pure_def,
    Option.some.injEq] at hrecord
  obtain ⟨u64, hu64, slot, -, vector, hvector, document, hdocument, metadata, hmetadata, rfl⟩ :=
    hrecord
  have hentry := Finmap.lookup_eq_some_iff.mp hu64
  unfold searchByVector at h
  split at h
  next => cases h
  next =>
  split at h
  next hnothing =>
    rcases hnothing with hzero | hempty
    · exact absurd hzero hk
    · have hkey := Finmap.mem_keys.mpr (Finmap.mem_of_lookup_eq_some hu64)
      rw [Finset.card_eq_zero.mp hempty] at hkey
      exact absurd hkey (Finset.notMem_empty _)
  next =>
  split at h
  next hnone =>
    rw [hlazy hnone] at hvector
    cases hvector
  next dim _ =>
    obtain ⟨query, -, h⟩ := Option.bind_eq_some_iff.mp h
    obtain ⟨allowlist, hallowlist, -⟩ := Option.bind_eq_some_iff.mp h
    obtain ⟨u64s, hfilter, -⟩ := Option.map_eq_some_iff.mp hallowlist
    simp only [filterToU64Allowlist, Option.bind_eq_bind, Option.bind_eq_some_iff,
      Option.guard_eq_some', exists_const] at hfilter
    obtain ⟨-, hverdicts, -⟩ := hfilter
    have hsome := hverdicts _ hentry
    unfold verdictOf at hsome
    rw [hdocument, hmetadata] at hsome
    -- a raising filter has no verdict
    cases hverdict : matchesLlamaFilters comparisons metadata filters with
    | some verdict => rfl
    | none =>
      simp [toCallable, Filter.filterMatches, hverdict, CallResult.verdict?] at hsome

open Classical in
/-- The records that the filters hold of, in the order of the index. -/
noncomputable def passing (comparisons : Comparisons) (native : NativeSearch) (store : Store)
    (query : List Float32Bits.F32) (filters : Option LlamaFilters) :
    List (AdapterRecord (Metadata PyTree)) :=
  (ranking native store query).filter fun record =>
    ∀ given, filters = some given → given.Hold comparisons record.metadata

/-- What a query returns. -/
structure Answers {N : Type} (nodes : TextNodes N) (comparisons : Comparisons)
    (native : NativeSearch) (store : Store) (query : VectorStoreQuery)
    (embedding : Option FloatArray) (result : QueryResult N) : Prop where
  ranks : Ranks native store (store.queryOf embedding)
    (ranking native store (store.queryOf embedding))
  best : result.records = (passing comparisons native store (store.queryOf embedding)
    query.filters).take (topK query.similarityTopK).toNat
  /-- One node for every record, built from it. -/
  nodes : result.records.map (fun record =>
    nodeFromRecord nodes record.id record.document record.metadata) = result.nodes.map some

theorem matching_eq_passing (hsound : Sound store) {filters : Option LlamaFilters}
    {embedding : Option FloatArray} {k : Int} {records : List (AdapterRecord (Metadata PyTree))}
    (hk : k ≠ 0)
    (h : searchByVector native store embedding k (filters.map (toCallable comparisons)) none =
      some records) (query : List Float32Bits.F32) :
    matching native store query (filters.map (toCallable comparisons)) =
      passing comparisons native store query filters := by
  classical
  obtain ⟨rows, hholds⟩ := hsound.holds
  refine List.filter_congr fun record hrecord => decide_eq_decide.mpr ?_
  have hranks : Ranks native store query (ranking native store query) := hholds.ranks
  obtain ⟨_, vector, -, -, hget, -, -⟩ := hranks.owns record hrecord
  cases filters with
  | none => simp [Selected]
  | some given =>
    have hevaluated := evaluated_of_search hk hsound.lazyIndex h hget
    have hsatisfied : (toCallable comparisons given).Satisfied record.document record.metadata ↔
        given.Hold comparisons record.metadata := satisfied_toCallable hevaluated
    simpa [Selected] using hsatisfied

end Queries

/-- In every reachable store a query that returns has found the best of the records that the
filters hold of. -/
theorem llama_query_exact {N : Type} (nodes : TextNodes N) (others : Value → String)
    (comparisons : Comparisons) (native : NativeSearch) (start : Store) (hstart : Made start)
    (hnamed : Agno.Named start) (calls : List LlamaCall) (request : VectorStoreQuery)
    (result : QueryResult N)
    (h : query nodes comparisons native
      (Machine.runCalls (step others comparisons) start calls).2 request = some result) :
    ∃ embedding, request.queryEmbedding = some embedding ∧
      Answers nodes comparisons native (Machine.runCalls (step others comparisons) start calls).2
        request embedding result := by
  have hsound := (reached_run others comparisons hstart hnamed calls).sound
  generalize (Machine.runCalls (step others comparisons) start calls).2 = store at h hsound ⊢
  simp only [query, Option.bind_eq_bind, Option.bind_eq_some_iff, Option.guard_eq_some',
    exists_const, Option.pure_def, Option.some.injEq] at h
  obtain ⟨-, embedding, hembedding, records, hsearch, built, hbuilt, rfl⟩ := h
  refine ⟨embedding, hembedding, ?_⟩
  have hk : topK request.similarityTopK ≠ 0 := by
    unfold topK
    split
    next => decide
    next => decide
    next k hother _ =>
      rintro rfl
      exact hother rfl
  obtain ⟨rows, hholds⟩ := hsound.holds
  refine ⟨hholds.ranks, ?_, Table.mapM_eq_some.mp hbuilt⟩
  rw [hsound.searchByVector_best hsearch, matching_eq_passing hsound hk hsearch]

/-- Any node, without its data. -/
def anyNode : TextNodes Unit := ⟨fun _ => some (), fun _ _ _ => some ()⟩

/-- The records that are recent and final. -/
def recentRequest : VectorStoreQuery where
  defaultMode := true
  queryEmbedding := some (some (.zeros 8))
  similarityTopK := none
  filters := some recentFinal

theorem docNode_found : ∃ result, query anyNode strict flatNative
      (Machine.runCalls (step (fun _ => "") strict) (new 2 none) [.add [docNode]]).2
        recentRequest = some result ∧
    ∃ embedding, recentRequest.queryEmbedding = some embedding ∧
      Answers anyNode strict flatNative
        (Machine.runCalls (step (fun _ => "") strict) (new 2 none) [.add [docNode]]).2
        recentRequest embedding result := by
  have hreturned : (query anyNode strict flatNative (Machine.runCalls (step (fun _ => "") strict)
      (new 2 none) [.add [docNode]]).2 recentRequest).isSome := by
    decide +kernel
  obtain ⟨result, hresult⟩ := Option.isSome_iff_exists.mp hreturned
  exact ⟨result, hresult, llama_query_exact anyNode (fun _ => "") strict flatNative (new 2 none)
    (made_new 2 none) Finmap.notMem_empty [.add [docNode]] recentRequest result hresult⟩

end OrdinalDB.Adapter.LlamaIndex
