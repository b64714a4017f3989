import OrdinalDB.Adapter.Items

/-!
# Upserts of the Agno vector database

`upsert` of `agno.py` without auto-save: the batch is written first, then the records of its
content id, and those that match the filters, are deleted unless they were written.
`agno_upsert_replaces`: in every reachable store an upsert replaces the records of one content id
and can be repeated, or it raises and leaves the store.
-/

namespace OrdinalDB.Adapter.Agno

open Float32Bits (F32)
open WorkingCopy

variable {C : Type}

/-! ## Values -/

/-- The number that `==` compares; a `bool` is one. -/
def comparedNumber : PyJson C → Option ℚ
  | .bool value => some (if value then 1 else 0)
  | value => value.number

/-- `==`; how containers, and floats that are not finite, compare is a parameter. -/
def pyEquals (others : PyJson C → PyJson C → Bool) : PyJson C → PyJson C → Bool
  | .none, .none => true
  | .str left, .str right => left = right
  | .container left, .container right => others (.container left) (.container right)
  | .float none, .float none => others (.float none) (.float none)
  | left, right => (comparedNumber left).isSome && comparedNumber left = comparedNumber right

/-! ## Documents -/

/-- A document by its attributes: the id and the content id as strings, no id if it is falsy, and
`dict(metadata or meta or meta_data or \x7b\x7d)`. -/
structure Document (C : Type) where
  id : Option String
  content : String
  embedding : Option (Option FloatArray)
  metadata : Option (Metadata C)
  contentId : Option String
  name : Option String

/-- `_CONTENT_ID_KEY`. -/
def contentIdKey : String := "__ordinaldb_agno_content_id__"

/-- `_NAME_KEY`. -/
def nameKey : String := "__ordinaldb_agno_name__"

/-- `content_id or _doc_attr(document, "content_id")`. -/
def documentContentId (contentId : Option String) (document : Document C) : Option String :=
  match contentId with
  | some text => if text = "" then document.contentId else some text
  | none => document.contentId

/-- `_document_id`; the uuid is drawn for the offset. -/
def documentId (uuids : Nat → String) (contentId : Option String) (offset : Nat)
    (document : Document C) : String :=
  match document.id with
  | some explicit => explicit
  | none =>
    match documentContentId contentId document with
    | some text => text ++ ":" ++ String.ofList (Nat.toDigits 10 offset)
    | none => uuids offset

/-- `_document_metadata`; a `dict(…)` of `none` raises. -/
def documentMetadata (contentId : Option String) (document : Document C)
    (explicit : Option (Option (Metadata C))) : Option (Metadata C) := do
  let metadata ← explicit.getD document.metadata
  let metadata :=
    match documentContentId contentId document with
    | some text => metadata.insert contentIdKey (.str text)
    | none => metadata
  pure (match document.name with
    | some name => metadata.insert nameKey (.str name)
    | none => metadata)

structure UpsertArguments (C : Type) where
  documents : List (Document C)
  ids : Option (List String)
  embeddings : Option (List (Option (Option FloatArray)))
  metadatas : Option (List (Option (Option (Metadata C))))
  /-- Item by item; a key that is no string is `none`. -/
  filters : List (Option String × PyJson C)

def zipItems : List String → List String → List (Option FloatArray) → List (Metadata C) →
    List (Item (Metadata C))
  | id :: ids, document :: documents, embedding :: embeddings, metadata :: metadatas =>
    ⟨id, document, embedding, metadata⟩ :: zipItems ids documents embeddings metadatas
  | _, _, _, _ => []

/-- The batch of `_write_documents`. -/
def batchItems (uuids : Nat → String) (contentId : Option String) (arguments : UpsertArguments C) :
    Option (List (Item (Metadata C))) := do
  let documents := arguments.documents
  guard (arguments.ids.all (·.length = documents.length))
  let ids := arguments.ids.getD (documents.mapIdx (documentId uuids contentId))
  guard (arguments.embeddings.all (·.length = documents.length))
  let vectors ← (arguments.embeddings.getD (documents.map (·.embedding))).mapM id
  guard (arguments.metadatas.all (·.length = documents.length))
  let explicits := arguments.metadatas.getD (documents.map fun _ => none)
  let metadata ← (documents.zip explicits).mapM fun (document, explicit) =>
    documentMetadata contentId document explicit
  pure (zipItems ids (documents.map (·.content)) vectors metadata)

/-! ## Upserts -/

/-- The record carries the content id. -/
def carries (contentId : String) (metadata : Metadata C) : Bool :=
  match metadata.lookup contentIdKey with
  | some (.str text) => text = contentId
  | _ => false

/-- `metadata.get(key) == value` for every item; a missing key reads as `None`. -/
def itemsEqual (others : PyJson C → PyJson C → Bool) (metadata : Metadata C)
    (filters : List (Option String × PyJson C)) : Bool :=
  filters.all fun (key, value) =>
    pyEquals others ((key.bind metadata.lookup).getD .none) value

/-- The ids of the stored records, in some order, that satisfy a condition on the metadata. -/
def idsWhere (store : WorkingCopy (Metadata C)) (condition : Metadata C → Bool) : List String :=
  (store.stringToU64.keys.sort (· ≤ ·)).filter fun id =>
    (store.get id).any fun record => condition record.metadata

/-- The ids that an upsert replaces if it does not write them. -/
def replacedIds (others : PyJson C → PyJson C → Bool) (store : WorkingCopy (Metadata C))
    (contentId : Option String) (filters : List (Option String × PyJson C)) : List String :=
  contentId.elim [] (fun text => idsWhere store (carries text)) ++
    if filters = [] then [] else idsWhere store fun metadata => itemsEqual others metadata filters

inductive UpsertReply
  | returned (ids : List String)
  | raised
deriving DecidableEq, Repr

def upsert (others : PyJson C → PyJson C → Bool) (uuids : Nat → String)
    (store : WorkingCopy (Metadata C)) (contentId : Option String)
    (arguments : UpsertArguments C) : UpsertReply × WorkingCopy (Metadata C) :=
  let replaced := replacedIds others store contentId arguments.filters
  match batchItems uuids contentId arguments with
  | none => (.raised, store)
  | some items =>
    match store.add (.ofItems items true) with
    | (.added writtenIds, next) =>
      let staleIds := (replaced.filter (· ∉ writtenIds)).eraseDups
      if staleIds = [] then (.returned writtenIds, next)
      else
        match next.delete (staleIds.map .str) true with
        | (.deleted _, final) => (.returned writtenIds, final)
        | (_, final) => (.raised, final)
    | (_, next) => (.raised, next)

/-! ## Repeating a batch -/

section Repeating

variable {M : Type} [EmptyCollection M] {store other : WorkingCopy M} {map : RecordMap M}
  {items : List (Item M)}

/-- What an upsert batch is read as depends on the store through its dimension. -/
theorem readBatch_again {ids documents : List String} {metadata : List M} {vectors : Vectors}
    (h : store.readBatch ids (.ofItems items true) = some (documents, metadata, vectors))
    (hdim : other.index.dimOpt = some vectors.dim) :
    other.readBatch ids (.ofItems items true) = some (documents, metadata, vectors) := by
  have haccepts : other.acceptsDim vectors.dim := by
    unfold acceptsDim
    rw [hdim]
    exact decide_eq_true rfl
  simp only [readBatch, preflightBatch, Option.bind_eq_bind, Option.bind_eq_some_iff,
    Option.guard_eq_some', Option.pure_def, Option.some.injEq, Prod.mk.injEq,
    exists_const] at h ⊢
  obtain ⟨texts, htexts, metadatas, hmetadatas, found,
    ⟨hlengths, hnodup, -, vectors', hvectors, hrows, -, rfl⟩, rfl, rfl, rfl⟩ := h
  exact ⟨texts, htexts, metadatas, hmetadatas, vectors', ⟨hlengths, hnodup, rfl, vectors',
    hvectors, hrows, haccepts, rfl⟩, rfl, rfl, rfl⟩

/-- A batch that was taken is taken again by a store of the dimension that it set. -/
theorem add_again {next : WorkingCopy M}
    (hadd : store.add (.ofItems items true) = (.added (items.map (·.id)), next))
    (h : Simulates other map) (hdim : items ≠ [] → other.index.dimOpt = next.index.dimOpt) :
    (other.add (.ofItems items true)).1 = .added (items.map (·.id)) := by
  by_cases hempty : items = []
  · subst hempty
    rfl
  cases hids : (AddArguments.ofItems items true).ids.mapM requireStringId with
  | none =>
    unfold add at hadd
    rw [hids] at hadd
    cases hadd
  | some ids =>
    obtain rfl := ids_ofItems_eq_some hids
    obtain ⟨item, rest, rfl⟩ := List.exists_cons_of_ne_nil hempty
    unfold add at hadd
    rw [hids] at hadd
    cases hbatch : store.readBatch (item.id :: rest.map (·.id))
        (.ofItems (item :: rest) true) with
    | none =>
      simp only [List.map_cons, hbatch] at hadd
      cases hadd
    | some batch =>
      obtain ⟨documents, metadata, vectors⟩ := batch
      cases hnext : store.addBatch (item.id :: rest.map (·.id)) documents metadata vectors with
      | none =>
        simp only [List.map_cons, hbatch, hnext] at hadd
        cases hadd
      | some written =>
        simp only [List.map_cons, hbatch, hnext] at hadd
        have hsame : written = next := congrArg Prod.snd hadd
        rw [← hsame, addBatch_dimOpt hnext] at hdim
        exact added_of_readBatch h hempty hids
          (Option.isSome_of_eq_some (readBatch_again hbatch (hdim hempty)))

end Repeating

/-! ## Deleting stale records -/

section Deleting

variable {M : Type} [EmptyCollection M] {store : WorkingCopy M} {map : RecordMap M}

/-- No record has the empty string for an id; the constructor and every call check the ids. -/
def Named (store : WorkingCopy M) : Prop := "" ∉ store.stringToU64

omit [EmptyCollection M] in
theorem ne_of_requireStringId {values : List (PyValue M)} {ids : List String}
    (h : values.mapM requireStringId = some ids) : "" ∉ ids := by
  intro hmem
  have hread := List.mem_map_of_mem (f := some) hmem
  rw [← Table.mapM_eq_some.mp h] at hread
  obtain ⟨value, -, hvalue⟩ := List.mem_map.mp hread
  cases value with
  | str text =>
    rw [requireStringId] at hvalue
    split at hvalue
    next => cases hvalue
    next hne => exact hne (Option.some.inj hvalue)
  | dict items => cases hvalue
  | other truthy => cases hvalue

omit [EmptyCollection M] in
theorem empty_not_mem_ids (call : Call M) : "" ∉ call.ids := by
  have hread : ∀ values : List (PyValue M), "" ∉ (values.mapM requireStringId).getD [] := by
    intro values
    cases h : values.mapM requireStringId with
    | none => exact List.not_mem_nil
    | some ids => exact ne_of_requireStringId h
  cases call with
  | add arguments => exact hread arguments.ids
  | delete ids missingOk => exact hread ids

theorem Named.answer (h : Named store) (hstore : Simulates store map) (call : Call M) :
    Named (store.answer call).2 := by
  have hsame := ((call_kept hstore call).1.others "" (empty_not_mem_ids call)).2
  unfold Named at h ⊢
  rwa [← Finmap.lookup_eq_none, hsame, Finmap.lookup_eq_none]

/-- What every reachable store keeps. -/
structure Reached (store : WorkingCopy M) : Prop where
  sound : Sound store
  named : Named store

theorem Reached.answer (h : Reached store) (call : Call M) : Reached (store.answer call).2 := by
  obtain ⟨rows, hholds⟩ := h.sound.holds
  obtain ⟨map, hsimulates⟩ := hholds.simulates
  exact ⟨h.sound.answer call, h.named.answer hsimulates call⟩

/-- Deleting stored ids goes through. -/
theorem delete_stored (h : Simulates store map) {ids : List String}
    (hids : ∀ id ∈ ids, id ≠ "") :
    ∃ changed final, store.delete (ids.map .str) true = (.deleted changed, final) ∧
      (∃ map, Simulates final map) ∧ final.index.dimOpt = store.index.dimOpt ∧
      ∀ id, final.get id = if id ∈ ids then none else store.get id := by
  have hread : (ids.map fun id => (PyValue.str id : PyValue M)).mapM requireStringId =
      some ids := by
    rw [Table.mapM_eq_some, List.map_map]
    exact List.map_congr_left fun id hid => if_neg (hids id hid)
  obtain ⟨hkept, hsimulates⟩ := call_kept h (.delete (ids.map .str) true)
  have hanswer : store.delete (ids.map .str) true =
      store.validated ((store.deleteIds false ids).map Prod.fst)
        (.deleted ((store.deleteIds false ids).any Prod.snd)) := by
    unfold delete
    rw [hread]
    rfl
  have hchecked : (store.delete (ids.map .str) true).1 ≠ .broken := hkept.checked
  rw [hanswer] at hchecked
  have hreply := validated_reply hchecked
  rw [← hanswer] at hreply
  have happly : map.apply (.delete (ids.map .str) true) (store.delete (ids.map .str) true).1 =
      ids.foldl (fun map id => map.erase id) map := by
    rw [hreply]
    show (((ids.map fun id => (PyValue.str id : PyValue M)).mapM requireStringId).getD []).foldl
      _ map = _
    rw [hread, Option.getD_some]
  refine ⟨_, (store.delete (ids.map .str) true).2, Prod.ext hreply rfl, ⟨_, hsimulates⟩, ?_,
    fun id => ?_⟩
  · rw [hanswer]
    cases hdelete : store.deleteIds false ids with
    | none =>
      rw [hdelete] at hchecked
      exact absurd rfl hchecked
    | some out => exact deleteIds_dimOpt hdelete
  · have hget := hsimulates.refines.records id
    refine hget.trans ?_
    show (map.apply (.delete (ids.map .str) true)
      (store.delete (ids.map .str) true).1).lookup id = _
    rw [happly, lookup_foldl_erase, h.refines.records id]

end Deleting

/-! ## The batch -/

section Batch

variable {uuids : Nat → String} {contentHash : String} {arguments : UpsertArguments C}
  {items : List (Item (Metadata C))}

theorem documentContentId_hash (hhash : contentHash ≠ "") (document : Document C) :
    documentContentId (some contentHash) document = some contentHash := if_neg hhash

/-- With a content hash no uuid is drawn. -/
theorem batchItems_uuids (hhash : contentHash ≠ "") (uuids' : Nat → String) :
    batchItems uuids (some contentHash) arguments =
      batchItems uuids' (some contentHash) arguments := by
  have hids : documentId uuids (some contentHash) =
      (documentId uuids' (some contentHash) : Nat → Document C → String) := by
    funext offset document
    unfold documentId
    rw [documentContentId_hash hhash]
  unfold batchItems
  rw [hids]

theorem documentMetadata_carries (hhash : contentHash ≠ "") {document : Document C}
    {explicit : Option (Option (Metadata C))} {metadata : Metadata C}
    (h : documentMetadata (some contentHash) document explicit = some metadata) :
    carries contentHash metadata := by
  obtain ⟨given, -, hmetadata⟩ := Option.bind_eq_some_iff.mp h
  obtain rfl := Option.some.inj hmetadata
  have hkeys : contentIdKey ≠ nameKey := by decide
  have hlookup : ((match document.name with
      | some name => (given.insert contentIdKey (.str contentHash)).insert nameKey (.str name)
      | none => given.insert contentIdKey (.str contentHash)) : Metadata C).lookup contentIdKey =
        some (.str contentHash) := by
    cases document.name with
    | none => exact Finmap.lookup_insert _
    | some name => rw [Finmap.lookup_insert_of_ne _ hkeys, Finmap.lookup_insert]
  rw [documentContentId_hash hhash]
  unfold carries
  rw [hlookup]
  exact decide_eq_true rfl

theorem metadata_of_mem_zipItems {ids documents : List String}
    {embeddings : List (Option FloatArray)} {metadatas : List (Metadata C)}
    {item : Item (Metadata C)} (h : item ∈ zipItems ids documents embeddings metadatas) :
    item.metadata ∈ metadatas := by
  induction metadatas generalizing ids documents embeddings with
  | nil =>
    cases ids <;> cases documents <;> cases embeddings <;> cases h
  | cons metadata metadatas ih =>
    cases ids with
    | nil => cases h
    | cons id ids =>
      cases documents with
      | nil => cases h
      | cons document documents =>
        cases embeddings with
        | nil => cases h
        | cons embedding embeddings =>
          rcases List.mem_cons.mp h with rfl | h
          · exact List.mem_cons_self
          · exact List.mem_cons_of_mem _ (ih h)

/-- Every record of the batch carries the content hash. -/
theorem batchItems_carries (hhash : contentHash ≠ "")
    (h : batchItems uuids (some contentHash) arguments = some items) :
    ∀ item ∈ items, carries contentHash item.metadata := by
  simp only [batchItems, Option.bind_eq_bind, Option.bind_eq_some_iff, Option.guard_eq_some',
    exists_const, Option.pure_def, Option.some.injEq] at h
  obtain ⟨-, -, vectors, -, -, metadata, hmetadata, rfl⟩ := h
  intro item hitem
  have hmem := List.mem_map_of_mem (f := some) (metadata_of_mem_zipItems hitem)
  rw [← Table.mapM_eq_some.mp hmetadata] at hmem
  obtain ⟨⟨document, explicit⟩, -, hread⟩ := List.mem_map.mp hmem
  exact documentMetadata_carries hhash hread

end Batch

/-! ## Upserting -/

section Upserting

variable {others : PyJson C → PyJson C → Bool} {uuids : Nat → String}
  {store final : WorkingCopy (Metadata C)} {map : RecordMap (Metadata C)} {contentHash id : String}
  {arguments : UpsertArguments C} {items : List (Item (Metadata C))}

/-- The record is replaced by an upsert that does not write its id. -/
def Replaceable (others : PyJson C → PyJson C → Bool) (contentHash : String)
    (filters : List (Option String × PyJson C)) (record : Record (Metadata C)) : Prop :=
  carries contentHash record.metadata ∨ filters ≠ [] ∧ itemsEqual others record.metadata filters

theorem mem_idsWhere (h : Simulates store map) {condition : Metadata C → Bool} :
    id ∈ idsWhere store condition ↔
      ∃ record, store.get id = some record ∧ condition record.metadata := by
  have hkeys : ∀ {record}, store.get id = some record → id ∈ store.stringToU64.keys := by
    intro record hrecord
    rw [h.refines.records id] at hrecord
    rw [h.refines.ids]
    exact Finmap.mem_keys.mpr (Finmap.mem_of_lookup_eq_some hrecord)
  unfold idsWhere
  rw [List.mem_filter, Finset.mem_sort, Option.any_eq_true]
  exact and_iff_right_of_imp fun ⟨_, hrecord, _⟩ => hkeys hrecord

theorem mem_replacedIds (h : Simulates store map) {filters : List (Option String × PyJson C)} :
    id ∈ replacedIds others store (some contentHash) filters ↔
      ∃ record, store.get id = some record ∧ Replaceable others contentHash filters record := by
  unfold replacedIds Replaceable
  rw [Option.elim_some, List.mem_append, mem_idsWhere h]
  by_cases hfilters : filters = []
  · rw [if_pos hfilters]
    simp [hfilters]
  · rw [if_neg hfilters, mem_idsWhere h, ← exists_or]
    simp only [← and_or_left, ne_eq, hfilters, not_false_eq_true, true_and]

/-- What an upsert that returns leaves: its batch, and the others that are not replaced. -/
structure Settled (others : PyJson C → PyJson C → Bool) (store final : WorkingCopy (Metadata C))
    (contentHash : String) (filters : List (Option String × PyJson C))
    (items : List (Item (Metadata C))) : Prop where
  named : Named final
  holds : ∃ map, Simulates final map
  nodup : (items.map (·.id)).Nodup
  written : ∀ item ∈ items, final.get item.id = some item.record
  kept : ∀ id, id ∉ items.map (·.id) → final.get id =
    if id ∈ replacedIds others store (some contentHash) filters then none else store.get id

/-- A batch that is taken is followed by the deletion of the stale records. -/
theorem upsert_added (others : PyJson C → PyJson C → Bool) (h : Simulates store map)
    (hnamed : Named store)
    (hbatch : batchItems uuids (some contentHash) arguments = some items)
    (hadd : (store.add (.ofItems items true)).1 = .added (items.map (·.id))) :
    ∃ final, upsert others uuids store (some contentHash) arguments =
        (.returned (items.map (·.id)), final) ∧
      Settled others store final contentHash arguments.filters items ∧
      final.index.dimOpt = (store.add (.ofItems items true)).2.index.dimOpt := by
  rcases add_items h items true with ⟨middle, hmiddle, hreplaced⟩ | hrejected
  case inr =>
    rw [hrejected] at hadd
    cases hadd
  obtain ⟨middleMap, hsimulates⟩ := hreplaced.holds
  have hmiddleNamed : Named middle := by
    have hanswer := hnamed.answer h (.add (.ofItems items true))
    have hsame : (store.answer (.add (.ofItems items true))).2 = middle := congrArg Prod.snd hmiddle
    rwa [hsame] at hanswer
  generalize hstaleIds : ((replacedIds others store (some contentHash) arguments.filters).filter
    (· ∉ items.map (·.id))).eraseDups = staleIds
  have hmem : ∀ id, id ∈ staleIds ↔
      id ∈ replacedIds others store (some contentHash) arguments.filters ∧
        id ∉ items.map (·.id) := by
    intro id
    rw [← hstaleIds, List.mem_eraseDups, List.mem_filter, decide_eq_true_iff]
  have hupsert : upsert others uuids store (some contentHash) arguments =
      if staleIds = [] then (.returned (items.map (·.id)), middle)
      else
        match middle.delete (staleIds.map .str) true with
        | (.deleted _, final) => (.returned (items.map (·.id)), final)
        | (_, final) => (.raised, final) := by
    unfold upsert
    simp only [hbatch, hmiddle, hstaleIds]
  by_cases hnone : staleIds = []
  · refine ⟨middle, by rw [hupsert, if_pos hnone], ?_, by rw [hmiddle]⟩
    refine ⟨hmiddleNamed, ⟨middleMap, hsimulates⟩, hreplaced.nodup, hreplaced.written, ?_⟩
    intro id hid
    have hnot : id ∉ replacedIds others store (some contentHash) arguments.filters := by
      intro hreplace
      have hstale := (hmem id).mpr ⟨hreplace, hid⟩
      rw [hnone] at hstale
      cases hstale
    rw [if_neg hnot]
    exact hreplaced.others id hid
  · -- the stale ids are stored, so none is empty and the deletion goes through
    have hnonempty : ∀ id ∈ staleIds, id ≠ "" := by
      rintro id hid rfl
      obtain ⟨record, hrecord, -⟩ := (mem_replacedIds h).mp ((hmem "").mp hid).1
      rw [h.refines.records] at hrecord
      have hstored := Finmap.mem_keys.mpr (Finmap.mem_of_lookup_eq_some hrecord)
      rw [← h.refines.ids] at hstored
      exact hnamed (Finmap.mem_keys.mp hstored)
    obtain ⟨changed, final, hdelete, hholds, hdim, hget⟩ := delete_stored hsimulates hnonempty
    refine ⟨final, by rw [hupsert, if_neg hnone, hdelete], ?_, by rw [hdim, hmiddle]⟩
    refine ⟨?_, hholds, hreplaced.nodup, fun item hitem => ?_, fun id hid => ?_⟩
    · have hanswer := hmiddleNamed.answer hsimulates (.delete (staleIds.map .str) true)
      have hsame : (middle.answer (.delete (staleIds.map .str) true)).2 = final :=
        congrArg Prod.snd hdelete
      rwa [hsame] at hanswer
    · have hnot : item.id ∉ staleIds := fun hid =>
        ((hmem item.id).mp hid).2 (List.mem_map_of_mem hitem)
      rw [hget, if_neg hnot, hreplaced.written item hitem]
    · rw [hget, hreplaced.others id hid]
      by_cases hreplace : id ∈ replacedIds others store (some contentHash) arguments.filters
      · rw [if_pos hreplace, if_pos ((hmem id).mpr ⟨hreplace, hid⟩)]
      · rw [if_neg hreplace, if_neg fun hid => hreplace ((hmem id).mp hid).1]

/-- An upsert writes its batch and settles, or it raises and leaves the store. -/
theorem upsert_cases (h : Simulates store map) (hnamed : Named store) :
    (∃ items final, batchItems uuids (some contentHash) arguments = some items ∧
      (store.add (.ofItems items true)).1 = .added (items.map (·.id)) ∧
      upsert others uuids store (some contentHash) arguments =
        (.returned (items.map (·.id)), final) ∧
      Settled others store final contentHash arguments.filters items ∧
      final.index.dimOpt = (store.add (.ofItems items true)).2.index.dimOpt) ∨
    upsert others uuids store (some contentHash) arguments = (.raised, store) := by
  cases hbatch : batchItems uuids (some contentHash) arguments with
  | none =>
    right
    unfold upsert
    rw [hbatch]
  | some items =>
    rcases add_items h items true with ⟨middle, hmiddle, -⟩ | hrejected
    · have hadd : (store.add (.ofItems items true)).1 = .added (items.map (·.id)) := by
        rw [hmiddle]
      obtain ⟨final, hfinal⟩ := upsert_added others h hnamed hbatch hadd
      exact .inl ⟨items, final, rfl, hadd, hfinal⟩
    · right
      unfold upsert
      simp only [hbatch, hrejected]

/-- What an upsert that returns promises. -/
structure Replaces (others : PyJson C → PyJson C → Bool) (uuids : Nat → String)
    (store final : WorkingCopy (Metadata C)) (contentHash : String)
    (arguments : UpsertArguments C) (ids : List String) : Prop where
  /-- The records of the content hash are those of the batch. -/
  batch : ∃ items, batchItems uuids (some contentHash) arguments = some items ∧
    ids = items.map (·.id) ∧ ∀ id record,
      final.get id = some record ∧ carries contentHash record.metadata ↔
        ∃ item ∈ items, item.id = id ∧ item.record = record
  /-- A record with another content hash or none that the filters do not match is as before. -/
  kept : ∀ id, id ∉ ids →
    (∀ record, store.get id = some record →
      ¬Replaceable others contentHash arguments.filters record) →
    final.get id = store.get id
  repeated : ∀ uuids', ∃ again,
    upsert others uuids' final (some contentHash) arguments = (.returned ids, again) ∧
      ∀ id, again.get id = final.get id

theorem settled_replaces (hhash : contentHash ≠ "") (h : Simulates store map)
    (hbatch : batchItems uuids (some contentHash) arguments = some items)
    (hadd : (store.add (.ofItems items true)).1 = .added (items.map (·.id)))
    (hsettled : Settled others store final contentHash arguments.filters items)
    (hdim : final.index.dimOpt = (store.add (.ofItems items true)).2.index.dimOpt) :
    Replaces others uuids store final contentHash arguments (items.map (·.id)) := by
  obtain ⟨finalMap, hfinal⟩ := hsettled.holds
  have hgone : ∀ id, id ∉ items.map (·.id) → ∀ record, final.get id = some record →
      ¬Replaceable others contentHash arguments.filters record := by
    intro id hid record hrecord hreplaceable
    rw [hsettled.kept id hid] at hrecord
    split at hrecord
    next => cases hrecord
    next hnot => exact hnot ((mem_replacedIds h).mpr ⟨record, hrecord, hreplaceable⟩)
  constructor
  case batch =>
    refine ⟨items, hbatch, rfl, fun id record => ⟨?_, ?_⟩⟩
    · rintro ⟨hrecord, hcarries⟩
      by_cases hid : id ∈ items.map (·.id)
      · obtain ⟨item, hitem, rfl⟩ := List.mem_map.mp hid
        rw [hsettled.written item hitem] at hrecord
        exact ⟨item, hitem, rfl, Option.some.inj hrecord⟩
      · exact absurd (.inl hcarries) (hgone id hid record hrecord)
    · rintro ⟨item, hitem, rfl, rfl⟩
      exact ⟨hsettled.written item hitem, batchItems_carries hhash hbatch item hitem⟩
  case kept =>
    intro id hid hother
    rw [hsettled.kept id hid, if_neg]
    intro hreplace
    obtain ⟨record, hrecord, hreplaceable⟩ := (mem_replacedIds h).mp hreplace
    exact hother record hrecord hreplaceable
  case repeated =>
    intro uuids'
    have hbatch' : batchItems uuids' (some contentHash) arguments = some items := by
      rw [batchItems_uuids hhash uuids, hbatch]
    have hagain := add_again (Prod.ext hadd rfl) hfinal fun _ => hdim
    obtain ⟨again, hupsert, hsettled', -⟩ :=
      upsert_added others hfinal hsettled.named hbatch' hagain
    refine ⟨again, hupsert, fun id => ?_⟩
    by_cases hid : id ∈ items.map (·.id)
    · obtain ⟨item, hitem, rfl⟩ := List.mem_map.mp hid
      rw [hsettled'.written item hitem, hsettled.written item hitem]
    · rw [hsettled'.kept id hid, if_neg]
      intro hreplace
      obtain ⟨record, hrecord, hreplaceable⟩ := (mem_replacedIds hfinal).mp hreplace
      exact hgone id hid record hrecord hreplaceable

end Upserting

/-- In every reachable store an upsert replaces the records of its content hash, or it raises and
leaves the store. -/
theorem agno_upsert_replaces (others : PyJson C → PyJson C → Bool) (uuids : Nat → String)
    (start : WorkingCopy (Metadata C)) (hstart : Made start) (hnamed : Named start)
    (calls : List (Call (Metadata C))) (contentHash : String) (hhash : contentHash ≠ "")
    (arguments : UpsertArguments C) :
    let store := (Machine.runCalls answer start calls).2
    let outcome := upsert others uuids store (some contentHash) arguments
    (∀ ids, outcome.1 = .returned ids →
      Replaces others uuids store outcome.2 contentHash arguments ids) ∧
    (outcome.1 = .raised → outcome.2 = store) := by
  have hreached : Reached (Machine.runCalls answer start calls).2 :=
    Machine.runCalls_invariant (fun _ call h => h.answer call) ⟨hstart.sound, hnamed⟩ calls
  obtain ⟨rows, hholds⟩ := hreached.sound.holds
  obtain ⟨map, h⟩ := hholds.simulates
  intro store outcome
  rcases upsert_cases h hreached.named with
    ⟨items, final, hbatch, hadd, hupsert, hsettled, hdim⟩ | hraised
  · have houtcome : outcome = (.returned (items.map (·.id)), final) := hupsert
    rw [houtcome]
    refine ⟨fun ids hids => ?_, fun hraised => nomatch hraised⟩
    rw [← UpsertReply.returned.inj hids]
    exact settled_replaces hhash h hbatch hadd hsettled hdim
  · have houtcome : outcome = (.raised, store) := hraised
    rw [houtcome]
    exact ⟨fun _ hids => absurd hids nofun, fun _ => rfl⟩

/-- A record of the content hash `h`, and two of another one, the second a draft. -/
def storedRecords : AddArguments (Metadata Unit) :=
  .ofItems
    [⟨"old", "first", some (.zeros 8), (∅ : Metadata Unit).insert contentIdKey (.str "h")⟩,
      ⟨"other", "second", some (.zeros 8), (∅ : Metadata Unit).insert contentIdKey (.str "g")⟩,
      ⟨"draft", "third", some (.zeros 8),
        ((∅ : Metadata Unit).insert contentIdKey (.str "g")).insert "draft" (.bool true)⟩] false

/-- One document without an id; drafts are replaced too. -/
def oneDocument : UpsertArguments Unit where
  documents := [⟨none, "text", some (some (.zeros 8)), some ∅, none, none⟩]
  ids := none
  embeddings := none
  metadatas := none
  filters := [(some "draft", .bool true)]

theorem oneDocument_replaces :
    let store := (Machine.runCalls answer (new 2 none) [.add storedRecords]).2
    let outcome := upsert (fun _ _ => false) (fun _ => "") store (some "h") oneDocument
    (["old", "other", "draft"].all fun id => (store.get id).isSome) ∧
      outcome.1 = .returned ["h:0"] ∧
      Replaces (fun _ _ => false) (fun _ => "") store outcome.2 "h" oneDocument ["h:0"] := by
  intro store outcome
  have hstored : ["old", "other", "draft"].all fun id => (store.get id).isSome := by
    decide +kernel
  -- the batch is one item, which the store takes
  have hbatch : (batchItems (fun _ => "") (some "h") oneDocument).any fun items =>
      items.map (·.id) = ["h:0"] &&
        (store.add (.ofItems items true)).1 = .added (items.map (·.id)) := by
    decide +kernel
  obtain ⟨items, hitems, hchecks⟩ := (Option.any_eq_true _ _).mp hbatch
  obtain ⟨hids, hadd⟩ := (Bool.and_eq_true _ _).mp hchecks
  have hnew : Reached (new 2 none : WorkingCopy (Metadata Unit)) :=
    ⟨(made_new 2 none).sound, Finmap.notMem_empty⟩
  have hreached : Reached store := hnew.answer (.add storedRecords)
  obtain ⟨rows, hholds⟩ := hreached.sound.holds
  obtain ⟨map, hsimulates⟩ := hholds.simulates
  obtain ⟨final, hupsert, -⟩ := upsert_added (fun _ _ => false) hsimulates hreached.named hitems
    (of_decide_eq_true hadd)
  have hreturned : outcome.1 = .returned ["h:0"] := by
    rw [← of_decide_eq_true hids]
    exact congrArg Prod.fst hupsert
  exact ⟨hstored, hreturned, (agno_upsert_replaces (fun _ _ => false) (fun _ => "") (new 2 none)
    (made_new 2 none) Finmap.notMem_empty [.add storedRecords] "h" (by decide) oneDocument).1
    ["h:0"] hreturned⟩

end OrdinalDB.Adapter.Agno
