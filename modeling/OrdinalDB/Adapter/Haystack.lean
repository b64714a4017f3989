import OrdinalDB.Adapter.Items

/-!
# Duplicate policies of the Haystack document store

`write_documents` of `haystack.py`. Each policy sorts the duplicates out of a batch before the
rest is added at once. `Written`: a batch of well-formed documents leaves each id with the
document that the policy lets win. `write_documents_honors`: so it is in every reachable store,
and a call that raises leaves the store.
-/

namespace OrdinalDB.Adapter.Haystack

open Float32Bits (F32)
open WorkingCopy

variable {M : Type}

/-! ## Definitions -/

/-- A document as the store reads it: `str(id)`, `str(content or "")`, the embedding (`none` is
`None`, an inner `none` nothing that an array can be made of) and `dict(meta or \x7b\x7d)`. -/
structure Document (M : Type) where
  id : String
  content : String
  embedding : Option (Option FloatArray)
  metadata : Option M

def Document.item (document : Document M) : Option (Item M) := do
  let embedding ← document.embedding
  let metadata ← document.metadata
  pure { id := document.id, document := document.content, embedding, metadata }

/-- `_duplicate_ids`. -/
def duplicateIds (existing : Finset String) (ids : List String) : List String :=
  (ids.foldl
    (fun (seen, duplicates) id =>
      (id :: seen,
        if (id ∈ existing ∨ id ∈ seen) ∧ id ∉ duplicates then duplicates ++ [id] else duplicates))
    (([] : List String), ([] : List String))).2

/-- The loop of the policy `SKIP`. -/
def skipDuplicates (existing : Finset String) : List String → List (Document M) → List (Document M)
  | _, [] => []
  | seen, document :: documents =>
    if document.id ∈ existing ∨ document.id ∈ seen then skipDuplicates existing seen documents
    else document :: skipDuplicates existing (document.id :: seen) documents

/-- The loop of `_keep_last_documents_by_id`. -/
def lastById (documents : List (Document M)) :
    List String × Finmap fun _ : String => Document M :=
  documents.foldl
    (fun (order, byId) document =>
      (if document.id ∈ byId then order else order ++ [document.id],
        byId.insert document.id document))
    ([], ∅)

/-- `_keep_last_documents_by_id`. -/
def keepLastDocumentsById (documents : List (Document M)) : List (Document M) :=
  (lastById documents).1.filterMap (lastById documents).2.lookup

inductive WriteReply
  | written (count : Nat)
  | raised
deriving DecidableEq, Repr

variable [EmptyCollection M]

/-- The part of `write_documents` behind the policies. -/
def writeIncoming (store : WorkingCopy M) (incoming : List (Document M)) (upsert : Bool) :
    WriteReply × WorkingCopy M :=
  if incoming.isEmpty then (.written 0, store)
  else
    match incoming.mapM Document.item with
    | none => (.raised, store)
    | some items =>
      match store.add (.ofItems items upsert) with
      | (.added _, next) => (.written incoming.length, next)
      | (_, next) => (.raised, next)

/-- `write_documents`, by the name of the policy in capitals. -/
def writeDocuments (store : WorkingCopy M) (documents : List (Document M)) (policyName : String) :
    WriteReply × WorkingCopy M :=
  let effectivePolicyName := if policyName = "NONE" then "FAIL" else policyName
  let existing := store.stringToU64.keys
  if effectivePolicyName = "FAIL" ∧ duplicateIds existing (documents.map (·.id)) ≠ [] then
    (.raised, store)
  else if effectivePolicyName = "SKIP" then
    writeIncoming store (skipDuplicates existing [] documents) (policyName = "OVERWRITE")
  else if effectivePolicyName = "OVERWRITE" then
    writeIncoming store (keepLastDocumentsById documents) (policyName = "OVERWRITE")
  else if effectivePolicyName = "FAIL" then
    writeIncoming store documents (policyName = "OVERWRITE")
  else (.raised, store)

/-! ## What a policy promises -/

/-- The document can be stored: see `Item.WellFormed`. -/
def Document.WellFormed (dim : Nat) (document : Document M) : Prop :=
  ∃ item, document.item = some item ∧ item.WellFormed dim

def firstOf (documents : List (Document M)) (id : String) : Option (Document M) :=
  documents.find? fun document => document.id = id

def lastOf (documents : List (Document M)) (id : String) : Option (Document M) :=
  firstOf documents.reverse id

/-- The documents that win are stored under their ids and counted, and the other records are as
before. -/
def Written (store : WorkingCopy M) (documents : List (Document M))
    (winner : String → Option (Document M)) (outcome : WriteReply × WorkingCopy M) : Prop :=
  ∃ count next, outcome = (.written count, next) ∧
    count = ((documents.map (·.id)).toFinset.filter fun id => (winner id).isSome).card ∧
    ∀ id, next.get id =
      match winner id with
      | some document => document.item.map Item.record
      | none => store.get id

/-! ## Sorting duplicates out -/

omit [EmptyCollection M]

theorem firstOf_eq_some {documents : List (Document M)} {id : String} {document : Document M}
    (h : firstOf documents id = some document) : document ∈ documents ∧ document.id = id := by
  unfold firstOf at h
  exact ⟨List.mem_of_find?_eq_some h, by simpa using List.find?_some h⟩

theorem firstOf_cons (first : Document M) (documents : List (Document M)) (id : String) :
    firstOf (first :: documents) id =
      if first.id = id then some first else firstOf documents id := by
  unfold firstOf
  rw [List.find?_cons]
  by_cases h : first.id = id <;> simp [h]

theorem firstOf_isSome_iff {documents : List (Document M)} {id : String} :
    (firstOf documents id).isSome ↔ id ∈ documents.map (·.id) := by
  unfold firstOf
  rw [List.find?_isSome, List.mem_map]
  simp

theorem lastOf_isSome_iff {documents : List (Document M)} {id : String} :
    (lastOf documents id).isSome ↔ id ∈ documents.map (·.id) := by
  unfold lastOf
  rw [firstOf_isSome_iff, List.map_reverse, List.mem_reverse]

/-- Under distinct ids the first document with an id is the only one. -/
theorem firstOf_of_nodup {documents : List (Document M)} (h : (documents.map (·.id)).Nodup)
    {document : Document M} : firstOf documents document.id = some document ↔
      document ∈ documents := by
  constructor
  · intro hfirst
    exact (firstOf_eq_some hfirst).1
  · intro hmem
    obtain ⟨other, hother⟩ := Option.isSome_iff_exists.mp
      (firstOf_isSome_iff.mpr (List.mem_map_of_mem hmem))
    obtain ⟨hlisted, hid⟩ := firstOf_eq_some hother
    rw [hother, List.inj_on_of_nodup_map h hlisted hmem hid]

/-- The duplicates of a batch: `seen` are the ids before. -/
theorem duplicates_fold (existing : Finset String) (ids seen duplicates : List String) :
    (ids.foldl (fun (state : List String × List String) id =>
        (id :: state.1,
          if (id ∈ existing ∨ id ∈ state.1) ∧ id ∉ state.2 then state.2 ++ [id] else state.2))
      (seen, duplicates)).2 = [] ↔
      duplicates = [] ∧ ids.Nodup ∧ ∀ id ∈ ids, id ∉ existing ∧ id ∉ seen := by
  induction ids generalizing seen duplicates with
  | nil => simp
  | cons id ids ih =>
    rw [List.foldl_cons, ih]
    by_cases hdup : id ∈ existing ∨ id ∈ seen
    · -- the id is among the duplicates now, if it was not before
      refine iff_of_false ?_ ?_
      · rintro ⟨hnil, -⟩
        dsimp only at hnil
        split at hnil
        next => exact List.append_ne_nil_of_right_ne_nil _ (List.cons_ne_nil _ _) hnil
        next hnot =>
          rw [hnil] at hnot
          exact hnot ⟨hdup, List.not_mem_nil⟩
      · rintro ⟨-, -, hall⟩
        obtain ⟨hexisting, hseen⟩ := hall id List.mem_cons_self
        exact hdup.elim hexisting hseen
    · dsimp only
      rw [if_neg fun h => hdup h.1, List.nodup_cons, List.forall_mem_cons]
      obtain ⟨hexisting, hseen⟩ := not_or.mp hdup
      refine and_congr_right fun _ => ?_
      constructor
      · rintro ⟨hnodup, hall⟩
        exact ⟨⟨fun hmem => (hall id hmem).2 List.mem_cons_self, hnodup⟩, ⟨hexisting, hseen⟩,
          fun other hother => ⟨(hall other hother).1,
            fun hmem => (hall other hother).2 (List.mem_cons_of_mem _ hmem)⟩⟩
      · rintro ⟨⟨hnew, hnodup⟩, -, hall⟩
        refine ⟨hnodup, fun other hother => ⟨(hall other hother).1, fun hmem => ?_⟩⟩
        rcases List.mem_cons.mp hmem with rfl | hmem
        · exact hnew hother
        · exact (hall other hother).2 hmem

theorem duplicateIds_eq_nil {existing : Finset String} {ids : List String} :
    duplicateIds existing ids = [] ↔ ids.Nodup ∧ ∀ id ∈ ids, id ∉ existing := by
  refine (duplicates_fold existing ids [] []).trans ?_
  simp

/-- `SKIP` keeps the first document of each id that is neither stored nor seen. -/
theorem mem_skipDuplicates {existing : Finset String} {documents : List (Document M)}
    (seen : List String) (document : Document M) :
    document ∈ skipDuplicates existing seen documents ↔
      document.id ∉ existing ∧ document.id ∉ seen ∧
        firstOf documents document.id = some document := by
  induction documents generalizing seen with
  | nil =>
    unfold skipDuplicates firstOf
    simp
  | cons first documents ih =>
    rw [skipDuplicates, firstOf_cons]
    by_cases hdup : first.id ∈ existing ∨ first.id ∈ seen
    · rw [if_pos hdup, ih]
      by_cases hid : first.id = document.id
      · rw [hid] at hdup
        refine iff_of_false ?_ ?_ <;>
        · rintro ⟨hexisting, hseen, -⟩
          exact hdup.elim hexisting hseen
      · rw [if_neg hid]
    · rw [if_neg hdup, List.mem_cons, ih]
      obtain ⟨hexisting, hseen⟩ := not_or.mp hdup
      by_cases hid : first.id = document.id
      · rw [if_pos hid, Option.some.injEq]
        constructor
        · rintro (rfl | ⟨-, hnot, -⟩)
          · exact ⟨hexisting, hseen, rfl⟩
          · rw [hid] at hnot
            exact absurd List.mem_cons_self hnot
        · rintro ⟨-, -, rfl⟩
          exact .inl rfl
      · rw [if_neg hid, or_iff_right fun heq => hid (congrArg Document.id heq).symm,
          List.mem_cons, not_or, and_iff_right (Ne.symm hid)]

theorem skipDuplicates_nodup (existing : Finset String) (documents : List (Document M))
    (seen : List String) : ((skipDuplicates existing seen documents).map (·.id)).Nodup := by
  induction documents generalizing seen with
  | nil => exact List.nodup_nil
  | cons first documents ih =>
    rw [skipDuplicates]
    split
    · exact ih seen
    · rw [List.map_cons, List.nodup_cons]
      refine ⟨fun hmem => ?_, ih _⟩
      obtain ⟨document, hdocument, hid⟩ := List.mem_map.mp hmem
      have hseen := ((mem_skipDuplicates _ _).mp hdocument).2.1
      rw [hid] at hseen
      exact hseen List.mem_cons_self

/-- `OVERWRITE` keeps the last document of each id. -/
theorem lastById_spec (documents : List (Document M)) :
    (lastById documents).1.Nodup ∧
      (∀ id, id ∈ (lastById documents).1 ↔ id ∈ documents.map (·.id)) ∧
      ∀ id, (lastById documents).2.lookup id = lastOf documents id := by
  induction documents using List.reverseRecOn with
  | nil => exact ⟨List.nodup_nil, fun id => Iff.rfl, fun id => rfl⟩
  | append_singleton documents last ih =>
    obtain ⟨hnodup, hids, hlookup⟩ := ih
    have hstep : lastById (documents ++ [last]) =
        (if last.id ∈ (lastById documents).2 then (lastById documents).1
          else (lastById documents).1 ++ [last.id],
        (lastById documents).2.insert last.id last) := by
      unfold lastById
      rw [List.foldl_append]
      rfl
    have hknown : last.id ∈ (lastById documents).2 ↔ last.id ∈ (lastById documents).1 := by
      rw [← Finmap.lookup_isSome, hlookup, hids, lastOf_isSome_iff]
    rw [hstep]
    refine ⟨?_, fun id => ?_, fun id => ?_⟩
    · dsimp only
      split
      next => exact hnodup
      next hnew =>
        rw [← List.concat_eq_append]
        exact hnodup.concat (mt hknown.mpr hnew)
    · rw [List.map_append, List.mem_append, ← hids, List.map_singleton, List.mem_singleton]
      dsimp only
      split
      next hold =>
        refine (or_iff_left_of_imp ?_).symm
        rintro rfl
        exact hknown.mp hold
      next => rw [List.mem_append, List.mem_singleton]
    · unfold lastOf
      rw [List.reverse_append, List.reverse_singleton, List.singleton_append, firstOf_cons]
      by_cases hid : last.id = id
      · subst hid
        rw [if_pos rfl, Finmap.lookup_insert]
      · rw [if_neg hid, Finmap.lookup_insert_of_ne _ (Ne.symm hid)]
        exact hlookup id

theorem mem_keepLastDocumentsById {documents : List (Document M)} {document : Document M} :
    document ∈ keepLastDocumentsById documents ↔
      lastOf documents document.id = some document := by
  obtain ⟨-, hids, hlookup⟩ := lastById_spec documents
  unfold keepLastDocumentsById
  rw [List.mem_filterMap]
  constructor
  · rintro ⟨id, -, hfound⟩
    rw [hlookup] at hfound
    rwa [(firstOf_eq_some hfound).2]
  · intro hlast
    refine ⟨document.id, ?_, by rw [hlookup, hlast]⟩
    exact (hids document.id).mpr (lastOf_isSome_iff.mp (Option.isSome_of_eq_some hlast))

theorem map_id_filterMap {found : String → Option (Document M)}
    (h : ∀ id document, found id = some document → document.id = id) (ids : List String) :
    (ids.filterMap found).map (·.id) = ids.filter fun id => (found id).isSome := by
  induction ids with
  | nil => rfl
  | cons id ids ih =>
    cases hfound : found id with
    | none => rw [List.filterMap_cons_none hfound, List.filter_cons_of_neg (by simp [hfound]), ih]
    | some document =>
      rw [List.filterMap_cons_some hfound, List.filter_cons_of_pos (by simp [hfound]),
        List.map_cons, ih, h id document hfound]

theorem keepLastDocumentsById_nodup (documents : List (Document M)) :
    ((keepLastDocumentsById documents).map (·.id)).Nodup := by
  obtain ⟨hnodup, -, hlookup⟩ := lastById_spec documents
  have hids : (keepLastDocumentsById documents).map (·.id) =
      (lastById documents).1.filter fun id => ((lastById documents).2.lookup id).isSome := by
    refine map_id_filterMap (fun id document hfound => ?_) _
    rw [hlookup] at hfound
    exact (firstOf_eq_some hfound).2
  rw [hids]
  exact hnodup.filter _

/-! ## Writing -/

section

variable [EmptyCollection M] {store : WorkingCopy M} {map : RecordMap M}
  {documents incoming : List (Document M)} {upsert : Bool} {dim : Nat}

omit [EmptyCollection M] in
theorem item_id {document : Document M} {item : Item M} (h : document.item = some item) :
    item.id = document.id := by
  obtain ⟨embedding, -, hrest⟩ := Option.bind_eq_some_iff.mp h
  obtain ⟨metadata, -, hitem⟩ := Option.bind_eq_some_iff.mp hrest
  rw [← Option.some.inj hitem]

omit [EmptyCollection M] in
theorem ids_of_items {items : List (Item M)} (h : incoming.mapM Document.item = some items) :
    items.map (·.id) = incoming.map (·.id) := by
  calc items.map (·.id)
      = (items.map some).map (fun item : Option (Item M) => item.elim "" (·.id)) := by
        rw [List.map_map]
        rfl
    _ = incoming.map (fun document => document.item.elim "" (·.id)) := by
        rw [← Table.mapM_eq_some.mp h, List.map_map]
        rfl
    _ = incoming.map (·.id) := by
        refine List.map_congr_left fun document hdocument => ?_
        obtain ⟨item, hitem⟩ :=
          Option.isSome_iff_exists.mp (Table.isSome_of_mapM h document hdocument)
        rw [hitem, Option.elim_some, item_id hitem]

omit [EmptyCollection M] in
theorem mem_items {items : List (Item M)} (h : incoming.mapM Document.item = some items)
    {item : Item M} : item ∈ items ↔ ∃ document ∈ incoming, document.item = some item := by
  have hmap := Table.mapM_eq_some.mp h
  rw [← List.mem_map, hmap, List.mem_map]
  simp

/-- A batch that raises leaves the store. -/
theorem writeIncoming_raised (h : Simulates store map)
    (hraised : (writeIncoming store incoming upsert).1 = .raised) :
    (writeIncoming store incoming upsert).2 = store := by
  unfold writeIncoming at hraised ⊢
  split
  next => rfl
  next hne =>
    rw [if_neg hne] at hraised
    cases hitems : incoming.mapM Document.item with
    | none => rfl
    | some items =>
      rw [hitems] at hraised
      dsimp only at hraised ⊢
      rcases add_items h items upsert with ⟨next, hadd, -⟩ | hadd
      · rw [hadd] at hraised
        cases hraised
      · rw [hadd]

/-- A batch of well-formed documents under distinct ids is stored. -/
theorem writeIncoming_wellFormed (h : Simulates store map) (hdim : store.acceptsDim dim)
    (hwell : ∀ document ∈ incoming, document.WellFormed dim)
    (hnodup : (incoming.map (·.id)).Nodup)
    (hnew : upsert ∨ ∀ document ∈ incoming, document.id ∉ store.stringToU64) :
    ∃ next, writeIncoming store incoming upsert = (.written incoming.length, next) ∧
      (∀ document ∈ incoming, next.get document.id = document.item.map Item.record) ∧
      ∀ id, id ∉ incoming.map (·.id) → next.get id = store.get id := by
  by_cases hempty : incoming = []
  · subst hempty
    exact ⟨store, rfl, nofun, fun _ _ => rfl⟩
  have hread : incoming.mapM Document.item = some (incoming.filterMap Document.item) :=
    Table.mapM_of_isSome fun document hdocument => by
      obtain ⟨item, hitem, -⟩ := hwell document hdocument
      exact Option.isSome_of_eq_some hitem
  have hids := ids_of_items hread
  have hitems : ∀ item ∈ incoming.filterMap Document.item, item.WellFormed dim := by
    intro item hmem
    obtain ⟨document, hdocument, hitem⟩ := (mem_items hread).mp hmem
    obtain ⟨other, hother, hother'⟩ := hwell document hdocument
    rwa [Option.some.inj (hitem.symm.trans hother)]
  have hfree : upsert ∨ ∀ item ∈ incoming.filterMap Document.item, item.id ∉ store.stringToU64 := by
    refine hnew.imp_right fun hall item hmem => ?_
    obtain ⟨document, hdocument, hitem⟩ := (mem_items hread).mp hmem
    rw [item_id hitem]
    exact hall document hdocument
  obtain ⟨next, hadd, hreplaced⟩ := add_wellFormed h hdim hitems (hids ▸ hnodup) hfree
  refine ⟨next, ?_, ?_, ?_⟩
  · unfold writeIncoming
    rw [if_neg (by simpa using hempty), hread]
    dsimp only
    rw [hadd]
  · intro document hdocument
    obtain ⟨item, hitem, -⟩ := hwell document hdocument
    have hmem := (mem_items hread).mpr ⟨document, hdocument, hitem⟩
    rw [hitem, ← item_id hitem, hreplaced.written item hmem, Option.map_some]
  · intro id hid
    rw [← hids] at hid
    exact hreplaced.others id hid

/-- Storing the documents that win is what a policy promises. -/
theorem written_of_incoming {winner : String → Option (Document M)} (h : Simulates store map)
    (hdim : store.acceptsDim dim) (hwell : ∀ document ∈ documents, document.WellFormed dim)
    (hwinner : ∀ id document, winner id = some document → document ∈ documents ∧ document.id = id)
    (hincoming : ∀ document, document ∈ incoming ↔ winner document.id = some document)
    (hnodup : (incoming.map (·.id)).Nodup)
    (hnew : upsert ∨ ∀ document ∈ incoming, document.id ∉ store.stringToU64) :
    Written store documents winner (writeIncoming store incoming upsert) := by
  have hlisted : ∀ document ∈ incoming, document ∈ documents := fun document hmem =>
    (hwinner _ _ ((hincoming document).mp hmem)).1
  have hids : ∀ id, id ∈ incoming.map (·.id) ↔ (winner id).isSome := by
    intro id
    rw [List.mem_map, Option.isSome_iff_exists]
    constructor
    · rintro ⟨document, hmem, rfl⟩
      exact ⟨document, (hincoming document).mp hmem⟩
    · rintro ⟨document, hwin⟩
      obtain ⟨-, rfl⟩ := hwinner id document hwin
      exact ⟨document, (hincoming document).mpr hwin, rfl⟩
  obtain ⟨next, hwrite, hwritten, hothers⟩ := writeIncoming_wellFormed h hdim
    (fun document hmem => hwell document (hlisted document hmem)) hnodup hnew
  refine ⟨_, next, hwrite, ?_, fun id => ?_⟩
  · have hset : ((documents.map (·.id)).toFinset.filter fun id => (winner id).isSome) =
        (incoming.map (·.id)).toFinset := by
      ext id
      rw [Finset.mem_filter, List.mem_toFinset, List.mem_toFinset, hids]
      refine and_iff_right_of_imp fun hwin => ?_
      obtain ⟨document, hmem, rfl⟩ := List.mem_map.mp ((hids id).mpr hwin)
      exact List.mem_map_of_mem (hlisted document hmem)
    rw [hset, List.toFinset_card_of_nodup hnodup, List.length_map]
  · cases hwin : winner id with
    | none => exact hothers id fun hmem => by simpa [hwin] using (hids id).mp hmem
    | some document =>
      obtain ⟨-, rfl⟩ := hwinner id document hwin
      exact hwritten document ((hincoming document).mpr hwin)

/-- What `write_documents` promises of a batch. -/
structure Honors (store : WorkingCopy M) (documents : List (Document M)) : Prop where
  raised : ∀ policyName, (writeDocuments store documents policyName).1 = .raised →
    (writeDocuments store documents policyName).2 = store
  /-- All documents or none. -/
  fail : ∀ dim, store.acceptsDim dim → (∀ document ∈ documents, document.WellFormed dim) →
    ∀ policyName ∈ ["FAIL", "NONE"],
      ((documents.map (·.id)).Nodup ∧ (∀ document ∈ documents, document.id ∉ store.stringToU64) →
        Written store documents (firstOf documents) (writeDocuments store documents policyName)) ∧
      (¬((documents.map (·.id)).Nodup ∧ ∀ document ∈ documents, document.id ∉ store.stringToU64) →
        writeDocuments store documents policyName = (.raised, store))
  /-- The first document of each new id. -/
  skip : ∀ dim, store.acceptsDim dim → (∀ document ∈ documents, document.WellFormed dim) →
    Written store documents
      (fun id => if id ∈ store.stringToU64 then none else firstOf documents id)
      (writeDocuments store documents "SKIP")
  /-- The last document of each id. -/
  overwrite : ∀ dim, store.acceptsDim dim → (∀ document ∈ documents, document.WellFormed dim) →
    Written store documents (lastOf documents) (writeDocuments store documents "OVERWRITE")

theorem writeDocuments_raised (h : Simulates store map) (policyName : String)
    (hraised : (writeDocuments store documents policyName).1 = .raised) :
    (writeDocuments store documents policyName).2 = store := by
  unfold writeDocuments at hraised ⊢
  dsimp only at hraised ⊢
  split_ifs at hraised ⊢
  all_goals first
    | rfl
    | exact writeIncoming_raised h hraised

omit [EmptyCollection M] in
theorem duplicateIds_keys : duplicateIds store.stringToU64.keys (documents.map (·.id)) = [] ↔
    (documents.map (·.id)).Nodup ∧ ∀ document ∈ documents, document.id ∉ store.stringToU64 := by
  rw [duplicateIds_eq_nil]
  simp only [List.forall_mem_map, Finmap.mem_keys]

theorem writeDocuments_fail (h : Simulates store map) (hdim : store.acceptsDim dim)
    (hwell : ∀ document ∈ documents, document.WellFormed dim) {policyName : String}
    (hpolicy : policyName ∈ ["FAIL", "NONE"]) :
    ((documents.map (·.id)).Nodup ∧ (∀ document ∈ documents, document.id ∉ store.stringToU64) →
      Written store documents (firstOf documents) (writeDocuments store documents policyName)) ∧
    (¬((documents.map (·.id)).Nodup ∧ ∀ document ∈ documents, document.id ∉ store.stringToU64) →
      writeDocuments store documents policyName = (.raised, store)) := by
  have hwrite : writeDocuments store documents policyName =
      if duplicateIds store.stringToU64.keys (documents.map (·.id)) ≠ [] then (.raised, store)
      else writeIncoming store documents false := by
    rcases List.mem_pair.mp hpolicy with rfl | rfl <;> simp [writeDocuments]
  rw [hwrite, ← duplicateIds_keys]
  constructor
  · intro hnil
    obtain ⟨hnodup, hnew⟩ := duplicateIds_keys.mp hnil
    rw [if_neg (not_not.mpr hnil)]
    exact written_of_incoming h hdim hwell (fun _ _ => firstOf_eq_some)
      (fun document => (firstOf_of_nodup hnodup).symm) hnodup (.inr hnew)
  · exact fun hduplicates => if_pos hduplicates

theorem writeDocuments_skip (h : Simulates store map) (hdim : store.acceptsDim dim)
    (hwell : ∀ document ∈ documents, document.WellFormed dim) :
    Written store documents
      (fun id => if id ∈ store.stringToU64 then none else firstOf documents id)
      (writeDocuments store documents "SKIP") := by
  have hwrite : writeDocuments store documents "SKIP" =
      writeIncoming store (skipDuplicates store.stringToU64.keys [] documents) false := by
    simp [writeDocuments]
  rw [hwrite]
  refine written_of_incoming h hdim hwell (fun id document hwin => ?_) (fun document => ?_)
    (skipDuplicates_nodup _ _ _) (.inr fun document hmem => ?_)
  · split at hwin
    · cases hwin
    · exact firstOf_eq_some hwin
  · rw [mem_skipDuplicates, Finmap.mem_keys]
    by_cases hstored : document.id ∈ store.stringToU64 <;> simp [hstored]
  · exact fun hstored => ((mem_skipDuplicates _ _).mp hmem).1 (Finmap.mem_keys.mpr hstored)

theorem writeDocuments_overwrite (h : Simulates store map) (hdim : store.acceptsDim dim)
    (hwell : ∀ document ∈ documents, document.WellFormed dim) :
    Written store documents (lastOf documents) (writeDocuments store documents "OVERWRITE") := by
  have hwrite : writeDocuments store documents "OVERWRITE" =
      writeIncoming store (keepLastDocumentsById documents) true := by
    simp [writeDocuments]
  rw [hwrite]
  refine written_of_incoming h hdim hwell (fun id document hwin => ?_)
    (fun document => mem_keepLastDocumentsById) (keepLastDocumentsById_nodup documents) (.inl rfl)
  obtain ⟨hmem, hid⟩ := firstOf_eq_some hwin
  exact ⟨List.mem_reverse.mp hmem, hid⟩

end

/-- Every policy holds in every reachable store, and a call that raises stores nothing. -/
theorem write_documents_honors [EmptyCollection M] (start : WorkingCopy M) (hstart : Made start)
    (calls : List (Call M)) (documents : List (Document M)) :
    Honors (Machine.runCalls answer start calls).2 documents := by
  have hsound : Sound (Machine.runCalls answer start calls).2 :=
    Machine.runCalls_invariant (fun _ call h => h.answer call) hstart.sound calls
  obtain ⟨rows, hholds⟩ := hsound.holds
  obtain ⟨map, h⟩ := hholds.simulates
  exact {
    raised := writeDocuments_raised h
    fail := fun _ hdim hwell _ hpolicy => writeDocuments_fail h hdim hwell hpolicy
    skip := fun _ hdim hwell => writeDocuments_skip h hdim hwell
    overwrite := fun _ hdim hwell => writeDocuments_overwrite h hdim hwell }

/-- Two documents under one id, which a stored one has too. -/
def repeatedDocuments : List (Document (Metadata Unit)) :=
  [⟨"b", "first", some (some (.zeros 8)), some ∅⟩,
    ⟨"b", "second", some (some (.zeros 8)), some ∅⟩]

theorem repeatedDocuments_honored :
    (writeDocuments (Machine.runCalls answer (new 2 none) [.add languageRows]).2 repeatedDocuments
      "OVERWRITE").1 = .written 1 ∧
    Honors (Machine.runCalls answer (new 2 none) [.add languageRows]).2 repeatedDocuments :=
  ⟨rfl, write_documents_honors (new 2 none) (made_new 2 none) [.add languageRows]
    repeatedDocuments⟩

end OrdinalDB.Adapter.Haystack
