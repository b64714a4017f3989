import OrdinalDB.Adapter.Search
import OrdinalDB.Lib.Chunks

/-!
# Batches of documents

The framework adapters hand `AdapterStore.add` one id, text, embedding and metadata dict for each
document of a batch. `answer_items`: a batch that is taken replaces the records of its ids, which
are distinct, and no others; `add_wellFormed`: a batch of well-formed documents is taken.
-/

namespace OrdinalDB.Adapter

open Float32Bits (F32)

variable {M : Type}

/-! ## Definitions -/

def FloatArray.zeros (dim : Nat) : FloatArray where
  shape := [dim]
  values := List.replicate dim .zero
  sized := by simp

/-- Arrays of one shape behind one another. -/
def stacked (first : FloatArray) (rest : List FloatArray)
    (h : ∀ array ∈ rest, array.shape = first.shape) : FloatArray where
  shape := (rest.length + 1) :: first.shape
  values := first.values ++ rest.flatMap (·.values)
  sized := by
    have hrest : (rest.map fun array => array.values.length).sum =
        rest.length * first.shape.prod := by
      rw [List.map_congr_left (g := fun _ => first.shape.prod)
        fun array harray => by rw [array.sized, h array harray]]
      simp
    rw [List.length_append, List.length_flatMap, hrest, first.sized, List.prod_cons,
      Nat.succ_mul, Nat.add_comm]

/-- `np.asarray` of a list of arrays. -/
def stackArrays : List FloatArray → Option FloatArray
  | [] => some ⟨[0], [], rfl⟩
  | first :: rest =>
    if h : ∀ array ∈ rest, array.shape = first.shape then some (stacked first rest h) else none

/-- `np.asarray` of a list of values; `none` is a value that no array can be made of. -/
def asarray (values : List (Option FloatArray)) : Option FloatArray :=
  (values.mapM id).bind stackArrays

/-- What a batch holds for one document. -/
structure Item (M : Type) where
  id : String
  document : String
  embedding : Option FloatArray
  metadata : M

def Item.record (item : Item M) : Record M :=
  ⟨item.embedding.elim [] (·.values), item.document, item.metadata⟩

/-- A batch as the adapters pass it. -/
def AddArguments.ofItems (items : List (Item M)) (upsert : Bool) : AddArguments M where
  ids := items.map fun item => .str item.id
  embeddings := asarray (items.map (·.embedding))
  documents := items.map fun item => .str item.document
  metadatas := some (items.map fun item => .dict item.metadata)
  upsert

/-- A non-empty id and an embedding with `dim` valid coordinates. -/
structure Item.WellFormed (dim : Nat) (item : Item M) : Prop where
  id : item.id ≠ ""
  embedding : ∃ array, item.embedding = some array ∧ array.shape = [dim] ∧
    array.values.all validCoord

/-! ## Stacking -/

theorem stacked_values {first : FloatArray} {rest : List FloatArray}
    (h : ∀ array ∈ rest, array.shape = first.shape) :
    (stacked first rest h).values = ((first :: rest).map (·.values)).flatten := by
  show first.values ++ rest.flatMap (·.values) = _
  rw [List.map_cons, List.flatten_cons, List.flatMap_def]

theorem stackArrays_eq_some {arrays : List FloatArray} {array : FloatArray} {dim count : Nat}
    (h : stackArrays arrays = some array) (hshape : array.shape = [count, dim]) :
    count = arrays.length ∧ (∀ part ∈ arrays, part.shape = [dim]) ∧
      array.values = (arrays.map (·.values)).flatten := by
  cases arrays with
  | nil =>
    have hempty : array.shape = [0] := by
      rw [← Option.some.inj h]
    rw [hempty] at hshape
    cases hshape
  | cons first rest =>
    by_cases hrest : ∀ array ∈ rest, array.shape = first.shape
    · have hstacked : stackArrays (first :: rest) = some (stacked first rest hrest) :=
        dif_pos hrest
      obtain rfl := Option.some.inj (hstacked.symm.trans h)
      obtain ⟨hcount, hfirst⟩ := List.cons.inj hshape
      refine ⟨hcount.symm, ?_, stacked_values hrest⟩
      intro part hpart
      rcases List.mem_cons.mp hpart with rfl | hpart
      · exact hfirst
      · rw [hrest part hpart, hfirst]
    · have hnone : stackArrays (first :: rest) = none := dif_neg hrest
      rw [hnone] at h
      cases h

theorem stackArrays_of_shape {arrays : List FloatArray} {dim : Nat} (hne : arrays ≠ [])
    (h : ∀ array ∈ arrays, array.shape = [dim]) :
    ∃ array, stackArrays arrays = some array ∧ array.shape = [arrays.length, dim] ∧
      array.values = (arrays.map (·.values)).flatten := by
  obtain ⟨first, rest, rfl⟩ := List.exists_cons_of_ne_nil hne
  have hfirst := h first List.mem_cons_self
  have hrest : ∀ array ∈ rest, array.shape = first.shape := fun array harray => by
    rw [h array (List.mem_cons_of_mem _ harray), hfirst]
  refine ⟨stacked first rest hrest, dif_pos hrest, ?_, stacked_values hrest⟩
  show (rest.length + 1) :: first.shape = _
  rw [hfirst, List.length_cons]

/-- The rows of a stacked array are the arrays. -/
theorem rows_stacked {arrays : List FloatArray} {dim : Nat}
    (h : ∀ array ∈ arrays, array.shape = [dim]) :
    (List.range arrays.length).map (rowAt dim (arrays.map (·.values)).flatten) =
      arrays.map (·.values) := by
  have hlength : ∀ row ∈ arrays.map (·.values), row.length = dim := by
    intro row hrow
    obtain ⟨array, harray, rfl⟩ := List.mem_map.mp hrow
    rw [array.sized, h array harray, List.prod_singleton]
  refine List.ext_getElem (by simp) fun i hi hi' => ?_
  rw [List.getElem_map, List.getElem_range]
  exact Chunks.row_flatten hlength (List.getElem?_eq_getElem hi')

/-! ## Answers -/

namespace WorkingCopy

section

variable {store : WorkingCopy M} {items : List (Item M)} {upsert : Bool} {map : RecordMap M}

theorem ids_ofItems (upsert : Bool) (h : ∀ item ∈ items, item.id ≠ "") :
    (AddArguments.ofItems items upsert).ids.mapM requireStringId = some (items.map (·.id)) := by
  show (items.map fun item => (PyValue.str item.id : PyValue M)).mapM requireStringId = _
  rw [Table.mapM_eq_some, List.map_map, List.map_map]
  exact List.map_congr_left fun item hitem => if_neg (h item hitem)

theorem ids_ofItems_eq_some {ids : List String}
    (h : (AddArguments.ofItems items upsert).ids.mapM requireStringId = some ids) :
    ids = items.map (·.id) := by
  have hmap : (items.map fun item => (PyValue.str item.id : PyValue M)).map requireStringId =
      ids.map some := Table.mapM_eq_some.mp h
  have hnonempty : ∀ item ∈ items, item.id ≠ "" := by
    intro item hitem hempty
    have hmem := List.mem_map_of_mem (f := requireStringId)
      (List.mem_map_of_mem (f := fun item => (PyValue.str item.id : PyValue M)) hitem)
    rw [hmap] at hmem
    obtain ⟨id, -, hid⟩ := List.mem_map.mp hmem
    rw [requireStringId, empty_string, if_pos hempty] at hid
    cases hid
  exact Option.some.inj (h.symm.trans (ids_ofItems upsert hnonempty))

theorem documents_ofItems :
    (AddArguments.ofItems items upsert).documents.mapM requireDocument =
      some (items.map (·.document)) := by
  show (items.map fun item => (PyValue.str item.document : PyValue M)).mapM requireDocument = _
  rw [Table.mapM_eq_some, List.map_map, List.map_map]
  rfl

/-- The vectors of a batch are the embeddings of its documents. -/
theorem rows_ofItems {vectors : Vectors}
    (h : vectorsArray (AddArguments.ofItems items upsert).embeddings = some vectors) :
    vectors.rows = items.map fun item => item.record.vector := by
  unfold vectorsArray at h
  obtain ⟨array, harray, hshaped⟩ := Option.bind_eq_some_iff.mp h
  have hread : asarray (items.map (·.embedding)) = some array := harray
  obtain ⟨arrays, hvalues, hstacked⟩ := Option.bind_eq_some_iff.mp hread
  have hparts : items.map (·.embedding) = arrays.map some := by
    have := Table.mapM_eq_some.mp hvalues
    rwa [List.map_id] at this
  split at hshaped
  next count dim hshape =>
    split at hshaped
    next =>
      obtain rfl := Option.some.inj hshaped
      obtain ⟨rfl, hshapes, hflat⟩ := stackArrays_eq_some hstacked hshape
      show (List.range arrays.length).map (rowAt dim array.values) = _
      rw [hflat, rows_stacked hshapes]
      calc arrays.map (·.values)
          = (arrays.map some).map (fun embedding => embedding.elim [] (·.values)) := by
            rw [List.map_map]
            rfl
        _ = items.map fun item => item.record.vector := by
            rw [← hparts, List.map_map]
            rfl
    next => cases hshaped
  next => cases hshaped

theorem zipRows_items (items : List (Item M)) :
    (zipRows ((items.map (·.id)).map fun _ => 0) (items.map (·.id))
      (items.map fun item => item.record.vector) (items.map (·.document))
      (items.map (·.metadata))).map (fun row =>
        (row.id, (⟨row.vector, row.document, row.metadata⟩ : Record M))) =
      items.map fun item => (item.id, item.record) := by
  induction items with
  | nil => rfl
  | cons item items ih => exact congrArg _ ih

theorem firsts_nodup (h : (items.map (·.id)).Nodup) :
    ((items.map fun item => (item.id, item.record)).map Prod.fst).Nodup := by
  rw [List.map_map]
  exact h

/-- The embeddings of well-formed documents make an array. -/
theorem asarray_of_wellFormed (upsert : Bool) {dim : Nat} (hne : items ≠ [])
    (h : ∀ item ∈ items, item.WellFormed dim) : ∃ vectors,
      vectorsArray (AddArguments.ofItems items upsert).embeddings = some vectors ∧
        vectors.dim = dim ∧ vectors.rows.length = items.length := by
  let arrays := items.map fun item => item.embedding.getD ⟨[0], [], rfl⟩
  have harrays : (items.map (·.embedding)).mapM id = some arrays := by
    rw [Table.mapM_eq_some, List.map_map, List.map_map]
    refine List.map_congr_left fun item hitem => ?_
    obtain ⟨array, harray, -⟩ := (h item hitem).embedding
    show item.embedding = some (item.embedding.getD _)
    rw [harray, Option.getD_some]
  have hparts : ∀ array ∈ arrays, array.shape = [dim] ∧ array.values.all validCoord := by
    intro array hmem
    obtain ⟨item, hitem, rfl⟩ := List.mem_map.mp hmem
    obtain ⟨array, harray, hshape, hvalid⟩ := (h item hitem).embedding
    rw [harray, Option.getD_some]
    exact ⟨hshape, hvalid⟩
  have hlength : arrays.length = items.length := List.length_map _
  obtain ⟨array, hstacked, hshape, hvalues⟩ :=
    stackArrays_of_shape (mt List.map_eq_nil_iff.mp hne) fun array hmem => (hparts array hmem).1
  have hembeddings : (AddArguments.ofItems items upsert).embeddings = some array := by
    show asarray (items.map fun item => item.embedding) = some array
    unfold asarray
    rw [harrays, Option.bind_some, hstacked]
  have hvalid : array.values.all validCoord := by
    rw [hvalues, List.all_flatten, List.all_map, List.all_eq_true]
    exact fun part hpart => (hparts part hpart).2
  refine ⟨⟨dim, (List.range arrays.length).map (rowAt dim array.values)⟩, ?_, rfl, ?_⟩
  · unfold vectorsArray
    rw [hembeddings]
    dsimp only [Option.bind_eq_bind, Option.bind_some]
    rw [hshape]
    exact if_pos hvalid
  · rw [List.length_map, List.length_range, hlength]

variable [EmptyCollection M]

theorem metadatas_ofItems {ids : List String} :
    ((AddArguments.ofItems items upsert).metadatas.getD (ids.map fun _ => .dict ∅)).mapM
      requireMetadata? = some (items.map (·.metadata)) := by
  show (items.map fun item => (PyValue.dict item.metadata : PyValue M)).mapM requireMetadata? = _
  rw [Table.mapM_eq_some, List.map_map, List.map_map]
  rfl

/-- What a batch that was taken leaves: its records under distinct ids, and the others. -/
structure Replaced (store next : WorkingCopy M) (items : List (Item M)) : Prop where
  nodup : (items.map (·.id)).Nodup
  written : ∀ item ∈ items, next.get item.id = some item.record
  others : ∀ id, id ∉ items.map (·.id) → next.get id = store.get id
  holds : ∃ map, Simulates next map

/-- The records of a batch, item by item. -/
theorem apply_ofItems {vectors : Vectors} {ids : List String}
    (hids : (AddArguments.ofItems items upsert).ids.mapM requireStringId =
      some (items.map (·.id)))
    (hvectors : vectorsArray (AddArguments.ofItems items upsert).embeddings = some vectors) :
    map.apply (.add (.ofItems items upsert)) (.added ids) =
      insertAll map (items.map fun item => (item.id, item.record)) := by
  refine congrArg (insertAll map) ?_
  unfold AddArguments.records
  rw [hids, documents_ofItems, Option.getD_some, Option.getD_some]
  dsimp only
  rw [metadatas_ofItems, hvectors, Option.getD_some, Option.elim_some, rows_ofItems hvectors]
  exact zipRows_items items

/-- A batch of string ids that is read is taken. -/
theorem added_of_readBatch (h : Simulates store map) (hne : items ≠ [])
    (hids : (AddArguments.ofItems items upsert).ids.mapM requireStringId =
      some (items.map (·.id)))
    (hbatch : (store.readBatch (items.map (·.id)) (.ofItems items upsert)).isSome) :
    (store.add (.ofItems items upsert)).1 = .added (items.map (·.id)) := by
  obtain ⟨item, rest, rfl⟩ := List.exists_cons_of_ne_nil hne
  obtain ⟨⟨documents, metadata, vectors⟩, hbatch⟩ := Option.isSome_iff_exists.mp hbatch
  have hanswer : store.add (.ofItems (item :: rest) upsert) =
      store.validated (store.addBatch ((item :: rest).map (·.id)) documents metadata vectors)
        (.added ((item :: rest).map (·.id))) := by
    unfold add
    rw [hids]
    simp only [List.map_cons] at hbatch ⊢
    rw [hbatch]
  have hchecked : (store.add (.ofItems (item :: rest) upsert)).1 ≠ .broken :=
    (call_kept h (.add (.ofItems (item :: rest) upsert))).1.checked
  rw [hanswer] at hchecked ⊢
  exact validated_reply hchecked

/-- A batch of documents is taken as a whole or rejected. -/
theorem add_items (h : Simulates store map) (items : List (Item M)) (upsert : Bool) :
    (∃ next, store.add (.ofItems items upsert) = (.added (items.map (·.id)), next) ∧
      Replaced store next items) ∨
    store.add (.ofItems items upsert) = (.rejected, store) := by
  have hsimulates := (call_kept h (.add (.ofItems items upsert))).2
  have hkept := (call_kept h (.add (.ofItems items upsert))).1
  cases hids : (AddArguments.ofItems items upsert).ids.mapM requireStringId with
  | none =>
    right
    unfold add
    rw [hids]
  | some ids =>
    obtain rfl := ids_ofItems_eq_some hids
    by_cases hempty : items = []
    · subst hempty
      exact .inl ⟨store, rfl, List.nodup_nil, nofun, fun _ _ => rfl, map, h⟩
    cases hbatch : store.readBatch (items.map (·.id)) (.ofItems items upsert) with
    | none =>
      right
      obtain ⟨item, rest, rfl⟩ := List.exists_cons_of_ne_nil hempty
      unfold add
      rw [hids]
      simp only [List.map_cons] at hbatch ⊢
      rw [hbatch]
    | some batch =>
      left
      obtain ⟨-, -, hvectors, hnodup, -, -, -⟩ := readBatch_eq_some hbatch
      have hreply := added_of_readBatch h hempty hids (Option.isSome_of_eq_some hbatch)
      have hfirsts := firsts_nodup hnodup
      have happly : map.apply (.add (.ofItems items upsert))
          (store.add (.ofItems items upsert)).1 =
            insertAll map (items.map fun item => (item.id, item.record)) := by
        rw [hreply, apply_ofItems hids hvectors]
      have hget : ∀ id, (store.add (.ofItems items upsert)).2.get id =
          (insertAll map (items.map fun item => (item.id, item.record))).lookup id := by
        rw [← happly]
        exact hsimulates.refines.records
      refine ⟨(store.add (.ofItems items upsert)).2, Prod.ext hreply rfl, hnodup, ?_, ?_, _,
        hsimulates⟩
      · intro item hitem
        rw [hget, lookup_insertAll hfirsts]
        exact .inl (List.mem_map_of_mem hitem)
      · intro id hid
        have hnot : id ∉ (items.map fun item => (item.id, item.record)).map Prod.fst := by
          rw [List.map_map]
          exact hid
        rw [hget, h.refines.records id]
        refine Option.ext fun record => ?_
        rw [lookup_insertAll hfirsts]
        constructor
        · rintro (hmem | ⟨-, hold⟩)
          · exact absurd (List.mem_map_of_mem (f := Prod.fst) hmem) hnot
          · exact hold
        · exact fun hold => .inr ⟨hnot, hold⟩

/-- A batch of well-formed documents under distinct ids is taken; without `upsert` the ids must be
new. -/
theorem add_wellFormed {dim : Nat} (h : Simulates store map) (hdim : store.acceptsDim dim)
    (hitems : ∀ item ∈ items, item.WellFormed dim) (hnodup : (items.map (·.id)).Nodup)
    (hnew : upsert ∨ ∀ item ∈ items, item.id ∉ store.stringToU64) :
    ∃ next, store.add (.ofItems items upsert) = (.added (items.map (·.id)), next) ∧
      Replaced store next items := by
  refine (add_items h items upsert).resolve_right fun hrejected => ?_
  by_cases hempty : items = []
  · subst hempty
    cases hrejected
  have hids := ids_ofItems upsert fun item hitem => (hitems item hitem).id
  obtain ⟨vectors, hvectors, rfl, hrows⟩ := asarray_of_wellFormed upsert hempty hitems
  have hpreflight : store.preflightBatch (items.map (·.id))
      (AddArguments.ofItems items upsert).embeddings (items.map (·.document))
      (items.map (·.metadata)) upsert = some vectors := by
    simp [preflightBatch, hvectors, hnodup, hrows, hdim, hnew]
  have hbatch : store.readBatch (items.map (·.id)) (.ofItems items upsert) =
      some (items.map (·.document), items.map (·.metadata), vectors) := by
    unfold readBatch
    rw [documents_ofItems]
    dsimp only [Option.bind_eq_bind, Option.bind_some]
    rw [metadatas_ofItems, Option.bind_some]
    show (store.preflightBatch _ _ _ _ upsert).bind _ = _
    rw [hpreflight]
    rfl
  have hreply := added_of_readBatch h hempty hids (Option.isSome_of_eq_some hbatch)
  rw [hrejected] at hreply
  cases hreply

end

end WorkingCopy

end OrdinalDB.Adapter
