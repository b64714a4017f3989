import OrdinalDB.Store.VerifiedRows

/-!
# Ids and vector rows

Accepted payloads of a generation with vectors: the string ids, through their
u64 ids, are the rows of the generation. Only counts, bounds and duplicates are
checked; that every row has an id follows by counting (`accepted_bijection`).
-/

namespace OrdinalDB.Store

open Json

variable {Text : Type}

namespace ParsedPayloads

/-- The vector row of a string id. -/
def slotForString (parsed : ParsedPayloads) (id : String) : Option Nat :=
  (parsed.u64ForString id).bind fun u64 => parsed.u64ToSlot[u64]?

/-- The string ids are the rows `0, …, rows - 1`, each by its own u64 id. -/
structure DescribesRows (parsed : ParsedPayloads) (rows : Nat) : Prop where
  documents : ∀ id, id ∈ parsed.documents ↔ id ∈ parsed.stringToU64
  metadata : ∀ id, id ∈ parsed.metadata ↔ id ∈ parsed.stringToU64
  oneU64 : ∀ id ∈ parsed.documents, ∃! u64, parsed.u64ForString id = some u64
  assigned : ∀ u64, u64 ∈ parsed.u64ToSlot ↔ ∃ id, parsed.u64ForString id = some u64
  oneSlot : ∀ u64 ∈ parsed.u64ToSlot, ∃! slot, parsed.u64ToSlot[u64]? = some slot
  bijection : Set.BijOn parsed.slotForString {id | id ∈ parsed.documents} (some '' Set.Iio rows)
  allocated : ∀ id u64, parsed.u64ForString id = some u64 → u64 < parsed.nextU64Id

variable {parsed : ParsedPayloads}

theorem mem_u64Ids {u64 : Nat} :
    u64 ∈ parsed.u64Ids ↔ ∃ id, parsed.u64ForString id = some u64 := by
  simp only [u64Ids, List.mem_map, Prod.exists, exists_eq_right,
    Std.ExtTreeMap.mem_toList_iff_getElem?_eq_some]
  rfl

theorem ValidMaps.mem_documents (h : parsed.ValidMaps) {id : String} :
    id ∈ parsed.documents ↔ id ∈ parsed.stringToU64 := by
  rw [← Std.ExtTreeMap.mem_keys, h.documents, Std.ExtTreeMap.mem_keys]

theorem ValidMaps.mem_metadata (h : parsed.ValidMaps) {id : String} :
    id ∈ parsed.metadata ↔ id ∈ parsed.stringToU64 := by
  rw [← Std.ExtTreeMap.mem_keys, h.metadata, Std.ExtTreeMap.mem_keys]

theorem ValidMaps.mem_u64ToSlot (h : parsed.ValidMaps) {u64 : Nat} :
    u64 ∈ parsed.u64ToSlot ↔ ∃ id, parsed.u64ForString id = some u64 := by
  rw [← mem_u64Ids]
  exact ⟨fun hmem => h.slotKeys.1 u64 (Std.ExtTreeMap.mem_keys.mpr hmem), h.slotKeys.2 u64⟩

/-- A lookup that never finds one value under two keys. -/
theorem getElem?_injective {K V : Type} [Ord K] [Std.TransOrd K] [Std.LawfulEqOrd K]
    {table : Table K V} (h : (table.toList.map Prod.snd).Nodup) {a b : K} {value : V}
    (ha : table[a]? = some value) (hb : table[b]? = some value) : a = b := by
  have hrow := List.inj_on_of_nodup_map h
    (Std.ExtTreeMap.mem_toList_iff_getElem?_eq_some.mpr ha)
    (Std.ExtTreeMap.mem_toList_iff_getElem?_eq_some.mpr hb) rfl
  exact congrArg Prod.fst hrow

theorem slotForString_eq_some {id : String} {slot : Nat} :
    parsed.slotForString id = some slot ↔
      ∃ u64, parsed.u64ForString id = some u64 ∧ parsed.u64ToSlot[u64]? = some slot :=
  Option.bind_eq_some_iff

theorem ValidMaps.slotForString_injOn (h : parsed.ValidMaps) :
    Set.InjOn parsed.slotForString {id | id ∈ parsed.documents} := by
  intro a ha b _ heq
  obtain ⟨u64, hu64⟩ := getElem?_of_mem (h.mem_documents.mp ha)
  obtain ⟨slot, hslot⟩ := getElem?_of_mem (h.mem_u64ToSlot.mpr ⟨a, hu64⟩)
  have hslotA : parsed.slotForString a = some slot := slotForString_eq_some.mpr ⟨u64, hu64, hslot⟩
  obtain ⟨u64', hu64', hslot'⟩ := slotForString_eq_some.mp (heq ▸ hslotA)
  obtain rfl := getElem?_injective h.slots hslot hslot'
  exact getElem?_injective h.distinct hu64 hu64'

/-- As many slots as rows, all below the count and all different: every row is a slot. -/
theorem ValidMaps.slot_surjective (h : parsed.ValidMaps) {rows : Nat}
    (hbound : ∀ item ∈ parsed.u64ToSlot.toList, item.2 < rows)
    (hsize : parsed.u64ToSlot.size = rows) {slot : Nat} (hslot : slot < rows) :
    ∃ u64 : Nat, parsed.u64ToSlot[u64]? = some slot := by
  have hsub : parsed.u64ToSlot.toList.map Prod.snd ⊆ List.range rows := by
    intro slot hslot
    obtain ⟨item, hitem, rfl⟩ := List.mem_map.mp hslot
    exact List.mem_range.mpr (hbound item hitem)
  have hcount : (List.range rows).length = (parsed.u64ToSlot.toList.map Prod.snd).length := by
    rw [List.length_range, List.length_map, Std.ExtTreeMap.length_toList, hsize]
  have hcover := (Table.length_eq_iff_subset h.slots List.nodup_range hsub).mp hcount
  obtain ⟨⟨u64, _⟩, hitem, rfl⟩ := List.mem_map.mp (hcover (List.mem_range.mpr hslot))
  exact ⟨u64, Std.ExtTreeMap.mem_toList_iff_getElem?_eq_some.mp hitem⟩

/-- What the check against a generation with vectors says about the slots. -/
theorem validateAgainstGeneration_slots {generation : GenerationCheckpoint}
    (h : parsed.validateAgainstGeneration generation) (hlazy : generation.emptyLazy = false) :
    (∀ item ∈ parsed.u64ToSlot.toList, item.2 < generation.vectorCount) ∧
      parsed.u64ToSlot.size = generation.vectorCount := by
  simp only [validateAgainstGeneration, Bool.and_eq_true, decide_eq_true_eq] at h
  have hparsed : parsed.emptyLazy = false := h.1.trans hlazy
  have hrest := h.2
  simp only [hparsed, Bool.false_eq_true, if_false, Bool.and_eq_true, decide_eq_true_eq,
    List.all_eq_true] at hrest
  exact ⟨hrest.2, hrest.1.2⟩

theorem accepted_bijection (codec : JsonCodec Text) {payloads : LegacyPayloads Text}
    {generation : GenerationCheckpoint} (hparse : parse codec payloads = some parsed)
    (hvalidate : parsed.validateAgainstGeneration generation)
    (hlazy : generation.emptyLazy = false) : parsed.DescribesRows generation.vectorCount := by
  have hvalid := parse_validMaps hparse
  obtain ⟨hbound, hsize⟩ := validateAgainstGeneration_slots hvalidate hlazy
  refine ⟨fun _ => hvalid.mem_documents, fun _ => hvalid.mem_metadata, ?_,
    fun _ => hvalid.mem_u64ToSlot, ?_, ⟨?_, hvalid.slotForString_injOn, ?_⟩, ?_⟩
  · intro id hid
    obtain ⟨u64, hu64⟩ := getElem?_of_mem (hvalid.mem_documents.mp hid)
    exact ⟨u64, hu64, fun _ hother => Option.some.inj (hother.symm.trans hu64)⟩
  · intro u64 hu64
    obtain ⟨slot, hslot⟩ := getElem?_of_mem hu64
    exact ⟨slot, hslot, fun _ hother => Option.some.inj (hother.symm.trans hslot)⟩
  · intro id hid
    obtain ⟨u64, hu64⟩ := getElem?_of_mem (hvalid.mem_documents.mp hid)
    obtain ⟨slot, hslot⟩ := getElem?_of_mem (hvalid.mem_u64ToSlot.mpr ⟨id, hu64⟩)
    have hrow := hbound (u64, slot) (Std.ExtTreeMap.mem_toList_iff_getElem?_eq_some.mpr hslot)
    exact ⟨slot, hrow, (slotForString_eq_some.mpr ⟨u64, hu64, hslot⟩).symm⟩
  · rintro _ ⟨slot, hslot, rfl⟩
    obtain ⟨u64, hu64⟩ := hvalid.slot_surjective hbound hsize hslot
    obtain ⟨id, hid⟩ := hvalid.mem_u64ToSlot.mp (mem_of_getElem? hu64)
    exact ⟨id, hvalid.mem_documents.mpr (mem_of_getElem? hid),
      slotForString_eq_some.mpr ⟨u64, hid, hu64⟩⟩
  · intro id u64 hid
    exact hvalid.allocated u64 (mem_u64Ids.mpr ⟨id, hid⟩)

/-- The checkpoint of a bundle of three vectors. -/
def threeGeneration : GenerationCheckpoint where
  id := 1
  path := "vectors/g000000000001.odb"
  emptyLazy := false
  bits := 2
  dim := 8
  vectorCount := 3
  manifestSha256 := some "digest"
  manifestSizeBytes := some 100

/-- Three records, whose slots are in another order than their ids. -/
def threePayloads : LegacyPayloads Value :=
  { singlePayloads "vectors/g000000000001.odb" with
    idMapJson := jsonObject [("schema_version", .string "ordinaldb.adapter.id_map.v1"),
      ("next_u64_id", jsonNat 9),
      ("string_to_u64", jsonObject [("a", jsonNat 4), ("b", jsonNat 2), ("c", jsonNat 7)]),
      ("u64_to_slot", jsonObject [("2", jsonNat 2), ("4", jsonNat 1), ("7", jsonNat 0)])]
    documentsJson := jsonObject [("schema_version", .string "ordinaldb.adapter.documents.v1"),
      ("documents", jsonObject [("a", .string "one"), ("b", .string "two"), ("c", .string "three")])]
    metadataJson := .ofTable (metadataObject ((∅ : Object).insertMany
      [("a", jsonObject []), ("b", jsonObject []), ("c", jsonObject [])])) }

theorem accepted_bijection_three : ∃ parsed, parse .ofTrees threePayloads = some parsed ∧
    ["a", "b", "c"].map parsed.slotForString = [some 1, some 2, some 0] ∧
      parsed.DescribesRows 3 := by
  have hparse : (parse .ofTrees threePayloads).any fun parsed =>
      parsed.validateAgainstGeneration threeGeneration &&
        ["a", "b", "c"].map parsed.slotForString = [some 1, some 2, some 0] := by
    decide +kernel
  obtain ⟨parsed, hparsed, hchecks⟩ := (Option.any_eq_true _ _).mp hparse
  obtain ⟨hvalidate, hslots⟩ := (Bool.and_eq_true _ _).mp hchecks
  exact ⟨parsed, hparsed, of_decide_eq_true hslots,
    accepted_bijection .ofTrees hparsed hvalidate rfl⟩

end ParsedPayloads

end OrdinalDB.Store
