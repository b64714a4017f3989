import OrdinalDB.Store.Mutations

/-!
# What the transactions leave

The row tables, generation rows and identifiers that the write transactions
produce, each as the verified open looks at it.
-/

namespace OrdinalDB.Store

variable {Text : Type}

/-! ## Rows under u64 ids -/

/-- Retaining the keys of the new rows leaves the new rows alone. -/
theorem retainAndInsert_eq {K V : Type} [Ord K] [Std.TransOrd K] [Std.LawfulEqOrd K]
    {table : Table K V} {keep : K → Bool} {rows : List (K × V)}
    (h : ∀ key, keep key ↔ key ∈ rows.map Prod.fst) :
    retainAndInsert table keep rows = (∅ : Table K V).insertMany rows :=
  Table.insertMany_filter fun key _ => h key

theorem retainAndInsert_none {K V : Type} [Ord K] [Std.TransOrd K] [Std.LawfulEqOrd K]
    {table : Table K V} {rows : List (K × V)} :
    retainAndInsert table (fun _ => false) rows = (∅ : Table K V).insertMany rows := by
  have hempty : (table.filter fun _ _ => false) = ∅ :=
    Std.ExtTreeMap.ext_getElem? fun key => by simp
  rw [retainAndInsert, hempty]

/-- The values of a map over the active strings have rows under distinct u64 ids. -/
theorem ParsedPayloads.u64Rows_eq_some {V : Type} {parsed : ParsedPayloads}
    {values : Table String V} (hkeys : values.keys = parsed.stringToU64.keys) :
    ∃ rows, parsed.u64Rows values = some rows ∧ rows.map Prod.fst = parsed.u64Ids ∧
      rows.length = values.size ∧
      ∀ (u64 : Nat) (value : V), (u64, value) ∈ rows ↔
        ∃ id, parsed.u64ForString id = some u64 ∧ values[id]? = some value := by
  let u64 (id : String) : Nat := (parsed.u64ForString id).getD 0
  have hu64 : ∀ row ∈ values.toList, parsed.u64ForString row.1 = some (u64 row.1) := by
    intro row hrow
    obtain ⟨n, hn⟩ := parsed.u64ForString_of_keys hkeys
      (Std.ExtTreeMap.mem_toList_iff_getElem?_eq_some.mp hrow)
    simp [u64, hn]
  refine ⟨values.toList.map fun row => (u64 row.1, row.2), ?_, ?_, ?_, ?_⟩
  · refine Table.mapM_of_forall fun row hrow => ?_
    simp [hu64 row hrow]
  · -- both lists of ids follow the keys of the two maps
    have hvalues : (values.toList.map fun row => (u64 row.1, row.2)).map Prod.fst =
        (values.toList.map Prod.fst).map u64 := by
      rw [List.map_map, List.map_map]
      rfl
    rw [hvalues, Std.ExtTreeMap.map_fst_toList_eq_keys, hkeys,
      ← Std.ExtTreeMap.map_fst_toList_eq_keys, List.map_map, ParsedPayloads.u64Ids]
    refine List.map_congr_left fun row hrow => ?_
    have hlookup := Std.ExtTreeMap.mem_toList_iff_getElem?_eq_some.mp hrow
    simp [u64, ParsedPayloads.u64ForString, hlookup]
  · rw [List.length_map, Std.ExtTreeMap.length_toList]
  · intro n value
    rw [List.mem_map]
    constructor
    · rintro ⟨row, hrow, heq⟩
      obtain ⟨rfl, rfl⟩ := Prod.mk.inj heq
      exact ⟨row.1, hu64 row hrow, Std.ExtTreeMap.mem_toList_iff_getElem?_eq_some.mp hrow⟩
    · rintro ⟨id, hid, hvalue⟩
      have hrow := Std.ExtTreeMap.mem_toList_iff_getElem?_eq_some.mpr hvalue
      have hn : u64 id = n := Option.some.inj ((hu64 _ hrow).symm.trans hid)
      exact ⟨(id, value), hrow, by rw [hn]⟩

theorem ParsedPayloads.swap_keys (parsed : ParsedPayloads) :
    (parsed.stringToU64.toList.map Prod.swap).map Prod.fst = parsed.u64Ids := by
  simp [ParsedPayloads.u64Ids]

/-- Different active strings have different u64 ids. -/
theorem ParsedPayloads.ValidMaps.u64ForString_injective {parsed : ParsedPayloads}
    (h : parsed.ValidMaps) {a b : String} {u64 : Nat} (ha : parsed.u64ForString a = some u64)
    (hb : parsed.u64ForString b = some u64) : a = b := by
  have hrow : ∀ {id : String}, parsed.u64ForString id = some u64 →
      (u64, id) ∈ parsed.stringToU64.toList.map Prod.swap := fun hid =>
    List.mem_map.mpr ⟨_, Std.ExtTreeMap.mem_toList_iff_getElem?_eq_some.mpr hid, rfl⟩
  have hnodup : ((parsed.stringToU64.toList.map Prod.swap).map Prod.fst).Nodup :=
    parsed.swap_keys ▸ h.distinct
  have hlookup := (Table.ofList_eq_some hnodup).mpr (hrow ha)
  exact Option.some.inj (hlookup.symm.trans ((Table.ofList_eq_some hnodup).mpr (hrow hb)))

/-! ## Generation rows -/

/-- The row that retiring leaves. -/
def GenerationRecord.retired (record : GenerationRecord) (commitSequence : Nat) :
    GenerationRecord :=
  if record.state = generationStateRetired then record
  else { record with
    state := generationStateRetired
    retiredByCommitSequence := some commitSequence }

theorem GenerationRecord.retired_state (record : GenerationRecord) (commitSequence : Nat) :
    (record.retired commitSequence).state = generationStateRetired := by
  unfold retired
  split
  next h => exact h
  next => rfl

theorem GenerationRecord.retired_generationId (record : GenerationRecord) (commitSequence : Nat) :
    (record.retired commitSequence).generationId = record.generationId := by
  unfold retired
  split <;> rfl

theorem retireGenerationRecord_eq {record : GenerationRecord}
    (h : isValidGenerationRecordState record.state) (commitSequence : Nat) :
    retireGenerationRecord record commitSequence = some (record.retired commitSequence) := by
  by_cases hstate : record.state = generationStateRetired <;>
    simp_all [retireGenerationRecord, GenerationRecord.retired]

/-- Activating a generation retires the others and writes one row. -/
theorem activateGeneration_eq_some {generations : Table Nat GenerationRecord}
    (generation : GenerationCheckpoint) (commitSequence : Nat)
    (hvalid : ∀ (id : Nat) (record : GenerationRecord), generations[id]? = some record →
      isValidGenerationRecordState record.state) :
    ∃ next, activateGeneration generations generation commitSequence = some next ∧
      next[generation.id]? = some generation.json ∧
      (∀ id, id ≠ generation.id →
        next[id]? = generations[id]?.map (·.retired commitSequence)) ∧
      next.size = if generation.id ∈ generations then generations.size
        else generations.size + 1 := by
  let others := generations.toList.filter (·.1 ≠ generation.id)
  let retiredRecords := others.map fun row => (row.1, row.2.retired commitSequence)
  -- every other record can be retired, as its state is a known one
  have hread : others.mapM (fun row => (retireGenerationRecord row.2 commitSequence).map
      fun record => (row.1, record)) = some retiredRecords := by
    refine Table.mapM_of_forall fun row hrow => ?_
    have hlookup := Std.ExtTreeMap.mem_toList_iff_getElem?_eq_some.mp (List.mem_filter.mp hrow).1
    rw [retireGenerationRecord_eq (hvalid _ _ hlookup)]
    rfl
  have hkeys : retiredRecords.map Prod.fst = others.map Prod.fst := by simp [retiredRecords]
  have hnodup : (retiredRecords.map Prod.fst).Nodup := by
    rw [hkeys]
    exact (Table.nodup_keys_toList generations).sublist (List.filter_sublist.map Prod.fst)
  have hmem : ∀ key ∈ retiredRecords.map Prod.fst, key ∈ generations := by
    intro key hkey
    rw [hkeys] at hkey
    obtain ⟨row, hrow, rfl⟩ := List.mem_map.mp hkey
    exact Std.ExtTreeMap.mem_iff_isSome_getElem?.mpr (Option.isSome_of_eq_some
      (Std.ExtTreeMap.mem_toList_iff_getElem?_eq_some.mp (List.mem_filter.mp hrow).1))
  have hnew : generation.id ∉ retiredRecords.map Prod.fst := by
    rw [hkeys]
    intro hkey
    obtain ⟨row, hrow, hid⟩ := List.mem_map.mp hkey
    exact of_decide_eq_true (List.mem_filter.mp hrow).2 hid
  refine ⟨(generations.insertMany retiredRecords).insert generation.id generation.json,
    ?_, Table.getElem?_insert_self, ?_, ?_⟩
  · unfold activateGeneration
    exact Option.bind_eq_some_iff.mpr ⟨retiredRecords, hread, rfl⟩
  · intro id hid
    rw [Table.getElem?_insert_of_ne hid]
    cases hrecord : generations[id]? with
    | none =>
      rw [Table.insertMany_of_not_mem, hrecord]
      · rfl
      · intro hkey
        have := Std.ExtTreeMap.mem_iff_isSome_getElem?.mp (hmem id hkey)
        rw [hrecord] at this
        cases this
    | some record =>
      refine Table.insertMany_of_nodup hnodup (List.mem_map.mpr ⟨(id, record), ?_, rfl⟩)
      exact List.mem_filter.mpr
        ⟨Std.ExtTreeMap.mem_toList_iff_getElem?_eq_some.mpr hrecord, decide_eq_true hid⟩
  -- retired rows replace rows, so at most the activated one is new
  · have hsize := Table.size_insertMany_of_mem hmem
    have hsame : generation.id ∈ generations.insertMany retiredRecords ↔
        generation.id ∈ generations := by
      rw [Std.ExtTreeMap.mem_iff_isSome_getElem?, Std.ExtTreeMap.mem_iff_isSome_getElem?,
        Table.insertMany_of_not_mem hnew]
    split
    next h => rw [Table.size_insert_of_mem (hsame.mpr h), hsize]
    next h => rw [Table.size_insert_of_not_mem (mt hsame.mp h), hsize]

/-! ## Store identity -/

theorem isHexDigit_hexDigit {n : Nat} (h : n < 16) : isHexDigit (hexDigit n) := by
  have hall : ∀ n : Fin 16, isHexDigit (hexDigit n) := by decide
  exact hall ⟨n, h⟩

/-- The version and variant digits of a random identifier. -/
theorem hexDigit_stamped (b : UInt8) :
    hexDigit ((b &&& 0x0f ||| 0x40).toNat / 16) = '4' ∧
      hexDigit ((b &&& 0x3f ||| 0x80).toNat / 16) ∈ ['8', '9', 'a', 'b'] := by
  have hall : ∀ n : Fin 256, hexDigit ((UInt8.ofFin n &&& 0x0f ||| 0x40).toNat / 16) = '4' ∧
      hexDigit ((UInt8.ofFin n &&& 0x3f ||| 0x80).toNat / 16) ∈ ['8', '9', 'a', 'b'] := by
    decide +kernel
  exact hall b.toFin

theorem validateStoreUuid_randomStoreUuid (bytes : Fin 16 → UInt8) :
    validateStoreUuid (randomStoreUuid bytes) := by
  have hhigh : ∀ b : UInt8, isHexDigit (hexDigit (b.toNat / 16)) := fun b =>
    isHexDigit_hexDigit (by have := b.toNat_lt; omega)
  have hlow : ∀ b : UInt8, isHexDigit (hexDigit (b.toNat % 16)) := fun b =>
    isHexDigit_hexDigit (Nat.mod_lt _ (by decide))
  obtain ⟨hversion, -⟩ := hexDigit_stamped (bytes 6)
  obtain ⟨-, hvariant⟩ := hexDigit_stamped (bytes 8)
  simp only [List.mem_cons, List.not_mem_nil, or_false] at hvariant
  simp [-UInt8.toNat_or, -UInt8.toNat_and, validateStoreUuid, randomStoreUuid, hexByte, hhigh, hlow,
    hversion, hvariant, List.zipIdx]
  decide

end OrdinalDB.Store
