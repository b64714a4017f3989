import OrdinalDB.Adapter.Memory

/-!
# The adapter store refines a map

The invariant is one list of rows in slot order (`WorkingCopy.Holds`). In the
middle of an upsert or a delete some rows are stale: they still have a slot and
a u64 id, but their string id is gone or points at another row. An add appends
rows, and each removal takes one stale row out (`removeU64_spec`), so a batch or
a delete changes the rows with its ids and no others (`addBatch_spec`,
`deleteIds_spec`). `working_copy_refines` is the result for every run of calls.
-/

namespace OrdinalDB.Adapter

open Float32Bits (F32)

variable {M T : Type}

/-! ## Inserting many -/

section InsertAll

variable {K V : Type} [DecidableEq K]

def insertAll (m : Finmap fun _ : K => V) (entries : List (K × V)) : Finmap fun _ : K => V :=
  entries.foldl (fun m entry => m.insert entry.1 entry.2) m

theorem lookup_insertAll {m : Finmap fun _ : K => V} {entries : List (K × V)}
    (hnodup : (entries.map Prod.fst).Nodup) {k : K} {v : V} :
    (insertAll m entries).lookup k = some v ↔
      (k, v) ∈ entries ∨ k ∉ entries.map Prod.fst ∧ m.lookup k = some v := by
  induction entries generalizing m with
  | nil => simp [insertAll]
  | cons entry entries ih =>
    obtain ⟨hnew, hrest⟩ := List.nodup_cons.mp hnodup
    show (insertAll (m.insert entry.1 entry.2) entries).lookup k = some v ↔ _
    rw [ih hrest, List.map_cons, List.mem_cons, List.mem_cons, not_or]
    by_cases hk : k = entry.1
    · subst hk
      have hentry : (entry.1, v) ∉ entries := fun hmem =>
        hnew (List.mem_map.mpr ⟨_, hmem, rfl⟩)
      simp [hnew, hentry, Prod.ext_iff, eq_comm]
    · simp [Finmap.lookup_insert_of_ne _ hk, hk, Prod.ext_iff]

end InsertAll

/-! ## The map -/

abbrev RecordMap (M : Type) (T : Type := String) := Finmap fun _ : T => Record M T

section Replay

variable [DecidableEq T]

/-- The records of a batch, by their string ids. -/
def AddArguments.records [EmptyCollection M] [EmptyCollection T] (arguments : AddArguments M T) :
    List (T × Record M T) :=
  let ids := (arguments.ids.mapM requireStringId).getD []
  let documents := (arguments.documents.mapM requireDocument).getD []
  let metadatas := arguments.metadatas.getD (ids.map fun _ => .dict ∅)
  let metadata := (metadatas.mapM requireMetadata?).getD []
  let vectors := (vectorsArray arguments.embeddings).elim [] (·.rows)
  (zipRows (ids.map fun _ => 0) ids vectors documents metadata).map fun row =>
    (row.id, ⟨row.vector, row.document, row.metadata⟩)

/-- What a call means for the map: a batch replaces its ids, a rejected call does nothing. -/
def RecordMap.apply [EmptyCollection M] [EmptyCollection T] (map : RecordMap M T) :
    Call M T → Reply T → RecordMap M T
  | .add arguments, .added _ => insertAll map arguments.records
  | .delete ids _, .deleted _ =>
    ((ids.mapM requireStringId).getD []).foldl (fun map id => map.erase id) map
  | _, _ => map

/-- What a call means for the width of the vectors: a batch that is not empty sets it. -/
def widthAfter (width : Option Nat) : Call M T → Reply T → Option Nat
  | .add arguments, .added (_ :: _) => (vectorsArray arguments.embeddings).map (·.dim)
  | _, _ => width

/-- Vectors have the width of the ones before, and the first ones a width for the bits. -/
def FitsWidth (bits : Nat) (width : Option Nat) (dim : Nat) : Prop :=
  width = some dim ∨ width = none ∧ validateDimCompatibleWithBits dim bits

/-- What a batch under these ids must hold: for each id a text, a dict and a vector, no id twice,
and only new ids unless it is an upsert. -/
structure AddArguments.Accepted [EmptyCollection M] [EmptyCollection T]
    (arguments : AddArguments M T) (bits : Nat) (width : Option Nat) (map : RecordMap M T)
    (ids : List T) : Prop where
  documents : arguments.documents.length = ids.length ∧
    ∀ value ∈ arguments.documents, (requireDocument value).isSome
  metadatas : ∀ values, arguments.metadatas = some values → values.length = ids.length ∧
    ∀ value ∈ values, (requireMetadata? value).isSome
  vectors : ∃ vectors, vectorsArray arguments.embeddings = some vectors ∧
    vectors.rows.length = ids.length ∧ FitsWidth bits width vectors.dim
  distinct : ids.Nodup
  new : arguments.upsert = true ∨ ∀ id ∈ ids, id ∉ map

/-- When a call is taken, and with which answer. -/
def Takes [EmptyCollection M] [EmptyCollection T] (bits : Nat) (width : Option Nat)
    (map : RecordMap M T) : Call M T → Reply T → Prop
  | .add arguments, .added ids => arguments.ids.map requireStringId = ids.map some ∧
    (ids = [] ∨ arguments.Accepted bits width map ids)
  | .delete values missingOk, .deleted changed => ∃ names : List T,
    values.map requireStringId = names.map some ∧
    (missingOk = true ∨ ∀ name ∈ names, name ∈ map) ∧
    (changed = true ↔ ∃ name ∈ names, name ∈ map)
  | _, _ => False

end Replay

/-! ## Rows -/

def Row.record (row : Row M T) : Record M T := ⟨row.vector, row.document, row.metadata⟩

theorem zipRows_columns {u64s : List Nat} {ids : List T} {vectors : List (List F32)}
    {documents : List T} {metadatas : List M} (hu64s : u64s.length = ids.length)
    (hvectors : vectors.length = ids.length) (hdocuments : ids.length = documents.length)
    (hmetadatas : ids.length = metadatas.length) :
    let rows := zipRows u64s ids vectors documents metadatas
    rows.map (·.u64) = u64s ∧ rows.map (·.id) = ids ∧ rows.map (·.vector) = vectors := by
  induction u64s generalizing ids vectors documents metadatas with
  | nil =>
    obtain rfl := List.eq_nil_of_length_eq_zero hu64s.symm
    obtain rfl := List.eq_nil_of_length_eq_zero hvectors
    exact ⟨rfl, rfl, rfl⟩
  | cons u64 u64s ih =>
    cases ids with
    | nil => cases hu64s
    | cons id ids =>
      cases vectors with
      | nil => cases hvectors
      | cons vector vectors =>
        cases documents with
        | nil => cases hdocuments
        | cons document documents =>
          cases metadatas with
          | nil => cases hmetadatas
          | cons metadata metadatas =>
            simp only [List.length_cons, Nat.add_right_cancel_iff] at *
            obtain ⟨h1, h2, h3⟩ := ih hu64s hvectors hdocuments hmetadatas
            simp [zipRows, h1, h2, h3]

/-- The u64 ids are only numbers beside the records. -/
theorem zipRows_records {u64s u64s' : List Nat} (hlength : u64s.length = u64s'.length)
    (ids : List T) (vectors : List (List F32)) (documents : List T)
    (metadatas : List M) :
    (zipRows u64s ids vectors documents metadatas).map (fun row => (row.id, row.record)) =
      (zipRows u64s' ids vectors documents metadatas).map (fun row => (row.id, row.record)) := by
  induction u64s generalizing u64s' ids vectors documents metadatas with
  | nil =>
    obtain rfl := List.eq_nil_of_length_eq_zero hlength.symm
    rfl
  | cons u64 u64s ih =>
    cases u64s' with
    | nil => cases hlength
    | cons u64' u64s' =>
      cases ids <;> cases vectors <;> cases documents <;> cases metadatas <;> simp only [zipRows, List.map_nil]
      next id ids vector vectors document documents metadata metadatas =>
        simp only [List.map_cons, Row.record]
        exact congrArg _ (ih (by simpa using hlength) ids vectors documents metadatas)

namespace WorkingCopy

variable [DecidableEq T]

/-! ## The invariant -/

/-- A dict that has a field of every row that is not stale, by its string id. -/
def Column {V : Type} (m : Finmap fun _ : T => V) (rows : List (Row M T)) (stale : List Nat)
    (field : Row M T → V) : Prop :=
  ∀ id value, m.lookup id = some value ↔
    ∃ row ∈ rows, row.u64 ∉ stale ∧ row.id = id ∧ field row = value

/-- The store holds these rows in slot order; the string ids of the stale ones are gone. -/
structure Holds (store : WorkingCopy M T) (rows : List (Row M T)) (stale : List Nat) : Prop where
  slots : store.slotToU64 = rows.map (·.u64)
  indexes : SlotTable.Indexes store.u64ToSlot store.slotToU64
  vectors : store.index.rows = rows.map (·.vector)
  strings : Column store.stringToU64 rows stale (·.u64)
  reverse : ∀ u64 id, store.u64ToString.lookup u64 = some id ↔
    ∃ row ∈ rows, row.u64 = u64 ∧ row.id = id
  documents : Column store.documents rows stale (·.document)
  metadata : Column store.metadata rows stale (·.metadata)
  allocated : ∀ row ∈ rows, row.u64 < store.nextU64Id

variable {store : WorkingCopy M T} {rows : List (Row M T)} {stale : List Nat}

theorem Holds.nodup (h : Holds store rows stale) : (rows.map (·.u64)).Nodup :=
  h.slots ▸ h.indexes.nodup

theorem Holds.eq_of_u64 (h : Holds store rows stale) {row row' : Row M T} (hrow : row ∈ rows)
    (hrow' : row' ∈ rows) (hsame : row.u64 = row'.u64) : row = row' :=
  List.inj_on_of_nodup_map h.nodup hrow hrow' hsame

/-- Two rows with one string id are the same row, unless one is stale. -/
theorem Holds.eq_of_id (h : Holds store rows stale) {row row' : Row M T} (hrow : row ∈ rows)
    (hrow' : row' ∈ rows) (hlive : row.u64 ∉ stale) (hlive' : row'.u64 ∉ stale)
    (hsame : row.id = row'.id) : row = row' := by
  have hfirst := (h.strings row.id row.u64).mpr ⟨row, hrow, hlive, rfl, rfl⟩
  have hsecond := (h.strings row.id row'.u64).mpr ⟨row', hrow', hlive', hsame.symm, rfl⟩
  exact h.eq_of_u64 hrow hrow' (Option.some.inj (hfirst.symm.trans hsecond))

theorem holds_new (bits : Nat) (dim : Option Nat) :
    Holds (new bits dim : WorkingCopy M T) [] [] where
  slots := rfl
  indexes := .empty
  vectors := rfl
  strings := by simp [new, Column]
  reverse := by simp [new]
  documents := by simp [new, Column]
  metadata := by simp [new, Column]
  allocated := by simp

/-! ## Removing a row -/

theorem Column.remove {V : Type} {m : Finmap fun _ : T => V} {field : Row M T → V} {u64 : Nat}
    {rest : List (Row M T)} (h : Column m rows (u64 :: stale) field)
    (hrest : ∀ row, row ∈ rest ↔ row ∈ rows ∧ row.u64 ≠ u64) : Column m rest stale field := by
  intro id value
  simp only [h id value, hrest, and_assoc, List.mem_cons, not_or]

omit [DecidableEq T] in
/-- The slot tables follow the swap-remove of the index. -/
theorem removeU64_eq {u64 slot : Nat} (hlookup : store.u64ToSlot.lookup u64 = some slot)
    (hslot : slot < store.slotToU64.length) (hindex : slot < store.index.rows.length) :
    store.removeU64 u64 = some { store with
      index := { store.index with rows := SlotTable.swapRemove store.index.rows slot }
      u64ToString := store.u64ToString.erase u64
      u64ToSlot := SlotTable.relocate (store.u64ToSlot.erase u64)
        (SlotTable.swapRemove store.slotToU64 slot) slot
      slotToU64 := SlotTable.swapRemove store.slotToU64 slot } := by
  have hne : store.slotToU64 ≠ [] := List.ne_nil_of_length_pos (Nat.zero_lt_of_lt hslot)
  obtain ⟨last, hlast⟩ := Option.isSome_iff_exists.mp (List.getLast?_isSome.mpr hne)
  have hswap : SlotTable.swapRemove store.slotToU64 slot =
      (store.slotToU64.set slot last).dropLast := by simp [SlotTable.swapRemove, hlast]
  have hmoved : (if slot = store.slotToU64.length - 1 then store.u64ToSlot.erase u64
      else (store.u64ToSlot.erase u64).insert last slot) =
      SlotTable.relocate (store.u64ToSlot.erase u64)
        (SlotTable.swapRemove store.slotToU64 slot) slot := by
    unfold SlotTable.relocate
    rw [hswap, List.getElem?_dropLast, List.length_set]
    by_cases hend : slot = store.slotToU64.length - 1
    · rw [if_pos hend, if_neg (by omega)]
    · rw [if_neg hend, if_pos (by omega), List.getElem?_set_self hslot]
  simp only [removeU64, hlookup, hlast, NativeIndex.swapRemove, if_pos hindex,
    Option.bind_eq_bind, Option.bind_some, Option.pure_def, hmoved, hswap]

theorem removeU64_spec {u64 : Nat} (h : Holds store rows (u64 :: stale))
    (hrow : ∃ row ∈ rows, row.u64 = u64) (hnew : u64 ∉ stale) :
    ∃ next rest, store.removeU64 u64 = some next ∧ Holds next rest stale ∧
      (∀ row, row ∈ rest ↔ row ∈ rows ∧ row.u64 ≠ u64) ∧ next.nextU64Id = store.nextU64Id := by
  obtain ⟨gone, hgone, rfl⟩ := hrow
  obtain ⟨slot, hslot⟩ := List.mem_iff_getElem?.mp hgone
  obtain ⟨hlt, -⟩ := List.getElem?_eq_some_iff.mp hslot
  have hlength : store.slotToU64.length = rows.length := by rw [h.slots, List.length_map]
  have hu64 : store.slotToU64[slot]? = some gone.u64 := by
    rw [h.slots, List.getElem?_map, hslot, Option.map_some]
  have hlookup := (h.indexes gone.u64 slot).mpr hu64
  have hvectors : slot < store.index.rows.length := by rwa [h.vectors, List.length_map]
  have hmem : ∀ row, row ∈ SlotTable.swapRemove rows slot ↔ row ∈ rows ∧ row.u64 ≠ gone.u64 := by
    classical
    intro row
    rw [SlotTable.mem_swapRemove h.nodup.of_map hslot]
    refine and_congr_right fun hrow => not_congr ?_
    exact ⟨congrArg Row.u64, h.eq_of_u64 hrow hgone⟩
  refine ⟨_, SlotTable.swapRemove rows slot, removeU64_eq hlookup (hlength ▸ hlt) hvectors, ?_,
    hmem, rfl⟩
  · constructor
    case slots => simp only [h.slots, SlotTable.swapRemove_map]
    case indexes => exact h.indexes.swapRemove hlookup
    case vectors => simp only [h.vectors, SlotTable.swapRemove_map]
    case strings => exact h.strings.remove hmem
    case reverse =>
      intro u64 id
      by_cases hsame : u64 = gone.u64
      · subst hsame
        simp only [Finmap.lookup_erase, reduceCtorEq, false_iff, hmem]
        rintro ⟨row, ⟨-, hne⟩, hrow, -⟩
        exact hne hrow
      · simp only [Finmap.lookup_erase_ne hsame, h.reverse, hmem]
        refine exists_congr fun row => ⟨?_, fun h => ⟨h.1.1, h.2⟩⟩
        rintro ⟨hrow, rfl, hid⟩
        exact ⟨⟨hrow, hsame⟩, rfl, hid⟩
    case documents => exact h.documents.remove hmem
    case metadata => exact h.metadata.remove hmem
    case allocated => exact fun row hrow => h.allocated row ((hmem row).mp hrow).1

theorem removeU64s_spec (h : Holds store rows stale) (hnodup : stale.Nodup)
    (hrows : ∀ u64 ∈ stale, ∃ row ∈ rows, row.u64 = u64) :
    ∃ next rest, store.removeU64s stale = some next ∧ Holds next rest [] ∧
      (∀ row, row ∈ rest ↔ row ∈ rows ∧ row.u64 ∉ stale) ∧ next.nextU64Id = store.nextU64Id := by
  induction stale generalizing store rows with
  | nil => exact ⟨store, rows, rfl, h, by simp, rfl⟩
  | cons u64 stale ih =>
    obtain ⟨hnew, hrest⟩ := List.nodup_cons.mp hnodup
    obtain ⟨next, rest, hnext, hholds, hmem, hcount⟩ :=
      removeU64_spec h (hrows u64 List.mem_cons_self) hnew
    obtain ⟨last, final, hlast, hfinal, hkept, hcounts⟩ := ih hholds hrest fun other hother => by
      obtain ⟨row, hrow, rfl⟩ := hrows other (List.mem_cons_of_mem _ hother)
      exact ⟨row, (hmem row).mpr ⟨hrow, fun hsame => hnew (hsame ▸ hother)⟩, rfl⟩
    refine ⟨last, final, ?_, hfinal, fun row => ?_, hcounts.trans hcount⟩
    · rw [removeU64s, hnext, Option.bind_some, hlast]
    · rw [hkept, hmem, List.mem_cons, not_or, and_assoc]

/-! ## Adding rows -/

theorem firstFree_of_not_mem {taken : Finmap fun _ : Nat => Nat} {next : Nat} (h : next ∉ taken)
    (fuel : Nat) : firstFree taken fuel next = next := by
  cases fuel with
  | zero => rfl
  | succ fuel => exact if_neg h

/-- Behind every id that is taken, the ids are handed out in order. -/
theorem allocate_eq {taken : Finmap fun _ : Nat => Nat} {next : Nat}
    (h : ∀ id ∈ taken, id < next) (count : Nat) :
    allocate taken count next = (List.range' next count, next + count) := by
  induction count generalizing next with
  | zero => rfl
  | succ count ih =>
    have hfree : next ∉ taken := fun hmem => Nat.lt_irrefl _ (h next hmem)
    simp only [allocate, firstFree_of_not_mem hfree]
    rw [ih fun id hid => Nat.lt_succ_of_lt (h id hid), List.range'_succ]
    exact Prod.ext rfl (by simp only; omega)

theorem Holds.taken (h : Holds store rows stale) : ∀ id ∈ store.u64ToSlot, id < store.nextU64Id := by
  intro id hid
  rw [h.indexes.mem_iff, h.slots] at hid
  obtain ⟨row, hrow, rfl⟩ := List.mem_map.mp hid
  exact h.allocated row hrow

theorem foldl_put (new : List (Row M T)) (store : WorkingCopy M T) :
    new.foldl put store = { store with
      stringToU64 := insertAll store.stringToU64 (new.map fun row => (row.id, row.u64))
      u64ToString := insertAll store.u64ToString (new.map fun row => (row.u64, row.id))
      documents := insertAll store.documents (new.map fun row => (row.id, row.document))
      metadata := insertAll store.metadata (new.map fun row => (row.id, row.metadata)) } := by
  induction new generalizing store with
  | nil => rfl
  | cons row new ih => exact ih (store.put row)

/-- The u64 ids of the rows that a batch replaces. -/
theorem Holds.mem_replaced (h : Holds store rows []) {ids : List T} {u64 : Nat} :
    u64 ∈ ids.filterMap store.stringToU64.lookup ↔
      ∃ row ∈ rows, row.id ∈ ids ∧ row.u64 = u64 := by
  simp only [List.mem_filterMap, h.strings _ _, List.not_mem_nil, not_false_eq_true, true_and]
  constructor
  · rintro ⟨id, hid, row, hrow, rfl, rfl⟩
    exact ⟨row, hrow, hid, rfl⟩
  · rintro ⟨row, hrow, hid, rfl⟩
    exact ⟨row.id, hid, row, hrow, rfl, rfl⟩

/-- Behind the insertions, the rows that are not replaced are the other ones and the new ones. -/
theorem Holds.merged {new : List (Row M T)} (h : Holds store rows [])
    (hfresh : ∀ row ∈ new, store.nextU64Id ≤ row.u64) (row : Row M T) :
    (row ∈ rows ++ new ∧ row.u64 ∉ (new.map (·.id)).filterMap store.stringToU64.lookup) ↔
      row ∈ rows ∧ row.id ∉ new.map (·.id) ∨ row ∈ new := by
  have hold : row ∈ rows →
      (row.u64 ∈ (new.map (·.id)).filterMap store.stringToU64.lookup ↔
        row.id ∈ new.map (·.id)) := by
    intro hrow
    rw [h.mem_replaced]
    constructor
    · rintro ⟨other, hother, hid, hsame⟩
      rwa [← h.eq_of_u64 hother hrow hsame]
    · exact fun hid => ⟨row, hrow, hid, rfl⟩
  have hnew : row ∈ new → row.u64 ∉ (new.map (·.id)).filterMap store.stringToU64.lookup := by
    intro hrow hmem
    obtain ⟨other, hother, -, hsame⟩ := h.mem_replaced.mp hmem
    have hless := h.allocated other hother
    have := hfresh row hrow
    omega
  rw [List.mem_append]
  constructor
  · rintro ⟨hrow | hrow, hlive⟩
    · exact .inl ⟨hrow, mt (hold hrow).mpr hlive⟩
    · exact .inr hrow
  · rintro (⟨hrow, hid⟩ | hrow)
    · exact ⟨.inl hrow, mt (hold hrow).mp hid⟩
    · exact ⟨.inr hrow, hnew hrow⟩

/-- Inserting a field of new rows puts them in the place of the rows with their ids. -/
theorem Column.replace {V : Type} {m : Finmap fun _ : T => V} {field : Row M T → V}
    {new rest : List (Row M T)} {replaced : List Nat} (h : Column m rows [] field)
    (hids : (new.map (·.id)).Nodup)
    (hrest : ∀ row, (row ∈ rest ∧ row.u64 ∉ replaced) ↔
      row ∈ rows ∧ row.id ∉ new.map (·.id) ∨ row ∈ new) :
    Column (insertAll m (new.map fun row => (row.id, field row))) rest replaced field := by
  intro id value
  have hkeys : (new.map fun row => (row.id, field row)).map Prod.fst = new.map (·.id) := by
    rw [List.map_map]
    rfl
  rw [lookup_insertAll (hkeys ▸ hids), hkeys, h id value]
  constructor
  · rintro (hmem | ⟨hother, row, hrow, -, rfl, rfl⟩)
    · obtain ⟨row, hrow, heq⟩ := List.mem_map.mp hmem
      obtain ⟨rfl, rfl⟩ := Prod.mk.inj heq
      obtain ⟨hkept, hlive⟩ := (hrest row).mpr (.inr hrow)
      exact ⟨row, hkept, hlive, rfl, rfl⟩
    · obtain ⟨hkept, hlive⟩ := (hrest row).mpr (.inl ⟨hrow, hother⟩)
      exact ⟨row, hkept, hlive, rfl, rfl⟩
  · rintro ⟨row, hrow, hlive, rfl, rfl⟩
    rcases (hrest row).mp ⟨hrow, hlive⟩ with ⟨hrow, hother⟩ | hrow
    · exact .inr ⟨hother, row, hrow, by simp, rfl, rfl⟩
    · exact .inl (List.mem_map.mpr ⟨row, hrow, rfl⟩)

/-- The store between the insertions and the removals of `add`. -/
theorem Holds.append {new : List (Row M T)} {vectors : Vectors} (h : Holds store rows [])
    (hids : (new.map (·.id)).Nodup) (hvectors : vectors.rows = new.map (·.vector))
    (hu64s : new.map (·.u64) = List.range' store.nextU64Id new.length) :
    Holds (new.foldl put (store.appendRows new.length vectors)) (rows ++ new)
      ((new.map (·.id)).filterMap store.stringToU64.lookup) := by
  have hbounds : ∀ row ∈ new, store.nextU64Id ≤ row.u64 ∧
      row.u64 < store.nextU64Id + new.length := by
    intro row hrow
    have hmem : row.u64 ∈ new.map (·.u64) := List.mem_map_of_mem hrow
    rwa [hu64s, List.mem_range'_1] at hmem
  have hmerged := h.merged fun row hrow => (hbounds row hrow).1
  rw [foldl_put, appendRows, allocate_eq h.taken]
  constructor
  case slots => simp [h.slots, hu64s]
  case indexes =>
    refine h.indexes.append (List.nodup_append.mpr ⟨h.indexes.nodup, List.nodup_range', ?_⟩)
    rintro u64 hold _ hfresh rfl
    rw [h.slots] at hold
    obtain ⟨row, hrow, rfl⟩ := List.mem_map.mp hold
    have hless := h.allocated row hrow
    have := (List.mem_range'_1.mp hfresh).1
    omega
  case vectors => simp [NativeIndex.add, h.vectors, hvectors]
  case strings => exact h.strings.replace hids hmerged
  case documents => exact h.documents.replace hids hmerged
  case metadata => exact h.metadata.replace hids hmerged
  case reverse =>
    intro u64 id
    have hkeys : (new.map fun row => (row.u64, row.id)).map Prod.fst =
        List.range' store.nextU64Id new.length := by
      rw [List.map_map]
      exact hu64s
    simp only
    rw [lookup_insertAll (hkeys ▸ List.nodup_range'), hkeys, h.reverse]
    constructor
    · rintro (hmem | ⟨-, row, hrow, rfl, rfl⟩)
      · obtain ⟨row, hrow, heq⟩ := List.mem_map.mp hmem
        obtain ⟨rfl, rfl⟩ := Prod.mk.inj heq
        exact ⟨row, List.mem_append_right _ hrow, rfl, rfl⟩
      · exact ⟨row, List.mem_append_left _ hrow, rfl, rfl⟩
    · rintro ⟨row, hrow, rfl, rfl⟩
      rcases List.mem_append.mp hrow with hrow | hrow
      · refine .inr ⟨fun hmem => ?_, row, hrow, rfl, rfl⟩
        have hless := h.allocated row hrow
        have := (List.mem_range'_1.mp hmem).1
        omega
      · exact .inl (List.mem_map.mpr ⟨row, hrow, rfl⟩)
  case allocated =>
    intro row hrow
    rcases List.mem_append.mp hrow with hrow | hrow
    · exact Nat.lt_of_lt_of_le (h.allocated row hrow) (Nat.le_add_right _ _)
    · exact (hbounds row hrow).2

/-! ## Whole batches -/

/-- A batch takes the place of the rows with its ids. -/
theorem addBatch_spec {ids documents : List T} {metadata : List M} {vectors : Vectors}
    (h : Holds store rows []) (hnodup : ids.Nodup) (hvectors : vectors.rows.length = ids.length)
    (hdocuments : ids.length = documents.length) (hmetadata : ids.length = metadata.length) :
    let new := zipRows (List.range' store.nextU64Id ids.length) ids vectors.rows documents metadata
    ∃ next rest, store.addBatch ids documents metadata vectors = some next ∧ Holds next rest [] ∧
      (∀ row, row ∈ rest ↔ row ∈ rows ∧ row.id ∉ ids ∨ row ∈ new) ∧
      next.nextU64Id = store.nextU64Id + ids.length := by
  intro new
  obtain ⟨hu64s, hids, hcolumn⟩ := zipRows_columns (List.length_range' (s := store.nextU64Id))
    hvectors hdocuments hmetadata
  have hlength : new.length = ids.length := by rw [← hids, List.length_map]
  have hholds : Holds (new.foldl put (store.appendRows ids.length vectors)) (rows ++ new)
      (ids.filterMap store.stringToU64.lookup) := by
    have := h.append (hids.symm ▸ hnodup) hcolumn.symm (hu64s.trans (by rw [hlength]))
    rwa [hids, hlength] at this
  obtain ⟨next, rest, hnext, hrest, hmem, hcount⟩ := removeU64s_spec hholds
    (hnodup.filterMap fun id id' u64 hid hid' => by
      obtain ⟨row, hrow, -, rfl, rfl⟩ := (h.strings id u64).mp hid
      obtain ⟨row', hrow', -, rfl, hsame⟩ := (h.strings id' _).mp hid'
      rw [h.eq_of_u64 hrow hrow' hsame.symm])
    (fun u64 hu64 => by
      obtain ⟨row, hrow, -, hsame⟩ := h.mem_replaced.mp hu64
      exact ⟨row, List.mem_append_left _ hrow, hsame⟩)
  refine ⟨next, rest, ?_, hrest, fun row => ?_, hcount.trans ?_⟩
  · simp only [addBatch, allocate_eq h.taken]
    exact hnext
  · have hmerged := h.merged (fun row hrow => by
      have hmem : row.u64 ∈ new.map (·.u64) := List.mem_map_of_mem hrow
      rw [hu64s, List.mem_range'_1] at hmem
      exact hmem.1) row
    rw [hids] at hmerged
    rw [hmem]
    exact hmerged
  · rw [foldl_put]
    simp only [appendRows, allocate_eq h.taken]

theorem Column.erase {V : Type} {m : Finmap fun _ : T => V} {field : Row M T → V}
    {gone : Row M T} (h : Column m rows [] field)
    (hgone : ∀ row ∈ rows, row.u64 = gone.u64 ↔ row.id = gone.id) :
    Column (m.erase gone.id) rows [gone.u64] field := by
  intro id value
  by_cases hid : id = gone.id
  · subst hid
    simp only [Finmap.lookup_erase, reduceCtorEq, List.mem_singleton, false_iff]
    rintro ⟨row, hrow, hlive, hid, -⟩
    exact hlive ((hgone row hrow).mpr hid)
  · rw [Finmap.lookup_erase_ne hid, h id value]
    refine exists_congr fun row => and_congr_right fun hrow => ?_
    simp only [List.not_mem_nil, not_false_eq_true, true_and, List.mem_singleton]
    constructor
    · rintro ⟨rfl, hvalue⟩
      exact ⟨mt (hgone row hrow).mp hid, rfl, hvalue⟩
    · exact fun hrow => hrow.2

/-- A delete takes out the rows with its ids. -/
theorem deleteIds_spec (ids : List T) (h : Holds store rows []) (changed : Bool) :
    ∃ next rest changed', store.deleteIds changed ids = some (next, changed') ∧
      Holds next rest [] ∧ (∀ row, row ∈ rest ↔ row ∈ rows ∧ row.id ∉ ids) ∧
      next.nextU64Id = store.nextU64Id := by
  induction ids generalizing store rows changed with
  | nil => exact ⟨store, rows, changed, rfl, h, by simp, rfl⟩
  | cons id ids ih =>
    unfold deleteIds
    split
    next habsent =>
      obtain ⟨next, rest, changed', hnext, hrest, hmem, hcount⟩ := ih h changed
      refine ⟨next, rest, changed', hnext, hrest, fun row => ?_, hcount⟩
      rw [hmem, List.mem_cons, not_or]
      refine and_congr_right fun hrow => ⟨fun hother => ⟨?_, hother⟩, And.right⟩
      rintro rfl
      have := (h.strings row.id row.u64).mpr ⟨row, hrow, by simp, rfl, rfl⟩
      rw [habsent] at this
      cases this
    next u64 hu64 =>
      obtain ⟨gone, hgone, -, rfl, rfl⟩ := (h.strings id u64).mp hu64
      have hsame : ∀ row ∈ rows, row.u64 = gone.u64 ↔ row.id = gone.id := fun row hrow =>
        ⟨fun hsame => congrArg _ (h.eq_of_u64 hrow hgone hsame),
          fun hsame => congrArg _ (h.eq_of_id hrow hgone (by simp) (by simp) hsame)⟩
      have hpopped : Holds { store with
          stringToU64 := store.stringToU64.erase gone.id
          documents := store.documents.erase gone.id
          metadata := store.metadata.erase gone.id } rows [gone.u64] :=
        { h with
          strings := h.strings.erase hsame
          documents := h.documents.erase hsame
          metadata := h.metadata.erase hsame }
      obtain ⟨removed, kept, hremoved, hkept, hmem, hcount⟩ :=
        removeU64_spec hpopped ⟨gone, hgone, rfl⟩ (by simp)
      obtain ⟨next, rest, changed', hnext, hrest, hmem', hcount'⟩ := ih hkept true
      refine ⟨next, rest, changed', ?_, hrest, fun row => ?_, hcount'.trans hcount⟩
      · simp only [hremoved, Option.bind_some, hnext]
      · rw [hmem', hmem, List.mem_cons, not_or, and_assoc]
        exact and_congr_right fun hrow => and_congr_left fun _ => not_congr (hsame row hrow)

/-! ## Consistency -/

theorem Column.keys {V : Type} {m : Finmap fun _ : T => V} {field : Row M T → V}
    (h : Column m rows stale field) {id : T} :
    id ∈ m.keys ↔ ∃ row ∈ rows, row.u64 ∉ stale ∧ row.id = id := by
  rw [Finmap.mem_keys, Finmap.mem_iff]
  constructor
  · rintro ⟨value, hvalue⟩
    obtain ⟨row, hrow, hlive, hid, -⟩ := (h id value).mp hvalue
    exact ⟨row, hrow, hlive, hid⟩
  · rintro ⟨row, hrow, hlive, hid⟩
    exact ⟨field row, (h id _).mpr ⟨row, hrow, hlive, hid, rfl⟩⟩

/-- `_validate_consistency` accepts every store without stale rows. -/
theorem Holds.consistent (h : Holds store rows []) : store.validateConsistency := by
  have hvalues : ∀ u64, u64 ∈ store.stringToU64.entries.map Sigma.snd ↔
      ∃ row ∈ rows, row.u64 = u64 := by
    intro u64
    rw [Multiset.mem_map]
    constructor
    · rintro ⟨⟨id, u64⟩, hentry, rfl⟩
      obtain ⟨row, hrow, -, -, hsame⟩ := (h.strings id u64).mp (Finmap.lookup_eq_some_iff.mpr hentry)
      exact ⟨row, hrow, hsame⟩
    · rintro ⟨row, hrow, rfl⟩
      exact ⟨⟨row.id, row.u64⟩, Finmap.lookup_eq_some_iff.mp
        ((h.strings _ _).mpr ⟨row, hrow, by simp, rfl, rfl⟩), rfl⟩
  have hmem : ∀ u64, (u64 ∈ store.slotToU64 ↔ ∃ row ∈ rows, row.u64 = u64) := by
    intro u64
    rw [h.slots, List.mem_map]
  simp only [validateConsistency, Bool.and_eq_true, decide_eq_true_eq]
  refine ⟨⟨⟨⟨⟨⟨⟨⟨?_, ?_⟩, ?_⟩, ?_⟩, ?_⟩, ?_, ?_⟩, ?_⟩, ?_⟩, ?_⟩
  · rw [h.slots, h.vectors, List.length_map, List.length_map]
  · exact Finset.ext fun id => h.documents.keys.trans h.strings.keys.symm
  · exact Finset.ext fun id => h.metadata.keys.trans h.strings.keys.symm
  · refine Multiset.Nodup.map_on ?_ store.stringToU64.nodup_entries
    rintro ⟨id, u64⟩ hentry ⟨id', _⟩ hentry' rfl
    obtain ⟨row, hrow, -, rfl, rfl⟩ := (h.strings _ _).mp (Finmap.lookup_eq_some_iff.mpr hentry)
    obtain ⟨row', hrow', -, rfl, hsame⟩ :=
      (h.strings _ _).mp (Finmap.lookup_eq_some_iff.mpr hentry')
    rw [h.eq_of_u64 hrow hrow' hsame.symm]
  · refine Finset.ext fun u64 => ?_
    rw [Finmap.mem_keys, h.indexes.mem_iff, hmem, Multiset.mem_toFinset, hvalues]
  · refine Finset.ext fun u64 => ?_
    rw [Finmap.mem_keys, Finmap.mem_iff, Multiset.mem_toFinset, hvalues]
    simp only [h.reverse]
    constructor
    · rintro ⟨_, row, hrow, hsame, -⟩
      exact ⟨row, hrow, hsame⟩
    · rintro ⟨row, hrow, hsame⟩
      exact ⟨row.id, row, hrow, hsame, rfl⟩
  · rintro ⟨id, u64⟩ hentry
    obtain ⟨row, hrow, -, hid, hsame⟩ := (h.strings _ _).mp (Finmap.lookup_eq_some_iff.mpr hentry)
    exact (h.reverse u64 id).mpr ⟨row, hrow, hsame, hid⟩
  · rintro ⟨u64, slot⟩ hentry
    have hslot := (h.indexes u64 slot).mp (Finmap.lookup_eq_some_iff.mpr hentry)
    obtain ⟨hlt, -⟩ := List.getElem?_eq_some_iff.mp hslot
    refine ⟨?_, hslot⟩
    rwa [h.vectors, List.length_map, ← List.length_map (·.u64), ← h.slots]
  · refine Multiset.Nodup.map_on ?_ store.u64ToSlot.nodup_entries
    rintro ⟨u64, slot⟩ hentry ⟨u64', _⟩ hentry' rfl
    have hfirst := (h.indexes u64 slot).mp (Finmap.lookup_eq_some_iff.mpr hentry)
    have hsecond := (h.indexes u64' slot).mp (Finmap.lookup_eq_some_iff.mpr hentry')
    rw [Option.some.inj (hfirst.symm.trans hsecond)]
  · intro u64 hu64
    obtain ⟨row, hrow, rfl⟩ := (hvalues u64).mp hu64
    exact h.allocated row hrow

/-! ## Readers -/

theorem Holds.get_eq_some (h : Holds store rows []) {id : T} {record : Record M T} :
    store.get id = some record ↔ ∃ row ∈ rows, row.id = id ∧ row.record = record := by
  simp only [get, Option.bind_eq_bind, Option.bind_eq_some_iff, Option.pure_def, Option.some.injEq]
  constructor
  · rintro ⟨u64, hu64, slot, hslot, vector, hvector, document, hdocument, metadata, hmetadata, rfl⟩
    obtain ⟨row, hrow, -, rfl, rfl⟩ := (h.strings id u64).mp hu64
    refine ⟨row, hrow, rfl, ?_⟩
    have hposition := (h.indexes row.u64 slot).mp hslot
    rw [h.slots, List.getElem?_map, Option.map_eq_some_iff] at hposition
    obtain ⟨row', hrow', hsame⟩ := hposition
    obtain rfl := h.eq_of_u64 (List.mem_of_getElem? hrow') hrow hsame
    rw [h.vectors, List.getElem?_map, hrow', Option.map_some, Option.some.injEq] at hvector
    obtain ⟨_, hother, -, hid, rfl⟩ := (h.documents _ document).mp hdocument
    obtain rfl := h.eq_of_id hother hrow (by simp) (by simp) hid
    obtain ⟨_, hother, -, hid, rfl⟩ := (h.metadata _ metadata).mp hmetadata
    obtain rfl := h.eq_of_id hother hrow (by simp) (by simp) hid
    rw [← hvector]
    rfl
  · rintro ⟨row, hrow, rfl, rfl⟩
    obtain ⟨slot, hslot⟩ := List.mem_iff_getElem?.mp hrow
    refine ⟨row.u64, (h.strings _ _).mpr ⟨row, hrow, by simp, rfl, rfl⟩, slot,
      (h.indexes _ _).mpr ?_, row.vector, ?_, row.document,
      (h.documents _ _).mpr ⟨row, hrow, by simp, rfl, rfl⟩, row.metadata,
      (h.metadata _ _).mpr ⟨row, hrow, by simp, rfl, rfl⟩, rfl⟩
    · rw [h.slots, List.getElem?_map, hslot, Option.map_some]
    · rw [h.vectors, List.getElem?_map, hslot, Option.map_some]

theorem Holds.recordAt_eq (h : Holds store rows []) (slot : Nat) :
    store.recordAt slot = rows[slot]?.map fun row => (row.id, row.record) := by
  unfold recordAt
  rw [h.slots, List.getElem?_map, h.vectors, List.getElem?_map]
  cases hrow : rows[slot]? with
  | none => rfl
  | some row =>
    have hmem := List.mem_of_getElem? hrow
    have hid := (h.reverse row.u64 row.id).mpr ⟨row, hmem, rfl, rfl⟩
    have hdocument := (h.documents row.id row.document).mpr ⟨row, hmem, by simp, rfl, rfl⟩
    have hmetadata := (h.metadata row.id row.metadata).mpr ⟨row, hmem, by simp, rfl, rfl⟩
    simp [hid, hdocument, hmetadata, Row.record]

/-! ## The index along a call -/

section Index

variable {P : NativeIndex → Prop} {next : WorkingCopy M T}

/-- A property of an index that removals keep. -/
def KeptBySwap (P : NativeIndex → Prop) : Prop :=
  ∀ (index next : NativeIndex) (slot : Nat), P index → index.swapRemove slot = some next → P next

theorem swapRemove_eq_some {index next : NativeIndex} {slot : Nat}
    (h : index.swapRemove slot = some next) : slot < index.rows.length ∧
      next = { index with rows := SlotTable.swapRemove index.rows slot } := by
  unfold NativeIndex.swapRemove at h
  exact (Option.ite_none_right_eq_some.mp h).imp id fun hnext => (Option.some.inj hnext).symm

omit [DecidableEq T] in
theorem removeU64_index (hswap : KeptBySwap P) {u64 : Nat} (h : P store.index)
    (hremove : store.removeU64 u64 = some next) : P next.index := by
  simp only [removeU64, Option.bind_eq_bind, Option.bind_eq_some_iff, Option.pure_def,
    Option.some.injEq] at hremove
  obtain ⟨slot, -, moved, -, index, hindex, rfl⟩ := hremove
  exact hswap _ _ slot h hindex

omit [DecidableEq T] in
theorem removeU64s_index (hswap : KeptBySwap P) {u64s : List Nat} (h : P store.index)
    (hremove : store.removeU64s u64s = some next) : P next.index := by
  induction u64s generalizing store with
  | nil =>
    obtain rfl := Option.some.inj hremove
    exact h
  | cons u64 u64s ih =>
    obtain ⟨middle, hfirst, hrest⟩ := Option.bind_eq_some_iff.mp hremove
    exact ih (removeU64_index hswap h hfirst) hrest

theorem deleteIds_index (hswap : KeptBySwap P) {ids : List T} {changed : Bool}
    {out : WorkingCopy M T × Bool} (h : P store.index)
    (hdelete : store.deleteIds changed ids = some out) : P out.1.index := by
  induction ids generalizing store changed with
  | nil =>
    obtain rfl := Option.some.inj hdelete
    exact h
  | cons id ids ih =>
    rw [deleteIds] at hdelete
    split at hdelete
    next => exact ih h hdelete
    next =>
      obtain ⟨middle, hfirst, hrest⟩ := Option.bind_eq_some_iff.mp hdelete
      have hpopped : P { store with
          stringToU64 := store.stringToU64.erase id
          documents := store.documents.erase id
          metadata := store.metadata.erase id }.index := h
      exact ih (removeU64_index hswap hpopped hfirst) hrest

/-- The removals of a batch come after its rows. -/
theorem addBatch_index (hswap : KeptBySwap P) {ids documents : List T} {metadata : List M}
    {vectors : Vectors} (h : P (store.index.add vectors))
    (hadd : store.addBatch ids documents metadata vectors = some next) : P next.index := by
  refine removeU64s_index hswap ?_ hadd
  rw [foldl_put]
  exact h

theorem validated_index {reply : Reply T} {out : Option (WorkingCopy M T)} (h : P store.index)
    (hout : ∀ next, out = some next → P next.index) : P (store.validated out reply).2.index := by
  cases out with
  | none => exact h
  | some next => exact hout next rfl

theorem acceptsDim_of_readBatch [EmptyCollection M] [EmptyCollection T] {ids documents : List T}
    {metadata : List M} {vectors : Vectors} {arguments : AddArguments M T}
    (h : store.readBatch ids arguments = some (documents, metadata, vectors)) :
    store.acceptsDim vectors.dim := by
  simp only [readBatch, preflightBatch, Option.bind_eq_bind, Option.bind_eq_some_iff,
    Option.guard_eq_some', Option.pure_def, Option.some.injEq, Prod.mk.injEq, exists_const] at h
  obtain ⟨_, -, _, -, _, ⟨-, -, -, _, -, -, hdim, rfl⟩, -, -, rfl⟩ := h
  exact hdim

/-- What removals and accepted batches keep, every call keeps. -/
theorem answer_index [EmptyCollection M] [EmptyCollection T] (hswap : KeptBySwap P)
    (hadd : ∀ vectors : Vectors, P store.index → store.acceptsDim vectors.dim →
      P (store.index.add vectors))
    (h : P store.index) (call : Call M T) : P (store.answer call).2.index := by
  cases call with
  | add arguments =>
    show P (store.add arguments).2.index
    unfold add
    split
    next => exact h
    next => exact h
    next =>
      split
      next => exact h
      next hbatch =>
        exact validated_index h fun next =>
          addBatch_index hswap (hadd _ h (acceptsDim_of_readBatch hbatch))
  | delete ids missingOk =>
    show P (store.delete ids missingOk).2.index
    unfold delete
    split
    next => exact h
    next =>
      split
      next => exact h
      next =>
        refine validated_index h fun next hnext => ?_
        obtain ⟨out, hout, rfl⟩ := Option.map_eq_some_iff.mp hnext
        exact deleteIds_index hswap h hout

theorem swapRemove_dimOpt (dim : Option Nat) :
    KeptBySwap fun index => index.dimOpt = dim := by
  intro index next slot h hremove
  obtain ⟨-, rfl⟩ := swapRemove_eq_some hremove
  exact h

theorem deleteIds_dimOpt {ids : List T} {changed : Bool} {out : WorkingCopy M T × Bool}
    (h : store.deleteIds changed ids = some out) : out.1.index.dimOpt = store.index.dimOpt :=
  deleteIds_index (swapRemove_dimOpt _) rfl h

/-- A batch sets the dimension. -/
theorem addBatch_dimOpt {ids documents : List T} {metadata : List M} {vectors : Vectors}
    (h : store.addBatch ids documents metadata vectors = some next) :
    next.index.dimOpt = some vectors.dim :=
  addBatch_index (swapRemove_dimOpt _) rfl h

theorem swapRemove_bits (bits : Nat) : KeptBySwap fun index => index.bits = bits := by
  intro index next slot h hremove
  obtain ⟨-, rfl⟩ := swapRemove_eq_some hremove
  exact h

end Index

/-! ## Refinement -/

/-- The store is the map, for every reader, and consistent. -/
structure Refines (store : WorkingCopy M T) (map : RecordMap M T) : Prop where
  records : ∀ id, store.get id = map.lookup id
  ids : store.stringToU64.keys = map.keys
  /-- The rows of the index are the vectors of the map, each at one slot. -/
  slots : ∃ ids : List T, ids.Nodup ∧ ids.length = store.index.rows.length ∧
    (∀ id, id ∈ ids ↔ id ∈ map) ∧
    ∀ slot id, ids[slot]? = some id →
      store.recordAt slot = (map.lookup id).map fun record => (id, record)
  consistent : store.validateConsistency

def Simulates (store : WorkingCopy M T) (map : RecordMap M T) : Prop :=
  ∃ rows, Holds store rows [] ∧ Column map rows [] Row.record

theorem Simulates.refines {map : RecordMap M T} (h : Simulates store map) : Refines store map := by
  obtain ⟨rows, hholds, hmap⟩ := h
  have hrecords : ∀ id, store.get id = map.lookup id := fun id => Option.ext fun record => by
    rw [hholds.get_eq_some, hmap id record]
    simp
  refine ⟨hrecords, Finset.ext fun id => hholds.strings.keys.trans hmap.keys.symm,
    ⟨rows.map (·.id), ?_, ?_, fun id => ?_, fun slot id hslot => ?_⟩, hholds.consistent⟩
  · refine List.Nodup.map_on ?_ hholds.nodup.of_map
    exact fun row hrow row' hrow' hsame =>
      hholds.eq_of_id hrow hrow' (by simp) (by simp) hsame
  · rw [hholds.vectors, List.length_map, List.length_map]
  · rw [← Finmap.mem_keys, hmap.keys, List.mem_map]
    simp
  · rw [List.getElem?_map, Option.map_eq_some_iff] at hslot
    obtain ⟨row, hrow, rfl⟩ := hslot
    rw [hholds.recordAt_eq, hrow,
      (hmap row.id row.record).mpr ⟨row, List.mem_of_getElem? hrow, by simp, rfl, rfl⟩]
    rfl

/-- What a call keeps, whatever its arguments. -/
structure CallKept [EmptyCollection M] [EmptyCollection T] (store : WorkingCopy M T) (call : Call M T) : Prop where
  checked : (store.answer call).1 ≠ .broken
  rejected : (store.answer call).1 = .rejected → (store.answer call).2 = store
  others : ∀ id, id ∉ call.ids → (store.answer call).2.get id = store.get id ∧
    (store.answer call).2.stringToU64.lookup id = store.stringToU64.lookup id
  counter : store.nextU64Id ≤ (store.answer call).2.nextU64Id
  assigned : (store.assigned call).Nodup ∧ ∀ u64 ∈ store.assigned call,
    store.nextU64Id ≤ u64 ∧ u64 < (store.answer call).2.nextU64Id
  stored : ∀ id u64, (store.answer call).2.stringToU64.lookup id = some u64 →
    store.stringToU64.lookup id = some u64 ∨ u64 ∈ store.assigned call

/-- The rows of other ids are what a reader of those ids sees. -/
theorem Holds.others {next : WorkingCopy M T} {rest : List (Row M T)} (h : Holds store rows [])
    (hnext : Holds next rest []) {id : T}
    (hsame : ∀ row : Row M T, row.id = id → (row ∈ rest ↔ row ∈ rows)) :
    next.get id = store.get id ∧ next.stringToU64.lookup id = store.stringToU64.lookup id := by
  have hrows : ∀ P : Row M T → Prop, (∃ row ∈ rest, row.id = id ∧ P row) ↔
      ∃ row ∈ rows, row.id = id ∧ P row := fun P =>
    ⟨fun ⟨row, hrow, hid, hP⟩ => ⟨row, (hsame row hid).mp hrow, hid, hP⟩,
      fun ⟨row, hrow, hid, hP⟩ => ⟨row, (hsame row hid).mpr hrow, hid, hP⟩⟩
  constructor
  · exact Option.ext fun record => by
      rw [hnext.get_eq_some, h.get_eq_some]
      exact hrows (·.record = record)
  · exact Option.ext fun u64 => by
      rw [hnext.strings, h.strings]
      simpa using hrows (·.u64 = u64)

theorem lookup_foldl_erase (ids : List T) (map : RecordMap M T) (id : T) :
    (ids.foldl (fun map id => map.erase id) map).lookup id =
      if id ∈ ids then none else map.lookup id := by
  induction ids generalizing map with
  | nil => simp
  | cons gone ids ih =>
    rw [List.foldl_cons, ih]
    by_cases hid : id = gone
    · subst hid
      simp
    · simp [hid]

section Calls

variable [EmptyCollection M] [EmptyCollection T] {map : RecordMap M T}

/-- A call that leaves the store. -/
theorem callKept_of_same {call : Call M T} {reply : Reply T} (h : store.answer call = (reply, store))
    (hreply : reply ≠ .broken) (hassigned : store.assigned call = []) : CallKept store call where
  checked := by rwa [h]
  rejected _ := by rw [h]
  others id _ := by rw [h]; exact ⟨rfl, rfl⟩
  counter := by rw [h]
  assigned := by simp [hassigned]
  stored id u64 hid := .inl (by rwa [h] at hid)

theorem readBatch_eq_some {ids documents : List T} {metadata : List M} {vectors : Vectors}
    {arguments : AddArguments M T}
    (h : store.readBatch ids arguments = some (documents, metadata, vectors)) :
    arguments.documents.mapM requireDocument = some documents ∧
      (arguments.metadatas.getD (ids.map fun _ => .dict ∅)).mapM requireMetadata? = some metadata ∧
      vectorsArray arguments.embeddings = some vectors ∧ ids.Nodup ∧
      vectors.rows.length = ids.length ∧ ids.length = documents.length ∧
      ids.length = metadata.length := by
  simp only [readBatch, preflightBatch, Option.bind_eq_bind, Option.bind_eq_some_iff,
    Option.guard_eq_some', Option.pure_def, Option.some.injEq, Prod.mk.injEq, exists_const] at h
  obtain ⟨_, hdocuments, _, hmetadata, _, ⟨hlengths, hnodup, -, _, hvectors, hrows, -, rfl⟩, rfl,
    rfl, rfl⟩ := h
  exact ⟨hdocuments, hmetadata, hvectors, hnodup, hrows, hlengths.1, hlengths.2⟩

/-- A batch that is not rejected. -/
theorem add_accepted {ids documents : List T} {metadata : List M} {vectors : Vectors}
    {arguments : AddArguments M T} (h : Simulates store map)
    (hids : arguments.ids.mapM requireStringId = some ids)
    (hbatch : store.readBatch ids arguments = some (documents, metadata, vectors))
    (hanswer : store.add arguments =
      store.validated (store.addBatch ids documents metadata vectors) (.added ids)) :
    CallKept store (.add arguments) ∧ Simulates (store.add arguments).2
      (map.apply (.add arguments) (store.add arguments).1) := by
  obtain ⟨rows, hholds, hmap⟩ := h
  obtain ⟨hdocuments, hmetadata, hvectors, hnodup, hrows, hlength, hlength'⟩ :=
    readBatch_eq_some hbatch
  obtain ⟨next, rest, hnext, hrest, hmem, hcount⟩ :=
    addBatch_spec hholds hnodup hrows hlength hlength'
  obtain ⟨hu64s, hcolumn, -⟩ := zipRows_columns (List.length_range' (s := store.nextU64Id))
    hrows hlength hlength'
  have hreply : store.add arguments = (.added ids, next) := by
    rw [hanswer, hnext]
    simp [validated, hrest.consistent]
  have hallocated : store.assigned (.add arguments) =
      List.range' store.nextU64Id ids.length := by
    simp only [assigned, answer, hreply, allocate_eq hholds.taken]
  have hanswered : store.answer (.add arguments) = (.added ids, next) := hreply
  constructor
  · constructor
    case checked => rw [hanswered]; exact nofun
    case rejected => rw [hanswered]; exact nofun
    case others =>
      intro id hid
      rw [hanswered]
      -- rows of other ids are neither replaced nor moved
      refine hholds.others hrest fun row hrow => ?_
      have hother : row.id ∉ ids := by simpa [Call.ids, hids, hrow] using hid
      rw [hmem]
      refine ⟨?_, fun hrow => .inl ⟨hrow, hother⟩⟩
      rintro (⟨hrow, -⟩ | hrow)
      · exact hrow
      · exact absurd (hcolumn ▸ List.mem_map_of_mem (f := (·.id)) hrow) hother
    case counter => rw [hanswered, hcount]; exact Nat.le_add_right _ _
    case assigned =>
      rw [hallocated, hanswered, hcount]
      exact ⟨List.nodup_range', fun u64 hu64 => List.mem_range'_1.mp hu64⟩
    case stored =>
      intro id u64 hid
      rw [hanswered] at hid
      obtain ⟨row, hrow, -, rfl, rfl⟩ := (hrest.strings id u64).mp hid
      rcases (hmem row).mp hrow with ⟨hrow, -⟩ | hrow
      · exact .inl ((hholds.strings _ _).mpr ⟨row, hrow, by simp, rfl, rfl⟩)
      · rw [hallocated]
        exact .inr (hu64s ▸ List.mem_map_of_mem (f := (·.u64)) hrow)
  · rw [hreply]
    refine ⟨rest, hrest, ?_⟩
    have hrecords : arguments.records =
        (zipRows (List.range' store.nextU64Id ids.length) ids vectors.rows documents
          metadata).map fun row => (row.id, row.record) := by
      simp only [AddArguments.records, hids, hdocuments, hmetadata, hvectors, Option.getD_some,
        Option.elim_some]
      exact zipRows_records (by simp) ids vectors.rows documents metadata
    rw [RecordMap.apply, hrecords]
    refine hmap.replace (by rwa [hcolumn]) fun row => ?_
    rw [hcolumn, hmem]
    simp

theorem add_simulates (h : Simulates store map) (arguments : AddArguments M T) :
    CallKept store (.add arguments) ∧ Simulates (store.add arguments).2
      (map.apply (.add arguments) (store.add arguments).1) := by
  cases hids : arguments.ids.mapM requireStringId with
  | none =>
    have hanswer : store.add arguments = (.rejected, store) := by simp [add, hids]
    refine ⟨callKept_of_same hanswer nofun (by simp [assigned, answer, hanswer]), ?_⟩
    rwa [hanswer]
  | some ids =>
    cases ids with
    | nil =>
      have hanswer : store.add arguments = (.added [], store) := by simp [add, hids]
      refine ⟨callKept_of_same hanswer nofun ?_, ?_⟩
      · simp [assigned, answer, hanswer, allocate]
      · have hrecords : arguments.records = [] := by
          simp [AddArguments.records, hids, zipRows]
        rwa [hanswer, RecordMap.apply, hrecords]
    | cons id ids =>
      cases hbatch : store.readBatch (id :: ids) arguments with
      | none =>
        have hanswer : store.add arguments = (.rejected, store) := by simp [add, hids, hbatch]
        refine ⟨callKept_of_same hanswer nofun (by simp [assigned, answer, hanswer]), ?_⟩
        rwa [hanswer]
      | some batch =>
        obtain ⟨documents, metadata, vectors⟩ := batch
        exact add_accepted h hids hbatch (by simp only [add, hids, hbatch])

theorem delete_simulates (h : Simulates store map) (ids : List (PyValue M T)) (missingOk : Bool) :
    CallKept store (.delete ids missingOk) ∧ Simulates (store.delete ids missingOk).2
      (map.apply (.delete ids missingOk) (store.delete ids missingOk).1) := by
  have hrejected : store.delete ids missingOk = (.rejected, store) →
      CallKept store (.delete ids missingOk) ∧ Simulates (store.delete ids missingOk).2
        (map.apply (.delete ids missingOk) (store.delete ids missingOk).1) := by
    intro hanswer
    refine ⟨callKept_of_same hanswer nofun rfl, ?_⟩
    rwa [hanswer]
  cases hids : ids.mapM requireStringId with
  | none => exact hrejected (by simp [delete, hids])
  | some names =>
    by_cases hmissing : !missingOk && names.any (· ∉ store.stringToU64)
    · exact hrejected (by simp only [delete, hids, if_pos hmissing])
    · obtain ⟨rows, hholds, hmap⟩ := h
      obtain ⟨next, rest, changed, hnext, hrest, hmem, hcount⟩ :=
        deleteIds_spec names hholds false
      have hanswer : store.delete ids missingOk = (.deleted changed, next) := by
        simp only [delete, hids, if_neg hmissing, hnext]
        simp [validated, hrest.consistent]
      have hanswered : store.answer (.delete ids missingOk) = (.deleted changed, next) := hanswer
      constructor
      · constructor
        case checked => rw [hanswered]; exact nofun
        case rejected => rw [hanswered]; exact nofun
        case others =>
          intro id hid
          rw [hanswered]
          refine hholds.others hrest fun row hrow => ?_
          have hother : row.id ∉ names := by simpa [Call.ids, hids, hrow] using hid
          rw [hmem]
          exact and_iff_left hother
        case counter => rw [hanswered, hcount]
        case assigned => exact ⟨List.nodup_nil, nofun⟩
        case stored =>
          intro id u64 hid
          rw [hanswered] at hid
          obtain ⟨row, hrow, -, rfl, rfl⟩ := (hrest.strings id u64).mp hid
          exact .inl ((hholds.strings _ _).mpr ⟨row, ((hmem row).mp hrow).1, by simp, rfl, rfl⟩)
      · rw [hanswer]
        refine ⟨rest, hrest, fun id record => ?_⟩
        simp only [RecordMap.apply, hids, Option.getD_some, lookup_foldl_erase,
          Option.ite_none_left_eq_some, hmap id record, hmem, List.not_mem_nil, not_false_eq_true,
          true_and]
        constructor
        · rintro ⟨hother, row, hrow, rfl, rfl⟩
          exact ⟨row, ⟨hrow, hother⟩, rfl, rfl⟩
        · rintro ⟨row, ⟨hrow, hother⟩, rfl, rfl⟩
          exact ⟨hother, row, hrow, rfl, rfl⟩

theorem call_kept (h : Simulates store map) (call : Call M T) :
    CallKept store call ∧
      Simulates (store.answer call).2 (map.apply call (store.answer call).1) := by
  cases call with
  | add arguments => exact add_simulates h arguments
  | delete ids missingOk => exact delete_simulates h ids missingOk

/-! ## When calls are taken -/

omit [DecidableEq T] [EmptyCollection M] [EmptyCollection T] in
theorem acceptsDim_iff {dim : Nat} :
    store.acceptsDim dim ↔ FitsWidth store.index.bits store.index.dimOpt dim := by
  unfold acceptsDim FitsWidth
  cases store.index.dimOpt with
  | none => simp
  | some existing =>
    simp only [decide_eq_true_eq, Option.some.injEq, reduceCtorEq, false_and, or_false]
    exact eq_comm

/-- What the checks of a batch ask for. -/
theorem readBatch_isSome (h : Simulates store map) {arguments : AddArguments M T} {ids : List T} :
    (store.readBatch ids arguments).isSome ↔
      arguments.Accepted store.index.bits store.index.dimOpt map ids := by
  have hkeys : ∀ id, id ∈ store.stringToU64 ↔ id ∈ map := fun id => by
    rw [← Finmap.mem_keys, h.refines.ids, Finmap.mem_keys]
  constructor
  · intro hsome
    obtain ⟨⟨documents, metadata, vectors⟩, hbatch⟩ := Option.isSome_iff_exists.mp hsome
    obtain ⟨hdocuments, hmetadata, hvectors, hnodup, hrows, hlength, hlength'⟩ :=
      readBatch_eq_some hbatch
    refine ⟨⟨?_, Table.isSome_of_mapM hdocuments⟩, fun values hvalues => ?_,
      ⟨vectors, hvectors, hrows, acceptsDim_iff.mp (acceptsDim_of_readBatch hbatch)⟩, hnodup, ?_⟩
    · have hmap := congrArg List.length (Table.mapM_eq_some.mp hdocuments)
      rw [List.length_map, List.length_map] at hmap
      exact hmap.trans hlength.symm
    · rw [hvalues, Option.getD_some] at hmetadata
      have hmap := congrArg List.length (Table.mapM_eq_some.mp hmetadata)
      rw [List.length_map, List.length_map] at hmap
      exact ⟨hmap.trans hlength'.symm, Table.isSome_of_mapM hmetadata⟩
    · simp only [readBatch, preflightBatch, Option.bind_eq_bind, Option.bind_eq_some_iff,
        Option.guard_eq_some', exists_const] at hbatch
      obtain ⟨_, -, _, -, _, ⟨-, -, hnew, -⟩, -⟩ := hbatch
      simp only [Bool.or_eq_true, List.all_eq_true, decide_eq_true_eq] at hnew
      exact hnew.imp id fun hall id hid => mt (hkeys id).mpr (hall id hid)
  · rintro ⟨⟨hcount, hdocuments⟩, hmetadatas, ⟨vectors, hvectors, hrows, hfits⟩, hnodup, hnew⟩
    obtain ⟨metadata, hmetadata, hlength⟩ : ∃ metadata : List M,
        (arguments.metadatas.getD (ids.map fun _ => .dict ∅)).mapM requireMetadata? =
          some metadata ∧ metadata.length = ids.length := by
      have hread : ∀ value ∈ arguments.metadatas.getD (ids.map fun _ => .dict ∅),
          (requireMetadata? value).isSome := by
        cases hvalues : arguments.metadatas with
        | none =>
          intro value hvalue
          obtain ⟨_, -, rfl⟩ := List.mem_map.mp hvalue
          rfl
        | some values => exact (hmetadatas values hvalues).2
      have hmetadata := Table.mapM_of_isSome hread
      refine ⟨_, hmetadata, ?_⟩
      have hmap := congrArg List.length (Table.mapM_eq_some.mp hmetadata)
      rw [List.length_map, List.length_map] at hmap
      rw [← hmap]
      cases hvalues : arguments.metadatas with
      | none => exact List.length_map _
      | some values => exact (hmetadatas values hvalues).1
    have hread := Table.mapM_of_isSome hdocuments
    have hlength' : (arguments.documents.filterMap requireDocument).length = ids.length := by
      have hmap := congrArg List.length (Table.mapM_eq_some.mp hread)
      rw [List.length_map, List.length_map] at hmap
      exact hmap.symm.trans hcount
    have hids : arguments.upsert = true ∨ ∀ id ∈ ids, id ∉ store.stringToU64 :=
      hnew.imp id fun hall id hid => mt (hkeys id).mp (hall id hid)
    have hpreflight : store.preflightBatch ids arguments.embeddings
        (arguments.documents.filterMap requireDocument) metadata arguments.upsert =
          some vectors := by
      simp only [preflightBatch, Option.bind_eq_bind, Option.bind_eq_some_iff,
        Option.guard_eq_some', exists_const, Bool.or_eq_true, List.all_eq_true,
        decide_eq_true_eq]
      exact ⟨⟨hlength'.symm, hlength.symm⟩, hnodup, hids, vectors, hvectors, hrows,
        acceptsDim_iff.mpr hfits, rfl⟩
    unfold readBatch
    rw [hread]
    dsimp only [Option.bind_eq_bind, Option.bind_some]
    rw [hmetadata, Option.bind_some, hpreflight]
    rfl

omit [EmptyCollection M] [EmptyCollection T] in
theorem validated_reply {next : Option (WorkingCopy M T)} {reply : Reply T}
    (h : (store.validated next reply).1 ≠ .broken) : (store.validated next reply).1 = reply := by
  unfold validated at h ⊢
  cases next with
  | none => exact absurd rfl h
  | some next =>
    dsimp only at h ⊢
    split at h
    next hconsistent => exact if_pos hconsistent
    next => exact absurd rfl h

/-- A batch is taken with its ids. -/
theorem add_takes (h : Simulates store map) (arguments : AddArguments M T) {reply : Reply T}
    (hreply : reply ≠ .rejected) : (store.answer (.add arguments)).1 = reply ↔
      Takes store.index.bits store.index.dimOpt map (.add arguments) reply := by
  have hchecked := (call_kept h (.add arguments)).1.checked
  have hadded : ∀ {ids : List T}, arguments.ids.mapM requireStringId = some ids →
      (ids = [] ∨ (store.readBatch ids arguments).isSome) →
      (store.answer (.add arguments)).1 = .added ids := by
    intro ids hids hbatch
    show (store.add arguments).1 = _
    have hanswer : (store.add arguments).1 ≠ .broken := hchecked
    unfold add at hanswer ⊢
    rw [hids] at hanswer ⊢
    cases ids with
    | nil => rfl
    | cons id ids =>
      obtain ⟨⟨documents, metadata, vectors⟩, hbatch⟩ := Option.isSome_iff_exists.mp
        (hbatch.resolve_left (List.cons_ne_nil _ _))
      simp only [hbatch] at hanswer ⊢
      exact validated_reply hanswer
  have hrefused : ∀ {ids : List T}, arguments.ids.mapM requireStringId = some ids →
      ¬(ids = [] ∨ (store.readBatch ids arguments).isSome) →
      (store.answer (.add arguments)).1 = .rejected := by
    intro ids hids hbatch
    show (store.add arguments).1 = _
    obtain ⟨hne, hnone⟩ := not_or.mp hbatch
    unfold add
    rw [hids]
    cases ids with
    | nil => exact absurd rfl hne
    | cons id ids => simp only [Option.not_isSome_iff_eq_none.mp hnone]
  cases hids : arguments.ids.mapM requireStringId with
  | none =>
    have hanswer : (store.answer (.add arguments)).1 = .rejected := by
      show (store.add arguments).1 = _
      unfold add
      rw [hids]
    rw [hanswer]
    refine iff_of_false hreply.symm fun htakes => ?_
    cases reply with
    | added ids =>
      rw [Table.mapM_eq_some.mpr htakes.1] at hids
      cases hids
    | deleted changed => exact htakes
    | rejected => exact htakes
    | broken => exact htakes
  | some ids =>
    by_cases hbatch : ids = [] ∨ (store.readBatch ids arguments).isSome
    · rw [hadded hids hbatch]
      constructor
      · rintro rfl
        exact ⟨Table.mapM_eq_some.mp hids, hbatch.imp id (readBatch_isSome h).mp⟩
      · intro htakes
        cases reply with
        | added other =>
          have hsame := Table.mapM_eq_some.mpr htakes.1
          rw [hids] at hsame
          exact congrArg Reply.added (Option.some.inj hsame)
        | deleted changed => exact htakes.elim
        | rejected => exact htakes.elim
        | broken => exact htakes.elim
    · rw [hrefused hids hbatch]
      refine iff_of_false hreply.symm fun htakes => ?_
      cases reply with
      | added other =>
        have hsame := Table.mapM_eq_some.mpr htakes.1
        rw [hids] at hsame
        obtain rfl := Option.some.inj hsame
        exact hbatch (htakes.2.imp id (readBatch_isSome h).mpr)
      | deleted changed => exact htakes
      | rejected => exact htakes
      | broken => exact htakes

omit [EmptyCollection M] [EmptyCollection T] in
theorem deleteIds_changed {ids : List T} {changed : Bool} {out : WorkingCopy M T × Bool}
    (h : store.deleteIds changed ids = some out) :
    out.2 = true ↔ changed = true ∨ ∃ id ∈ ids, id ∈ store.stringToU64 := by
  induction ids generalizing store changed with
  | nil =>
    obtain rfl := Option.some.inj h
    simp
  | cons id ids ih =>
    rw [deleteIds] at h
    split at h
    next habsent =>
      have hmissing : id ∉ store.stringToU64 := Finmap.lookup_eq_none.mp habsent
      rw [ih h]
      simp [hmissing]
    next u64 hlookup =>
      obtain ⟨middle, -, hrest⟩ := Option.bind_eq_some_iff.mp h
      have hthere : id ∈ store.stringToU64 := Finmap.mem_of_lookup_eq_some hlookup
      exact iff_of_true ((ih hrest).mpr (.inl rfl)) (.inr ⟨id, List.mem_cons_self, hthere⟩)

/-- A deletion is taken unless it misses an id that it must find. -/
theorem delete_takes (h : Simulates store map) (values : List (PyValue M T)) (missingOk : Bool)
    {reply : Reply T} (hreply : reply ≠ .rejected) :
    (store.answer (.delete values missingOk)).1 = reply ↔
      Takes store.index.bits store.index.dimOpt map (.delete values missingOk) reply := by
  have hkeys : ∀ id, id ∈ store.stringToU64 ↔ id ∈ map := fun id => by
    rw [← Finmap.mem_keys, h.refines.ids, Finmap.mem_keys]
  have hchecked : (store.delete values missingOk).1 ≠ .broken :=
    (call_kept h (.delete values missingOk)).1.checked
  show (store.delete values missingOk).1 = reply ↔ _
  unfold delete at hchecked ⊢
  cases hnames : values.mapM requireStringId with
  | none =>
    refine iff_of_false hreply.symm fun htakes => ?_
    cases reply with
    | deleted changed =>
      obtain ⟨names, hread, -⟩ := htakes
      rw [Table.mapM_eq_some.mpr hread] at hnames
      cases hnames
    | added ids => exact htakes
    | rejected => exact htakes
    | broken => exact htakes
  | some names =>
    rw [hnames] at hchecked
    dsimp only at hchecked ⊢
    have hmissing : (!missingOk && names.any (· ∉ store.stringToU64)) = true ↔
        ¬(missingOk = true ∨ ∀ name ∈ names, name ∈ map) := by
      simp [hkeys]
    have hread : ∀ {changed : Bool}, Takes store.index.bits store.index.dimOpt map
        (.delete values missingOk) (.deleted changed) ↔
          (missingOk = true ∨ ∀ name ∈ names, name ∈ map) ∧
            (changed = true ↔ ∃ name ∈ names, name ∈ map) := by
      intro changed
      constructor
      · rintro ⟨other, hother, htakes⟩
        have hsame := Table.mapM_eq_some.mpr hother
        rw [hnames] at hsame
        obtain rfl := Option.some.inj hsame
        exact htakes
      · exact fun htakes => ⟨names, Table.mapM_eq_some.mp hnames, htakes⟩
    split at hchecked
    next hrefused =>
      rw [if_pos hrefused]
      refine iff_of_false hreply.symm fun htakes => ?_
      cases reply with
      | deleted changed => exact hmissing.mp hrefused (hread.mp htakes).1
      | added ids => exact htakes
      | rejected => exact htakes
      | broken => exact htakes
    next haccepted =>
      rw [if_neg haccepted, validated_reply hchecked]
      have hallowed : missingOk = true ∨ ∀ name ∈ names, name ∈ map :=
        not_not.mp (mt hmissing.mpr haccepted)
      have hchanged : (store.deleteIds false names).any Prod.snd = true ↔
          ∃ name ∈ names, name ∈ map := by
        cases hout : store.deleteIds false names with
        | none =>
          rw [hout] at hchecked
          exact absurd rfl hchecked
        | some out =>
          have hflag := deleteIds_changed hout
          simp only [Bool.false_eq_true, false_or, hkeys] at hflag
          exact hflag
      constructor
      · rintro rfl
        exact hread.mpr ⟨hallowed, hchanged⟩
      · intro htakes
        cases reply with
        | deleted changed =>
          obtain ⟨-, hflag⟩ := hread.mp htakes
          exact congrArg Reply.deleted (Bool.eq_iff_iff.mpr (hchanged.trans hflag.symm))
        | added ids => exact htakes.elim
        | rejected => exact htakes.elim
        | broken => exact htakes.elim

/-- Which calls are taken; the others are rejected. -/
structure Answered [EmptyCollection M] [EmptyCollection T] (bits : Nat) (width : Option Nat)
    (map : RecordMap M T) (call : Call M T) (reply : Reply T) : Prop where
  taken : ∀ other, other ≠ .rejected → (reply = other ↔ Takes bits width map call other)
  rejected : reply = .rejected ↔ ∀ other, ¬Takes bits width map call other

theorem answered (h : Simulates store map) (call : Call M T) :
    Answered store.index.bits store.index.dimOpt map call (store.answer call).1 := by
  have htaken : ∀ reply, reply ≠ .rejected → ((store.answer call).1 = reply ↔
      Takes store.index.bits store.index.dimOpt map call reply) := by
    intro reply hreply
    cases call with
    | add arguments => exact add_takes h arguments hreply
    | delete values missingOk => exact delete_takes h values missingOk hreply
  have hnever : ¬Takes store.index.bits store.index.dimOpt map call .rejected := by
    cases call <;> exact id
  refine ⟨htaken, fun hrejected reply htakes => ?_, fun hall => ?_⟩
  · by_cases hreply : reply = .rejected
    · exact hnever (hreply ▸ htakes)
    · exact hreply (((htaken reply hreply).mpr htakes).symm.trans hrejected)
  · by_contra hreply
    exact hall _ ((htaken _ hreply).mp rfl)

/-- The width of the vectors is that of the last batch. -/
theorem answer_width (h : Simulates store map) (call : Call M T) :
    (store.answer call).2.index.dimOpt =
      widthAfter store.index.dimOpt call (store.answer call).1 := by
  have hchecked := (call_kept h call).1.checked
  cases call with
  | add arguments =>
    show (store.add arguments).2.index.dimOpt = widthAfter _ _ (store.add arguments).1
    have hanswer : (store.add arguments).1 ≠ .broken := hchecked
    unfold add at hanswer ⊢
    cases hids : arguments.ids.mapM requireStringId with
    | none => rfl
    | some ids =>
      rw [hids] at hanswer
      cases ids with
      | nil => rfl
      | cons id ids =>
        dsimp only at hanswer ⊢
        cases hbatch : store.readBatch (id :: ids) arguments with
        | none => rfl
        | some batch =>
          obtain ⟨documents, metadata, vectors⟩ := batch
          rw [hbatch] at hanswer
          dsimp only at hanswer ⊢
          rw [validated_reply hanswer]
          cases hadd : store.addBatch (id :: ids) documents metadata vectors with
          | none =>
            rw [hadd] at hanswer
            exact absurd rfl hanswer
          | some next =>
            obtain ⟨-, -, hvectors, -⟩ := readBatch_eq_some hbatch
            show next.index.dimOpt = (vectorsArray arguments.embeddings).map (·.dim)
            rw [addBatch_dimOpt hadd, hvectors]
            rfl
  | delete values missingOk =>
    show (store.delete values missingOk).2.index.dimOpt = store.index.dimOpt
    unfold delete
    split
    next => rfl
    next =>
      split
      next => rfl
      next =>
        refine validated_index (P := fun index => index.dimOpt = store.index.dimOpt) rfl
          fun next hnext => ?_
        obtain ⟨out, hout, rfl⟩ := Option.map_eq_some_iff.mp hnext
        exact deleteIds_dimOpt hout

theorem answer_bits (call : Call M T) :
    (store.answer call).2.index.bits = store.index.bits :=
  answer_index (swapRemove_bits _) (fun _ h _ => h) rfl call

/-- The store is the map, and no u64 id has been allocated twice. -/
structure Tracks (bits : Nat) (state : WorkingCopy M T × List Nat)
    (view : RecordMap M T × Option Nat) : Prop where
  simulates : Simulates state.1 view.1
  bits : state.1.index.bits = bits
  width : state.1.index.dimOpt = view.2
  distinct : state.2.Nodup
  below : ∀ u64 ∈ state.2, u64 < state.1.nextU64Id
  stored : ∀ id u64, state.1.stringToU64.lookup id = some u64 → u64 ∈ state.2

/-- What a call means for the map and the width. -/
def viewAfter (view : RecordMap M T × Option Nat) (call : Call M T) (reply : Reply T) :
    RecordMap M T × Option Nat :=
  (view.1.apply call reply, widthAfter view.2 call reply)

theorem Tracks.step {bits : Nat} {state : WorkingCopy M T × List Nat}
    {view : RecordMap M T × Option Nat} (h : Tracks bits state view) (call : Call M T) :
    Tracks bits (step state call).2 (viewAfter view call (step state call).1) := by
  obtain ⟨hkept, hsimulates⟩ := call_kept h.simulates call
  refine ⟨hsimulates, (answer_bits call).trans h.bits, ?_, ?_, ?_, fun id u64 hid => ?_⟩
  · show (state.1.answer call).2.index.dimOpt = widthAfter view.2 call (state.1.answer call).1
    rw [← h.width]
    exact answer_width h.simulates call
  · refine List.nodup_append.mpr ⟨h.distinct, hkept.assigned.1, ?_⟩
    rintro u64 hold _ hnew rfl
    exact Nat.lt_irrefl _ (Nat.lt_of_lt_of_le (h.below u64 hold) (hkept.assigned.2 u64 hnew).1)
  · intro u64 hu64
    rcases List.mem_append.mp hu64 with hold | hnew
    · exact Nat.lt_of_lt_of_le (h.below u64 hold) hkept.counter
    · exact (hkept.assigned.2 u64 hnew).2
  · rcases hkept.stored id u64 hid with hold | hnew
    · exact List.mem_append_left _ (h.stored id u64 hold)
    · exact List.mem_append_right _ hnew

end Calls

end WorkingCopy

section Runs

variable [DecidableEq T] [EmptyCollection M] [EmptyCollection T]

/-- After any calls on an empty store, it is the map that the calls describe. The next call is taken
exactly when the map and the width allow it, is the map's own step, and keeps what it does not name;
the u64 ids that have been allocated are distinct and below the counter. -/
theorem working_copy_refines (bits : Nat) (dim : Option Nat) (calls : List (Call M T))
    (call : Call M T) :
    let run := Machine.runCalls WorkingCopy.step (WorkingCopy.new bits dim, []) calls
    let store := run.2.1
    let assigned := run.2.2
    let view := Machine.replay WorkingCopy.viewAfter (∅, dim) run.1
    store.Refines view.1 ∧ store.index.dimOpt = view.2 ∧ store.CallKept call ∧
      WorkingCopy.Answered bits view.2 view.1 call (store.answer call).1 ∧
      (store.answer call).2.Refines (view.1.apply call (store.answer call).1) ∧
      assigned.Nodup ∧ (∀ u64 ∈ assigned, u64 < store.nextU64Id) ∧
      ∀ id u64, store.stringToU64.lookup id = some u64 → u64 ∈ assigned := by
  have hempty : WorkingCopy.Tracks bits (WorkingCopy.new bits dim, [])
      ((∅, dim) : RecordMap M T × Option Nat) :=
    ⟨⟨[], WorkingCopy.holds_new bits dim, fun id value => by simp⟩, rfl, rfl, List.nodup_nil,
      List.forall_mem_nil _, fun id u64 h => by simp [WorkingCopy.new] at h⟩
  have htracks := @Machine.runCalls_simulates _ _ _ _ WorkingCopy.step WorkingCopy.viewAfter
    (WorkingCopy.Tracks bits) (fun _ _ call h => h.step call) _ _ hempty calls
  obtain ⟨hkept, hnext⟩ := WorkingCopy.call_kept htracks.simulates call
  have hanswered := WorkingCopy.answered htracks.simulates call
  rw [htracks.bits, htracks.width] at hanswered
  exact ⟨htracks.simulates.refines, htracks.width, hkept, hanswered, hnext.refines,
    htracks.distinct, htracks.below, htracks.stored⟩

end Runs

/-! ## A run -/

/-- Rows of eight zeros. -/
def zeroBatch (ids : List String) (document : String) (upsert : Bool) :
    AddArguments (List Nat) where
  ids := ids.map .str
  embeddings := some ⟨[ids.length, 8], List.replicate (ids.length * 8) .zero, by simp⟩
  documents := ids.map fun _ => .str document
  metadatas := none
  upsert

/-- Two records, a batch that is no upsert and names one of them, and an upsert of that one. -/
def sampleCalls : List (Call (List Nat)) :=
  [.add (zeroBatch ["a", "b"] "first" false), .add (zeroBatch ["b", "c"] "second" false),
    .add (zeroBatch ["b"] "third" true)]

theorem sampleCalls_refined :
    let run := Machine.runCalls WorkingCopy.step (WorkingCopy.new 2 none, []) sampleCalls
    let view := Machine.replay WorkingCopy.viewAfter (∅, none) run.1
    run.1.map Prod.snd = [.added ["a", "b"], .rejected, .added ["b"]] ∧
      run.2.1.Refines view.1 ∧ (view.1.lookup "a").map (·.document) = some "first" ∧
      (view.1.lookup "b").map (·.document) = some "third" ∧
      (run.2.1.answer (.delete [.str "b", .str "c"] false)).1 = .rejected ∧
      (run.2.1.answer (.delete [.str "b", .str "c"] true)).1 = .deleted true ∧
      run.2.2 = [1, 2, 3] := by
  refine ⟨by decide +kernel, (working_copy_refines 2 none sampleCalls
    (.delete [.str "b", .str "c"] true)).1, ?_⟩
  decide +kernel

end OrdinalDB.Adapter
