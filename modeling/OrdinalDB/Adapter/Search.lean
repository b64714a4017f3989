import OrdinalDB.Adapter.Filters
import OrdinalDB.Adapter.MemoryRefinement

/-!
# Filtered search

`AdapterStore.search_by_vector` and `filter_to_u64_allowlist` of `adapters/_common.py`. The
filter is evaluated on the string-keyed dicts, turned into u64 ids, then into a mask over the
slots, and the slots that the index finds are mapped back. The native search is a parameter
that returns the best slots whose mask bit is set.

Stores begin as `__init__` makes them, empty or loaded (`Made`), and go on by adds and deletes.
`filtered_search_exact`: what a search returns is the front of the ranking of the records that
satisfy the filter.
-/

namespace OrdinalDB.Adapter

open Float32Bits (F32)

variable {C M : Type}

/-! ## Definitions -/

/-- A slot that the mask allows. -/
def maskAllows (mask : Option (List Bool)) (slot : Nat) : Bool :=
  mask.all fun bits => bits[slot]? = some true

/-- The native search: every index ranks its slots for a query by descending score, and a search
returns the best `k` of the allowed slots, without padding. -/
structure NativeSearch where
  score : NativeIndex → List F32 → Nat → F32
  order : NativeIndex → List F32 → List Nat
  order_perm : ∀ index query, (order index query).Perm (List.range index.rows.length)
  order_sorted : ∀ index query, (order index query).Pairwise fun a b =>
    (score index query b).totalKey ≤ (score index query a).totalKey
  search : NativeIndex → List F32 → Nat → Option (List Bool) → Option (List (F32 × Int))
  search_best : ∀ {index query k mask hits}, search index query k mask = some hits →
    hits = (((order index query).filter (maskAllows mask)).take k).map fun slot =>
      (score index query slot, (slot : Int))

structure AdapterRecord (M : Type) where
  id : String
  document : String
  metadata : M
  score : F32
  u64Id : Nat

/-- `_query_array`. -/
def queryArray (embedding : Option FloatArray) (dim : Nat) : Option (List F32) := do
  let array ← embedding
  guard (array.shape = [dim] ∨ array.shape = [1, dim])
  guard (array.values.all validCoord)
  pure array.values

/-- `_require_u64` of an `int`. -/
def requireU64 (value : Int) : Option Nat :=
  if 0 ≤ value ∧ value < 2 ^ 64 then some value.toNat else none

namespace WorkingCopy

/-- The filter on the record of an id. -/
def verdictOf (store : WorkingCopy (Metadata C)) (filter : Filter C) (id : String) :
    Option Bool := do
  let document ← store.documents.lookup id
  let metadata ← store.metadata.lookup id
  filter.filterMatches metadata document

/-- `filter_to_u64_allowlist` of a filter; the ids come in the order of the dict. -/
def filterToU64Allowlist (store : WorkingCopy (Metadata C)) (filter : Filter C) :
    Option (Multiset Nat) := do
  guard filter.accepted
  guard (∀ entry ∈ store.stringToU64.entries, (store.verdictOf filter entry.1).isSome)
  let matching := store.stringToU64.entries.filter fun entry =>
    store.verdictOf filter entry.1 = some true
  pure (matching.map Sigma.snd)

/-- The mask of an allowlist; an id without a slot is an error. -/
def maskOf (store : WorkingCopy M) (allowlist : Multiset Nat) : Option (List Bool) := do
  guard (∀ u64 ∈ allowlist, (store.u64ToSlot.lookup u64).any (· < store.slotToU64.length))
  pure ((List.range store.slotToU64.length).map fun slot =>
    decide (some slot ∈ allowlist.map store.u64ToSlot.lookup))

/-- The record of a hit. -/
def foundRecord (store : WorkingCopy M) (hit : F32 × Int) : Option (AdapterRecord M) := do
  guard (0 ≤ hit.2)
  let u64Id ← store.slotToU64[hit.2.toNat]?
  let id ← store.u64ToString.lookup u64Id
  let document ← store.documents.lookup id
  let metadata ← store.metadata.lookup id
  pure { id, document, metadata, score := hit.1, u64Id }

/-- The allowlist of a search, from either argument. -/
def allowlistOf (store : WorkingCopy (Metadata C)) (filter : Option (Filter C))
    (allowedU64Ids : Option (List Int)) : Option (Option (Multiset Nat)) :=
  match allowedU64Ids, filter with
  | some _, some _ => none
  | some values, none => (values.mapM requireU64).map fun u64s => some (u64s : Multiset Nat)
  | none, some filter => (store.filterToU64Allowlist filter).map some
  | none, none => some none

def searchByVector (native : NativeSearch) (store : WorkingCopy (Metadata C))
    (embedding : Option FloatArray) (k : Int) (filter : Option (Filter C))
    (allowedU64Ids : Option (List Int)) : Option (List (AdapterRecord (Metadata C))) :=
  if k < 0 then none
  else if k = 0 ∨ store.stringToU64.keys.card = 0 then some []
  else
    match store.index.dimOpt with
    | none => some []
    | some dim => do
      let query ← queryArray embedding dim
      let allowlist ← store.allowlistOf filter allowedU64Ids
      if allowlist = some 0 then pure []
      else
        let mask ← allowlist.elim (some none) fun allowlist => (store.maskOf allowlist).map some
        let hits ← native.search store.index query k.toNat mask
        hits.mapM store.foundRecord

/-! ## The constructor -/

/-- `_slot_map_from_u64_to_slot`: every slot once, and no others. -/
def slotMap (u64ToSlot : Finmap fun _ : Nat => Nat) (indexLen : Nat) : Option (List Nat) := do
  guard (∀ entry ∈ u64ToSlot.entries, entry.2 < indexLen)
  guard (u64ToSlot.entries.map Sigma.snd).Nodup
  (List.range indexLen).mapM fun slot =>
    ((u64ToSlot.keys.filter fun u64 => u64ToSlot.lookup u64 = some slot).sort (· ≤ ·)).head?

/-- A store as `__init__` makes it, and an index that has no rows before it has a dimension. -/
structure Made (store : WorkingCopy M) : Prop where
  slots : slotMap store.u64ToSlot store.index.rows.length = some store.slotToU64
  consistent : store.validateConsistency
  lazyIndex : store.index.dimOpt = none → store.index.rows = []

theorem made_new (bits : Nat) (dim : Option Nat) : Made (new bits dim : WorkingCopy M) := by
  refine ⟨rfl, (holds_new bits dim).consistent, fun _ => rfl⟩

/-! ## Reachable stores -/

variable {store next : WorkingCopy M} {rows : List (Row M)}

/-- Rows with given columns. -/
theorem exists_rows {P : Row M → Prop} {u64s : List Nat} {vectors : List (List F32)}
    (hlength : u64s.length = vectors.length)
    (h : ∀ u64 ∈ u64s, ∀ vector, ∃ row : Row M, row.u64 = u64 ∧ row.vector = vector ∧ P row) :
    ∃ rows : List (Row M), rows.map (·.u64) = u64s ∧ rows.map (·.vector) = vectors ∧
      ∀ row ∈ rows, P row := by
  induction u64s generalizing vectors with
  | nil =>
    obtain rfl := List.length_eq_zero_iff.mp hlength.symm
    exact ⟨[], rfl, rfl, nofun⟩
  | cons u64 u64s ih =>
    cases vectors with
    | nil => cases hlength
    | cons vector vectors =>
      obtain ⟨rows, hu64s, hvectors, hrows⟩ := ih (Nat.succ.inj hlength)
        fun u64 hu64 => h u64 (List.mem_cons_of_mem _ hu64)
      obtain ⟨row, hu64, hvector, hrow⟩ := h u64 List.mem_cons_self vector
      exact ⟨row :: rows, congrArg₂ List.cons hu64 hu64s, congrArg₂ List.cons hvector hvectors,
        List.forall_mem_cons.mpr ⟨hrow, hrows⟩⟩

/-- The slot table of the constructor agrees with the map in both directions. -/
theorem Made.indexes (h : Made store) : SlotTable.Indexes store.u64ToSlot store.slotToU64 := by
  have hconsistent := h.consistent
  simp only [validateConsistency, Bool.and_eq_true, decide_eq_true_eq] at hconsistent
  obtain ⟨⟨⟨-, hslots⟩, -⟩, -⟩ := hconsistent
  have hmap := h.slots
  simp only [slotMap, Option.bind_eq_bind, Option.bind_eq_some_iff, Option.guard_eq_some',
    exists_const] at hmap
  obtain ⟨-, -, hread⟩ := hmap
  intro u64 slot
  constructor
  · intro hlookup
    exact (hslots ⟨u64, slot⟩ (Finmap.lookup_eq_some_iff.mp hlookup)).2
  · intro hslot
    have hentry := congrArg (·[slot]?) (Table.mapM_eq_some.mp hread)
    have hlt : slot < store.index.rows.length := by
      have hlength := congrArg List.length (Table.mapM_eq_some.mp hread)
      rw [List.length_map, List.length_map, List.length_range] at hlength
      exact hlength ▸ (List.getElem?_eq_some_iff.mp hslot).1
    simp only [List.getElem?_map, List.getElem?_range hlt, hslot, Option.map_some] at hentry
    have hmem := List.mem_of_mem_head? (Option.some.inj hentry)
    exact (Finset.mem_filter.mp ((Finset.mem_sort _).mp hmem)).2

/-- The rows of a store that the constructor has checked. -/
theorem Made.holds (h : Made store) : ∃ rows, Holds store rows [] := by
  have hindexes := h.indexes
  have hconsistent := h.consistent
  simp only [validateConsistency, Bool.and_eq_true, decide_eq_true_eq] at hconsistent
  obtain ⟨⟨⟨⟨⟨⟨⟨⟨hlength, hdocuments⟩, hmetadata⟩, hnodup⟩, hkeys⟩, hreverseKeys, hreverse⟩, -⟩, -⟩,
    hbelow⟩ := hconsistent
  have hvalue : ∀ {id u64}, store.stringToU64.lookup id = some u64 →
      u64 ∈ store.stringToU64.entries.map Sigma.snd := fun hid =>
    Multiset.mem_map.mpr ⟨⟨_, _⟩, Finmap.lookup_eq_some_iff.mp hid, rfl⟩
  have hid_of_value : ∀ {u64}, u64 ∈ store.stringToU64.entries.map Sigma.snd →
      ∃ id, store.stringToU64.lookup id = some u64 := by
    intro u64 hu64
    obtain ⟨⟨id, value⟩, hentry, rfl⟩ := Multiset.mem_map.mp hu64
    exact ⟨id, Finmap.lookup_eq_some_iff.mpr hentry⟩
  have hinjective : ∀ {id id' u64}, store.stringToU64.lookup id = some u64 →
      store.stringToU64.lookup id' = some u64 → id = id' := by
    intro id id' u64 hid hid'
    have hsame := Multiset.inj_on_of_nodup_map hnodup ⟨id, u64⟩
      (Finmap.lookup_eq_some_iff.mp hid) ⟨id', u64⟩ (Finmap.lookup_eq_some_iff.mp hid') rfl
    exact congrArg Sigma.fst hsame
  have hslotted : ∀ u64, u64 ∈ store.slotToU64 ↔
      u64 ∈ store.stringToU64.entries.map Sigma.snd := by
    intro u64
    rw [← hindexes.mem_iff, ← Finmap.mem_keys, hkeys, Multiset.mem_toFinset]
  obtain ⟨rows, hu64s, hvectors, hrows⟩ := @exists_rows _ (fun row : Row M =>
      store.stringToU64.lookup row.id = some row.u64 ∧
      store.documents.lookup row.id = some row.document ∧
      store.metadata.lookup row.id = some row.metadata) _ _ hlength (by
    intro u64 hu64 vector
    obtain ⟨id, hid⟩ := hid_of_value ((hslotted u64).mp hu64)
    have hkey : id ∈ store.stringToU64.keys :=
      Finmap.mem_keys.mpr (Finmap.mem_of_lookup_eq_some hid)
    obtain ⟨document, hdocument⟩ := Finmap.mem_iff.mp (Finmap.mem_keys.mp (hdocuments ▸ hkey))
    obtain ⟨metadata, hmetadata⟩ := Finmap.mem_iff.mp (Finmap.mem_keys.mp (hmetadata ▸ hkey))
    exact ⟨⟨u64, id, vector, document, metadata⟩, rfl, rfl, hid, hdocument, hmetadata⟩)
  -- every string id has its row
  have hrow : ∀ {id u64}, store.stringToU64.lookup id = some u64 →
      ∃ row ∈ rows, row.u64 = u64 ∧ row.id = id := by
    intro id u64 hid
    have hmem := (hslotted u64).mpr (hvalue hid)
    rw [← hu64s] at hmem
    obtain ⟨row, hstored, rfl⟩ := List.mem_map.mp hmem
    exact ⟨row, hstored, rfl, hinjective (hrows row hstored).1 hid⟩
  have hcolumn : ∀ {V : Type} (m : Finmap fun _ : String => V) (field : Row M → V),
      m.keys = store.stringToU64.keys →
      (∀ row ∈ rows, m.lookup row.id = some (field row)) → Column m rows [] field := by
    intro V m field hsame hfield id value
    constructor
    · intro hlookup
      have hkey : id ∈ store.stringToU64.keys :=
        hsame ▸ Finmap.mem_keys.mpr (Finmap.mem_of_lookup_eq_some hlookup)
      obtain ⟨u64, hid⟩ := Finmap.mem_iff.mp (Finmap.mem_keys.mp hkey)
      obtain ⟨row, hmem, -, rfl⟩ := hrow hid
      exact ⟨row, hmem, List.not_mem_nil, rfl,
        Option.some.inj ((hfield row hmem).symm.trans hlookup)⟩
    · rintro ⟨row, hmem, -, rfl, rfl⟩
      exact hfield row hmem
  refine ⟨rows, hu64s.symm, hindexes, hvectors.symm,
    hcolumn _ _ rfl fun row hmem => (hrows row hmem).1, fun u64 id => ?_,
    hcolumn _ _ hdocuments fun row hmem => (hrows row hmem).2.1,
    hcolumn _ _ hmetadata fun row hmem => (hrows row hmem).2.2, fun row hmem => ?_⟩
  · constructor
    · intro hlookup
      have hkey := Finmap.mem_keys.mpr (Finmap.mem_of_lookup_eq_some hlookup)
      rw [hreverseKeys, Multiset.mem_toFinset] at hkey
      obtain ⟨id', hid'⟩ := hid_of_value hkey
      have hback := hreverse ⟨id', u64⟩ (Finmap.lookup_eq_some_iff.mp hid')
      rw [hlookup] at hback
      obtain rfl := Option.some.inj hback
      exact hrow hid'
    · rintro ⟨row, hmem, rfl, rfl⟩
      exact hreverse ⟨row.id, row.u64⟩ (Finmap.lookup_eq_some_iff.mp (hrows row hmem).1)
  · exact hbelow row.u64 (hvalue (hrows row hmem).1)

/-! ## Sound stores -/

/-- An index without a dimension has no rows. -/
def Lazy (store : WorkingCopy M) : Prop := store.index.dimOpt = none → store.index.rows = []

theorem answer_lazy [EmptyCollection M] (h : Lazy store) (call : Call M) :
    Lazy (store.answer call).2 := by
  refine answer_index (P := fun index => index.dimOpt = none → index.rows = [])
    (fun index next slot h hremove hnone => ?_) (fun vectors _ _ hnone => ?_) h call
  · obtain ⟨hlt, rfl⟩ := swapRemove_eq_some hremove
    have hempty : index.rows = [] := h hnone
    rw [hempty] at hlt
    cases hlt
  · cases hnone

/-- What every reachable store keeps. -/
structure Sound (store : WorkingCopy M) : Prop where
  holds : ∃ rows, Holds store rows []
  lazyIndex : Lazy store

theorem Holds.simulates (h : Holds store rows []) : ∃ map, Simulates store map := by
  have hids : (rows.map (·.id)).Nodup := List.Nodup.map_on (fun row hrow row' hrow' hsame =>
    h.eq_of_id hrow hrow' List.not_mem_nil List.not_mem_nil hsame) h.nodup.of_map
  refine ⟨insertAll ∅ (rows.map fun row => (row.id, row.record)), rows, h, fun id value => ?_⟩
  have hfirsts : ((rows.map fun row => (row.id, row.record)).map Prod.fst).Nodup := by
    rw [List.map_map]
    exact hids
  rw [lookup_insertAll hfirsts]
  simp [and_comm, eq_comm]

theorem Made.sound (h : Made store) : Sound store := ⟨h.holds, h.lazyIndex⟩

theorem Sound.answer [EmptyCollection M] (h : Sound store) (call : Call M) :
    Sound (store.answer call).2 := by
  obtain ⟨rows, hholds⟩ := h.holds
  obtain ⟨map, hsimulates⟩ := hholds.simulates
  obtain ⟨rest, hrest, -⟩ := (call_kept hsimulates call).2
  exact ⟨⟨rest, hrest⟩, answer_lazy h.lazyIndex call⟩

/-! ## The ranking -/

section Ranking

variable {native : NativeSearch} {store : WorkingCopy (Metadata C)} {rows : List (Row (Metadata C))}
  {query : List F32} {k : Nat} {filter : Filter C}

/-- All records, in the order of the index for a query. -/
def ranking (native : NativeSearch) (store : WorkingCopy M) (query : List F32) :
    List (AdapterRecord M) :=
  (native.order store.index query).filterMap fun slot =>
    store.foundRecord (native.score store.index query slot, (slot : Int))

/-- The record of a row that was found at a slot. -/
def found (native : NativeSearch) (store : WorkingCopy M) (query : List F32) (slot : Nat)
    (row : Row M) : AdapterRecord M :=
  ⟨row.id, row.document, row.metadata, native.score store.index query slot, row.u64⟩

theorem Holds.foundRecord_eq {store : WorkingCopy M} {rows : List (Row M)}
    (h : Holds store rows []) (native : NativeSearch) (query : List F32) (slot : Nat) :
    store.foundRecord (native.score store.index query slot, (slot : Int)) =
      rows[slot]?.map (found native store query slot) := by
  have hpositive : (0 : Int) ≤ slot := Int.natCast_nonneg slot
  unfold foundRecord
  rw [h.slots]
  simp only [Int.toNat_natCast, List.getElem?_map]
  cases hrow : rows[slot]? with
  | none => simp
  | some row =>
    have hmem := List.mem_of_getElem? hrow
    have hid := (h.reverse row.u64 row.id).mpr ⟨row, hmem, rfl, rfl⟩
    have hdocument := (h.documents row.id row.document).mpr ⟨row, hmem, by simp, rfl, rfl⟩
    have hmetadata := (h.metadata row.id row.metadata).mpr ⟨row, hmem, by simp, rfl, rfl⟩
    simp [hid, hdocument, hmetadata, found]

/-- The record satisfies the filter; without a filter every record does. -/
def Selected (filter : Option (Filter C)) (record : AdapterRecord (Metadata C)) : Prop :=
  ∀ given, filter = some given → given.Satisfied record.document record.metadata

/-- The ids of the rows that satisfy the filter. -/
theorem Holds.mem_allowlist (h : Holds store rows []) {allowlist : Multiset Nat}
    (hallow : store.filterToU64Allowlist filter = some allowlist) {row : Row (Metadata C)}
    (hrow : row ∈ rows) :
    row.u64 ∈ allowlist ↔ filter.Satisfied row.document row.metadata := by
  simp only [filterToU64Allowlist, Option.bind_eq_bind, Option.bind_eq_some_iff,
    Option.guard_eq_some', exists_const, Option.pure_def, Option.some.injEq] at hallow
  obtain ⟨-, hverdicts, rfl⟩ := hallow
  have hentry : ∀ row ∈ rows, (⟨row.id, row.u64⟩ : (_ : String) × Nat) ∈
      store.stringToU64.entries := fun row hrow =>
    Finmap.lookup_eq_some_iff.mp ((h.strings _ _).mpr ⟨row, hrow, by simp, rfl, rfl⟩)
  have hread : ∀ row ∈ rows, store.verdictOf filter row.id =
      filter.filterMatches row.metadata row.document := by
    intro row hrow
    unfold verdictOf
    rw [(h.documents _ _).mpr ⟨row, hrow, by simp, rfl, rfl⟩,
      (h.metadata _ _).mpr ⟨row, hrow, by simp, rfl, rfl⟩]
    rfl
  obtain ⟨verdict, hverdict⟩ := Option.isSome_iff_exists.mp (hverdicts _ (hentry row hrow))
  rw [hread row hrow] at hverdict
  rw [← Filter.filterMatches_spec hverdict, Multiset.mem_map]
  constructor
  · rintro ⟨⟨id, u64⟩, hmem, rfl⟩
    obtain ⟨hmem, hmatch⟩ := Multiset.mem_filter.mp hmem
    obtain ⟨other, hother, -, rfl, hsame⟩ :=
      (h.strings id row.u64).mp (Finmap.lookup_eq_some_iff.mpr hmem)
    obtain rfl := h.eq_of_u64 hother hrow hsame
    have hmatch : store.verdictOf filter other.id = some true := hmatch
    rw [hread other hother, hverdict] at hmatch
    exact Option.some.inj hmatch
  · rintro rfl
    refine ⟨⟨row.id, row.u64⟩, Multiset.mem_filter.mpr ⟨hentry row hrow, ?_⟩, rfl⟩
    rw [hread row hrow, hverdict]

/-- The mask allows the slots of the allowed ids. -/
theorem Holds.maskAllows_iff (h : Holds store rows []) {allowlist : Multiset Nat} {mask : List Bool}
    (hmask : store.maskOf allowlist = some mask) {slot : Nat} {row : Row (Metadata C)}
    (hrow : rows[slot]? = some row) :
    maskAllows (some mask) slot = true ↔ row.u64 ∈ allowlist := by
  simp only [maskOf, Option.bind_eq_bind, Option.bind_eq_some_iff, Option.guard_eq_some',
    exists_const, Option.pure_def, Option.some.injEq] at hmask
  obtain ⟨-, rfl⟩ := hmask
  have hslot : store.slotToU64[slot]? = some row.u64 := by
    rw [h.slots, List.getElem?_map, hrow]
    rfl
  have hlt := (List.getElem?_eq_some_iff.mp hslot).1
  simp only [maskAllows, Option.all_some, List.getElem?_map, List.getElem?_range hlt,
    Option.map_some, decide_eq_true_eq, Option.some.injEq, Multiset.mem_map]
  constructor
  · rintro ⟨u64, hmem, hlookup⟩
    have hback := (h.indexes u64 slot).mp hlookup
    obtain rfl := Option.some.inj (hslot.symm.trans hback)
    exact hmem
  · intro hmem
    exact ⟨row.u64, hmem, (h.indexes _ _).mpr hslot⟩

/-- The query of a search. -/
def queryOf (store : WorkingCopy M) (embedding : Option FloatArray) : List F32 :=
  (store.index.dimOpt.bind (queryArray embedding)).getD []

open Classical in
/-- The records that satisfy the filter, in the order of the index. -/
noncomputable def matching (native : NativeSearch) (store : WorkingCopy (Metadata C))
    (query : List F32) (filter : Option (Filter C)) : List (AdapterRecord (Metadata C)) :=
  (ranking native store query).filter fun record => Selected filter record

/-- The ranking lists every record once, with its own data, by descending score. -/
structure Ranks (native : NativeSearch) (store : WorkingCopy M) (query : List F32)
    (all : List (AdapterRecord M)) : Prop where
  nodup : (all.map (·.id)).Nodup
  covers : ∀ id, id ∈ all.map (·.id) ↔ id ∈ store.stringToU64
  owns : ∀ record ∈ all, ∃ slot vector, store.u64ToSlot.lookup record.u64Id = some slot ∧
    store.stringToU64.lookup record.id = some record.u64Id ∧
    store.get record.id = some ⟨vector, record.document, record.metadata⟩ ∧
    store.index.rows[slot]? = some vector ∧
    record.score = native.score store.index query slot
  sorted : all.Pairwise fun a b => b.score.totalKey ≤ a.score.totalKey

/-- What a search returns. -/
structure Exact (native : NativeSearch) (store : WorkingCopy (Metadata C)) (query : List F32)
    (k : Int) (filter : Option (Filter C)) (records : List (AdapterRecord (Metadata C))) :
    Prop where
  ranks : Ranks native store query (ranking native store query)
  best : records = (matching native store query filter).take k.toNat
  selected : ∀ record ∈ records, Selected filter record
  length : records.length = min k.toNat (matching native store query filter).length

/-- A filter passes through a map that agrees with it. -/
theorem filterMap_take_filter {α β : Type} {f : α → Option β} {p : α → Bool} {q : β → Bool}
    {l : List α} (h : ∀ a ∈ l, ∃ b, f a = some b ∧ p a = q b) (k : Nat) :
    ((l.filter p).take k).filterMap f = ((l.filterMap f).filter q).take k := by
  induction l generalizing k with
  | nil => simp
  | cons a l ih =>
    have hrest := ih fun a ha => h a (List.mem_cons_of_mem _ ha)
    obtain ⟨b, hb, hsame⟩ := h a List.mem_cons_self
    rw [List.filterMap_cons_some hb, List.filter_cons, List.filter_cons, ← hsame]
    cases p a with
    | false => exact hrest k
    | true =>
      cases k with
      | zero => rfl
      | succ k =>
        show List.filterMap f (a :: (l.filter p).take k) = b :: _
        rw [List.filterMap_cons_some hb, hrest k]

theorem filterMap_of_mapM {α β : Type} {f : α → Option β} {l : List α} {out : List β}
    (h : l.mapM f = some out) : l.filterMap f = out := by
  have hmap := Table.mapM_eq_some.mp h
  calc l.filterMap f = (l.map f).filterMap id := by rw [List.filterMap_map]; rfl
    _ = (out.map some).filterMap id := by rw [hmap]
    _ = out := by rw [List.filterMap_map]; exact List.filterMap_some

theorem map_getElem?_range {α : Type} (l : List α) :
    (List.range l.length).map (l[·]?) = l.map some := by
  refine List.ext_getElem (by simp) fun i hi hi' => ?_
  rw [List.length_map] at hi'
  simp [List.getElem?_eq_getElem hi']

section

variable {store : WorkingCopy M} {rows : List (Row M)}

/-- The slots that the index ranks are the slots of the rows. -/
theorem Holds.mem_order (h : Holds store rows []) {slot : Nat} :
    slot ∈ native.order store.index query ↔ slot < rows.length := by
  rw [(native.order_perm store.index query).mem_iff, List.mem_range, h.vectors, List.length_map]

theorem Holds.ranking_eq (h : Holds store rows []) : ranking native store query =
    (native.order store.index query).filterMap fun slot =>
      rows[slot]?.map (found native store query slot) := by
  unfold ranking
  simp only [h.foundRecord_eq native query]

/-- The ranking is a permutation of the rows with their slots' scores. -/
theorem Holds.ranking_ids (h : Holds store rows []) :
    ((ranking native store query).map (·.id)).Perm (rows.map (·.id)) := by
  rw [h.ranking_eq, List.map_filterMap]
  have hread : ∀ slot, ((rows[slot]?.map (found native store query slot)).map (·.id)) =
      (rows.map (·.id))[slot]? := fun slot => by
    rw [Option.map_map, List.getElem?_map]
    rfl
  simp only [hread]
  have hlength : store.index.rows.length = (rows.map (·.id)).length := by
    rw [h.vectors, List.length_map, List.length_map]
  refine ((native.order_perm store.index query).filterMap _).trans ?_
  rw [hlength]
  exact .of_eq (filterMap_of_mapM (Table.mapM_eq_some.mpr (map_getElem?_range _)))

theorem Holds.ranks (h : Holds store rows []) :
    Ranks native store query (ranking native store query) := by
  have hids : (rows.map (·.id)).Nodup := List.Nodup.map_on (fun row hrow row' hrow' hsame =>
    h.eq_of_id hrow hrow' List.not_mem_nil List.not_mem_nil hsame) h.nodup.of_map
  refine ⟨h.ranking_ids.nodup_iff.mpr hids, fun id => ?_, fun record hrecord => ?_, ?_⟩
  · rw [h.ranking_ids.mem_iff, ← Finmap.mem_keys, h.strings.keys, List.mem_map]
    simp
  · rw [h.ranking_eq] at hrecord
    obtain ⟨slot, -, hread⟩ := List.mem_filterMap.mp hrecord
    obtain ⟨row, hrow, rfl⟩ := Option.map_eq_some_iff.mp hread
    have hmem := List.mem_of_getElem? hrow
    refine ⟨slot, row.vector, (h.indexes row.u64 slot).mpr ?_,
      (h.strings row.id row.u64).mpr ⟨row, hmem, List.not_mem_nil, rfl, rfl⟩,
      h.get_eq_some.mpr ⟨row, hmem, rfl, rfl⟩, ?_, rfl⟩
    · rw [h.slots, List.getElem?_map, hrow]
      rfl
    · rw [h.vectors, List.getElem?_map, hrow]
      rfl
  · rw [h.ranking_eq]
    refine (native.order_sorted store.index query).filterMap _ ?_
    intro slot slot' hle record hrecord record' hrecord'
    obtain ⟨row, -, rfl⟩ := Option.map_eq_some_iff.mp hrecord
    obtain ⟨row', -, rfl⟩ := Option.map_eq_some_iff.mp hrecord'
    exact hle

end

/-- The records of the hits of a masked search. -/
theorem Holds.found_best (h : Holds store rows []) {mask : Option (List Bool)}
    {hits : List (F32 × Int)} {records : List (AdapterRecord (Metadata C))}
    {given : Option (Filter C)} (hmask : ∀ slot row, rows[slot]? = some row →
      (maskAllows mask slot = true ↔ Selected given (found native store query slot row)))
    (hsearch : native.search store.index query k mask = some hits)
    (hrecords : hits.mapM store.foundRecord = some records) :
    records = (matching native store query given).take k := by
  classical
  rw [native.search_best hsearch] at hrecords
  have hread := filterMap_of_mapM hrecords
  rw [List.filterMap_map] at hread
  rw [← hread, matching, ranking]
  refine filterMap_take_filter (fun slot hslot => ?_) k
  obtain ⟨row, hrow⟩ : ∃ row, rows[slot]? = some row :=
    ⟨_, List.getElem?_eq_getElem (h.mem_order.mp hslot)⟩
  refine ⟨found native store query slot row, ?_, ?_⟩
  · show store.foundRecord (native.score store.index query slot, (slot : Int)) = _
    rw [h.foundRecord_eq, hrow]
    rfl
  · rw [Bool.eq_iff_iff, hmask slot row hrow, decide_eq_true_eq]

theorem matching_of_empty {given : Option (Filter C)} (hempty : ranking native store query = []) :
    matching native store query given = [] := by
  rw [matching, hempty]
  rfl

/-- Nothing is ranked when there are no rows. -/
theorem Holds.ranking_nil (h : Holds store rows []) (hrows : rows = []) :
    ranking native store query = [] := by
  have hids : ((ranking native store query).map (·.id)).Perm (rows.map (·.id)) := h.ranking_ids
  rw [hrows, List.map_nil, List.perm_nil, List.map_eq_nil_iff] at hids
  exact hids

theorem Sound.searchByVector_best {given : Option (Filter C)} {k : Int}
    {embedding : Option FloatArray} {records : List (AdapterRecord (Metadata C))}
    (hsound : Sound store)
    (hsearch : searchByVector native store embedding k given none = some records) :
    records = (matching native store (store.queryOf embedding) given).take k.toNat := by
  classical
  obtain ⟨rows, h⟩ := hsound.holds
  unfold searchByVector at hsearch
  split at hsearch
  next => cases hsearch
  next hnonneg =>
  split at hsearch
  next hnothing =>
    obtain rfl := Option.some.inj hsearch
    rcases hnothing with rfl | hempty
    · exact List.take_zero.symm
    -- no ids are no rows
    · have hrows : rows = [] := by
        refine List.eq_nil_iff_forall_not_mem.mpr fun row hrow => ?_
        have hkey := h.strings.keys.mpr ⟨row, hrow, List.not_mem_nil, rfl⟩
        rw [Finset.card_eq_zero.mp hempty] at hkey
        exact Finset.notMem_empty _ hkey
      rw [matching_of_empty (h.ranking_nil hrows), List.take_nil]
  next =>
    split at hsearch
    next hnone =>
      obtain rfl := Option.some.inj hsearch
      have hvectors := h.vectors
      rw [hsound.lazyIndex hnone] at hvectors
      rw [matching_of_empty (h.ranking_nil (List.map_eq_nil_iff.mp hvectors.symm)), List.take_nil]
    next dim hdim =>
      obtain ⟨query, hquery, hsearch⟩ := Option.bind_eq_some_iff.mp hsearch
      obtain ⟨allowlist, hallowlist, hsearch⟩ := Option.bind_eq_some_iff.mp hsearch
      have hquery : store.queryOf embedding = query := by
        rw [queryOf, hdim, Option.bind_some, hquery, Option.getD_some]
      rw [hquery]
      cases given with
      | none =>
        obtain rfl := Option.some.inj hallowlist
        obtain ⟨hits, hhits, hrecords⟩ := Option.bind_eq_some_iff.mp hsearch
        exact h.found_best (fun slot row hrow => iff_of_true rfl nofun) hhits hrecords
      | some filter =>
        obtain ⟨u64s, hfilter, rfl⟩ := Option.map_eq_some_iff.mp hallowlist
        have hselected : ∀ slot row, rows[slot]? = some row →
            (row.u64 ∈ u64s ↔ Selected (some filter) (found native store query slot row)) := by
          intro slot row hrow
          rw [h.mem_allowlist hfilter (List.mem_of_getElem? hrow)]
          exact ⟨fun hsatisfied given hgiven => Option.some.inj hgiven ▸ hsatisfied,
            fun hall => hall filter rfl⟩
        split at hsearch
        next hnone =>
          obtain rfl := Option.some.inj hsearch
          obtain rfl := Option.some.inj hnone
          have hmatching : matching native store query (some filter) = [] := by
            refine List.filter_eq_nil_iff.mpr fun record hrecord => ?_
            rw [h.ranking_eq] at hrecord
            obtain ⟨slot, -, hread⟩ := List.mem_filterMap.mp hrecord
            obtain ⟨row, hrow, rfl⟩ := Option.map_eq_some_iff.mp hread
            rw [decide_eq_true_eq, ← hselected slot row hrow]
            exact Multiset.notMem_zero _
          rw [hmatching, List.take_nil]
        next =>
          obtain ⟨mask, hmask, hsearch⟩ := Option.bind_eq_some_iff.mp hsearch
          obtain ⟨bits, hbits, rfl⟩ := Option.map_eq_some_iff.mp hmask
          obtain ⟨hits, hhits, hrecords⟩ := Option.bind_eq_some_iff.mp hsearch
          refine h.found_best (fun slot row hrow => ?_) hhits hrecords
          rw [h.maskAllows_iff hbits hrow, hselected slot row hrow]

end Ranking

/-- A filtered search is exact in every reachable store. -/
theorem filtered_search_exact (native : NativeSearch) (start : WorkingCopy (Metadata C))
    (hstart : Made start) (calls : List (Call (Metadata C))) (embedding : Option FloatArray)
    (k : Int) (filter : Option (Filter C)) (records : List (AdapterRecord (Metadata C)))
    (hsearch : searchByVector native (Machine.runCalls answer start calls).2 embedding k filter
      none = some records) :
    Exact native (Machine.runCalls answer start calls).2
      ((Machine.runCalls answer start calls).2.queryOf embedding) k filter records := by
  have hsound : Sound (Machine.runCalls answer start calls).2 :=
    Machine.runCalls_invariant (fun _ call h => h.answer call) hstart.sound calls
  obtain ⟨rows, h⟩ := hsound.holds
  have hbest := hsound.searchByVector_best hsearch
  refine ⟨h.ranks, hbest, fun record hrecord => ?_, ?_⟩
  · classical
    rw [hbest] at hrecord
    exact of_decide_eq_true (List.mem_filter.mp (List.mem_of_mem_take hrecord)).2
  · rw [hbest, List.length_take]

/-- A native search for which every slot scores zero. -/
def flatNative : NativeSearch where
  score _ _ _ := .zero
  order index _ := List.range index.rows.length
  order_perm _ _ := List.Perm.refl _
  order_sorted _ _ := List.pairwise_of_forall fun _ _ => le_rfl
  search index _ k mask :=
    some ((((List.range index.rows.length).filter (maskAllows mask)).take k).map fun slot : Nat =>
      (.zero, (slot : Int)))
  search_best h := (Option.some.inj h).symm

/-- Three rows of zeros in two languages. -/
def languageRows : AddArguments (Metadata Unit) where
  ids := [.str "a", .str "b", .str "c"]
  embeddings := some ⟨[3, 8], List.replicate 24 .zero, rfl⟩
  documents := [.str "one", .str "eins", .str "two"]
  metadatas := some [.dict ((∅ : Metadata Unit).insert "lang" (.str "en")),
    .dict ((∅ : Metadata Unit).insert "lang" (.str "de")),
    .dict ((∅ : Metadata Unit).insert "lang" (.str "en"))]
  upsert := false

def isEnglish : Filter Unit :=
  .ofMetadata fun metadata => .returned (match metadata.lookup "lang" with
    | some (.str text) => text = "en"
    | _ => false)

theorem languageRows_search_exact :
    Exact flatNative (Machine.runCalls answer (new 2 none) [.add languageRows]).2
      (List.replicate 8 .zero) 3 (some isEnglish)
      [⟨"a", "one", (∅ : Metadata Unit).insert "lang" (.str "en"), .zero, 1⟩,
        ⟨"c", "two", (∅ : Metadata Unit).insert "lang" (.str "en"), .zero, 3⟩] :=
  filtered_search_exact flatNative (new 2 none) (made_new 2 none) [.add languageRows]
    (some ⟨[8], List.replicate 8 .zero, rfl⟩) 3 (some isEnglish) _ rfl

end WorkingCopy

end OrdinalDB.Adapter
