import OrdinalDB.Hybrid.DenseBatch
import OrdinalDB.Index.IdMapRefinement

/-!
# Searching under ids

`search_checked_with_allowlist` of `id_map.rs`. It turns the allowed ids into slots, and the dense
index scans these for every query in a task of the pool: `search_repeated_candidates_parallel`,
which the batches of `ordinal.rs` do not use. The slots of the results become ids again.

`id_map_allowlist_search`: every query has its best allowed ids, as it has alone.
-/

namespace OrdinalDB

open Float32Bits (F32)
open Chunks Outcome Hybrid

variable {R S : Type}

/-! ## Definitions -/

inductive IdMapSearchError
  | search (stop : Stop)
  | candidateSlotOutOfRange (slot : UInt32)
  | allowlistRowIdMissing (rowId : UInt64)
  | slotIndexOverflow (slot : Nat)
  | resultCountOverflow
  | shapeMismatch (nq k scores indices : Nat)
  | slotOutOfRange (slot : Nat)
deriving DecidableEq, Repr

abbrev IdMapResult := Except IdMapSearchError

namespace OrdinalIndex

/-- One task a query; `none` is a panic. -/
def searchRepeatedCandidatesParallel (scans : Scans R S) (pool : Pool) (rankquant : RankQuant R)
    (queries : List F32) (candidates : List UInt32) (effectiveK nq dim : Nat) :
    Option SearchResults :=
  if effectiveK = 0 then some (emptyResults nq)
  else do
    let outLen ← checkedMul nq effectiveK
    -- chunks of no length panic
    guard (0 < dim)
    let tasks := min (count dim queries.length) (count effectiveK outLen)
    let write (buffers : List F32 × List Int64) (task : Nat) : List F32 × List Int64 :=
      let out := scans.searchAsymmetricSubset rankquant (chunk dim queries task) candidates
        effectiveK
      (writeChunk effectiveK buffers.1 task (out.map Prod.fst),
        writeChunk effectiveK buffers.2 task (out.map Prod.snd))
    let buffers := (pool.order tasks).foldl write
      (List.replicate outLen negInfinity, List.replicate outLen (-1))
    pure ⟨buffers.1, buffers.2, nq, effectiveK⟩

/-- `none` is a panic, as is every assertion that fails. -/
def searchWithCandidates (scans : Scans R S) (pool : Pool) (self : OrdinalIndex R S)
    (queries : List F32) (k : Nat) (candidates : List UInt32) : Option SearchResults :=
  match self.dim with
  | none => some (emptyResults 0)
  | some dim => do
    guard (0 < dim)
    let nq := queries.length / dim
    guard (queries.length = nq * dim)
    guard (firstInvalidCoord queries dim).isNone
    guard (∀ candidate ∈ candidates, candidate.toNat < self.len)
    let effectiveK := min k candidates.length
    if effectiveK = 0 then pure ⟨[], [], nq, 0⟩
    else do
      let inner ← self.inner
      searchRepeatedCandidatesParallel scans pool inner queries candidates effectiveK nq dim

def searchCheckedWithCandidates (scans : Scans R S) (pool : Pool) (self : OrdinalIndex R S)
    (queries : List F32) (k : Nat) (candidates : List UInt32) : IdMapResult SearchResults :=
  match self.dim with
  | none => .ok (emptyResults 0)
  | some dim => do
    let nq ← (validateQueryBuffer queries dim).mapError .search
    let _ ← (checkedResultBufferLen nq (min k candidates.length)).mapError .search
    match candidates.find? fun candidate => self.len ≤ candidate.toNat with
    | some candidate => .error (.candidateSlotOutOfRange candidate)
    | none =>
      (orPanic (searchWithCandidates scans pool self queries k candidates)).mapError .search

end OrdinalIndex

/-- `validate_search_results_shape`. -/
def validateSearchResultsShape (results : SearchResults) : IdMapResult Unit := do
  let expected ← okOr (checkedMul results.nq results.k) .resultCountOverflow
  reject (results.scores.length ≠ expected ∨ results.indices.length ≠ expected)
    (.shapeMismatch results.nq results.k results.scores.length results.indices.length)

namespace IdMapIndex

def candidateSlot (self : IdMapIndex R S) (id : UInt64) : IdMapResult UInt32 :=
  match self.idToSlot.lookup id with
  | none => .error (.allowlistRowIdMissing id)
  | some slot => if slot < 2 ^ 32 then .ok (UInt32.ofNat slot) else .error (.slotIndexOverflow slot)

def candidateSlotsFromAllowlist (self : IdMapIndex R S) (ids : List UInt64) :
    IdMapResult (List UInt32) := do
  let candidates ← ids.mapM self.candidateSlot
  pure (dedup (candidates.insertionSort (· ≤ ·)))

def searchResultsChecked (scans : Scans R S) (pool : Pool) (self : IdMapIndex R S)
    (queries : List F32) (k : Nat) (allowlist : Option (List UInt64)) :
    IdMapResult SearchResults :=
  match allowlist with
  | none => (self.inner.searchChecked scans pool queries k).mapError .search
  | some ids => do
    let candidates ← self.candidateSlotsFromAllowlist ids
    self.inner.searchCheckedWithCandidates scans pool queries k candidates

/-- A negative slot is padding. -/
def rowIdForSlot (self : IdMapIndex R S) (slot : Int64) : IdMapResult (Option UInt64) :=
  if slot < 0 then .ok none
  else do
    let id ← okOr self.slotToId[slot.toInt.toNat]? (.slotOutOfRange slot.toInt.toNat)
    pure (some id)

/-- One round of a loop over results, which drops the padding. -/
def keepFound {B : Type} (self : IdMapIndex R S) (push : B → F32 → UInt64 → B) (out : B)
    (entry : F32 × Int64) : IdMapResult B := do
  match ← self.rowIdForSlot entry.2 with
  | none => pure out
  | some rowId => pure (push out entry.1 rowId)

def scoresIdsFromResults (self : IdMapIndex R S) (results : SearchResults) :
    IdMapResult (List F32 × List UInt64) := do
  validateSearchResultsShape results
  (results.scores.zip results.indices).foldlM
    (self.keepFound fun out score rowId => (out.1 ++ [score], out.2 ++ [rowId])) ([], [])

def searchCheckedWithAllowlist (scans : Scans R S) (pool : Pool) (self : IdMapIndex R S)
    (queries : List F32) (k : Nat) (allowlist : Option (List UInt64)) :
    IdMapResult (List F32 × List UInt64) := do
  let results ← self.searchResultsChecked scans pool queries k allowlist
  self.scoresIdsFromResults results

end IdMapIndex

/-- The best `k` of the allowed ids, best first and each of them once. -/
structure BestAllowed (score : UInt64 → F32) (ids : List UInt64) (k : Nat)
    (hits : List (F32 × UInt64)) : Prop where
  count : hits.length = min k ids.toFinset.card
  nodup : (hits.map Prod.snd).Nodup
  allowed : ∀ hit ∈ hits, hit.2 ∈ ids ∧ hit.1 = score hit.2
  sorted : hits.Pairwise fun a b => b.1.totalKey ≤ a.1.totalKey
  others : ∀ id ∈ ids, id ∉ hits.map Prod.snd →
    ∀ hit ∈ hits, (score id).totalKey ≤ hit.1.totalKey

/-! ## The parallel scan -/

section Scan

variable {scans : Scans R S} {pool : Pool} {rank : RankQuant R} {rows : List (List F32)}
  {candidates : List UInt32} {k : Nat}

theorem count_whole {width : Nat} (hwidth : 0 < width) (n : Nat) : count width (n * width) = n := by
  have h := count_mul hwidth Nat.one_pos n
  rw [Nat.one_mul] at h
  rw [h, count, Nat.add_sub_cancel, Nat.div_one]

/-- The tasks fill a buffer with one part of the entries. -/
theorem fill_entries {A : Type} {entries : List (List A)} (hk : 0 < k)
    (hwidth : ∀ row ∈ entries, row.length = k) (first : A) {out : Nat → List A}
    (hout : ∀ i < entries.length, out i = chunk k entries.flatten i) :
    (pool.order (count k (entries.length * k))).foldl
      (fun buffer task => writeChunk k buffer task (out task))
      (List.replicate (entries.length * k) first) = entries.flatten := by
  have hlength := flatten_length hwidth
  have hperm := pool.order_perm (count k (entries.length * k))
  have hsame : ∀ (order : List Nat) (buffer : List A), (∀ i ∈ order, i < entries.length) →
      order.foldl (fun buffer task => writeChunk k buffer task (out task)) buffer =
        order.foldl (fun buffer task => writeChunk k buffer task (chunk k entries.flatten task))
          buffer := by
    intro order
    induction order with
    | nil => exact fun _ _ => rfl
    | cons task order ih =>
      intro buffer hall
      obtain ⟨hfirst, hrest⟩ := List.forall_mem_cons.mp hall
      rw [List.foldl_cons, List.foldl_cons, hout task hfirst, ih _ hrest]
  rw [hsame _ _ fun i hi => by
    have hmem := hperm.mem_iff.mp hi
    rwa [List.mem_range, count_whole hk] at hmem]
  exact writeChunks_eq hk (by rw [List.length_replicate, hlength]) (by rwa [hlength])

/-- Every query gets what the scan of one query gives. -/
theorem searchRepeatedCandidates_rows (hdim : 0 < rank.dim)
    (hrows : ∀ row ∈ rows, row.length = rank.dim) (hfits : rows.length * k < 2 ^ 64) :
    OrdinalIndex.searchRepeatedCandidatesParallel scans pool rank rows.flatten candidates k
        rows.length rank.dim =
      some ⟨(rows.flatMap fun row => scans.searchAsymmetricSubset rank row candidates k).map
          Prod.fst,
        (rows.flatMap fun row => scans.searchAsymmetricSubset rank row candidates k).map Prod.snd,
        rows.length, k⟩ := by
  let entries := rows.map fun row => scans.searchAsymmetricSubset rank row candidates k
  have hentries : entries.length = rows.length := List.length_map _
  have hwidth : ∀ {A : Type} (part : F32 × Int64 → A),
      ∀ row ∈ entries.map (List.map part), row.length = k := by
    intro A part
    refine List.forall_mem_map.mpr (List.forall_mem_map.mpr fun row _ => ?_)
    rw [List.length_map, scans.subset_length]
  have hflat : ∀ {A : Type} (part : F32 × Int64 → A),
      (rows.flatMap fun row => scans.searchAsymmetricSubset rank row candidates k).map part =
        (entries.map (List.map part)).flatten := by
    intro A part
    rw [List.map_flatMap, List.flatMap_def, List.map_map]
    rfl
  have hout : ∀ {A : Type} (part : F32 × Int64 → A), ∀ i < (entries.map (List.map part)).length,
      (scans.searchAsymmetricSubset rank (chunk rank.dim rows.flatten i) candidates k).map part =
        chunk k (entries.map (List.map part)).flatten i := by
    intro A part i hi
    rw [List.length_map, hentries] at hi
    rw [row_flatten hrows (List.getElem?_eq_getElem hi)]
    refine (row_flatten (hwidth part) ?_).symm
    rw [List.getElem?_map, List.getElem?_map, List.getElem?_eq_getElem hi]
    rfl
  rw [hflat, hflat]
  unfold OrdinalIndex.searchRepeatedCandidatesParallel
  split
  next hzero =>
    have hnil : ∀ {A : Type} (part : F32 × Int64 → A), (entries.map (List.map part)).flatten = [] :=
      fun part => by
        rw [← List.length_eq_zero_iff, flatten_length (hwidth part), hzero, Nat.mul_zero]
    rw [hnil, hnil, hzero]
    rfl
  next hpositive =>
    have hk := Nat.pos_of_ne_zero hpositive
    have htasks : min (count rank.dim rows.flatten.length) (count k (rows.length * k)) =
        count k (rows.length * k) := by
      rw [flatten_length hrows, count_whole hdim, count_whole hk, min_self]
    have hfill : ∀ {A : Type} (part : F32 × Int64 → A) (first : A),
        (pool.order (count k (rows.length * k))).foldl (fun buffer task => writeChunk k buffer task
          ((scans.searchAsymmetricSubset rank (chunk rank.dim rows.flatten task) candidates k).map
            part)) (List.replicate (rows.length * k) first) =
          (entries.map (List.map part)).flatten := by
      intro A part first
      have h := @fill_entries pool k A (entries.map (List.map part)) hk (hwidth part) first _
        (hout part)
      rwa [List.length_map, hentries] at h
    have hpair := foldl_pair
      (fun buffer task => writeChunk k buffer task ((scans.searchAsymmetricSubset rank
        (chunk rank.dim rows.flatten task) candidates k).map Prod.fst))
      (fun buffer task => writeChunk k buffer task ((scans.searchAsymmetricSubset rank
        (chunk rank.dim rows.flatten task) candidates k).map Prod.snd))
      (pool.order (count k (rows.length * k))) (List.replicate (rows.length * k) negInfinity)
      (List.replicate (rows.length * k) (-1))
    rw [hfill, hfill] at hpair
    simp only [checkedMul_eq_some hfits, Option.bind_eq_bind, Option.bind_some, hdim, guard_true,
      htasks, Option.pure_def]
    rw [hpair]

end Scan

/-! ## Slots and ids -/

theorem foldl_push {A B : Type} (f : A → B) (l : List A) (out : List B) :
    l.foldl (fun out a => out ++ [f a]) out = out ++ l.map f := by
  induction l generalizing out with
  | nil => exact (List.append_nil out).symm
  | cons a l ih => rw [List.foldl_cons, ih, List.map_cons, List.append_assoc, List.singleton_append]

/-- The two parts of a list of pairs give it back. -/
theorem zip_parts {A B : Type} (l : List (A × B)) : (l.map Prod.fst).zip (l.map Prod.snd) = l := by
  rw [List.zip_map']
  exact List.map_id l

section Slots

variable {self : IdMapIndex R S} {ids : List UInt64} {candidates : List UInt32}

namespace IdMapIndex

/-- The id at a slot of the index. -/
def rowId (self : IdMapIndex R S) (slot : UInt32) : UInt64 := self.slotToId[slot.toNat]?.getD 0

theorem rowId_of_lookup (hindex : SlotTable.Indexes self.idToSlot self.slotToId) {id : UInt64}
    {slot : UInt32} (h : self.idToSlot.lookup id = some slot.toNat) : self.rowId slot = id := by
  rw [rowId, (hindex id _).mp h, Option.getD_some]

/-- Slots of stored ids have different ids. -/
theorem rowId_injOn (hindex : SlotTable.Indexes self.idToSlot self.slotToId)
    (hback : ∀ slot ∈ candidates, ∃ id ∈ ids, self.idToSlot.lookup id = some slot.toNat)
    {a b : UInt32} (ha : a ∈ candidates) (hb : b ∈ candidates) (h : self.rowId a = self.rowId b) :
    a = b := by
  obtain ⟨id, -, hid⟩ := hback a ha
  obtain ⟨other, -, hother⟩ := hback b hb
  rw [rowId_of_lookup hindex hid, rowId_of_lookup hindex hother] at h
  rw [h, hother] at hid
  exact (UInt32.toNat_inj.mp (Option.some.inj hid)).symm

theorem candidateSlot_eq_ok {id : UInt64} {slot : UInt32} :
    self.candidateSlot id = .ok slot ↔ self.idToSlot.lookup id = some slot.toNat := by
  unfold candidateSlot
  cases self.idToSlot.lookup id with
  | none => exact iff_of_false (fun h => by cases h) (fun h => by cases h)
  | some found =>
    simp only [Option.some.injEq]
    split
    next hsmall =>
      rw [Except.ok.injEq]
      constructor
      · rintro rfl
        exact (UInt32.toNat_ofNat_of_lt' hsmall).symm
      · rintro rfl
        exact UInt32.ofNat_toNat
    next hlarge =>
      refine iff_of_false (fun h => by cases h) fun h => hlarge ?_
      rw [h]
      exact slot.toNat_lt

/-- The candidates are the slots of the allowed ids, each of them once. -/
theorem candidateSlots_spec (hindex : SlotTable.Indexes self.idToSlot self.slotToId)
    (h : self.candidateSlotsFromAllowlist ids = .ok candidates) :
    candidates.Nodup ∧ candidates.length = ids.toFinset.card ∧
      (∀ id ∈ ids, ∃ slot ∈ candidates, self.idToSlot.lookup id = some slot.toNat) ∧
      ∀ slot ∈ candidates, ∃ id ∈ ids, self.idToSlot.lookup id = some slot.toNat := by
  obtain ⟨slots, hslots, hcandidates⟩ := bind_eq_ok.mp h
  obtain rfl := pure_eq_ok.mp hcandidates
  have hread := mapM_eq_ok.mp hslots
  have hmem : ∀ slot, slot ∈ dedup (slots.insertionSort (· ≤ ·)) ↔ slot ∈ slots := fun slot => by
    rw [mem_dedup, List.mem_insertionSort]
  have hnodup : (dedup (slots.insertionSort (· ≤ ·))).Nodup :=
    (dedup_strict (List.pairwise_insertionSort (· ≤ ·) slots)).imp UInt32.ne_of_lt
  have hforth : ∀ id ∈ ids, ∃ slot ∈ dedup (slots.insertionSort (· ≤ ·)),
      self.idToSlot.lookup id = some slot.toNat := by
    intro id hid
    have hok : self.candidateSlot id ∈ slots.map .ok := hread ▸ List.mem_map_of_mem hid
    obtain ⟨slot, hslot, heq⟩ := List.mem_map.mp hok
    exact ⟨slot, (hmem slot).mpr hslot, candidateSlot_eq_ok.mp heq.symm⟩
  have hback : ∀ slot ∈ dedup (slots.insertionSort (· ≤ ·)), ∃ id ∈ ids,
      self.idToSlot.lookup id = some slot.toNat := by
    intro slot hslot
    have hok : (.ok slot : IdMapResult UInt32) ∈ ids.map self.candidateSlot :=
      hread ▸ List.mem_map_of_mem ((hmem slot).mp hslot)
    obtain ⟨id, hid, heq⟩ := List.mem_map.mp hok
    exact ⟨id, hid, candidateSlot_eq_ok.mp heq⟩
  refine ⟨hnodup, ?_, hforth, hback⟩
  -- two slots have different ids
  have hids : ((dedup (slots.insertionSort (· ≤ ·))).map self.rowId).toFinset = ids.toFinset := by
    ext id
    rw [List.mem_toFinset, List.mem_toFinset, List.mem_map]
    constructor
    · rintro ⟨slot, hslot, rfl⟩
      obtain ⟨id, hid, hlookup⟩ := hback slot hslot
      rwa [rowId_of_lookup hindex hlookup]
    · intro hid
      obtain ⟨slot, hslot, hlookup⟩ := hforth id hid
      exact ⟨slot, hslot, rowId_of_lookup hindex hlookup⟩
  rw [← hids, List.toFinset_card_of_nodup, List.length_map]
  exact List.Nodup.map_on (fun a ha b hb => rowId_injOn hindex hback ha hb) hnodup

theorem candidateSlots_isOk (hindex : SlotTable.Indexes self.idToSlot self.slotToId) :
    (∃ candidates, self.candidateSlotsFromAllowlist ids = .ok candidates) ↔
      ∀ id ∈ ids, ∃ slot, self.idToSlot.lookup id = some slot ∧ slot < 2 ^ 32 := by
  constructor
  · rintro ⟨candidates, h⟩ id hid
    obtain ⟨slot, -, hlookup⟩ := (candidateSlots_spec hindex h).2.2.1 id hid
    exact ⟨slot.toNat, hlookup, slot.toNat_lt⟩
  · intro hall
    obtain ⟨slots, hslots⟩ := @exists_map_ok _ _ _ self.candidateSlot ids fun id hid => by
      obtain ⟨slot, hlookup, hsmall⟩ := hall id hid
      refine ⟨UInt32.ofNat slot, candidateSlot_eq_ok.mpr ?_⟩
      rw [hlookup, UInt32.toNat_ofNat_of_lt' hsmall]
    exact ⟨_, bind_eq_ok.mpr ⟨slots, mapM_eq_ok.mpr hslots, rfl⟩⟩

/-- The hit of an entry under its id. -/
def foundOf (self : IdMapIndex R S) (entry : F32 × Int64) : Option (F32 × UInt64) :=
  if entry.2 < 0 then none
  else (self.slotToId[entry.2.toInt.toNat]?).map fun rowId => (entry.1, rowId)

/-- The loop drops the padding and keeps the rest in order. -/
theorem foldlM_keepFound {B : Type} (push : B → F32 → UInt64 → B) {entries : List (F32 × Int64)}
    (out : B)
    (h : ∀ entry ∈ entries, entry.2 < 0 ∨ (self.slotToId[entry.2.toInt.toNat]?).isSome) :
    entries.foldlM (self.keepFound push) out =
      .ok ((entries.filterMap self.foundOf).foldl (fun out hit => push out hit.1 hit.2) out) := by
  induction entries generalizing out with
  | nil => rfl
  | cons entry entries ih =>
    obtain ⟨hentry, hrest⟩ := List.forall_mem_cons.mp h
    by_cases hpad : entry.2 < 0
    · have hkeep : self.keepFound push out entry = .ok out := by
        rw [keepFound, rowIdForSlot, if_pos hpad]
        rfl
      have hfound : self.foundOf entry = none := if_pos hpad
      rw [List.foldlM_cons, hkeep, ok_bind, ih out hrest, List.filterMap_cons_none hfound]
    · obtain ⟨id, hid⟩ := Option.isSome_iff_exists.mp (hentry.resolve_left hpad)
      have hkeep : self.keepFound push out entry = .ok (push out entry.1 id) := by
        rw [keepFound, rowIdForSlot, if_neg hpad, hid]
        rfl
      have hfound : self.foundOf entry = some (entry.1, id) := by
        rw [foundOf, if_neg hpad, hid]
        rfl
      rw [List.foldlM_cons, hkeep, ok_bind, ih _ hrest, List.filterMap_cons_some hfound,
        List.foldl_cons]

end IdMapIndex

end Slots

/-! ## Searches -/

section Searches

variable {scans : Scans R S} {pool : Pool} {subset : BestSubset scans} {self : IdMapIndex R S}
  {rank : RankQuant R} {ids : List UInt64} {candidates : List UInt32} {k : Nat}
  {queries : List F32}

theorem mapError_eq_ok {E F α : Type} {f : E → F} {result : Except E α} {a : α} :
    result.mapError f = .ok a ↔ result = .ok a := by
  cases result with
  | error e => exact iff_of_false (fun h => by cases h) (fun h => by cases h)
  | ok value => simp [Except.mapError]

theorem validateSearchResultsShape_ok {entries : List (F32 × Int64)} {nq : Nat}
    (hfits : nq * k < 2 ^ 64) (hcount : entries.length = nq * k) :
    validateSearchResultsShape ⟨entries.map Prod.fst, entries.map Prod.snd, nq, k⟩ = .ok () := by
  unfold validateSearchResultsShape
  rw [checkedMul_eq_some hfits]
  show reject _ _ = _
  rw [reject_eq_ok, List.length_map, List.length_map, hcount]
  exact not_or.mpr ⟨not_not_intro rfl, not_not_intro rfl⟩

/-- One query is a buffer of one row. -/
theorem rowsOf_single {dim : Nat} {row : List F32} (hdim : 0 < dim) (hrow : row.length = dim) :
    rowsOf dim row = [row] := by
  have h := OrdinalIndex.rowsOf_flatten hdim (List.forall_mem_singleton.mpr hrow)
  rwa [List.flatten_singleton] at h

/-- The entries of the results before the padding is dropped. -/
def entriesOf (scans : Scans R S) (rank : RankQuant R) (candidates : List UInt32) (k : Nat)
    (queries : List F32) : List (F32 × Int64) :=
  (rowsOf rank.dim queries).flatMap fun row => scans.searchAsymmetricSubset rank row candidates k

namespace IdMapIndex

/-- The score of a stored id. -/
def scoreOf (subset : BestSubset scans) (self : IdMapIndex R S) (rank : RankQuant R)
    (query : List F32) (id : UInt64) : F32 :=
  subset.score rank query (UInt32.ofNat ((self.idToSlot.lookup id).getD 0))

/-- What one query finds. -/
def hitsOf (subset : BestSubset scans) (self : IdMapIndex R S) (rank : RankQuant R)
    (candidates : List UInt32) (k : Nat) (query : List F32) : List (F32 × UInt64) :=
  ((subset.best rank query candidates).take k).map fun slot =>
    (subset.score rank query slot, self.rowId slot)

theorem hitsOf_min (query : List F32) : self.hitsOf subset rank candidates
    (min k candidates.length) query = self.hitsOf subset rank candidates k query := by
  have htake : (subset.best rank query candidates).take (min k candidates.length) =
      (subset.best rank query candidates).take k := by
    rw [List.take_eq_take_iff, length_best, min_assoc, min_self]
  rw [hitsOf, htake]
  rfl

theorem hitsOf_best (hindex : SlotTable.Indexes self.idToSlot self.slotToId)
    (h : self.candidateSlotsFromAllowlist ids = .ok candidates) (query : List F32) :
    BestAllowed (self.scoreOf subset rank query) ids k
      (self.hitsOf subset rank candidates k query) := by
  obtain ⟨hnodup, hlength, hforth, hback⟩ := candidateSlots_spec hindex h
  have hperm := subset.best_perm rank query candidates
  have hsorted := subset.best_sorted rank query candidates
  have hscore : ∀ {id : UInt64} {slot : UInt32}, self.idToSlot.lookup id = some slot.toNat →
      self.scoreOf subset rank query id = subset.score rank query slot := by
    intro id slot hlookup
    rw [scoreOf, hlookup, Option.getD_some, UInt32.ofNat_toNat]
  have hids : (self.hitsOf subset rank candidates k query).map Prod.snd =
      ((subset.best rank query candidates).take k).map self.rowId := by
    rw [hitsOf, List.map_map]
    rfl
  refine ⟨?_, ?_, ?_, ?_, ?_⟩
  · rw [hitsOf, List.length_map, List.length_take, length_best, hlength]
  · rw [hids]
    refine List.Nodup.map_on (fun a ha b hb => ?_)
      ((hperm.nodup_iff.mpr hnodup).sublist (List.take_sublist _ _))
    exact rowId_injOn hindex hback (hperm.mem_iff.mp (List.mem_of_mem_take ha))
      (hperm.mem_iff.mp (List.mem_of_mem_take hb))
  · intro hit hhit
    obtain ⟨slot, hslot, rfl⟩ := List.mem_map.mp hhit
    obtain ⟨id, hid, hlookup⟩ := hback slot (hperm.mem_iff.mp (List.mem_of_mem_take hslot))
    show self.rowId slot ∈ ids ∧ subset.score rank query slot =
      self.scoreOf subset rank query (self.rowId slot)
    rw [rowId_of_lookup hindex hlookup, hscore hlookup]
    exact ⟨hid, rfl⟩
  · rw [hitsOf, List.pairwise_map]
    exact hsorted.sublist (List.take_sublist _ _)
  · intro id hid hmissing hit hhit
    obtain ⟨slot, hslot, rfl⟩ := List.mem_map.mp hhit
    obtain ⟨other, hother, hlookup⟩ := hforth id hid
    rw [hscore hlookup]
    have hall : other ∈ (subset.best rank query candidates).take k ∨
        other ∈ (subset.best rank query candidates).drop k := by
      rw [← List.mem_append, List.take_append_drop]
      exact hperm.mem_iff.mpr hother
    rcases hall with htaken | hdropped
    · refine absurd ?_ hmissing
      rw [hids, ← rowId_of_lookup hindex hlookup]
      exact List.mem_map_of_mem htaken
    · rw [← List.take_append_drop k (subset.best rank query candidates)] at hsorted
      exact (List.pairwise_append.mp hsorted).2.2 slot hslot other hdropped

/-- The entries of one query: hits at slots of the index, then padding. -/
theorem subset_entries (subset : BestSubset scans) (hlen : rank.len = self.slotToId.length)
    (hnodup : candidates.Nodup) (hslots : ∀ slot ∈ candidates, slot.toNat < rank.len)
    (query : List F32) :
    (∀ entry ∈ scans.searchAsymmetricSubset rank query candidates k,
      entry.2 < 0 ∨ (self.slotToId[entry.2.toInt.toNat]?).isSome) ∧
    (scans.searchAsymmetricSubset rank query candidates k).filterMap self.foundOf =
      self.hitsOf subset rank candidates k query := by
  obtain ⟨padding, heq⟩ : ∃ padding, scans.searchAsymmetricSubset rank query candidates k = _ :=
    subset.subset_best hnodup hslots k
  have hpad : (-1 : Int64) < 0 := by decide
  have hindex : ∀ slot : UInt32, (Int64.ofNat slot.toNat).toInt = slot.toNat := fun slot =>
    Int64.toInt_ofNat_of_lt (slot.toNat_lt.trans (by norm_num))
  have hnonneg : ∀ slot : UInt32, ¬Int64.ofNat slot.toNat < 0 := fun slot => by
    rw [Int64.lt_iff_toInt_lt, hindex]
    exact not_lt.mpr (Int.natCast_nonneg _)
  have hstored : ∀ slot ∈ (subset.best rank query candidates).take k,
      self.slotToId[(Int64.ofNat slot.toNat).toInt.toNat]? = some (self.rowId slot) := by
    intro slot hslot
    have hlt : slot.toNat < self.slotToId.length := hlen ▸ hslots slot
      ((subset.best_perm _ _ _).mem_iff.mp (List.mem_of_mem_take hslot))
    rw [hindex, Int.toNat_natCast, rowId, List.getElem?_eq_getElem hlt, Option.getD_some]
  rw [heq]
  constructor
  · intro entry hentry
    rcases List.mem_append.mp hentry with hhit | hpadding
    · obtain ⟨slot, hslot, rfl⟩ := List.mem_map.mp hhit
      exact .inr (hstored slot hslot ▸ rfl)
    · obtain ⟨score, -, rfl⟩ := List.mem_map.mp hpadding
      exact .inl hpad
  · have hpadding :
        (padding.map fun score => (score, (-1 : Int64))).filterMap self.foundOf = [] := by
      rw [List.filterMap_map, List.filterMap_eq_nil_iff]
      intro score _
      show self.foundOf (score, -1) = none
      exact if_pos hpad
    rw [List.filterMap_append, hpadding, List.append_nil, List.filterMap_map, hitsOf,
      ← List.filterMap_eq_map]
    refine List.filterMap_congr fun slot hslot => ?_
    show self.foundOf (subset.score rank query slot, Int64.ofNat slot.toNat) = _
    rw [foundOf, if_neg (hnonneg slot), hstored slot hslot]
    rfl

theorem searchWithCandidates_eq (hshaped : self.Shaped) (hrank : self.inner.inner = some rank)
    (hslots : ∀ slot ∈ candidates, slot.toNat < rank.len)
    (hlength : queries.length = queries.length / rank.dim * rank.dim)
    (hvalid : ∀ v ∈ queries, validCoord v)
    (hfits : queries.length / rank.dim * min k candidates.length < 2 ^ 64) :
    self.inner.searchWithCandidates scans pool queries k candidates =
      some ⟨(entriesOf scans rank candidates (min k candidates.length) queries).map Prod.fst,
        (entriesOf scans rank candidates (min k candidates.length) queries).map Prod.snd,
        queries.length / rank.dim, min k candidates.length⟩ := by
  obtain ⟨hdim, -, hcompatible⟩ := hshaped.inner.rank rank hrank
  have hpositive : 0 < rank.dim := Nat.zero_lt_two.trans_le hcompatible.1
  obtain ⟨hcount, hflatten, hrows, -⟩ := rowsOf_whole hpositive hlength
  have hscan := @searchRepeatedCandidates_rows _ _ scans pool rank (rowsOf rank.dim queries)
    candidates (min k candidates.length) hpositive hrows (by rwa [hcount])
  rw [hcount, hflatten] at hscan
  have hinvalid : (firstInvalidCoord queries rank.dim).isNone = true := by
    rw [firstInvalidCoord_eq_none.mpr hvalid]
    rfl
  have hall : ∀ slot ∈ candidates, slot.toNat < self.inner.len := fun slot hslot => by
    rw [OrdinalIndex.len, hrank]
    exact hslots slot hslot
  unfold OrdinalIndex.searchWithCandidates
  rw [hdim]
  simp only [eq_true hpositive, ← hlength, eq_true hinvalid, eq_true hall,
    guard_true, Option.bind_eq_bind, Option.bind_some, hrank]
  split
  next hzero =>
    unfold OrdinalIndex.searchRepeatedCandidatesParallel at hscan
    rw [if_pos hzero] at hscan
    exact hscan
  next => exact hscan

theorem searchCheckedWithCandidates_eq_ok (hshaped : self.Shaped)
    (hrank : self.inner.inner = some rank) (hslots : ∀ slot ∈ candidates, slot.toNat < rank.len)
    {results : SearchResults} :
    self.inner.searchCheckedWithCandidates scans pool queries k candidates = .ok results ↔
      queries.length % rank.dim = 0 ∧ (∀ v ∈ queries, validCoord v) ∧
      queries.length / rank.dim * min k candidates.length < 2 ^ 64 ∧
      results =
        ⟨(entriesOf scans rank candidates (min k candidates.length) queries).map Prod.fst,
          (entriesOf scans rank candidates (min k candidates.length) queries).map Prod.snd,
          queries.length / rank.dim, min k candidates.length⟩ := by
  obtain ⟨hdim, -, hcompatible⟩ := hshaped.inner.rank rank hrank
  have hpositive : 0 < rank.dim := Nat.zero_lt_two.trans_le hcompatible.1
  have hlen : self.inner.len = rank.len := by
    rw [OrdinalIndex.len, hrank]
    rfl
  have hfree : (candidates.find? fun slot => decide (self.inner.len ≤ slot.toNat)) = none :=
    List.find?_eq_none.mpr fun slot hslot => by
      rw [decide_eq_true_iff, hlen, not_le]
      exact hslots slot hslot
  unfold OrdinalIndex.searchCheckedWithCandidates
  rw [hdim]
  by_cases hmod : queries.length % rank.dim = 0
  · have hlength : queries.length = queries.length / rank.dim * rank.dim :=
      (Nat.div_mul_cancel (Nat.dvd_of_mod_eq_zero hmod)).symm
    simp only [bind_eq_ok, mapError_eq_ok, validateQueryBuffer_eq_ok hpositive hlength, hfree]
    constructor
    · rintro ⟨_, ⟨hvalid, rfl⟩, len, hbuffer, hsearch⟩
      have hfits := checkedResultBufferLen_eq_ok.mp ⟨len, hbuffer⟩
      rw [searchWithCandidates_eq hshaped hrank hslots hlength hvalid hfits] at hsearch
      exact ⟨hmod, hvalid, hfits, (Except.ok.inj hsearch).symm⟩
    · rintro ⟨-, hvalid, hfits, rfl⟩
      obtain ⟨len, hbuffer⟩ := checkedResultBufferLen_eq_ok.mpr hfits
      refine ⟨_, ⟨hvalid, rfl⟩, len, hbuffer, ?_⟩
      rw [searchWithCandidates_eq hshaped hrank hslots hlength hvalid hfits]
      rfl
  · refine iff_of_false (fun h => ?_) fun h => hmod h.1
    obtain ⟨nq, hnq, -⟩ := bind_eq_ok.mp h
    rw [mapError_eq_ok] at hnq
    unfold validateQueryBuffer reject at hnq
    rw [if_pos (.inr hmod)] at hnq
    cases hnq

/-- The entries of all queries are read back under their ids. -/
theorem scoresIds_eq (subset : BestSubset scans) (hlen : rank.len = self.slotToId.length)
    (hnodup : candidates.Nodup) (hslots : ∀ slot ∈ candidates, slot.toNat < rank.len)
    (hfits : queries.length / rank.dim * min k candidates.length < 2 ^ 64) :
    self.scoresIdsFromResults
        ⟨(entriesOf scans rank candidates (min k candidates.length) queries).map Prod.fst,
          (entriesOf scans rank candidates (min k candidates.length) queries).map Prod.snd,
          queries.length / rank.dim, min k candidates.length⟩ =
      .ok ((rowsOf rank.dim queries).map (self.hitsOf subset rank candidates k)).flatten.unzip := by
  have hcount : (entriesOf scans rank candidates (min k candidates.length) queries).length =
      queries.length / rank.dim * min k candidates.length := by
    rw [entriesOf, List.flatMap_def, flatten_length (List.forall_mem_map.mpr fun row _ =>
      scans.subset_length _ _ _ _), List.length_map, rowsOf_length]
  have hfound : (entriesOf scans rank candidates (min k candidates.length) queries).filterMap
      self.foundOf =
      ((rowsOf rank.dim queries).map (self.hitsOf subset rank candidates k)).flatten := by
    rw [entriesOf, List.flatMap_def, List.filterMap_flatten, List.map_map]
    refine congrArg List.flatten (List.map_congr_left fun row _ => ?_)
    exact (subset_entries subset hlen hnodup hslots row).2.trans (hitsOf_min row)
  have hgood : ∀ entry ∈ entriesOf scans rank candidates (min k candidates.length) queries,
      entry.2 < 0 ∨ (self.slotToId[entry.2.toInt.toNat]?).isSome := by
    intro entry hentry
    obtain ⟨row, -, hrow⟩ := List.mem_flatMap.mp hentry
    exact (subset_entries subset hlen hnodup hslots row).1 entry hrow
  unfold scoresIdsFromResults
  rw [validateSearchResultsShape_ok hfits hcount, ok_bind, zip_parts, foldlM_keepFound _ _ hgood, hfound,
    foldl_pair (fun scores (hit : F32 × UInt64) => scores ++ [hit.1])
      (fun found (hit : F32 × UInt64) => found ++ [hit.2]),
    foldl_push Prod.fst, foldl_push Prod.snd, List.unzip_eq_map]
  rfl

/-- The candidates of an allowlist are rows of the store. -/
theorem candidates_stored (hshaped : self.Shaped) (hrank : self.inner.inner = some rank)
    (h : self.candidateSlotsFromAllowlist ids = .ok candidates) :
    rank.len = self.slotToId.length ∧ candidates.Nodup ∧
      ∀ slot ∈ candidates, slot.toNat < rank.len := by
  have hlen : rank.len = self.slotToId.length := by
    rw [← hshaped.len, OrdinalIndex.len, hrank]
    rfl
  obtain ⟨hnodup, -, -, hback⟩ := candidateSlots_spec hshaped.index h
  refine ⟨hlen, hnodup, fun slot hslot => ?_⟩
  obtain ⟨id, -, hlookup⟩ := hback slot hslot
  exact hlen ▸ (List.getElem?_eq_some_iff.mp ((hshaped.index id _).mp hlookup)).1

/-- When a search is accepted, and what it finds. -/
theorem searchChecked_iff (subset : BestSubset scans) (hshaped : self.Shaped)
    (hrank : self.inner.inner = some rank) {out : List F32 × List UInt64} :
    self.searchCheckedWithAllowlist scans pool queries k (some ids) = .ok out ↔
      ∃ candidates, self.candidateSlotsFromAllowlist ids = .ok candidates ∧
        queries.length % rank.dim = 0 ∧ (∀ v ∈ queries, validCoord v) ∧
        queries.length / rank.dim * min k candidates.length < 2 ^ 64 ∧
        out = ((rowsOf rank.dim queries).map
          (self.hitsOf subset rank candidates k)).flatten.unzip := by
  unfold searchCheckedWithAllowlist searchResultsChecked
  rw [bind_eq_ok]
  simp only [bind_eq_ok]
  constructor
  · rintro ⟨results, ⟨candidates, hcandidates, hsearch⟩, hout⟩
    obtain ⟨hlen, hnodup, hbound⟩ := candidates_stored hshaped hrank hcandidates
    obtain ⟨hmod, hvalid, hfits, rfl⟩ :=
      (searchCheckedWithCandidates_eq_ok hshaped hrank hbound).mp hsearch
    rw [scoresIds_eq subset hlen hnodup hbound hfits] at hout
    exact ⟨candidates, hcandidates, hmod, hvalid, hfits, (Except.ok.inj hout).symm⟩
  · rintro ⟨candidates, hcandidates, hmod, hvalid, hfits, rfl⟩
    obtain ⟨hlen, hnodup, hbound⟩ := candidates_stored hshaped hrank hcandidates
    exact ⟨_, ⟨candidates, hcandidates, (searchCheckedWithCandidates_eq_ok hshaped hrank
      hbound).mpr ⟨hmod, hvalid, hfits, rfl⟩⟩, scoresIds_eq subset hlen hnodup hbound hfits⟩

end IdMapIndex

open IdMapIndex in
/-- A search among allowed ids is accepted for whole rows of valid values when all the ids are
stored and the results fit. Whatever the order of the tasks, every query then has its `k` best
allowed ids, which it has alone too. -/
theorem id_map_allowlist_search (scans : Scans R S) (subset : BestSubset scans) (pool : Pool)
    (ov : Ordvec R S) (index : IdMapIndex R S) (hreached : index.Reached ov) (rank : RankQuant R)
    (hrank : index.inner.inner = some rank) (queries : List F32) (k : Nat) (ids : List UInt64) :
    ((∃ out, index.searchCheckedWithAllowlist scans pool queries k (some ids) = .ok out) ↔
      queries.length % rank.dim = 0 ∧ (∀ v ∈ queries, validCoord v) ∧
      (∀ id ∈ ids, ∃ slot, index.idToSlot.lookup id = some slot ∧ slot < 2 ^ 32) ∧
      queries.length / rank.dim * min k ids.toFinset.card < 2 ^ 64) ∧
    ∀ scores found,
      index.searchCheckedWithAllowlist scans pool queries k (some ids) = .ok (scores, found) →
      ∃ blocks : List (List (F32 × UInt64)), (scores, found) = blocks.flatten.unzip ∧
        List.Forall₂ (fun query block =>
          BestAllowed (index.scoreOf subset rank query) ids k block ∧
          index.searchCheckedWithAllowlist scans pool query k (some ids) = .ok block.unzip)
          (rowsOf rank.dim queries) blocks := by
  have hshaped := hreached.shaped
  obtain ⟨hdim, -, hcompatible⟩ := hshaped.inner.rank rank hrank
  have hpositive : 0 < rank.dim := Nat.zero_lt_two.trans_le hcompatible.1
  refine ⟨⟨?_, ?_⟩, fun scores found hsearch => ?_⟩
  · rintro ⟨out, hout⟩
    obtain ⟨candidates, hcandidates, hmod, hvalid, hfits, -⟩ :=
      (searchChecked_iff subset hshaped hrank).mp hout
    rw [(candidateSlots_spec hshaped.index hcandidates).2.1] at hfits
    exact ⟨hmod, hvalid, (candidateSlots_isOk hshaped.index).mp ⟨_, hcandidates⟩, hfits⟩
  · rintro ⟨hmod, hvalid, hids, hfits⟩
    obtain ⟨candidates, hcandidates⟩ := (candidateSlots_isOk hshaped.index).mpr hids
    rw [← (candidateSlots_spec hshaped.index hcandidates).2.1] at hfits
    exact ⟨_, (searchChecked_iff subset hshaped hrank).mpr
      ⟨candidates, hcandidates, hmod, hvalid, hfits, rfl⟩⟩
  · obtain ⟨candidates, hcandidates, hmod, hvalid, hfits, hout⟩ :=
      (searchChecked_iff subset hshaped hrank).mp hsearch
    refine ⟨_, hout, List.forall₂_map_right_iff.mpr (List.forall₂_same.mpr fun row hrow => ?_)⟩
    obtain ⟨hcount, hflatten, hrows, -⟩ := rowsOf_whole hpositive
      (Nat.div_mul_cancel (Nat.dvd_of_mod_eq_zero hmod)).symm
    have hwidth := hrows row hrow
    have hnonempty : 0 < queries.length / rank.dim := hcount ▸ List.length_pos_of_mem hrow
    refine ⟨hitsOf_best hshaped.index hcandidates row, (searchChecked_iff subset hshaped
      hrank).mpr ⟨candidates, hcandidates, ?_, fun v hv => hvalid v ?_, ?_, ?_⟩⟩
    · rw [hwidth, Nat.mod_self]
    · rw [← hflatten]
      exact List.mem_flatten.mpr ⟨row, hrow, hv⟩
    · rw [hwidth, Nat.div_self hpositive, Nat.one_mul]
      exact (Nat.le_mul_of_pos_left _ hnonempty).trans_lt hfits
    · rw [rowsOf_single hpositive hwidth, List.map_singleton, List.flatten_singleton]

/-- Three rows under the ids 7, 4 and 9. -/
def threeIds : IdMapIndex Unit Unit :=
  ⟨OrdinalIndex.threeRows, [7, 4, 9], SlotTable.insertFrom ∅ 0 [7, 4, 9]⟩

theorem threeIds_reached : threeIds.Reached ⟨fun _ _ _ => (), fun _ _ => ()⟩ := by
  have hinner : OrdinalIndex.fromLoadedParts OrdinalIndex.threeRank (some OrdinalIndex.threeSign) =
      some OrdinalIndex.threeRows := by rfl
  have hloaded : IdMapIndex.fromLoadedParts OrdinalIndex.threeRows [7, 4, 9] = some threeIds := by
    rfl
  exact .loaded (.loaded hinner) hloaded

theorem threeIds_stored {ids : List UInt64} (h : ∀ id ∈ ids, id = 7 ∨ id = 9) :
    ∀ id ∈ ids, ∃ slot, threeIds.idToSlot.lookup id = some slot ∧ slot < 2 ^ 32 := by
  intro id hid
  obtain rfl | rfl := h id hid
  · exact ⟨0, by rfl, by norm_num⟩
  · exact ⟨2, by rfl, by norm_num⟩

/-- Two queries among the ids 9 and 7, the first of which is given twice. -/
theorem threeIds_search : ∃ scores found blocks,
    threeIds.searchCheckedWithAllowlist OrdinalIndex.zeroScans OrdinalIndex.twoPool
      twoRows.flatten 3 (some [9, 7, 9]) = .ok (scores, found) ∧
    (scores, found) = (blocks : List (List (F32 × UInt64))).flatten.unzip ∧
    blocks.length = 2 ∧ ∀ block ∈ blocks, block.length = 2 := by
  obtain ⟨haccept, hfound⟩ := id_map_allowlist_search OrdinalIndex.zeroScans zeroSubset
    OrdinalIndex.twoPool ⟨fun _ _ _ => (), fun _ _ => ()⟩ threeIds threeIds_reached
    OrdinalIndex.threeRank rfl twoRows.flatten 3 [9, 7, 9]
  have hlength : twoRows.flatten.length = 2 * OrdinalIndex.threeRank.dim :=
    flatten_length twoRows_length
  have hcount : twoRows.flatten.length / OrdinalIndex.threeRank.dim = 2 := by
    rw [hlength, Nat.mul_div_cancel _ (by decide)]
  have hwhole : twoRows.flatten.length % OrdinalIndex.threeRank.dim = 0 := by
    rw [hlength]
    exact Nat.mul_mod_left 2 _
  obtain ⟨⟨scores, found⟩, hout⟩ := haccept.mpr ⟨hwhole, fun v hv => by
    obtain ⟨row, hrow, hv⟩ := List.mem_flatten.mp hv
    exact twoRows_valid row hrow v hv, threeIds_stored (by simp), by
      rw [hcount]
      exact (Nat.mul_le_mul_left _ (min_le_left 3 _)).trans_lt (by norm_num)⟩
  obtain ⟨blocks, hblocks, hall⟩ := hfound scores found hout
  refine ⟨scores, found, blocks, hout, hblocks, ?_, fun block hblock => ?_⟩
  · exact hall.length_eq.symm.trans ((rowsOf_length _ _).trans hcount)
  · obtain ⟨i, hi, rfl⟩ := List.getElem_of_mem hblock
    rw [← hall.length_eq] at hi
    obtain ⟨hbest, -⟩ := hall.get hi (hall.length_eq ▸ hi)
    exact hbest.count

end Searches

end OrdinalDB
