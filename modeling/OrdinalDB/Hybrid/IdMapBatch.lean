import OrdinalDB.Hybrid.Features
import OrdinalDB.Hybrid.IdMapSearch

/-!
# Ranked searches under ids

`search_rows_with_allowlist` and `search_batch_rows_with_allowlists` of `id_map.rs`. Unlike the
batch of `ordinal.rs` this one searches its queries one after another, each in a buffer of its own.

`id_map_batch_eq_singles`: a batch is accepted exactly when its queries are, and its rows are
theirs.
-/

namespace OrdinalDB

open Float32Bits (F32)
open Chunks Outcome Hybrid

variable {R S : Type}

/-! ## Definitions -/

inductive IdMapBatchError
  | search (error : IdMapSearchError)
  | allowlistCount (lists queries : Nat)
  | batch (error : HybridError)
deriving DecidableEq, Repr

abbrev IdMapBatchResult := Except IdMapBatchError

namespace IdMapIndex

def rankedListsFromResults (self : IdMapIndex R S) (results : SearchResults) :
    IdMapResult (List (List ScoredRow)) := do
  validateSearchResultsShape results
  (List.range results.nq).mapM fun query =>
    ((chunk results.k results.scores query).zip (chunk results.k results.indices query)).foldlM
      (self.keepFound fun rows score rowId => rows ++ [ScoredRow.mk rowId score]) []

def searchBatchRows (scans : Scans R S) (pool : Pool) (self : IdMapIndex R S)
    (queries : List F32) (k : Nat) : IdMapBatchResult RankedBatch := do
  let results ← (self.searchResultsChecked scans pool queries k none).mapError .search
  let rows ← (self.rankedListsFromResults results).mapError .search
  (RankedBatch.fromRankedLists rows).mapError .batch

/-- One round of the loop over the queries. -/
def searchQueryRows (scans : Scans R S) (pool : Pool) (self : IdMapIndex R S) (query : List F32)
    (k : Nat) (ids : List UInt64) : IdMapBatchResult (List ScoredRow) := do
  let results ← (self.searchResultsChecked scans pool query k (some ids)).mapError .search
  let rows ← (self.rankedListsFromResults results).mapError .search
  pure (rows.getLast?.getD [])

def searchBatchRowsWithAllowlists (scans : Scans R S) (pool : Pool) (self : IdMapIndex R S)
    (queries : List F32) (k : Nat) (allowlists : Option (List (List UInt64))) :
    IdMapBatchResult RankedBatch :=
  match allowlists with
  | none => self.searchBatchRows scans pool queries k
  | some lists =>
    match self.inner.dim with
    | none =>
      if queries = [] then .ok .empty
      else .error (.search (.search (.error (.invalidQueryDim queries.length 0))))
    | some dim => do
      let nq ← (validateQueryBuffer queries dim).mapError fun stop => .search (.search stop)
      reject (lists.length ≠ nq) (.allowlistCount lists.length nq)
      let rows ← ((rowsOf dim queries).zip lists).mapM fun input =>
        self.searchQueryRows scans pool input.1 k input.2
      (RankedBatch.fromRankedLists rows).mapError .batch

def searchRowsWithAllowlist (scans : Scans R S) (pool : Pool) (self : IdMapIndex R S)
    (query : List F32) (k : Nat) (allowlist : Option (List UInt64)) :
    IdMapBatchResult (List ScoredRow) := do
  (validateSingleQueryBuffer query self.inner.dim).mapError fun stop => .search (.search stop)
  let batch ← self.searchBatchRowsWithAllowlists scans pool query k
    (allowlist.map fun ids => [ids])
  pure batch.hits

end IdMapIndex

/-! ## One query -/

section Query

variable {scans : Scans R S} {pool : Pool} {subset : BestSubset scans} {self : IdMapIndex R S}
  {rank : RankQuant R} {ids : List UInt64} {k : Nat} {row : List F32} {list : List ScoredRow}

namespace IdMapIndex

/-- A hit as a row of a ranked list. -/
def toRow (hit : F32 × UInt64) : ScoredRow := ⟨hit.2, hit.1⟩

/-- The results of one query are one list. -/
theorem rankedLists_single {entries : List (F32 × Int64)} (hlength : entries.length = k)
    (hfits : k < 2 ^ 64)
    (h : ∀ entry ∈ entries, entry.2 < 0 ∨ (self.slotToId[entry.2.toInt.toNat]?).isSome) :
    self.rankedListsFromResults ⟨entries.map Prod.fst, entries.map Prod.snd, 1, k⟩ =
      .ok [(entries.filterMap self.foundOf).map toRow] := by
  have hshape : validateSearchResultsShape ⟨entries.map Prod.fst, entries.map Prod.snd, 1, k⟩ =
      .ok () :=
    validateSearchResultsShape_ok (by rwa [Nat.one_mul]) (by rw [hlength, Nat.one_mul])
  have hchunk : ∀ {A : Type} (part : F32 × Int64 → A), chunk k (entries.map part) 0 =
      entries.map part := fun part => by
    rw [chunk, Nat.zero_mul, List.drop_zero, List.take_of_length_le]
    rw [List.length_map, hlength]
  have hloop : entries.foldlM (self.keepFound fun rows score rowId =>
      rows ++ [ScoredRow.mk rowId score]) [] =
      .ok ((entries.filterMap self.foundOf).map toRow) := by
    rw [foldlM_keepFound _ _ h]
    have hpush := foldl_push toRow (entries.filterMap self.foundOf) []
    rw [List.nil_append] at hpush
    exact congrArg Except.ok hpush
  unfold rankedListsFromResults
  rw [hshape, ok_bind]
  show ([0] : List Nat).mapM _ = _
  rw [mapM_eq_ok, List.map_singleton, hchunk, hchunk, zip_parts, hloop]
  rfl

theorem searchQueryRows_eq_ok (subset : BestSubset scans) (hshaped : self.Shaped)
    (hrank : self.inner.inner = some rank) (hrow : row.length = rank.dim) :
    self.searchQueryRows scans pool row k ids = .ok list ↔
      ∃ candidates, self.candidateSlotsFromAllowlist ids = .ok candidates ∧
        (∀ v ∈ row, validCoord v) ∧ min k candidates.length < 2 ^ 64 ∧
        list = (self.hitsOf subset rank candidates k row).map toRow := by
  obtain ⟨hdim, -, hcompatible⟩ := hshaped.inner.rank rank hrank
  have hpositive : 0 < rank.dim := Nat.zero_lt_two.trans_le hcompatible.1
  have hcount : row.length / rank.dim = 1 := by rw [hrow, Nat.div_self hpositive]
  have hentries : ∀ candidates n, entriesOf scans rank candidates n row =
      scans.searchAsymmetricSubset rank row candidates n := fun candidates n => by
    rw [entriesOf, rowsOf_single hpositive hrow, List.flatMap_singleton]
  -- what is ranked, for the candidates of the ids
  have hlists : ∀ {candidates}, self.candidateSlotsFromAllowlist ids = .ok candidates →
      min k candidates.length < 2 ^ 64 → self.rankedListsFromResults
        ⟨(scans.searchAsymmetricSubset rank row candidates (min k candidates.length)).map Prod.fst,
          (scans.searchAsymmetricSubset rank row candidates (min k candidates.length)).map Prod.snd,
          1, min k candidates.length⟩ =
      .ok [(self.hitsOf subset rank candidates k row).map toRow] := by
    intro candidates hcandidates hfits
    obtain ⟨hlen, hnodup, hslots⟩ := candidates_stored hshaped hrank hcandidates
    obtain ⟨hgood, hfound⟩ := @subset_entries _ _ scans self rank candidates
      (min k candidates.length) subset hlen hnodup hslots row
    rw [rankedLists_single (scans.subset_length _ _ _ _) hfits hgood, hfound, hitsOf_min]
  unfold searchQueryRows searchResultsChecked
  simp only [bind_eq_ok, mapError_eq_ok]
  constructor
  · rintro ⟨results, ⟨candidates, hcandidates, hsearch⟩, rows, hrows, hlist⟩
    obtain ⟨-, -, hslots⟩ := candidates_stored hshaped hrank hcandidates
    obtain ⟨-, hvalid, hfits, rfl⟩ :=
      (searchCheckedWithCandidates_eq_ok hshaped hrank hslots).mp hsearch
    rw [hcount, Nat.one_mul] at hfits
    rw [hentries, hcount, hlists hcandidates hfits] at hrows
    obtain rfl := Except.ok.inj hrows
    exact ⟨candidates, hcandidates, hvalid, hfits, (pure_eq_ok.mp hlist).symm⟩
  · rintro ⟨candidates, hcandidates, hvalid, hfits, rfl⟩
    obtain ⟨-, -, hslots⟩ := candidates_stored hshaped hrank hcandidates
    refine ⟨_, ⟨candidates, hcandidates, (searchCheckedWithCandidates_eq_ok hshaped hrank
      hslots).mpr ⟨?_, hvalid, ?_, rfl⟩⟩,
      [(self.hitsOf subset rank candidates k row).map toRow], ?_, rfl⟩
    · rw [hrow, Nat.mod_self]
    · rwa [hcount, Nat.one_mul]
    · rw [hentries, hcount]
      exact hlists hcandidates hfits

end IdMapIndex

end Query

/-! ## Batches -/

section Batches

variable {scans : Scans R S} {pool : Pool} {self : IdMapIndex R S} {rank : RankQuant R}
  {rows : List (List F32)} {lists : List (List UInt64)} {k : Nat} {batch : RankedBatch}

namespace IdMapIndex

theorem searchBatch_eq_ok (hshaped : self.Shaped) (hrank : self.inner.inner = some rank)
    (hrows : ∀ row ∈ rows, row.length = rank.dim) :
    self.searchBatchRowsWithAllowlists scans pool rows.flatten k (some lists) = .ok batch ↔
      (∀ row ∈ rows, ∀ v ∈ row, validCoord v) ∧ lists.length = rows.length ∧
      ∃ found shown : List (List ScoredRow),
        (rows.zip lists).map (fun input => self.searchQueryRows scans pool input.1 k input.2) =
          found.map .ok ∧
        found.map normalizeRankedList = shown.map .ok ∧ batch = Batch.ofLists shown := by
  obtain ⟨hdim, -, hcompatible⟩ := hshaped.inner.rank rank hrank
  have hpositive : 0 < rank.dim := Nat.zero_lt_two.trans_le hcompatible.1
  have hvalid : (∀ v ∈ rows.flatten, validCoord v) ↔ ∀ row ∈ rows, ∀ v ∈ row, validCoord v := by
    simp only [List.mem_flatten]
    exact ⟨fun h row hrow v hv => h v ⟨row, hrow, hv⟩, fun h v ⟨row, hrow, hv⟩ => h row hrow v hv⟩
  unfold searchBatchRowsWithAllowlists
  rw [hdim]
  simp only [bind_eq_ok, mapError_eq_ok, validateQueryBuffer_eq_ok hpositive (flatten_length hrows),
    hvalid, reject_eq_ok, exists_const, not_not, OrdinalIndex.rowsOf_flatten hpositive hrows,
    mapM_eq_ok, RankedBatch.fromRankedLists, RankedBatch.normalizeAll, Batch.foldlM_push_eq_ok]
  constructor
  · rintro ⟨_, ⟨hall, rfl⟩, hcount, found, hfound, shown, hshown, rfl⟩
    exact ⟨hall, hcount, found, shown, hfound, hshown, rfl⟩
  · rintro ⟨hall, hcount, found, shown, hfound, hshown, rfl⟩
    exact ⟨_, ⟨hall, rfl⟩, hcount, found, hfound, shown, hshown, rfl⟩

theorem searchRows_eq_ok (hshaped : self.Shaped) (hrank : self.inner.inner = some rank)
    {row : List F32} (hrow : row.length = rank.dim) {ids : List UInt64} {list : List ScoredRow} :
    self.searchRowsWithAllowlist scans pool row k (some ids) = .ok list ↔
      (∀ v ∈ row, validCoord v) ∧ ∃ found, self.searchQueryRows scans pool row k ids = .ok found ∧
        normalizeRankedList found = .ok list := by
  obtain ⟨hdim, -, hcompatible⟩ := hshaped.inner.rank rank hrank
  have hpositive : 0 < rank.dim := Nat.zero_lt_two.trans_le hcompatible.1
  have hsingle : (∀ v ∈ row, validCoord v) →
      ∃ u, validateSingleQueryBuffer row self.inner.dim = .ok u := by
    intro hvalid
    rw [hdim, validateSingleQueryBuffer]
    refine ⟨(), bind_eq_ok.mpr ⟨(), reject_eq_ok.mpr (not_not_intro hrow), bind_eq_ok.mpr
      ⟨1, (validateQueryBuffer_eq_ok hpositive ?_).mpr ⟨hvalid, rfl⟩, rfl⟩⟩⟩
    rw [hrow, Nat.one_mul]
  have hbatch := fun batch => @searchBatch_eq_ok _ _ scans pool self rank [row] [ids] k batch
    hshaped hrank (List.forall_mem_singleton.mpr hrow)
  simp only [List.flatten_singleton] at hbatch
  unfold searchRowsWithAllowlist
  rw [bind_eq_ok]
  simp only [mapError_eq_ok]
  constructor
  · rintro ⟨_, -, h⟩
    obtain ⟨batch, haccepted, hhits⟩ := bind_eq_ok.mp h
    obtain ⟨hall, -, found, shown, hfound, hshown, rfl⟩ := (hbatch batch).mp haccepted
    obtain ⟨out, rfl, hout⟩ := List.map_eq_singleton_iff.mp hfound.symm
    obtain ⟨hits, rfl, hlist⟩ := List.map_eq_singleton_iff.mp hshown.symm
    obtain rfl := pure_eq_ok.mp hhits
    exact ⟨List.forall_mem_singleton.mp hall, out, hout.symm, hlist.symm⟩
  · rintro ⟨hvalid, found, hfound, hlist⟩
    obtain ⟨u, hu⟩ := hsingle hvalid
    exact ⟨u, hu, bind_eq_ok.mpr ⟨_, (hbatch _).mpr ⟨List.forall_mem_singleton.mpr hvalid, rfl,
      [found], [list], congrArg (fun x => [x]) hfound, congrArg (fun x => [x]) hlist, rfl⟩, rfl⟩⟩

/-- Rows with different ids are all kept. -/
theorem normalizeRankedList_perm {input list : List ScoredRow}
    (hnodup : (input.map ScoredRow.rowId).Nodup) (h : normalizeRankedList input = .ok list) :
    list.Perm input := by
  obtain ⟨hranked, hbest⟩ := normalizeRankedList_spec h
  refine (List.perm_ext_iff_of_nodup (.of_map _ hranked.nodup) (.of_map _ hnodup)).mpr fun row => ?_
  refine ⟨fun hrow => (hbest.best row hrow).1, fun hrow => ?_⟩
  obtain ⟨other, hother, heq⟩ := List.mem_map.mp
    ((hbest.rows row.rowId).mpr (List.mem_map_of_mem hrow))
  have hsame : other = row :=
    List.inj_on_of_nodup_map hnodup (hbest.best other hother).1 hrow heq
  exact hsame ▸ hother

end IdMapIndex

open IdMapIndex in
/-- A batch is accepted exactly when it has an allowlist for every query and every query is accepted
alone, and then shows what they show. A query shows the hits of its flat search, ranked. -/
theorem id_map_batch_eq_singles (scans : Scans R S) (subset : BestSubset scans) (pool : Pool)
    (ov : Ordvec R S) (index : IdMapIndex R S) (hreached : index.Reached ov) (rank : RankQuant R)
    (hrank : index.inner.inner = some rank) (rows : List (List F32))
    (hrows : ∀ row ∈ rows, row.length = rank.dim) (k : Nat) (lists : List (List UInt64)) :
    (∀ batch, index.searchBatchRowsWithAllowlists scans pool rows.flatten k (some lists) =
        .ok batch ↔
      lists.length = rows.length ∧ ∃ shown : List (List ScoredRow), batch = Batch.ofLists shown ∧
        List.Forall₂ (fun input hits => index.searchRowsWithAllowlist scans pool input.1 k
          (some input.2) = .ok hits) (rows.zip lists) shown) ∧
    ∀ row ∈ rows, ∀ (ids : List UInt64) (hits : List ScoredRow),
      index.searchRowsWithAllowlist scans pool row k (some ids) = .ok hits →
      RankedList hits ∧ ∃ scores found,
        index.searchCheckedWithAllowlist scans pool row k (some ids) = .ok (scores, found) ∧
        (hits.map fun hit => (hit.score, hit.rowId)).Perm (scores.zip found) := by
  have hshaped := hreached.shaped
  refine ⟨fun batch => ?_, fun row hrow ids hits hhits => ?_⟩
  · rw [searchBatch_eq_ok hshaped hrank hrows]
    constructor
    · rintro ⟨hvalid, hcount, found, shown, hfound, hshown, rfl⟩
      refine ⟨hcount, shown, rfl, ?_⟩
      have hboth := forall₂_trans (mapM_forall₂ (mapM_eq_ok.mpr hfound))
        (mapM_forall₂ (mapM_eq_ok.mpr hshown))
      refine List.forall₂_iff_zip.mpr ⟨hboth.length_eq, fun {input hits} hmem => ?_⟩
      obtain ⟨list, hlist, hnormal⟩ := (List.forall₂_iff_zip.mp hboth).2 hmem
      have hrow := (List.of_mem_zip (List.of_mem_zip hmem).1).1
      exact (searchRows_eq_ok hshaped hrank (hrows _ hrow)).mpr
        ⟨hvalid _ hrow, list, hlist, hnormal⟩
    · rintro ⟨hcount, shown, rfl, hall⟩
      -- every query alone has a list before it is ranked
      have hparts : ∀ input ∈ rows.zip lists, (∀ v ∈ input.1, validCoord v) ∧
          ∃ list, index.searchQueryRows scans pool input.1 k input.2 = .ok list := by
        intro input hinput
        obtain ⟨hits, -, hhits⟩ := exists_of_forall₂ hall hinput
        obtain ⟨hvalid, list, hlist, -⟩ := (searchRows_eq_ok hshaped hrank
          (hrows _ (List.of_mem_zip hinput).1)).mp hhits
        exact ⟨hvalid, list, hlist⟩
      obtain ⟨found, hfound⟩ := exists_map_ok fun input hinput => (hparts input hinput).2
      refine ⟨fun row hrow => ?_, hcount, found, shown, hfound, ?_, rfl⟩
      · obtain ⟨i, hi, rfl⟩ := List.getElem_of_mem hrow
        have hmem : (rows[i], lists[i]) ∈ rows.zip lists :=
          List.mem_of_getElem? (List.getElem?_zip_eq_some.mpr
            ⟨List.getElem?_eq_getElem hi, List.getElem?_eq_getElem (hcount ▸ hi)⟩)
        exact (hparts _ hmem).1
      · have hranked : List.Forall₂ (fun input hits => ∀ list,
            index.searchQueryRows scans pool input.1 k input.2 = .ok list →
              normalizeRankedList list = .ok hits) (rows.zip lists) shown := by
          refine List.forall₂_iff_zip.mpr ⟨hall.length_eq, fun {input hits} hmem list hlist => ?_⟩
          obtain ⟨-, other, hother, hnormal⟩ := (searchRows_eq_ok hshaped hrank
            (hrows _ (List.of_mem_zip (List.of_mem_zip hmem).1).1)).mp
              ((List.forall₂_iff_zip.mp hall).2 hmem)
          obtain rfl := Except.ok.inj (hlist.symm.trans hother)
          exact hnormal
        have hback := (mapM_forall₂ (mapM_eq_ok.mpr hfound)).flip
        rw [← List.forall₂_eq_eq_eq, List.forall₂_map_left_iff, List.forall₂_map_right_iff]
        exact (forall₂_trans hback hranked).imp fun list hits ⟨input, hlist, h⟩ => h list hlist
  · obtain ⟨-, list, hlist, hnormal⟩ := (searchRows_eq_ok hshaped hrank (hrows row hrow)).mp hhits
    obtain ⟨candidates, hcandidates, hvalid, hfits, rfl⟩ :=
      (searchQueryRows_eq_ok subset hshaped hrank (hrows row hrow)).mp hlist
    obtain ⟨-, -, hcompatible⟩ := hshaped.inner.rank rank hrank
    have hpositive : 0 < rank.dim := Nat.zero_lt_two.trans_le hcompatible.1
    have hbest := @hitsOf_best _ _ scans subset index rank ids candidates k hshaped.index
      hcandidates row
    have hids : (((index.hitsOf subset rank candidates k row).map toRow).map
        ScoredRow.rowId).Nodup := by
      rw [List.map_map]
      exact hbest.nodup
    have hback : ((index.hitsOf subset rank candidates k row).map toRow).map
        (fun hit => (hit.score, hit.rowId)) = index.hitsOf subset rank candidates k row := by
      rw [List.map_map]
      exact List.map_id _
    refine ⟨(normalizeRankedList_spec hnormal).1,
      (index.hitsOf subset rank candidates k row).map Prod.fst,
      (index.hitsOf subset rank candidates k row).map Prod.snd, (searchChecked_iff subset hshaped
        hrank).mpr ⟨candidates, hcandidates, ?_, hvalid, ?_, ?_⟩, ?_⟩
    · rw [hrows row hrow, Nat.mod_self]
    · rwa [hrows row hrow, Nat.div_self hpositive, Nat.one_mul]
    · rw [rowsOf_single hpositive (hrows row hrow), List.map_singleton, List.flatten_singleton,
        List.unzip_eq_map]
    · have hperm := (normalizeRankedList_perm hids hnormal).map fun hit => (hit.score, hit.rowId)
      rw [zip_parts]
      rwa [hback] at hperm

/-- Each of the two queries is accepted among the ids 7 and 9. -/
theorem threeIds_rows {row : List F32} (hrow : row ∈ twoRows) {ids : List UInt64}
    (hids : ∀ id ∈ ids, id = 7 ∨ id = 9) : ∃ hits,
      threeIds.searchRowsWithAllowlist OrdinalIndex.zeroScans OrdinalIndex.twoPool row 2
        (some ids) = .ok hits := by
  have hshaped := threeIds_reached.shaped
  have hvalid := twoRows_valid row hrow
  obtain ⟨candidates, hcandidates⟩ :=
    (IdMapIndex.candidateSlots_isOk hshaped.index).mpr (threeIds_stored hids)
  obtain ⟨hits, hhits⟩ := (@normalizeRankedList_isOk ((threeIds.hitsOf zeroSubset
      OrdinalIndex.threeRank candidates 2 row).map IdMapIndex.toRow)).mpr fun hit hhit => by
    rw [IdMapIndex.hitsOf, List.map_map] at hhit
    obtain ⟨slot, -, rfl⟩ := List.mem_map.mp hhit
    show F32.zero.isFinite
    decide
  exact ⟨hits, (IdMapIndex.searchRows_eq_ok hshaped rfl (twoRows_length row hrow)).mpr ⟨hvalid, _,
    (IdMapIndex.searchQueryRows_eq_ok zeroSubset hshaped rfl (twoRows_length row hrow)).mpr
      ⟨candidates, hcandidates, hvalid, (min_le_left 2 _).trans_lt (by norm_num), rfl⟩, hhits⟩⟩

/-- Two queries, the first among the ids 9 and 7 and the second among the id 7. -/
theorem threeIds_batch : ∃ first second,
    threeIds.searchBatchRowsWithAllowlists OrdinalIndex.zeroScans OrdinalIndex.twoPool
      twoRows.flatten 2 (some [[9, 7, 9], [7]]) = .ok (Batch.ofLists [first, second]) ∧
    RankedList first ∧ RankedList second := by
  obtain ⟨first, hfirst⟩ := threeIds_rows List.mem_cons_self
    (show ∀ id ∈ ([9, 7, 9] : List UInt64), id = 7 ∨ id = 9 by simp)
  obtain ⟨second, hsecond⟩ := threeIds_rows (List.mem_cons_of_mem _ List.mem_cons_self)
    (show ∀ id ∈ ([7] : List UInt64), id = 7 ∨ id = 9 by simp)
  obtain ⟨hbatch, hrows⟩ := id_map_batch_eq_singles OrdinalIndex.zeroScans zeroSubset
    OrdinalIndex.twoPool ⟨fun _ _ _ => (), fun _ _ => ()⟩ threeIds threeIds_reached
    OrdinalIndex.threeRank rfl twoRows twoRows_length 2 [[9, 7, 9], [7]]
  exact ⟨first, second, (hbatch _).mpr ⟨rfl, _, rfl, .cons hfirst (.cons hsecond .nil)⟩,
    (hrows _ List.mem_cons_self _ _ hfirst).1,
    (hrows _ (List.mem_cons_of_mem _ List.mem_cons_self) _ _ hsecond).1⟩

end Batches

end OrdinalDB
