import OrdinalDB.Hybrid.Accepting
import OrdinalDB.Sparse.Views

/-!
# Batches of sparse searches

`search_batch_with_allowlists` of `Bm25MmapIndex`: one search after another into a ranked
batch. `bm25_views` puts it next to the single searches: all of them show parts of one ranking
for each query.
-/

namespace OrdinalDB.Hybrid

open Float32Bits Outcome
open Sparse hiding bind_eq_ok ok_bind ScoredRow HybridError

/-- The row type of the batches. -/
def ofSparseRow (row : Sparse.ScoredRow) : ScoredRow := ⟨row.rowId, row.score⟩

inductive BatchError
  | counts (allowlists queries : Nat)
  | search (fault : Fault)
  | batch (error : HybridError)
deriving DecidableEq, Repr

variable (index : Bm25MmapIndex) (std : Unspecified) (sa : ScoreArith)

/-- One turn of the loop. -/
def searchOne (topK : Nat) (input : List Char × Option (List UInt64)) :
    Except BatchError (List ScoredRow) :=
  match index.searchWithAllowlist std sa input.1 topK input.2 with
  | .ok rows => .ok (rows.map ofSparseRow)
  | .error fault => .error (.search fault)

def searchBatchWithAllowlists (queries : List (List Char)) (topK : Nat)
    (allowlists : List (Option (List UInt64))) : Except BatchError RankedBatch := do
  reject (allowlists.length ≠ queries.length) (.counts allowlists.length queries.length)
  let batch ← (queries.zip allowlists).foldlM
    (fun batch input => (searchOne index std sa topK input).map batch.push) Batch.empty
  match RankedBatch.fromSortedOffsetsHits batch.offsets batch.hits with
  | .ok batch => .ok batch
  | .error error => .error (.batch error)

variable {index : Bm25MmapIndex} {std : Unspecified} {sa : ScoreArith} {topK : Nat}
  {queries : List (List Char)} {allowlists : List (Option (List UInt64))} {batch : RankedBatch}

theorem searchOne_eq_ok {input : List Char × Option (List UInt64)} {list : List ScoredRow} :
    searchOne index std sa topK input = .ok list ↔
      ∃ rows, index.searchWithAllowlist std sa input.1 topK input.2 = .ok rows ∧
        list = rows.map ofSparseRow := by
  unfold searchOne
  split
  next rows hrows => simp [hrows, eq_comm]
  next fault hfault => simp [hfault]

theorem searchBatch_eq_ok :
    searchBatchWithAllowlists index std sa queries topK allowlists = .ok batch ↔
      allowlists.length = queries.length ∧ ∃ ls : List (List ScoredRow),
        (queries.zip allowlists).map (searchOne index std sa topK) = ls.map .ok ∧
        (∀ list ∈ ls, RankedList list) ∧ batch = Batch.ofLists ls := by
  have haccepted : ∀ (ls : List (List ScoredRow)),
      (match RankedBatch.fromSortedOffsetsHits (Batch.ofLists ls).offsets (Batch.ofLists ls).hits with
        | .ok batch => (.ok batch : Except BatchError RankedBatch)
        | .error error => .error (.batch error)) = .ok batch ↔
      (∀ list ∈ ls, RankedList list) ∧ batch = Batch.ofLists ls := by
    intro ls
    rw [← fromSortedOffsetsHits_iff]
    cases RankedBatch.fromSortedOffsetsHits (Batch.ofLists ls).offsets (Batch.ofLists ls).hits with
    | ok other => simp
    | error e => simp
  simp only [searchBatchWithAllowlists, bind_eq_ok, reject_eq_ok, exists_const, not_not,
    Batch.foldlM_push_eq_ok]
  refine and_congr_right fun _ => ?_
  constructor
  · rintro ⟨_, ⟨ls, hls, rfl⟩, h⟩
    exact ⟨ls, hls, (haccepted ls).mp h⟩
  · rintro ⟨ls, hls, h⟩
    exact ⟨_, ⟨ls, hls, rfl⟩, (haccepted ls).mpr h⟩

/-- The row of a query in an accepted batch is the single search. -/
theorem searchBatch_forQuery
    (h : searchBatchWithAllowlists index std sa queries topK allowlists = .ok batch) :
    batch.queryCount = queries.length ∧
      ∀ (i : Nat) (query : List Char) (allowlist : Option (List UInt64)),
        queries[i]? = some query → allowlists[i]? = some allowlist →
        ∃ rows, index.searchWithAllowlist std sa query topK allowlist = .ok rows ∧
          batch.forQuery i = some (rows.map ofSparseRow) := by
  obtain ⟨hlength, ls, hls, -, rfl⟩ := searchBatch_eq_ok.mp h
  have hcount : ls.length = queries.length := by
    have hmap := congrArg List.length hls
    rw [List.length_map, List.length_map, List.length_zip, hlength, Nat.min_self] at hmap
    exact hmap.symm
  refine ⟨Batch.queryCount_ofLists ls ▸ hcount, fun i query allowlist hquery hallowlist => ?_⟩
  have hentry := congrArg (·[i]?) hls
  have hzip : (queries.zip allowlists)[i]? = some (query, allowlist) :=
    List.getElem?_zip_eq_some.mpr ⟨hquery, hallowlist⟩
  simp only [List.getElem?_map, hzip, Option.map_some] at hentry
  obtain ⟨list, hlist, hone⟩ := Option.map_eq_some_iff.mp hentry.symm
  obtain ⟨rows, hrows, rfl⟩ := searchOne_eq_ok.mp hone.symm
  exact ⟨rows, hrows, by rw [Batch.forQuery_ofLists, hlist]⟩

theorem rankedList_ofSparse {rows : List Sparse.ScoredRow}
    (hfinite : ∀ row ∈ rows, row.score.isFinite)
    (hsorted : rows.Pairwise fun a b => sparseRowOrder a b = .lt)
    (hnodup : (rows.map Sparse.ScoredRow.rowId).Nodup) : RankedList (rows.map ofSparseRow) := by
  refine ⟨fun row hrow => ?_, ?_, ?_⟩
  · obtain ⟨source, hsource, rfl⟩ := List.mem_map.mp hrow
    exact hfinite source hsource
  · refine List.pairwise_map.mpr (hsorted.imp fun {a b} hab => ?_)
    rw [sparseRowOrder_eq_lt, F32.totalKey_injective.eq_iff] at hab
    exact hab.imp_right fun hrows => ⟨hrows.1.symm, UInt64.lt_iff_toNat_lt.mpr hrows.2⟩
  · rw [List.map_map]
    exact hnodup

/-- The part of a ranking that a search shows. -/
def shown (full : List Sparse.ScoredRow) (topK : Nat) :
    Option (List UInt64) → List Sparse.ScoredRow
  | none => full.take topK
  | some rowIds => (full.filter fun row => decide (row.rowId ∈ rowIds)).take topK

theorem shown_sublist (full : List Sparse.ScoredRow) (topK : Nat)
    (allowlist : Option (List UInt64)) : (shown full topK allowlist).Sublist full := by
  cases allowlist with
  | none => exact List.take_sublist _ _
  | some rowIds => exact (List.take_sublist _ _).trans List.filter_sublist

/-- Every query has one full ranking. The single searches, with and without an allowlist and
with a prepared one, show parts of it, and a batch holds the single searches. -/
theorem bm25_views (ar : AvgArith) (bytes : List UInt8)
    (hopen : Bm25MmapIndex.open ar bytes = .ok index) (std : Unspecified) (sa : ScoreArith) :
    ∃ full : List Char → List Sparse.ScoredRow,
      (∀ query, index.search std sa query index.header.docCount = .ok (full query)) ∧
      (∀ query topK, index.search std sa query topK = .ok (shown (full query) topK none)) ∧
      (∀ query topK rowIds, (∀ id ∈ rowIds, id ∈ index.docToRowId) →
        index.searchWithAllowlist std sa query topK (some rowIds) =
          .ok (shown (full query) topK (some rowIds))) ∧
      (∀ query topK rowIds prepared, index.prepareAllowlist rowIds = .ok prepared →
        index.searchBy std sa query topK (some prepared) =
          index.searchWithAllowlist std sa query topK (some rowIds)) ∧
      ∀ queries topK allowlists,
        (∀ batch, searchBatchWithAllowlists index std sa queries topK allowlists = .ok batch →
          batch.queryCount = queries.length ∧
          ∀ (i : Nat) (query : List Char) (allowlist : Option (List UInt64)),
            queries[i]? = some query → allowlists[i]? = some allowlist →
            ∃ rows, index.searchWithAllowlist std sa query topK allowlist = .ok rows ∧
              batch.forQuery i = some (rows.map ofSparseRow)) ∧
        (allowlists.length = queries.length →
          (∀ rowIds, some rowIds ∈ allowlists → ∀ id ∈ rowIds, id ∈ index.docToRowId) →
          (∀ query ∈ queries, ∀ row ∈ full query, row.score.isFinite) →
          ∃ batch, searchBatchWithAllowlists index std sa queries topK allowlists = .ok batch) := by
  obtain ⟨-, dict, haccepted⟩ := Bm25MmapIndex.open_accepted hopen
  choose full hfull hsearch hallowed using haccepted.search_views std sa
  have hknown : ∀ query topK (allowlist : Option (List UInt64)),
      (∀ rowIds, allowlist = some rowIds → ∀ id ∈ rowIds, id ∈ index.docToRowId) →
      index.searchWithAllowlist std sa query topK allowlist =
        .ok (shown (full query) topK allowlist) := by
    intro query topK allowlist hids
    cases allowlist with
    | none => exact hsearch query topK
    | some rowIds => exact hallowed query rowIds (hids rowIds rfl) topK
  refine ⟨full, fun query => ?_, hsearch, fun query topK rowIds hids => ?_,
    fun query topK rowIds prepared hprepared => ?_, fun queries topK allowlists =>
    ⟨fun batch => searchBatch_forQuery, fun hlength hids hfinite => ?_⟩⟩
  · rw [hsearch, List.take_of_length_le (hfull query).length]
  · exact hallowed query rowIds hids topK
  · rw [Bm25MmapIndex.searchWithAllowlist, hprepared]
    rfl
  · let ls := (queries.zip allowlists).map fun input =>
      (shown (full input.1) topK input.2).map ofSparseRow
    refine ⟨Batch.ofLists ls, searchBatch_eq_ok.mpr ⟨hlength, ls, ?_, fun list hlist => ?_, rfl⟩⟩
    · rw [List.map_map]
      refine List.map_congr_left fun input hinput => searchOne_eq_ok.mpr ⟨_, ?_, rfl⟩
      obtain ⟨-, hallowlist⟩ := List.of_mem_zip hinput
      exact hknown _ _ _ fun rowIds heq => hids rowIds (heq ▸ hallowlist)
    · obtain ⟨input, hinput, rfl⟩ := List.mem_map.mp hlist
      have hpart := shown_sublist (full input.1) topK input.2
      have hranking := hfull input.1
      exact rankedList_ofSparse
        (fun row hrow => hfinite _ (List.of_mem_zip hinput).1 row (hpart.mem hrow))
        (hranking.sorted.sublist hpart) (hranking.nodup.sublist (hpart.map _))

/-- Every contribution and every sum is one. -/
def flatScores : Sparse.ScoreArith := ⟨fun _ _ _ _ => F32.one, fun _ _ => F32.one⟩

theorem isFinite_flatScores (parts : List F32) {start : F32} (h : start.isFinite) :
    (parts.foldl flatScores.add start).isFinite := by
  induction parts generalizing start with
  | nil => exact h
  | cons part parts ih => exact ih (show F32.one.isFinite by decide)

/-- A search of row 10 alone, and a batch of it behind a search of all rows. -/
theorem bm25_views_sample : ∃ index, Bm25MmapIndex.open sampleAvg Bm25MmapIndex.sampleBytes =
    .ok index ∧ ∃ full batch,
      index.search .sorting flatScores "beta".toList index.header.docCount = .ok full ∧
      index.searchWithAllowlist .sorting flatScores "beta".toList 2 (some [10]) =
        .ok (shown full 2 (some [10])) ∧
      searchBatchWithAllowlists index .sorting flatScores ["beta".toList, "beta".toList] 2
        [none, some [10]] = .ok batch ∧
      batch.forQuery 1 = some ((shown full 2 (some [10])).map ofSparseRow) := by
  obtain ⟨index, hopen, hstored⟩ := @Bm25MmapIndex.opened_of_any Bm25MmapIndex.sampleBytes
    (fun index => decide (10 ∈ index.docToRowId)) (by decide +kernel)
  obtain ⟨full, hfull, -, hallowed, -, hbatches⟩ := bm25_views sampleAvg
    Bm25MmapIndex.sampleBytes hopen .sorting flatScores
  have hknown : ∀ id ∈ [10], id ∈ index.docToRowId := fun id hid => by
    rw [List.mem_singleton.mp hid]
    exact of_decide_eq_true hstored
  have hone := hallowed "beta".toList 2 [10] hknown
  have hfinite : ∀ row ∈ full "beta".toList, row.score.isFinite := by
    obtain ⟨-, dict, haccepted⟩ := Bm25MmapIndex.open_accepted hopen
    obtain ⟨ranked, hranked, -, -, -, hscores⟩ :=
      haccepted.search flatScores none "beta".toList index.header.docCount
    have hsearch : index.search .sorting flatScores "beta".toList index.header.docCount =
        .ok (ranked.take index.header.docCount) :=
      (haccepted.searchBy_eq .sorting flatScores _ _ none).trans hranked
    rw [Except.ok.inj ((hfull _).symm.trans hsearch)]
    intro row hrow
    obtain ⟨d, -, hscore⟩ := hscores row (List.mem_of_mem_take hrow)
    rw [Bm25MmapIndex.total_none_eq_some flatScores hscore.symm]
    exact isFinite_flatScores _ (by decide)
  obtain ⟨batch, hbatch⟩ := (hbatches ["beta".toList, "beta".toList] 2 [none, some [10]]).2 rfl
    (fun rowIds hmem => by
      obtain rfl : rowIds = [10] := by simpa using hmem
      exact hknown)
    (fun query hquery => by
      obtain rfl : query = "beta".toList := by simpa using hquery
      exact hfinite)
  obtain ⟨rows, hrows, hread⟩ := ((hbatches _ 2 _).1 batch hbatch).2 1 "beta".toList (some [10])
    rfl rfl
  obtain rfl := Except.ok.inj (hrows.symm.trans hone)
  exact ⟨index, hopen, full "beta".toList, batch, hfull _, hone, hbatch, hread⟩

end OrdinalDB.Hybrid
