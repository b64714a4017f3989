import OrdinalDB.Index.Reached
import OrdinalDB.Lib.Batches
import OrdinalDB.Lib.Chunks
import OrdinalDB.Lib.Outcome

/-!
# Dense search

`search_checked_with_options` and below it `search_two_stage` of `ordinal.rs`. The scans of
`ordvec` are parameters, whose batched forms treat every query row by itself. The worker pool is
one too: it gives the number of threads, the tile floor and the order in which the chunks are
done.

`two_stage_by_row`: in whatever chunks and order, a batch is searched as its queries are alone.
-/

namespace OrdinalDB

open Float32Bits (F32)
open Chunks Outcome

variable {R S : Type}

/-! ## Definitions -/

/-- The value of a `usize` product, when there is one. -/
def checkedMul (a b : Nat) : Option Nat := if a * b < 2 ^ 64 then some (a * b) else none

def saturatingMul (a b : Nat) : Nat := min (a * b) (2 ^ 64 - 1)

inductive LimitReason
  | resultBuffer
  | candidateCount
deriving DecidableEq, Repr

inductive DenseError
  | invalidQueryDim (len dim : Nat)
  | invalidQueryValue (queryIndex coordIndex : Nat) (value : F32)
  | limit (reason : LimitReason)
  | missingSignSidecar
deriving DecidableEq, Repr

/-- How a search ends without results. -/
inductive Stop
  | error (error : DenseError)
  | panic
deriving DecidableEq, Repr

structure SearchResults where
  scores : List F32
  indices : List Int64
  nq : Nat
  k : Nat
deriving DecidableEq, Repr

def emptyResults (nq : Nat) : SearchResults := ⟨[], [], nq, 0⟩

inductive DenseSearchMode
  | auto
  | exactRankQuant
  | signTwoStage
deriving DecidableEq, Repr

structure TwoStageOptions where
  minCandidates : Nat
  kMultiplier : Nat
  maxCandidates : Option Nat
deriving DecidableEq, Repr

structure DenseSearchOptions where
  mode : DenseSearchMode
  twoStage : TwoStageOptions
deriving DecidableEq, Repr

/-- `DenseSearchOptions::default`. -/
def DenseSearchOptions.default : DenseSearchOptions := ⟨.auto, 256, 32, none⟩

inductive DenseSearchExecution
  | exactRankQuant
  | signTwoStage
deriving DecidableEq, Repr

structure DenseSearchPlan where
  execution : DenseSearchExecution
  dim : Nat
  queryCount : Nat
  requestedK : Nat
  effectiveK : Nat
  searchSpace : Nat
  candidateCount : Option Nat
deriving DecidableEq, Repr

def TwoStageOptions.candidateCount (self : TwoStageOptions) (k searchSpace : Nat) : Nat :=
  if k = 0 ∨ searchSpace = 0 then 0
  else
    let count := max self.minCandidates (saturatingMul k self.kMultiplier)
    let count := self.maxCandidates.elim count (min count)
    min count searchSpace

/-- The scans of `ordvec`. Those on a batch do what those on one query do, row by row; a batch of
candidates comes as offsets into a flat list. -/
structure Scans (R S : Type) where
  /-- The candidates of one query. -/
  topMCandidates : SignBitmap S → List F32 → Nat → List UInt32
  /-- The results of one query among its candidates. -/
  searchAsymmetricSubset : RankQuant R → List F32 → List UInt32 → Nat → List (F32 × Int64)
  topMCandidatesBatchedSerialCsr : SignBitmap S → List F32 → Nat → Batch UInt32
  searchAsymmetricSubsetBatchedSerialInto :
    RankQuant R → List F32 → List Nat → List UInt32 → Nat → List F32 × List Int64
  searchAsymmetric : RankQuant R → List F32 → Nat → SearchResults
  subset_length : ∀ rank query candidates k,
    (searchAsymmetricSubset rank query candidates k).length = k
  candidates_rows : ∀ {sign : SignBitmap S} {rows : List (List F32)}, 0 < sign.dim →
    (∀ row ∈ rows, row.length = sign.dim) → ∀ m,
    topMCandidatesBatchedSerialCsr sign rows.flatten m =
      .ofLists (rows.map fun row => topMCandidates sign row m)
  subset_rows : ∀ {rank : RankQuant R} {inputs : List (List F32 × List UInt32)}, 0 < rank.dim →
    (∀ input ∈ inputs, input.1.length = rank.dim) → ∀ k,
    searchAsymmetricSubsetBatchedSerialInto rank (inputs.map Prod.fst).flatten
        (Batch.ofLists (inputs.map Prod.snd)).offsets
        (Batch.ofLists (inputs.map Prod.snd)).hits k =
      (inputs.flatMap fun input => searchAsymmetricSubset rank input.1 input.2 k).unzip

/-- The worker pool: the chunks are done in any order, each of them once. -/
structure Pool where
  threads : Nat
  tileFloor : Nat
  order : Nat → List Nat
  order_perm : ∀ tasks, (order tasks).Perm (List.range tasks)

def twoStageMaxScoreCells : Nat := 1048576

def twoStageQueryChunkRows (pool : Pool) (nVectors nq : Nat) : Nat :=
  if nVectors = 0 ∨ nq = 0 then 1
  else
    let maxRowsByCells := max (twoStageMaxScoreCells / nVectors) 1
    let targetRows := max (nq ⌈/⌉ max pool.threads 1) pool.tileFloor
    max 1 (min nq (min maxRowsByCells targetRows))

structure TwoStageRun where
  effectiveK : Nat
  candidateCount : Nat
  nq : Nat
  dim : Nat

/-- The two parts of the results of a chunk of queries. -/
def searchChunk (scans : Scans R S) (rankquant : RankQuant R) (sign : SignBitmap S)
    (run : TwoStageRun) (queryChunk : List F32) : List F32 × List Int64 :=
  let candidates := scans.topMCandidatesBatchedSerialCsr sign queryChunk run.candidateCount
  scans.searchAsymmetricSubsetBatchedSerialInto rankquant queryChunk candidates.offsets
    candidates.hits run.effectiveK

def negInfinity : F32 := ⟨0xff800000⟩

/-- `none` is a panic, and so is every product that does not fit. -/
def searchTwoStage (scans : Scans R S) (pool : Pool) (rankquant : RankQuant R)
    (sign : SignBitmap S) (queries : List F32) (run : TwoStageRun) : Option SearchResults :=
  if run.effectiveK = 0 then some (emptyResults run.nq)
  else do
    let outLen ← checkedMul run.nq run.effectiveK
    let chunkRows := twoStageQueryChunkRows pool run.candidateCount run.nq
    let resultChunkLen ← checkedMul chunkRows run.effectiveK
    let queryChunkLen ← checkedMul chunkRows run.dim
    -- chunks of no length panic
    guard (0 < resultChunkLen ∧ 0 < queryChunkLen)
    let tasks := min (count queryChunkLen queries.length) (count resultChunkLen outLen)
    let write (buffers : List F32 × List Int64) (task : Nat) : List F32 × List Int64 :=
      let out := searchChunk scans rankquant sign run (chunk queryChunkLen queries task)
      (writeChunk resultChunkLen buffers.1 task out.1,
        writeChunk resultChunkLen buffers.2 task out.2)
    let buffers := (pool.order tasks).foldl write
      (List.replicate outLen negInfinity, List.replicate outLen (-1))
    pure ⟨buffers.1, buffers.2, run.nq, run.effectiveK⟩

def validateQueryBuffer (queries : List F32) (dim : Nat) : Except Stop Nat := do
  reject (dim = 0 ∨ queries.length % dim ≠ 0) (.error (.invalidQueryDim queries.length dim))
  match firstInvalidCoord queries dim with
  | some (queryIndex, coordIndex, value) =>
    throw (.error (.invalidQueryValue queryIndex coordIndex value))
  | none => pure (queries.length / dim)

def checkedResultBufferLen (nq k : Nat) : Except Stop Nat :=
  match checkedMul nq k with
  | some len => .ok len
  | none => .error (.error (.limit .resultBuffer))

/-- A panic of a part. -/
def orPanic {α : Type} : Option α → Except Stop α
  | some a => .ok a
  | none => .error .panic

namespace OrdinalIndex

/-- The sign store that a mode uses. -/
def useSign (self : OrdinalIndex R S) : DenseSearchMode → Except Stop (Option (SignBitmap S))
  | .auto => .ok self.sign
  | .exactRankQuant => .ok none
  | .signTwoStage =>
    match self.sign with
    | some sign => .ok (some sign)
    | none => .error (.error .missingSignSidecar)

/-- `search_validated_with_timings`, without the timings. -/
def searchValidated (scans : Scans R S) (pool : Pool) (self : OrdinalIndex R S)
    (queries : List F32) (k nq dim : Nat) (options : DenseSearchOptions) :
    Except Stop (SearchResults × DenseSearchPlan) := do
  let inner ← orPanic self.inner
  let n := inner.len
  let exactEffectiveK := min k n
  match ← self.useSign options.mode with
  | some sign =>
    let candidateCount := options.twoStage.candidateCount exactEffectiveK n
    reject (0 < exactEffectiveK ∧ candidateCount = 0) (.error (.limit .candidateCount))
    let effectiveK := min exactEffectiveK candidateCount
    let results ← orPanic
      (searchTwoStage scans pool inner sign queries ⟨effectiveK, candidateCount, nq, dim⟩)
    pure (results, ⟨.signTwoStage, dim, nq, k, effectiveK, n, some candidateCount⟩)
  | none =>
    let results := scans.searchAsymmetric inner queries exactEffectiveK
    pure (results, ⟨.exactRankQuant, dim, nq, k, exactEffectiveK, n, none⟩)

def searchCheckedWithOptions (scans : Scans R S) (pool : Pool) (self : OrdinalIndex R S)
    (queries : List F32) (k : Nat) (options : DenseSearchOptions) : Except Stop SearchResults :=
  match self.dim with
  | none => .ok (emptyResults 0)
  | some dim => do
    let nq ← validateQueryBuffer queries dim
    let _ ← checkedResultBufferLen nq (min k self.len)
    let (results, _) ← self.searchValidated scans pool queries k nq dim options
    pure results

def searchChecked (scans : Scans R S) (pool : Pool) (self : OrdinalIndex R S)
    (queries : List F32) (k : Nat) : Except Stop SearchResults :=
  self.searchCheckedWithOptions scans pool queries k .default

end OrdinalIndex

/-! ## Sizes -/

theorem checkedMul_eq_some {a b : Nat} (h : a * b < 2 ^ 64) : checkedMul a b = some (a * b) :=
  if_pos h

theorem candidateCount_le (options : TwoStageOptions) (k n : Nat) :
    options.candidateCount k n ≤ n := by
  unfold TwoStageOptions.candidateCount
  split
  next => exact Nat.zero_le n
  next => exact min_le_right _ _

/-- A chunk has at least one row, and no more than there are. -/
theorem chunkRows_bounds (pool : Pool) (nVectors : Nat) {nq : Nat} (hnq : 0 < nq) :
    1 ≤ twoStageQueryChunkRows pool nVectors nq ∧ twoStageQueryChunkRows pool nVectors nq ≤ nq := by
  unfold twoStageQueryChunkRows
  split
  next => exact ⟨le_rfl, hnq⟩
  next => exact ⟨le_max_left _ _, max_le hnq (min_le_left _ _)⟩

theorem chunkRows_pos (pool : Pool) (nVectors nq : Nat) :
    0 < twoStageQueryChunkRows pool nVectors nq := by
  unfold twoStageQueryChunkRows
  split
  next => exact Nat.one_pos
  next => exact lt_max_of_lt_left Nat.one_pos

/-- No product of a chunk is larger than that of the batch, or of one row. -/
theorem chunkRows_mul_lt (pool : Pool) (nVectors : Nat) {nq width : Nat} (hwidth : width < 2 ^ 64)
    (hfits : nq * width < 2 ^ 64) :
    twoStageQueryChunkRows pool nVectors nq * width < 2 ^ 64 := by
  rcases Nat.eq_zero_or_pos nq with rfl | hnq
  · unfold twoStageQueryChunkRows
    rw [if_pos (.inr rfl), Nat.one_mul]
    exact hwidth
  · exact (Nat.mul_le_mul_right width (chunkRows_bounds pool nVectors hnq).2).trans_lt hfits

theorem checkedMul_cases (a b : Nat) :
    checkedMul a b = none ∨ checkedMul a b = some (a * b) ∧ a * b < 2 ^ 64 := by
  unfold checkedMul
  split
  next h => exact .inr ⟨rfl, h⟩
  next => exact .inl rfl

/-- What the check of the queries finds. -/
theorem validateQueryBuffer_cases (queries : List F32) (dim : Nat) :
    (∃ e, validateQueryBuffer queries dim = .error (.error e)) ∨
      0 < dim ∧ queries.length = queries.length / dim * dim ∧
        firstInvalidCoord queries dim = none ∧
        validateQueryBuffer queries dim = .ok (queries.length / dim) := by
  unfold validateQueryBuffer reject
  split
  next => exact .inl ⟨_, rfl⟩
  next hshape =>
    obtain ⟨hdim, hmultiple⟩ := not_or.mp hshape
    cases hcoord : firstInvalidCoord queries dim with
    | none =>
      exact .inr ⟨Nat.pos_of_ne_zero hdim, (Nat.div_mul_cancel
        (Nat.dvd_of_mod_eq_zero (not_not.mp hmultiple))).symm, rfl, rfl⟩
    | some found =>
      obtain ⟨queryIndex, coordIndex, value⟩ := found
      exact .inl ⟨_, rfl⟩

/-! ## Rows -/

section Rows

variable {scans : Scans R S} {pool : Pool} {rankquant : RankQuant R} {sign : SignBitmap S}
  {rows : List (List F32)} {run : TwoStageRun}

/-- The results of one query. -/
def searchRow (scans : Scans R S) (rankquant : RankQuant R) (sign : SignBitmap S)
    (run : TwoStageRun) (query : List F32) : List (F32 × Int64) :=
  scans.searchAsymmetricSubset rankquant query (scans.topMCandidates sign query run.candidateCount)
    run.effectiveK

theorem length_searchRow (query : List F32) :
    (searchRow scans rankquant sign run query).length = run.effectiveK :=
  scans.subset_length _ _ _ _

/-- A chunk of whole rows gives the results of its rows. -/
theorem searchChunk_rows (hdim : 0 < rankquant.dim) (hsign : sign.dim = rankquant.dim)
    (hrows : ∀ row ∈ rows, row.length = rankquant.dim) :
    searchChunk scans rankquant sign run rows.flatten =
      (rows.flatMap (searchRow scans rankquant sign run)).unzip := by
  unfold searchChunk
  rw [scans.candidates_rows (hsign ▸ hdim) (hsign ▸ hrows)]
  have hsubset := @Scans.subset_rows _ _ scans rankquant
    (rows.map fun row => (row, scans.topMCandidates sign row run.candidateCount)) hdim
    (List.forall_mem_map.mpr hrows) run.effectiveK
  have hqueries : (rows.map fun row => (row, scans.topMCandidates sign row
      run.candidateCount)).map Prod.fst = rows := by
    rw [List.map_map]
    exact List.map_id rows
  rw [hqueries, List.map_map, List.flatMap_map] at hsubset
  exact hsubset

theorem foldl_pair {A B C : Type} (f : A → C → A) (g : B → C → B) (l : List C) (a : A) (b : B) :
    l.foldl (fun state c => (f state.1 c, g state.2 c)) (a, b) = (l.foldl f a, l.foldl g b) := by
  induction l generalizing a b with
  | nil => rfl
  | cons c l ih => exact ih (f a c) (g b c)

/-- One column of the results of all queries. -/
def column {B : Type} (scans : Scans R S) (rankquant : RankQuant R) (sign : SignBitmap S)
    (run : TwoStageRun) (part : F32 × Int64 → B) (rows : List (List F32)) : List B :=
  (rows.map fun row => (searchRow scans rankquant sign run row).map part).flatten

theorem searchChunk_eq (hdim : 0 < rankquant.dim) (hsign : sign.dim = rankquant.dim)
    (hrows : ∀ row ∈ rows, row.length = rankquant.dim) :
    searchChunk scans rankquant sign run rows.flatten =
      (column scans rankquant sign run Prod.fst rows,
        column scans rankquant sign run Prod.snd rows) := by
  have hcolumn : ∀ {B : Type} (part : F32 × Int64 → B),
      (rows.flatMap (searchRow scans rankquant sign run)).map part =
        column scans rankquant sign run part rows := fun part => by
    rw [List.map_flatMap, List.flatMap_def]
    rfl
  rw [searchChunk_rows hdim hsign hrows, List.unzip_eq_map, hcolumn, hcolumn]

theorem column_uniform {B : Type} {part : F32 × Int64 → B} :
    ∀ list ∈ rows.map fun row => (searchRow scans rankquant sign run row).map part,
      list.length = run.effectiveK :=
  List.forall_mem_map.mpr fun row _ => by rw [List.length_map, length_searchRow]

/-- The part of a column that belongs to a chunk of rows. -/
theorem chunk_column {B : Type} (part : F32 × Int64 → B) (size i : Nat) :
    chunk (size * run.effectiveK) (column scans rankquant sign run part rows) i =
      column scans rankquant sign run part (chunk size rows i) := by
  unfold column
  rw [chunk_flatten column_uniform]
  simp only [chunk, List.map_take, List.map_drop]

theorem length_column {B : Type} (part : F32 × Int64 → B) :
    (column scans rankquant sign run part rows).length = rows.length * run.effectiveK := by
  rw [column, flatten_length column_uniform, List.length_map]

/-- Every chunk of a buffer gets the results of its rows. -/
theorem fill_column {B : Type} (part : F32 × Int64 → B) (first : B) {size : Nat} (hsize : 0 < size)
    (hk : 0 < run.effectiveK) :
    (pool.order (count (size * run.effectiveK) (rows.length * run.effectiveK))).foldl
      (fun buffer task => writeChunk (size * run.effectiveK) buffer task
        (column scans rankquant sign run part (chunk size rows task)))
      (List.replicate (rows.length * run.effectiveK) first) =
    column scans rankquant sign run part rows := by
  simp only [← chunk_column]
  refine writeChunks_eq (Nat.mul_pos hsize hk) ?_ ?_
  · rw [List.length_replicate, length_column]
  · rw [length_column]
    exact pool.order_perm _

/-- Whole batches, whatever the chunks and their order. -/
theorem searchTwoStage_rows (hdim : 0 < rankquant.dim) (hsmall : rankquant.dim < 2 ^ 64)
    (hsign : sign.dim = rankquant.dim) (hrows : ∀ row ∈ rows, row.length = rankquant.dim)
    (hnq : run.nq = rows.length) (hrun : run.dim = rankquant.dim)
    (hqueries : rows.length * rankquant.dim < 2 ^ 64) (hk : run.effectiveK < 2 ^ 64)
    (hfits : rows.length * run.effectiveK < 2 ^ 64) :
    searchTwoStage scans pool rankquant sign rows.flatten run =
      some ⟨column scans rankquant sign run Prod.fst rows,
        column scans rankquant sign run Prod.snd rows, rows.length, run.effectiveK⟩ := by
  unfold searchTwoStage
  rw [hnq, hrun]
  split
  next hzero =>
    have hnone : ∀ {B : Type} (part : F32 × Int64 → B),
        column scans rankquant sign run part rows = [] := fun part => by
      rw [← List.length_eq_zero_iff, length_column, hzero, Nat.mul_zero]
    rw [hnone, hnone, hzero]
    rfl
  next hpositive =>
    have hpos := Nat.pos_of_ne_zero hpositive
    have hsize := chunkRows_pos pool run.candidateCount rows.length
    have hresults := chunkRows_mul_lt pool run.candidateCount hk hfits
    have hchunks := chunkRows_mul_lt pool run.candidateCount hsmall hqueries
    generalize twoStageQueryChunkRows pool run.candidateCount rows.length = size
      at hsize hresults hchunks ⊢
    have hlength := flatten_length hrows
    -- the three lists have as many chunks
    have htasks : min (count (size * rankquant.dim) rows.flatten.length)
        (count (size * run.effectiveK) (rows.length * run.effectiveK)) =
        count (size * run.effectiveK) (rows.length * run.effectiveK) := by
      rw [hlength, count_mul hdim hsize, count_mul hpos hsize, min_self]
    have hchunk : ∀ task, searchChunk scans rankquant sign run
        (chunk (size * rankquant.dim) rows.flatten task) =
        (column scans rankquant sign run Prod.fst (chunk size rows task),
          column scans rankquant sign run Prod.snd (chunk size rows task)) := by
      intro task
      rw [chunk_flatten hrows, searchChunk_eq hdim hsign]
      exact fun row hrow => hrows row (List.mem_of_mem_drop (List.mem_of_mem_take hrow))
    simp only [checkedMul_eq_some hfits, checkedMul_eq_some hresults, checkedMul_eq_some hchunks,
      Option.bind_eq_bind, Option.bind_some, Nat.mul_pos hsize hpos, Nat.mul_pos hsize hdim,
      and_self, guard_true, hchunk, htasks, Option.pure_def]
    have hpair := foldl_pair
      (fun buffer task => writeChunk (size * run.effectiveK) buffer task
        (column scans rankquant sign run Prod.fst (chunk size rows task)))
      (fun buffer task => writeChunk (size * run.effectiveK) buffer task
        (column scans rankquant sign run Prod.snd (chunk size rows task)))
      (pool.order (count (size * run.effectiveK) (rows.length * run.effectiveK)))
      (List.replicate (rows.length * run.effectiveK) negInfinity)
      (List.replicate (rows.length * run.effectiveK) (-1))
    rw [fill_column Prod.fst negInfinity hsize hpos, fill_column Prod.snd (-1) hsize hpos] at hpair
    rw [hpair]

end Rows

/-! ## Single queries -/

/-- The rows of a buffer that holds `nq` of them. -/
theorem rowsOf_whole {dim nq : Nat} {queries : List F32} (hdim : 0 < dim)
    (hlength : queries.length = nq * dim) :
    (rowsOf dim queries).length = nq ∧ (rowsOf dim queries).flatten = queries ∧
      (∀ row ∈ rowsOf dim queries, row.length = dim) ∧
      ∀ i < nq, (rowsOf dim queries)[i]? = some (rowAt dim queries i) := by
  have hcount : queries.length / dim = nq := by rw [hlength, Nat.mul_div_cancel nq hdim]
  refine ⟨by rw [rowsOf_length, hcount], ?_, fun row hrow => ?_, fun i hi => ?_⟩
  · show ((List.range _).map (chunk dim queries)).flatten = queries
    rw [flatten_chunks, hcount, ← hlength, List.take_length]
  · obtain ⟨i, hi, rfl⟩ := List.mem_map.mp hrow
    rw [hcount, List.mem_range] at hi
    have hle := Nat.mul_le_mul_right dim (Nat.succ_le_of_lt hi)
    rw [Nat.succ_mul, ← hlength] at hle
    show (chunk dim queries i).length = dim
    rw [length_chunk]
    exact min_eq_left (Nat.le_sub_of_add_le' hle)
  · rw [rowsOf, List.getElem?_map, List.getElem?_range (hcount ▸ hi)]
    rfl

/-- Every query has its row of the results, which is what the query gets alone. -/
structure ByRow (nq k : Nat) (results : SearchResults) (alone : Nat → SearchResults) : Prop where
  queryCount : results.nq = nq
  effectiveK : results.k = k
  scoreCount : results.scores.length = nq * k
  indexCount : results.indices.length = nq * k
  row : ∀ i < nq, alone i = ⟨chunk k results.scores i, chunk k results.indices i, 1, k⟩

section Single

variable {scans : Scans R S} {rankquant : RankQuant R} {sign : SignBitmap S} {queries : List F32}
  {run : TwoStageRun}

/-- The results of one query in two lists. -/
def aloneResults (scans : Scans R S) (rankquant : RankQuant R) (sign : SignBitmap S)
    (run : TwoStageRun) (query : List F32) : SearchResults :=
  ⟨(searchRow scans rankquant sign run query).map Prod.fst,
    (searchRow scans rankquant sign run query).map Prod.snd, 1, run.effectiveK⟩

theorem column_single {B : Type} (part : F32 × Int64 → B) (query : List F32) :
    column scans rankquant sign run part [query] =
      (searchRow scans rankquant sign run query).map part :=
  List.append_nil _

theorem searchTwoStage_single (scans : Scans R S) (pool : Pool) (hdim : 0 < rankquant.dim)
    (hsmall : rankquant.dim < 2 ^ 64) (hsign : sign.dim = rankquant.dim)
    (hrun : run.dim = rankquant.dim) (hnq : run.nq = 1) (hk : run.effectiveK < 2 ^ 64)
    {query : List F32} (hquery : query.length = rankquant.dim) :
    searchTwoStage scans pool rankquant sign query run =
      some (aloneResults scans rankquant sign run query) := by
  have hrows := @searchTwoStage_rows _ _ scans pool rankquant sign [query] run hdim hsmall hsign
    (by simpa) hnq hrun (by simpa) hk (by simpa)
  rw [List.flatten_singleton, column_single, column_single] at hrows
  exact hrows

/-- The results of a batch, row by row. -/
theorem searchTwoStage_byRow (scans : Scans R S) (pool : Pool) (run : TwoStageRun)
    (hdim : 0 < rankquant.dim) (hsmall : rankquant.dim < 2 ^ 64) (hsign : sign.dim = rankquant.dim)
    (hrun : run.dim = rankquant.dim) (hk : run.effectiveK < 2 ^ 64)
    (hlength : queries.length = run.nq * rankquant.dim) (hslice : queries.length < 2 ^ 64)
    (hfits : run.nq * run.effectiveK < 2 ^ 64) :
    ∃ results, searchTwoStage scans pool rankquant sign queries run = some results ∧
      ByRow run.nq run.effectiveK results fun i =>
        aloneResults scans rankquant sign run (rowAt rankquant.dim queries i) := by
  obtain ⟨hcount, hwhole, hrows, hrow⟩ := rowsOf_whole hdim hlength
  have hsearch := @searchTwoStage_rows _ _ scans pool rankquant sign (rowsOf rankquant.dim queries)
    run hdim hsmall hsign hrows hcount.symm hrun (by rw [hcount, ← hlength]; exact hslice) hk
    (by rwa [hcount])
  rw [hwhole, hcount] at hsearch
  refine ⟨_, hsearch, rfl, rfl, ?_, ?_, fun i hi => ?_⟩
  · rw [length_column, hcount]
  · rw [length_column, hcount]
  · have hpart : ∀ {B : Type} (part : F32 × Int64 → B), chunk run.effectiveK
        (column scans rankquant sign run part (rowsOf rankquant.dim queries)) i =
          (searchRow scans rankquant sign run (rowAt rankquant.dim queries i)).map part := by
      intro B part
      refine row_flatten column_uniform ?_
      rw [List.getElem?_map, hrow i hi]
      rfl
    rw [aloneResults, hpart Prod.fst, hpart Prod.snd]

end Single

/-! ## Searches of an index -/

namespace OrdinalIndex

variable {scans : Scans R S} {pool : Pool} {index : OrdinalIndex R S} {rank : RankQuant R}
  {sign : SignBitmap S} {options : DenseSearchOptions} {queries : List F32}

/-- The run that a two-stage search of an index makes. -/
def runOf (rank : RankQuant R) (options : DenseSearchOptions) (k nq : Nat) : TwoStageRun where
  effectiveK := min (min k rank.len) (options.twoStage.candidateCount (min k rank.len) rank.len)
  candidateCount := options.twoStage.candidateCount (min k rank.len) rank.len
  nq := nq
  dim := rank.dim

def planOf (rank : RankQuant R) (options : DenseSearchOptions) (k nq : Nat) : DenseSearchPlan :=
  ⟨.signTwoStage, rank.dim, nq, k, (runOf rank options k nq).effectiveK, rank.len,
    some (runOf rank options k nq).candidateCount⟩

/-- No candidates for a search that asks for rows. -/
def Starved (rank : RankQuant R) (options : DenseSearchOptions) (k : Nat) : Prop :=
  0 < min k rank.len ∧ options.twoStage.candidateCount (min k rank.len) rank.len = 0

instance (rank : RankQuant R) (options : DenseSearchOptions) (k : Nat) :
    Decidable (Starved rank options k) :=
  inferInstanceAs (Decidable (_ ∧ _))

theorem searchValidated_eq (hrank : index.inner = some rank) (hsign : index.sign = some sign)
    (hmode : options.mode ≠ .exactRankQuant) (k nq : Nat) :
    index.searchValidated scans pool queries k nq rank.dim options = (do
      reject (Starved rank options k) (.error (.limit .candidateCount))
      let results ← orPanic (searchTwoStage scans pool rank sign queries (runOf rank options k nq))
      pure (results, planOf rank options k nq)) := by
  have huse : index.useSign options.mode = .ok (some sign) := by
    cases hchoice : options.mode with
    | auto => exact congrArg _ hsign
    | exactRankQuant => exact absurd hchoice hmode
    | signTwoStage =>
      rw [useSign, hsign]
  rw [searchValidated, hrank, huse]
  rfl

theorem runOf_le (rank : RankQuant R) (options : DenseSearchOptions) (k nq : Nat) :
    (runOf rank options k nq).effectiveK ≤ (runOf rank options k nq).candidateCount ∧
      (runOf rank options k nq).candidateCount ≤ rank.len :=
  ⟨min_le_right _ _, candidateCount_le _ _ _⟩

theorem effectiveK_le (rank : RankQuant R) (options : DenseSearchOptions) (k nq : Nat) :
    (runOf rank options k nq).effectiveK ≤ min k rank.len :=
  min_le_left _ _

/-- A two-stage search of an index with both stores, for a `k` and queries that memory holds. -/
theorem searchValidated_byRow (scans : Scans R S) (pool : Pool) (hshaped : index.Shaped)
    (hrank : index.inner = some rank) (hsign : index.sign = some sign)
    (hmode : options.mode ≠ .exactRankQuant) {k nq : Nat}
    (hlength : queries.length = nq * rank.dim) (hslice : queries.length < 2 ^ 64)
    (hk : k < 2 ^ 64) (hcandidates : ¬Starved rank options k)
    (hfits : nq * (runOf rank options k nq).effectiveK < 2 ^ 64) :
    ∃ results, index.searchValidated scans pool queries k nq rank.dim options =
        .ok (results, planOf rank options k nq) ∧
      ByRow nq (runOf rank options k nq).effectiveK results fun i =>
        aloneResults scans rank sign (runOf rank options k nq) (rowAt rank.dim queries i) := by
  obtain ⟨-, -, hcompatible⟩ := hshaped.rank rank hrank
  obtain ⟨rank', hrank', hsame, -⟩ := hshaped.sign sign hsign
  obtain rfl := Option.some.inj (hrank.symm.trans hrank')
  have hsmall : rank.dim < 2 ^ 64 := hcompatible.2.1.trans_lt (by norm_num)
  have hbound := ((effectiveK_le rank options k nq).trans (min_le_left _ _)).trans_lt hk
  obtain ⟨results, hsearch, hrows⟩ := searchTwoStage_byRow scans pool (runOf rank options k nq)
    (Nat.zero_lt_two.trans_le hcompatible.1) hsmall hsame rfl hbound hlength hslice hfits
  refine ⟨results, ?_, hrows⟩
  rw [searchValidated_eq hrank hsign hmode, (reject_eq_ok (u := ())).mpr hcandidates, ok_bind,
    hsearch]
  rfl

/-- Two-stage search in chunks is search row by row: row `i` of the results holds what
`searchRow` scores for query `i`, whichever pool the chunks were made for. The chunks tile the
queries, the sizes are in order and nothing overflows: a buffer that would be too large is found by
the checked multiplication, which the checked entry reports before it searches. -/
theorem two_stage_by_row (scans : Scans R S) (pool : Pool) (index : OrdinalIndex R S)
    (hshaped : index.Shaped) (rank : RankQuant R) (hrank : index.inner = some rank)
    (sign : SignBitmap S) (hsign : index.sign = some sign) (options : DenseSearchOptions)
    (hmode : options.mode ≠ .exactRankQuant) (queries : List F32) (nq k : Nat)
    (hlength : queries.length = nq * rank.dim) (hslice : queries.length < 2 ^ 64)
    (hk : k < 2 ^ 64) :
    let run := runOf rank options k nq
    let rows := twoStageQueryChunkRows pool run.candidateCount nq
    (run.effectiveK ≤ run.candidateCount ∧ run.candidateCount ≤ rank.len) ∧
    (∀ query < nq, 1 ≤ rows ∧ rows ≤ nq ∧
      ∃! chunk, chunk < count rows nq ∧ chunk * rows ≤ query ∧ query < (chunk + 1) * rows) ∧
    (Starved rank options k → index.searchValidated scans pool queries k nq rank.dim options =
      .error (.error (.limit .candidateCount))) ∧
    (¬Starved rank options k → nq * run.effectiveK < 2 ^ 64 → ∃ results,
      index.searchValidated scans pool queries k nq rank.dim options =
        .ok (results, planOf rank options k nq) ∧
      ByRow nq run.effectiveK results (fun query =>
        aloneResults scans rank sign run (rowAt rank.dim queries query)) ∧
      ∀ (pool' : Pool), ∀ query < nq, index.searchValidated scans pool'
        (rowAt rank.dim queries query) k 1 rank.dim options =
          .ok (aloneResults scans rank sign run (rowAt rank.dim queries query),
            planOf rank options k 1)) ∧
    index.searchCheckedWithOptions scans pool queries k options ≠ .error .panic := by
  obtain ⟨hdim, -, hcompatible⟩ := hshaped.rank rank hrank
  have hpositive : 0 < rank.dim := Nat.zero_lt_two.trans_le hcompatible.1
  have hstarved : Starved rank options k → ∀ nq, index.searchValidated scans pool queries k nq
      rank.dim options = .error (.error (.limit .candidateCount)) := by
    intro hstarved nq
    rw [searchValidated_eq hrank hsign hmode, reject, if_pos hstarved]
    rfl
  refine ⟨runOf_le rank options k nq, fun query hquery => ?_, fun h => hstarved h nq,
    fun hcandidates hfits => ?_, ?_⟩
  · have hbounds := chunkRows_bounds pool (runOf rank options k nq).candidateCount
      (Nat.zero_lt_of_lt hquery)
    exact ⟨hbounds.1, hbounds.2, exists_unique_chunk hbounds.1 hquery⟩
  · obtain ⟨results, hsearch, hrows⟩ := searchValidated_byRow scans pool
      hshaped hrank hsign hmode hlength hslice hk hcandidates hfits
    refine ⟨results, hsearch, hrows, fun pool' query hquery => ?_⟩
    -- a row searched alone is a batch of one row, whatever pool its scan has
    obtain ⟨-, -, hwidth, hrow⟩ := rowsOf_whole hpositive hlength
    have hone := hwidth _ (List.mem_of_getElem? (hrow query hquery))
    have hsmall : rank.dim < 2 ^ 64 := hcompatible.2.1.trans_lt (by norm_num)
    have hbound := ((effectiveK_le rank options k 1).trans (min_le_left _ _)).trans_lt hk
    obtain ⟨rank', hrank', hsame, -⟩ := hshaped.sign sign hsign
    obtain rfl := Option.some.inj (hrank.symm.trans hrank')
    rw [searchValidated_eq hrank hsign hmode, (reject_eq_ok (u := ())).mpr hcandidates, ok_bind,
      searchTwoStage_single scans pool' hpositive hsmall hsame rfl rfl hbound hone]
    rfl
  -- the checked entry: each error is a value, and the buffer fits when none is returned
  · unfold searchCheckedWithOptions
    rw [hdim]
    dsimp only
    rcases validateQueryBuffer_cases queries rank.dim with ⟨e, he⟩ | ⟨-, hwhole, -, hok⟩
    · rw [he]
      rintro ⟨⟩
    have hlen : index.len = rank.len := by
      rw [len, hrank]
      rfl
    rw [hok, ok_bind, checkedResultBufferLen, hlen]
    rcases checkedMul_cases (queries.length / rank.dim) (min k rank.len) with hover | ⟨hfits, hlt⟩
    · rw [hover]
      rintro ⟨⟩
    rw [hfits, ok_bind]
    by_cases hcandidates : Starved rank options k
    · rw [hstarved hcandidates]
      rintro ⟨⟩
    · obtain ⟨results, hsearch, -⟩ := searchValidated_byRow scans pool
        hshaped hrank hsign hmode hwhole hslice hk hcandidates
        ((Nat.mul_le_mul_left _ (effectiveK_le rank options k _)).trans_lt hlt)
      rw [hsearch]
      rintro ⟨⟩

/-! ## Scans that score nothing -/

theorem rowsOf_flatten {dim : Nat} {rows : List (List F32)} (hdim : 0 < dim)
    (hrows : ∀ row ∈ rows, row.length = dim) : rowsOf dim rows.flatten = rows := by
  obtain ⟨hcount, -, -, hrow⟩ := rowsOf_whole hdim (flatten_length hrows)
  refine List.ext_getElem hcount fun i hi hi' => ?_
  rw [← Option.some_inj, ← List.getElem?_eq_getElem hi, hrow i hi']
  exact congrArg some (row_flatten hrows (List.getElem?_eq_getElem hi'))

def firstSlots (sign : SignBitmap Unit) (m : Nat) : List UInt32 :=
  (List.range (min m sign.rows.length)).map UInt32.ofNat

def zeroScores (candidates : List UInt32) (k : Nat) : List (F32 × Int64) :=
  (candidates.map fun slot => (F32.zero, Int64.ofNat slot.toNat)).takeD k (negInfinity, -1)

/-- Every slot scores zero, and the first ones are candidates. -/
def zeroScans : Scans Unit Unit where
  topMCandidates sign _ m := firstSlots sign m
  searchAsymmetricSubset _ _ candidates k := zeroScores candidates k
  topMCandidatesBatchedSerialCsr sign queries m :=
    .ofLists ((rowsOf sign.dim queries).map fun _ => firstSlots sign m)
  searchAsymmetricSubsetBatchedSerialInto rank queries offsets candidates k :=
    (((rowsOf rank.dim queries).zip (Batch.lists ⟨offsets, candidates⟩)).flatMap fun input =>
      zeroScores input.2 k).unzip
  searchAsymmetric _ _ k := emptyResults k
  subset_length _ _ _ _ := List.takeD_length _ _ _
  candidates_rows hdim hrows m := by rw [rowsOf_flatten hdim hrows]
  subset_rows {rank inputs} hdim hinputs k := by
    have hlists : Batch.lists ⟨(Batch.ofLists (inputs.map Prod.snd)).offsets,
        (Batch.ofLists (inputs.map Prod.snd)).hits⟩ = inputs.map Prod.snd :=
      (Batch.ofLists_spec _).2
    rw [rowsOf_flatten hdim (List.forall_mem_map.mpr hinputs), hlists, List.zip_map']
    have hsame : inputs.map (fun input => (input.1, input.2)) = inputs := List.map_id inputs
    rw [hsame]

/-- One thread, which takes the tasks in order. -/
def onePool : Pool := ⟨1, 1, List.range, fun _ => List.Perm.refl _⟩

/-- Two threads that end in reverse order. -/
def twoPool : Pool := ⟨2, 1, fun tasks => (List.range tasks).reverse, fun _ => List.reverse_perm _⟩

def threeRank : RankQuant Unit := ⟨64, 2, [(), (), ()]⟩

def threeSign : SignBitmap Unit := ⟨64, [(), (), ()]⟩

/-- Three rows in both stores. -/
def threeRows : OrdinalIndex Unit Unit := ⟨some 64, 2, some threeRank, some threeSign, .optional⟩

theorem threeRows_shaped : threeRows.Shaped := by
  refine ⟨fun rank hrank => ?_, fun sign hsign => ?_⟩
  · obtain rfl := Option.some.inj hrank
    exact ⟨rfl, rfl, by decide, by decide, by decide, by decide⟩
  · obtain rfl := Option.some.inj hsign
    exact ⟨_, rfl, rfl, rfl, by decide⟩

/-- Two queries of different components. -/
def twoQueries : List F32 := List.replicate 64 F32.zero ++ List.replicate 64 negInfinity

theorem twoQueries_length : twoQueries.length = 2 * 64 := by
  rw [twoQueries, List.length_append, List.length_replicate, List.length_replicate]

theorem threeRows_by_row : ∃ results,
    threeRows.searchValidated zeroScans twoPool twoQueries 2 2 64 .default =
      .ok (results, planOf threeRank .default 2 2) ∧
    ByRow 2 2 results fun _ => ⟨[.zero, .zero], [0, 1], 1, 2⟩ := by
  obtain ⟨results, hsearch, hrows, -⟩ := (two_stage_by_row zeroScans twoPool threeRows
    threeRows_shaped threeRank rfl threeSign rfl .default (fun h => by cases h) twoQueries 2 2
    twoQueries_length (twoQueries_length.trans_lt (by norm_num)) (by norm_num)).2.2.2.1 (by decide) (by decide)
  exact ⟨results, hsearch, hrows⟩

end OrdinalIndex

end OrdinalDB
