import OrdinalDB.Hybrid.Accepting
import OrdinalDB.Index.Search

/-!
# Dense searches as ranked rows

`search_batch_rows_with_allowlists` and `search_rows_with_allowlist` of `ordinal.rs`. The batch
has its candidates in one flat list with offsets and one `k` for all queries; short rows are
padded and the padding is dropped again.

`allowlist_batch_eq_singles`: a batch is accepted when its queries are, and its rows are theirs.
-/

namespace OrdinalDB.Hybrid

open Float32Bits Outcome Chunks

variable {R S : Type}

/-! ## Definitions -/

inductive DenseBatchError
  | search (stop : Stop)
  | allowlistCount (lists queries : Nat)
  | allowlistRowIdMissing (rowId : UInt64)
  | slotIndexOverflow (slot : Nat)
  | batch (error : HybridError)
deriving DecidableEq, Repr

abbrev DenseResult := Except DenseBatchError

/-- A search, or a panic of it. -/
def searching {α : Type} (result : Except Stop α) : DenseResult α := result.mapError .search

def batching (result : Except HybridError RankedBatch) : DenseResult RankedBatch :=
  result.mapError .batch

def rankedResults (results : SearchResults) : DenseResult RankedBatch :=
  batching (RankedBatch.fromFlatScoresI64Indices results.nq results.k results.scores
    results.indices)

/-- The slot of a row id: an index without ids has the slots themselves. -/
def slotOf (index : OrdinalIndex R S) (rowId : UInt64) : DenseResult UInt32 :=
  if index.len ≤ rowId.toNat then .error (.allowlistRowIdMissing rowId)
  else if 2 ^ 32 ≤ rowId.toNat then .error (.slotIndexOverflow rowId.toNat)
  else .ok rowId.toUInt32

/-- `dedup` of a vector. -/
def dedup : List UInt32 → List UInt32
  | slot :: next :: slots =>
    if slot = next then dedup (next :: slots) else slot :: dedup (next :: slots)
  | slots => slots

/-- The candidates of one allowlist. -/
def rowCandidates (index : OrdinalIndex R S) (rowIds : List UInt64) : DenseResult (List UInt32) := do
  let slots ← rowIds.mapM (slotOf index)
  pure (dedup (slots.insertionSort (· ≤ ·)))

/-- The loop over the allowlists, with the size of the largest. -/
def gatherCandidates (index : OrdinalIndex R S) (lists : List (List UInt64)) :
    DenseResult (Batch UInt32 × Nat) :=
  lists.foldlM (fun state rowIds => do
    let candidates ← rowCandidates index rowIds
    pure (state.1.push candidates, max state.2 candidates.length)) (Batch.empty, 0)

/-- `search_candidate_csr_serial`; `none` is a panic. -/
def searchCandidateCsrSerial (scans : Scans R S) (rankquant : RankQuant R) (queries : List F32)
    (candidates : Batch UInt32) (effectiveK nq : Nat) : Option SearchResults :=
  if effectiveK = 0 then some (emptyResults nq)
  else do
    let _ ← checkedMul nq effectiveK
    let out := scans.searchAsymmetricSubsetBatchedSerialInto rankquant queries candidates.offsets
      candidates.hits effectiveK
    pure ⟨out.1, out.2, nq, effectiveK⟩

def searchBatchRows (scans : Scans R S) (pool : Pool) (index : OrdinalIndex R S)
    (queries : List F32) (k : Nat) : DenseResult RankedBatch := do
  let results ← searching (index.searchChecked scans pool queries k)
  rankedResults results

def searchBatchRowsWithAllowlists (scans : Scans R S) (pool : Pool) (index : OrdinalIndex R S)
    (queries : List F32) (k : Nat) (allowlists : Option (List (List UInt64))) :
    DenseResult RankedBatch :=
  match allowlists with
  | none => searchBatchRows scans pool index queries k
  | some lists =>
    match index.dim with
    | none =>
      if queries = [] then .ok .empty
      else .error (.search (.error (.invalidQueryDim queries.length 0)))
    | some dim => do
      let nq ← searching (validateQueryBuffer queries dim)
      reject (lists.length ≠ nq) (.allowlistCount lists.length nq)
      let (candidates, maxCandidates) ← gatherCandidates index lists
      let effectiveK := min k maxCandidates
      let _ ← searching (checkedResultBufferLen nq effectiveK)
      let inner ← searching (orPanic index.inner)
      let results ← searching
        (orPanic (searchCandidateCsrSerial scans inner queries candidates effectiveK nq))
      rankedResults results

def validateSingleQueryBuffer (query : List F32) (dim : Option Nat) : Except Stop Unit :=
  match dim with
  | none => reject (query ≠ []) (.error (.invalidQueryDim query.length 0))
  | some dim => do
    reject (query.length ≠ dim) (.error (.invalidQueryDim query.length dim))
    let _ ← validateQueryBuffer query dim

def searchRowsWithAllowlist (scans : Scans R S) (pool : Pool) (index : OrdinalIndex R S)
    (query : List F32) (k : Nat) (allowlist : Option (List UInt64)) :
    DenseResult (List ScoredRow) := do
  searching (validateSingleQueryBuffer query index.dim)
  let batch ← searchBatchRowsWithAllowlists scans pool index query k
    (allowlist.map fun ids => [ids])
  pure batch.hits

/-- The subset search of one query returns the best `k` of its candidates by descending score and
pads a short row with the index -1. -/
structure BestSubset (scans : Scans R S) where
  score : RankQuant R → List F32 → UInt32 → F32
  best : RankQuant R → List F32 → List UInt32 → List UInt32
  best_perm : ∀ rank query candidates, (best rank query candidates).Perm candidates
  best_sorted : ∀ rank query candidates, (best rank query candidates).Pairwise fun a b =>
    (score rank query b).totalKey ≤ (score rank query a).totalKey
  subset_best : ∀ {rank : RankQuant R} {query : List F32} {candidates : List UInt32},
    candidates.Nodup → (∀ slot ∈ candidates, slot.toNat < rank.len) → ∀ k, ∃ padding : List F32,
    scans.searchAsymmetricSubset rank query candidates k =
      ((best rank query candidates).take k).map
          (fun slot => (score rank query slot, Int64.ofNat slot.toNat)) ++
        padding.map fun score => (score, -1)

/-! ## Candidates -/

section Candidates

variable {slots : List UInt32} {index : OrdinalIndex R S} {rowIds : List UInt64}
  {candidates : List UInt32}

theorem mem_dedup {slot : UInt32} : slot ∈ dedup slots ↔ slot ∈ slots := by
  fun_induction dedup slots with
  | case1 next rest ih =>
    rw [ih]
    simp
  | case2 first next rest hne ih => rw [List.mem_cons, List.mem_cons, ih]
  | case3 rest _ => rfl

/-- A sorted list without repetitions is left. -/
theorem dedup_strict (h : slots.Pairwise (· ≤ ·)) : (dedup slots).Pairwise (· < ·) := by
  fun_induction dedup slots with
  | case1 next rest ih => exact ih h.of_cons
  | case2 first next rest hne ih =>
    obtain ⟨hfirst, hrest⟩ := List.pairwise_cons.mp h
    refine List.pairwise_cons.mpr ⟨fun slot hslot => ?_, ih hrest⟩
    have hlt : first < next := UInt32.lt_of_le_of_ne (hfirst next List.mem_cons_self) hne
    rcases List.mem_cons.mp (mem_dedup.mp hslot) with rfl | hmem
    · exact hlt
    · exact UInt32.lt_of_lt_of_le hlt ((List.pairwise_cons.mp hrest).1 slot hmem)
  | case3 rest hshort =>
    cases rest with
    | nil => exact .nil
    | cons slot rest =>
      cases rest with
      | nil => exact List.pairwise_singleton _ _
      | cons next rest => exact absurd rfl (hshort slot next rest)

theorem slotOf_eq_ok {rowId : UInt64} {slot : UInt32} : slotOf index rowId = .ok slot ↔
    rowId.toNat < index.len ∧ rowId = slot.toUInt64 := by
  unfold slotOf
  split
  next hmissing => exact iff_of_false nofun fun h => absurd h.1 (not_lt.mpr hmissing)
  next hpresent =>
    split
    next hlarge =>
      refine iff_of_false nofun fun h => ?_
      have hsmall := slot.toNat_lt
      rw [h.2, UInt32.toNat_toUInt64] at hlarge
      exact absurd hsmall (not_lt.mpr hlarge)
    next hsmall =>
      rw [Except.ok.injEq]
      constructor
      · rintro rfl
        refine ⟨not_le.mp hpresent, UInt64.toNat_inj.mp ?_⟩
        rw [UInt32.toNat_toUInt64, UInt64.toNat_toUInt32, Nat.mod_eq_of_lt (not_le.mp hsmall)]
      · rintro ⟨-, rfl⟩
        exact UInt32.toUInt32_toUInt64 slot

/-- The candidates are the distinct slots of the list. -/
theorem rowCandidates_spec (h : rowCandidates index rowIds = .ok candidates) :
    candidates.Nodup ∧ (∀ slot ∈ candidates, slot.toNat < index.len) ∧
      (∀ slot : UInt32, slot ∈ candidates ↔ slot.toUInt64 ∈ rowIds) ∧
      candidates.length = rowIds.toFinset.card := by
  obtain ⟨slots, hslots, hcandidates⟩ := bind_eq_ok.mp h
  obtain rfl := pure_eq_ok.mp hcandidates
  have hread := mapM_eq_ok.mp hslots
  have hpair : ∀ rowId ∈ rowIds, ∃ slot ∈ slots, slotOf index rowId = .ok slot := by
    intro rowId hrowId
    have hmem : slotOf index rowId ∈ slots.map .ok := hread ▸ List.mem_map_of_mem hrowId
    obtain ⟨slot, hslot, heq⟩ := List.mem_map.mp hmem
    exact ⟨slot, hslot, heq.symm⟩
  have hback : ∀ slot ∈ slots, slot.toNat < index.len ∧ slot.toUInt64 ∈ rowIds := by
    intro slot hslot
    have hmem : (.ok slot : DenseResult UInt32) ∈ rowIds.map (slotOf index) :=
      hread ▸ List.mem_map_of_mem hslot
    obtain ⟨rowId, hrowId, heq⟩ := List.mem_map.mp hmem
    obtain ⟨hlt, rfl⟩ := slotOf_eq_ok.mp heq
    rw [UInt32.toNat_toUInt64] at hlt
    exact ⟨hlt, hrowId⟩
  have hmem : ∀ slot, slot ∈ dedup (slots.insertionSort (· ≤ ·)) ↔ slot ∈ slots := fun slot => by
    rw [mem_dedup, List.mem_insertionSort]
  have hnodup : (dedup (slots.insertionSort (· ≤ ·))).Nodup :=
    (dedup_strict (List.pairwise_insertionSort (· ≤ ·) slots)).imp UInt32.ne_of_lt
  have hids : ∀ slot : UInt32, slot ∈ dedup (slots.insertionSort (· ≤ ·)) ↔
      slot.toUInt64 ∈ rowIds := by
    intro slot
    rw [hmem]
    refine ⟨fun hslot => (hback slot hslot).2, fun hrowId => ?_⟩
    obtain ⟨other, hother, heq⟩ := hpair _ hrowId
    rw [UInt32.toUInt64_inj.mp (slotOf_eq_ok.mp heq).2]
    exact hother
  refine ⟨hnodup, fun slot hslot => (hback slot ((hmem slot).mp hslot)).1, hids, ?_⟩
  have hset : ((dedup (slots.insertionSort (· ≤ ·))).map UInt32.toUInt64).toFinset =
      rowIds.toFinset := by
    ext rowId
    rw [List.mem_toFinset, List.mem_toFinset, List.mem_map]
    constructor
    · rintro ⟨slot, hslot, rfl⟩
      exact (hids slot).mp hslot
    · intro hrowId
      obtain ⟨slot, hslot, heq⟩ := hpair rowId hrowId
      exact ⟨slot, (hmem slot).mpr hslot, (slotOf_eq_ok.mp heq).2.symm⟩
  rw [← hset, List.toFinset_card_of_nodup (hnodup.map fun _ _ => UInt32.toUInt64_inj.mp),
    List.length_map]

theorem rowCandidates_isOk : (∃ candidates, rowCandidates index rowIds = .ok candidates) ↔
    ∀ rowId ∈ rowIds, rowId.toNat < index.len ∧ rowId.toNat < 2 ^ 32 := by
  constructor
  · rintro ⟨candidates, h⟩ rowId hrowId
    obtain ⟨slots, hslots, -⟩ := bind_eq_ok.mp h
    have hmem : slotOf index rowId ∈ slots.map .ok :=
      mapM_eq_ok.mp hslots ▸ List.mem_map_of_mem hrowId
    obtain ⟨slot, -, heq⟩ := List.mem_map.mp hmem
    obtain ⟨hlt, rfl⟩ := slotOf_eq_ok.mp heq.symm
    exact ⟨hlt, UInt32.toNat_toUInt64 slot ▸ slot.toNat_lt⟩
  · intro hall
    obtain ⟨slots, hslots⟩ := @exists_map_ok _ _ _ (slotOf index) rowIds fun rowId hrowId => by
      obtain ⟨hlt, hsmall⟩ := hall rowId hrowId
      refine ⟨rowId.toUInt32, slotOf_eq_ok.mpr ⟨hlt, UInt64.toNat_inj.mp ?_⟩⟩
      rw [UInt32.toNat_toUInt64, UInt64.toNat_toUInt32, Nat.mod_eq_of_lt hsmall]
    exact ⟨_, bind_eq_ok.mpr ⟨slots, mapM_eq_ok.mpr hslots, rfl⟩⟩

/-- The size of the largest list. -/
def largest (ls : List (List UInt32)) : Nat := (ls.map List.length).foldl max 0

theorem gatherCandidates_eq_ok {lists : List (List UInt64)} {out : Batch UInt32 × Nat} :
    gatherCandidates index lists = .ok out ↔ ∃ ls : List (List UInt32),
      lists.map (rowCandidates index) = ls.map .ok ∧ out = (Batch.ofLists ls, largest ls) := by
  have hgeneral : ∀ (start : Batch UInt32 × Nat), lists.foldlM (fun state rowIds => do
      let candidates ← rowCandidates index rowIds
      pure (state.1.push candidates, max state.2 candidates.length)) start = .ok out ↔
      ∃ ls : List (List UInt32), lists.map (rowCandidates index) = ls.map .ok ∧
        out = (ls.foldl Batch.push start.1, (ls.map List.length).foldl max start.2) := by
    induction lists with
    | nil =>
      intro start
      rw [List.foldlM_nil, pure_eq_ok]
      constructor
      · rintro rfl
        exact ⟨[], rfl, rfl⟩
      · rintro ⟨ls, hls, rfl⟩
        obtain rfl := List.map_eq_nil_iff.mp hls.symm
        rfl
    | cons rowIds lists ih =>
      intro start
      rw [List.foldlM_cons, bind_eq_ok]
      constructor
      · rintro ⟨next, hnext, hrest⟩
        obtain ⟨candidates, hcandidates, hpush⟩ := bind_eq_ok.mp hnext
        obtain rfl := pure_eq_ok.mp hpush
        obtain ⟨ls, hls, rfl⟩ := (ih _).mp hrest
        exact ⟨candidates :: ls, by rw [List.map_cons, List.map_cons, hcandidates, hls], rfl⟩
      · rintro ⟨ls, hls, rfl⟩
        cases ls with
        | nil => cases hls
        | cons candidates ls =>
          obtain ⟨hfirst, hrest⟩ := List.cons.inj hls
          exact ⟨_, bind_eq_ok.mpr ⟨candidates, hfirst, rfl⟩, (ih _).mpr ⟨ls, hrest, rfl⟩⟩
  exact hgeneral (Batch.empty, 0)

theorem length_le_largest {ls : List (List UInt32)} (h : candidates ∈ ls) :
    candidates.length ≤ largest ls := by
  have hfold : ∀ (lengths : List Nat) (start : Nat), start ≤ lengths.foldl max start ∧
      ∀ n ∈ lengths, n ≤ lengths.foldl max start := by
    intro lengths
    induction lengths with
    | nil => exact fun start => ⟨le_rfl, nofun⟩
    | cons n lengths ih =>
      intro start
      obtain ⟨hstart, hrest⟩ := ih (max start n)
      exact ⟨(le_max_left _ _).trans hstart,
        List.forall_mem_cons.mpr ⟨(le_max_right _ _).trans hstart, hrest⟩⟩
  exact (hfold _ 0).2 _ (List.mem_map_of_mem h)

theorem largest_cases (ls : List (List UInt32)) :
    largest ls = 0 ∨ ∃ candidates ∈ ls, candidates.length = largest ls := by
  have hfold : ∀ (lengths : List Nat) (start : Nat), lengths.foldl max start = start ∨
      lengths.foldl max start ∈ lengths := by
    intro lengths
    induction lengths with
    | nil => exact fun start => .inl rfl
    | cons n lengths ih =>
      intro start
      rcases ih (max start n) with hsame | hmem
      · rw [List.foldl_cons, hsame]
        rcases max_choice start n with hstart | hn
        · exact .inl hstart
        · exact .inr (hn.symm ▸ List.mem_cons_self)
      · exact .inr (List.mem_cons_of_mem _ hmem)
  exact (hfold _ 0).imp_right fun hmem => List.mem_map.mp hmem

end Candidates

/-! ## Rows -/

/-- The best rows of a query among its candidates. -/
def topRows {scans : Scans R S} (subset : BestSubset scans) (rank : RankQuant R) (query : List F32)
    (candidates : List UInt32) (k : Nat) : List ScoredRow :=
  ((subset.best rank query candidates).take k).map fun slot =>
    ⟨slot.toUInt64, subset.score rank query slot⟩

section Rows

variable {scans : Scans R S} {pool : Pool} {subset : BestSubset scans} {index : OrdinalIndex R S}
  {rank : RankQuant R} {query : List F32} {candidates : List UInt32} {k : Nat}

/-- The hit of an entry; negative indices are padding. -/
def hitOf (entry : F32 × Int64) : Option ScoredRow :=
  if entry.2 < 0 then none else some ⟨entry.2.toUInt64, entry.1⟩

theorem hitOf_slot (score : F32) (slot : UInt32) :
    hitOf (score, Int64.ofNat slot.toNat) = some ⟨slot.toUInt64, score⟩ := by
  have hslot := slot.toNat_lt
  have hindex : (Int64.ofNat slot.toNat).toInt = slot.toNat :=
    Int64.toInt_ofNat_of_lt (hslot.trans (by norm_num))
  have hnonneg : ¬Int64.ofNat slot.toNat < 0 := by
    rw [Int64.lt_iff_toInt_lt, hindex]
    exact not_lt.mpr (Int.natCast_nonneg _)
  have hid : (Int64.ofNat slot.toNat).toUInt64 = slot.toUInt64 := by
    have hofNat : (Int64.ofNat slot.toNat).toUInt64 = UInt64.ofNat slot.toNat := rfl
    rw [hofNat, ← UInt32.toNat_toUInt64, UInt64.ofNat_toNat]
  rw [hitOf, if_neg hnonneg, hid]

/-- The padding is dropped. -/
theorem filterMap_subset (subset : BestSubset scans) (hnodup : candidates.Nodup)
    (hslots : ∀ slot ∈ candidates, slot.toNat < rank.len) (k : Nat) :
    (scans.searchAsymmetricSubset rank query candidates k).filterMap hitOf =
      topRows subset rank query candidates k := by
  obtain ⟨padding, heq⟩ : ∃ padding, scans.searchAsymmetricSubset rank query candidates k = _ :=
    subset.subset_best hnodup hslots k
  have hpadding : (padding.map fun score => (score, (-1 : Int64))).filterMap hitOf = [] := by
    rw [List.filterMap_map, List.filterMap_eq_nil_iff]
    exact fun score _ => rfl
  rw [heq, List.filterMap_append, hpadding, List.append_nil, List.filterMap_map]
  have hhits : hitOf ∘ (fun slot : UInt32 => (subset.score rank query slot,
      Int64.ofNat slot.toNat)) = some ∘ fun slot : UInt32 =>
        (⟨slot.toUInt64, subset.score rank query slot⟩ : ScoredRow) :=
    funext fun slot => hitOf_slot _ slot
  rw [hhits, List.filterMap_eq_map]
  rfl

theorem length_best : (subset.best rank query candidates).length = candidates.length :=
  (subset.best_perm rank query candidates).length_eq

/-- A list that is not longer than the common bound is cut at its own. -/
theorem topRows_min {most : Nat} (hmost : candidates.length ≤ most) :
    topRows subset rank query candidates (min k most) = topRows subset rank query candidates k := by
  have htake : (subset.best rank query candidates).take (min k most) =
      (subset.best rank query candidates).take k := by
    rw [List.take_eq_take_iff, length_best, min_assoc, min_eq_right hmost]
  rw [topRows, htake]
  rfl

/-- A flat result by its rows. -/
theorem fromFlat_rows {entries : List (List (F32 × Int64))}
    (hwidth : ∀ row ∈ entries, row.length = k) (hfits : entries.length * k < usizeBound) :
    RankedBatch.fromFlatScoresI64Indices entries.length k (entries.flatten.map Prod.fst)
        (entries.flatten.map Prod.snd) =
      RankedBatch.fromOffsetsHits (Batch.ofLists (entries.map (List.filterMap hitOf))).offsets
        (Batch.ofLists (entries.map (List.filterMap hitOf))).hits := by
  have hlength := flatten_length hwidth
  have hzip : (entries.flatten.map Prod.fst).zip (entries.flatten.map Prod.snd) =
      entries.flatten := by
    rw [List.zip_map']
    exact List.map_id _
  have hrows : ((List.range entries.length).map fun q =>
      (RankedBatch.Call.flatRow k entries.flatten q).filterMap hitOf) =
      entries.map (List.filterMap hitOf) := by
    refine List.ext_getElem (by simp) fun q hq hq' => ?_
    rw [List.length_map] at hq'
    rw [List.getElem_map, List.getElem_map, List.getElem_range]
    exact congrArg _ (row_flatten hwidth (List.getElem?_eq_getElem hq'))
  show RankedBatch.fromFlat hitOf _ _ _ _ = _
  unfold RankedBatch.fromFlat
  have hscores : (entries.flatten.map Prod.fst).length = entries.length * k := by
    rw [List.length_map, hlength]
  have hids : (entries.flatten.map Prod.snd).length = entries.length * k := by
    rw [List.length_map, hlength]
  rw [if_neg (not_not.mpr (hscores.trans hids.symm)), if_neg (not_le.mpr hfits),
    if_neg (not_not.mpr hscores)]
  simp only [zip_slice, hzip, ← List.foldl_map]
  rw [hrows]
  rfl

end Rows

/-! ## Searches -/

section Searches

variable {scans : Scans R S} {pool : Pool} {subset : BestSubset scans} {index : OrdinalIndex R S}
  {rank : RankQuant R} {rows : List (List F32)} {ls : List (List UInt32)} {k : Nat}

/-- The hits of a batch, row by row, before the last checks. -/
theorem searchCandidateCsr_rows (subset : BestSubset scans) (hdim : 0 < rank.dim)
    (hrows : ∀ row ∈ rows, row.length = rank.dim) (hcount : ls.length = rows.length)
    (hnodup : ∀ candidates ∈ ls, candidates.Nodup)
    (hslots : ∀ candidates ∈ ls, ∀ slot ∈ candidates, slot.toNat < rank.len)
    (hfits : rows.length * min k (largest ls) < 2 ^ 64) :
    ∃ results, searchCandidateCsrSerial scans rank rows.flatten (Batch.ofLists ls)
        (min k (largest ls)) rows.length = some results ∧
      RankedBatch.fromFlatScoresI64Indices results.nq results.k results.scores results.indices =
        RankedBatch.fromOffsetsHits
          (Batch.ofLists ((rows.zip ls).map fun input =>
            topRows subset rank input.1 input.2 k)).offsets
          (Batch.ofLists ((rows.zip ls).map fun input =>
            topRows subset rank input.1 input.2 k)).hits := by
  let entries := (rows.zip ls).map fun input =>
    scans.searchAsymmetricSubset rank input.1 input.2 (min k (largest ls))
  have hentries : entries.length = rows.length := by
    rw [List.length_map, List.length_zip, hcount, min_self]
  have hwidth : ∀ row ∈ entries, row.length = min k (largest ls) :=
    List.forall_mem_map.mpr fun input _ => scans.subset_length _ _ _ _
  have hhits : entries.map (List.filterMap hitOf) =
      (rows.zip ls).map fun input => topRows subset rank input.1 input.2 k := by
    rw [List.map_map]
    refine List.map_congr_left fun input hinput => ?_
    have hmem := (List.of_mem_zip hinput).2
    exact (filterMap_subset subset (hnodup _ hmem) (hslots _ hmem) _).trans
      (topRows_min (length_le_largest hmem))
  have hflat := fromFlat_rows hwidth (hentries ▸ hfits)
  rw [hhits, hentries] at hflat
  refine ⟨⟨entries.flatten.map Prod.fst, entries.flatten.map Prod.snd, rows.length,
    min k (largest ls)⟩, ?_, hflat⟩
  unfold searchCandidateCsrSerial
  split
  next hzero =>
    have hnil : entries.flatten = [] := by
      rw [← List.length_eq_zero_iff, flatten_length hwidth, hzero, Nat.mul_zero]
    rw [hnil, hzero]
    rfl
  next =>
    have hfst : (rows.zip ls).map Prod.fst = rows := List.map_fst_zip hcount.ge
    have hsnd : (rows.zip ls).map Prod.snd = ls := List.map_snd_zip hcount.le
    have hsubset := @Scans.subset_rows _ _ scans rank (rows.zip ls) hdim
      (fun input hinput => hrows _ (List.of_mem_zip hinput).1) (min k (largest ls))
    rw [hfst, hsnd] at hsubset
    rw [checkedMul_eq_some hfits, hsubset, List.unzip_eq_map, List.flatMap_def]
    rfl

theorem searching_eq_ok {α : Type} {result : Except Stop α} {a : α} :
    searching result = .ok a ↔ result = .ok a := by
  cases result with
  | error e => exact iff_of_false nofun nofun
  | ok value => simp [searching, Except.mapError]

theorem batching_eq_ok {result : Except HybridError RankedBatch} {batch : RankedBatch} :
    batching result = .ok batch ↔ result = .ok batch := by
  cases result with
  | error e => exact iff_of_false nofun nofun
  | ok value => simp [batching, Except.mapError]

theorem validateQueryBuffer_eq_ok {queries : List F32} {dim nq : Nat} (hdim : 0 < dim)
    (hlength : queries.length = nq * dim) {out : Nat} :
    validateQueryBuffer queries dim = .ok out ↔ (∀ v ∈ queries, validCoord v) ∧ out = nq := by
  rw [← firstInvalidCoord_eq_none]
  have hmod : queries.length % dim = 0 := by rw [hlength, Nat.mul_mod_left]
  have hdiv : queries.length / dim = nq := by rw [hlength, Nat.mul_div_cancel nq hdim]
  unfold validateQueryBuffer reject
  rw [if_neg (by simp [hdim.ne', hmod]), hdiv]
  cases firstInvalidCoord queries dim with
  | none => simp [eq_comm]
  | some found => exact iff_of_false nofun nofun

theorem checkedResultBufferLen_eq_ok {nq k : Nat} :
    (∃ len, checkedResultBufferLen nq k = .ok len) ↔ nq * k < 2 ^ 64 := by
  unfold checkedResultBufferLen checkedMul
  split
  next h =>
    split at h
    next hfits => exact iff_of_true ⟨_, rfl⟩ hfits
    next => cases h
  next h =>
    split at h
    next => cases h
    next hlarge => exact iff_of_false nofun hlarge

/-- When a batch of whole rows is accepted, and what it is then. -/
theorem searchBatch_iff (subset : BestSubset scans) (hshaped : index.Shaped)
    (hrank : index.inner = some rank) (hrows : ∀ row ∈ rows, row.length = rank.dim)
    {lists : List (List UInt64)} {batch : RankedBatch} :
    searchBatchRowsWithAllowlists scans pool index rows.flatten k (some lists) = .ok batch ↔
      (∀ row ∈ rows, ∀ v ∈ row, validCoord v) ∧ lists.length = rows.length ∧
      ∃ ls : List (List UInt32), lists.map (rowCandidates index) = ls.map .ok ∧
        rows.length * min k (largest ls) < 2 ^ 64 ∧
        ∃ shown : List (List ScoredRow), (rows.zip ls).map (fun input =>
          normalizeRankedList (topRows subset rank input.1 input.2 k)) = shown.map .ok ∧
          batch = Batch.ofLists shown := by
  obtain ⟨hdim, -, hcompatible⟩ := hshaped.rank rank hrank
  have hpositive : 0 < rank.dim := Nat.zero_lt_two.trans_le hcompatible.1
  have hlength : rows.flatten.length = rows.length * rank.dim := by
    rw [List.length_flatten, List.map_congr_left hrows]
    simp
  have hvalid : (∀ v ∈ rows.flatten, validCoord v) ↔ ∀ row ∈ rows, ∀ v ∈ row, validCoord v := by
    simp only [List.mem_flatten]
    exact ⟨fun h row hrow v hv => h v ⟨row, hrow, hv⟩, fun h v ⟨row, hrow, hv⟩ => h row hrow v hv⟩
  -- the tail of the search, for the candidates that were gathered
  have htail : ∀ ls : List (List UInt32), lists.length = rows.length →
      lists.map (rowCandidates index) = ls.map .ok →
      rows.length * min k (largest ls) < 2 ^ 64 →
      ((∃ results, orPanic (searchCandidateCsrSerial scans rank rows.flatten (Batch.ofLists ls)
          (min k (largest ls)) rows.length) = .ok results ∧ rankedResults results = .ok batch) ↔
        ∃ shown : List (List ScoredRow), (rows.zip ls).map (fun input =>
          normalizeRankedList (topRows subset rank input.1 input.2 k)) = shown.map .ok ∧
          batch = Batch.ofLists shown) := by
    intro ls hcount hls hfits
    have hls_length : ls.length = rows.length := by
      have hmap := congrArg List.length hls
      rw [List.length_map, List.length_map] at hmap
      exact hmap.symm.trans hcount
    have hspec : ∀ candidates ∈ ls, ∃ rowIds, rowCandidates index rowIds = .ok candidates := by
      intro candidates hmem
      have hok : (.ok candidates : DenseResult (List UInt32)) ∈ lists.map (rowCandidates index) :=
        hls ▸ List.mem_map_of_mem hmem
      obtain ⟨rowIds, -, heq⟩ := List.mem_map.mp hok
      exact ⟨rowIds, heq⟩
    have hlen : index.len = rank.len := by
      rw [OrdinalIndex.len, hrank]
      rfl
    obtain ⟨results, hresults, hflat⟩ := searchCandidateCsr_rows subset hpositive hrows hls_length
      (fun candidates hmem => by
        obtain ⟨rowIds, h⟩ := hspec candidates hmem
        exact (rowCandidates_spec h).1)
      (fun candidates hmem slot hslot => by
        obtain ⟨rowIds, h⟩ := hspec candidates hmem
        exact hlen ▸ (rowCandidates_spec h).2.1 slot hslot) hfits
    have hranked : rankedResults results = .ok batch ↔ ∃ shown : List (List ScoredRow),
        (rows.zip ls).map (fun input =>
          normalizeRankedList (topRows subset rank input.1 input.2 k)) = shown.map .ok ∧
        batch = Batch.ofLists shown := by
      rw [rankedResults, batching_eq_ok, hflat, fromOffsetsHits_iff, List.map_map]
      rfl
    rw [hresults, ← hranked]
    constructor
    · rintro ⟨out, hout, h⟩
      obtain rfl := Except.ok.inj hout
      exact h
    · exact fun h => ⟨results, rfl, h⟩
  unfold searchBatchRowsWithAllowlists
  rw [hdim]
  simp only [bind_eq_ok, searching_eq_ok, validateQueryBuffer_eq_ok hpositive hlength, hvalid,
    reject_eq_ok, exists_const, not_not, gatherCandidates_eq_ok, hrank]
  constructor
  · rintro ⟨_, ⟨hall, rfl⟩, hcount, _, ⟨ls, hls, rfl⟩, _, hbuffer, _, hinner, hsearch⟩
    obtain rfl := Except.ok.inj hinner
    have hfits := checkedResultBufferLen_eq_ok.mp ⟨_, hbuffer⟩
    exact ⟨hall, hcount, ls, hls, hfits, (htail ls hcount hls hfits).mp hsearch⟩
  · rintro ⟨hall, hcount, ls, hls, hfits, hshown⟩
    obtain ⟨len, hbuffer⟩ := checkedResultBufferLen_eq_ok.mpr hfits
    exact ⟨_, ⟨hall, rfl⟩, hcount, _, ⟨ls, hls, rfl⟩, len, hbuffer, rank, rfl,
      (htail ls hcount hls hfits).mpr hshown⟩

/-- The same for one query. -/
theorem searchRows_iff (subset : BestSubset scans) (hshaped : index.Shaped)
    (hrank : index.inner = some rank) {row : List F32} (hrow : row.length = rank.dim)
    {rowIds : List UInt64} {list : List ScoredRow} :
    searchRowsWithAllowlist scans pool index row k (some rowIds) = .ok list ↔
      (∀ v ∈ row, validCoord v) ∧ ∃ candidates, rowCandidates index rowIds = .ok candidates ∧
        min k candidates.length < 2 ^ 64 ∧
        normalizeRankedList (topRows subset rank row candidates k) = .ok list := by
  obtain ⟨hdim, -, hcompatible⟩ := hshaped.rank rank hrank
  have hpositive : 0 < rank.dim := Nat.zero_lt_two.trans_le hcompatible.1
  have hsingle : (∃ u, validateSingleQueryBuffer row index.dim = .ok u) ↔
      ∀ v ∈ row, validCoord v := by
    rw [hdim, validateSingleQueryBuffer, hrow]
    simp only [bind_eq_ok, reject_eq_ok, ne_eq, not_true_eq_false, not_false_eq_true, true_and,
      validateQueryBuffer_eq_ok hpositive (hrow.trans (Nat.one_mul _).symm), pure_eq_ok]
    exact ⟨fun ⟨_, _, _, h, _⟩ => h.1, fun h => ⟨(), (), 1, ⟨h, rfl⟩, trivial⟩⟩
  have hlargest : ∀ candidates : List UInt32, largest [candidates] = candidates.length :=
    fun candidates => Nat.zero_max _
  have hbatch : ∀ batch : RankedBatch,
      searchBatchRowsWithAllowlists scans pool index row k (some [rowIds]) = .ok batch ↔
      (∀ v ∈ row, validCoord v) ∧ ∃ candidates, rowCandidates index rowIds = .ok candidates ∧
        min k candidates.length < 2 ^ 64 ∧ ∃ shown : List ScoredRow,
          normalizeRankedList (topRows subset rank row candidates k) = .ok shown ∧
          batch = Batch.ofLists [shown] := by
    intro batch
    have hiff := @searchBatch_iff _ _ scans pool index rank [row] k subset hshaped hrank
      (by simpa) [rowIds] batch
    rw [List.flatten_singleton] at hiff
    rw [hiff, List.forall_mem_singleton]
    refine and_congr_right fun _ => ⟨?_, ?_⟩
    · rintro ⟨-, ls, hls, hfits, shown, hshown, rfl⟩
      obtain ⟨candidates, rfl, hcandidates⟩ := List.map_eq_singleton_iff.mp hls.symm
      obtain ⟨list, rfl, hlist⟩ := List.map_eq_singleton_iff.mp hshown.symm
      rw [hlargest, List.length_singleton, Nat.one_mul] at hfits
      exact ⟨candidates, hcandidates.symm, hfits, list, hlist.symm, rfl⟩
    · rintro ⟨candidates, hcandidates, hfits, list, hlist, rfl⟩
      refine ⟨rfl, [candidates], congrArg (fun x => [x]) hcandidates, ?_, [list],
        congrArg (fun x => [x]) hlist, rfl⟩
      rw [hlargest, List.length_singleton, Nat.one_mul]
      exact hfits
  rw [searchRowsWithAllowlist, bind_eq_ok]
  simp only [searching_eq_ok]
  constructor
  · rintro ⟨_, -, h⟩
    obtain ⟨batch, haccepted, hhits⟩ := bind_eq_ok.mp h
    obtain ⟨hall, candidates, hcandidates, hfits, shown, hshown, rfl⟩ := (hbatch batch).mp haccepted
    obtain rfl := pure_eq_ok.mp hhits
    exact ⟨hall, candidates, hcandidates, hfits, hshown⟩
  · rintro ⟨hall, candidates, hcandidates, hfits, hshown⟩
    obtain ⟨u, hu⟩ := hsingle.mpr hall
    exact ⟨u, hu, bind_eq_ok.mpr ⟨_, (hbatch _).mpr ⟨hall, candidates, hcandidates, hfits, list,
      hshown, rfl⟩, rfl⟩⟩

/-- What one query shows: its best rows, ranked. -/
theorem shown_spec (subset : BestSubset scans) {row : List F32} {rowIds : List UInt64}
    {candidates : List UInt32} {list : List ScoredRow}
    (hcandidates : rowCandidates index rowIds = .ok candidates)
    (hshown : normalizeRankedList (topRows subset rank row candidates k) = .ok list) :
    RankedList list ∧ list.length = min k rowIds.toFinset.card ∧
      ∀ hit ∈ list, hit.rowId ∈ rowIds := by
  obtain ⟨hnodup, -, hids, hlength⟩ := rowCandidates_spec hcandidates
  obtain ⟨hranked, hbest⟩ := normalizeRankedList_spec hshown
  have hrowIds : (topRows subset rank row candidates k).map ScoredRow.rowId =
      ((subset.best rank row candidates).take k).map UInt32.toUInt64 := by
    rw [topRows, List.map_map]
    rfl
  have hdistinct : (((subset.best rank row candidates).take k).map UInt32.toUInt64).Nodup := by
    refine List.Nodup.map (fun _ _ => UInt32.toUInt64_inj.mp) (List.Nodup.sublist
      (List.take_sublist _ _) ?_)
    exact (subset.best_perm rank row candidates).nodup_iff.mpr hnodup
  have hsame : (list.map ScoredRow.rowId).Perm
      (((subset.best rank row candidates).take k).map UInt32.toUInt64) := by
    refine (List.perm_ext_iff_of_nodup hranked.nodup hdistinct).mpr fun id => ?_
    rw [hbest.rows id, hrowIds]
  refine ⟨hranked, ?_, fun hit hhit => ?_⟩
  · have hcount := hsame.length_eq
    rwa [List.length_map, List.length_map, List.length_take, length_best, hlength] at hcount
  · have hmem := hsame.mem_iff.mp (List.mem_map_of_mem hhit)
    obtain ⟨slot, hslot, heq⟩ := List.mem_map.mp hmem
    rw [← heq]
    exact (hids slot).mp ((subset.best_perm _ _ _).mem_iff.mp (List.mem_of_mem_take hslot))

/-- Scores that are shown must be finite. -/
theorem normalizeRankedList_isOk {input : List ScoredRow} :
    (∃ list, normalizeRankedList input = .ok list) ↔ ∀ hit ∈ input, hit.score.isFinite := by
  unfold normalizeRankedList sortRankedSlice
  rw [← checkFinite_eq_ok]
  cases checkFinite input with
  | error e => exact iff_of_false (fun ⟨_, h⟩ => by cases h) fun h => by cases h
  | ok u => exact iff_of_true ⟨_, rfl⟩ rfl

/-- When a query is accepted. -/
theorem searchRows_isOk (subset : BestSubset scans) (hshaped : index.Shaped)
    (hrank : index.inner = some rank) {row : List F32} (hrow : row.length = rank.dim)
    {rowIds : List UInt64} :
    (∃ hits, searchRowsWithAllowlist scans pool index row k (some rowIds) = .ok hits) ↔
      (∀ v ∈ row, validCoord v) ∧
      (∀ rowId ∈ rowIds, rowId.toNat < index.len ∧ rowId.toNat < 2 ^ 32) ∧
      min k rowIds.toFinset.card < 2 ^ 64 ∧
      ∀ candidates, rowCandidates index rowIds = .ok candidates →
        ∀ hit ∈ topRows subset rank row candidates k, hit.score.isFinite := by
  simp only [searchRows_iff subset hshaped hrank hrow, ← rowCandidates_isOk]
  constructor
  · rintro ⟨hits, hvalid, candidates, hcandidates, hfits, hnormal⟩
    refine ⟨hvalid, ⟨candidates, hcandidates⟩, ?_, fun other hother => ?_⟩
    · rwa [← (rowCandidates_spec hcandidates).2.2.2]
    · obtain rfl := Except.ok.inj (hcandidates.symm.trans hother)
      exact normalizeRankedList_isOk.mp ⟨hits, hnormal⟩
  · rintro ⟨hvalid, ⟨candidates, hcandidates⟩, hfits, hfinite⟩
    obtain ⟨hits, hnormal⟩ := normalizeRankedList_isOk.mpr (hfinite candidates hcandidates)
    rw [← (rowCandidates_spec hcandidates).2.2.2] at hfits
    exact ⟨hits, hvalid, candidates, hcandidates, hfits, hnormal⟩

/-- A batch with allowlists shows for every query what the query shows alone with its list: the best
of its distinct slots, none twice and no padding. It is accepted when all its queries are, unless
the buffer of the results is too large. A query is accepted when its values are valid, its ids are
rows and the scores that it shows are finite. -/
theorem allowlist_batch_eq_singles (scans : Scans R S) (subset : BestSubset scans) (pool : Pool)
    (index : OrdinalIndex R S) (hshaped : index.Shaped) (rank : RankQuant R)
    (hrank : index.inner = some rank) (rows : List (List F32))
    (hrows : ∀ row ∈ rows, row.length = rank.dim) (k : Nat) (lists : List (List UInt64))
    (hcount : lists.length = rows.length) :
    (∀ batch, searchBatchRowsWithAllowlists scans pool index rows.flatten k (some lists) =
        .ok batch →
      batch.queryCount = rows.length ∧
      ∀ (i : Nat) (row : List F32) (rowIds : List UInt64), rows[i]? = some row →
        lists[i]? = some rowIds → ∃ hits,
          searchRowsWithAllowlist scans pool index row k (some rowIds) = .ok hits ∧
          batch.forQuery i = some hits ∧ RankedList hits ∧
          hits.length = min k rowIds.toFinset.card ∧ ∀ hit ∈ hits, hit.rowId ∈ rowIds) ∧
    ((∀ (i : Nat) (row : List F32) (rowIds : List UInt64), rows[i]? = some row →
        lists[i]? = some rowIds → ∃ hits,
          searchRowsWithAllowlist scans pool index row k (some rowIds) = .ok hits) →
      (∀ rowIds ∈ lists, rows.length * min k rowIds.toFinset.card < 2 ^ 64) →
      ∃ batch, searchBatchRowsWithAllowlists scans pool index rows.flatten k (some lists) =
        .ok batch) ∧
    ∀ row ∈ rows, ∀ rowIds : List UInt64,
      (∃ hits, searchRowsWithAllowlist scans pool index row k (some rowIds) = .ok hits) ↔
        (∀ v ∈ row, validCoord v) ∧
        (∀ rowId ∈ rowIds, rowId.toNat < index.len ∧ rowId.toNat < 2 ^ 32) ∧
        min k rowIds.toFinset.card < 2 ^ 64 ∧
        ∀ candidates, rowCandidates index rowIds = .ok candidates →
          ∀ hit ∈ topRows subset rank row candidates k, hit.score.isFinite := by
  refine ⟨?_, ?_, fun row hrow rowIds => searchRows_isOk subset hshaped hrank (hrows row hrow)⟩
  · intro batch hbatch
    obtain ⟨hall, -, ls, hls, hfits, shown, hshown, rfl⟩ :=
      (searchBatch_iff subset hshaped hrank hrows).mp hbatch
    -- one candidate list and one result for every query
    have hls_length : ls.length = rows.length := by
      have hmap := congrArg List.length hls
      rw [List.length_map, List.length_map] at hmap
      exact hmap.symm.trans hcount
    have hshown_length : shown.length = rows.length := by
      have hmap := congrArg List.length hshown
      rw [List.length_map, List.length_map, List.length_zip, hls_length, min_self] at hmap
      exact hmap.symm
    refine ⟨by rw [Batch.queryCount_ofLists, hshown_length], fun i row rowIds hrow hrowIds => ?_⟩
    have hcandidates := congrArg (·[i]?) hls
    simp only [List.getElem?_map, hrowIds, Option.map_some] at hcandidates
    obtain ⟨candidates, hi, hcandidates⟩ := Option.map_eq_some_iff.mp hcandidates.symm
    have hentry := congrArg (·[i]?) hshown
    have hzip : (rows.zip ls)[i]? = some (row, candidates) :=
      List.getElem?_zip_eq_some.mpr ⟨hrow, hi⟩
    simp only [List.getElem?_map, hzip, Option.map_some] at hentry
    obtain ⟨hits, hhits, hnormal⟩ := Option.map_eq_some_iff.mp hentry.symm
    have hmem := List.mem_of_getElem? hrow
    have hbound : min k candidates.length ≤ rows.length * min k (largest ls) :=
      (min_le_min_left k (length_le_largest (List.mem_of_getElem? hi))).trans
        (Nat.le_mul_of_pos_left _ (List.length_pos_of_mem hmem))
    refine ⟨hits, (searchRows_iff subset hshaped hrank (hrows row hmem)).mpr ⟨hall row hmem,
      candidates, hcandidates.symm, hbound.trans_lt hfits, hnormal.symm⟩, ?_,
      shown_spec subset hcandidates.symm hnormal.symm⟩
    rw [Batch.forQuery_ofLists, hhits]
  · intro hsingles hsizes
    -- each query succeeds alone, so its slots can be read and its results sorted
    have hpaired : ∀ {i : Nat} {row : List F32}, rows[i]? = some row →
        ∃ rowIds, lists[i]? = some rowIds := fun {i row} hrow =>
      ⟨_, List.getElem?_eq_getElem (hcount ▸ (List.getElem?_eq_some_iff.mp hrow).1)⟩
    have hanswer : ∀ {i : Nat} {row : List F32} {rowIds : List UInt64}, rows[i]? = some row →
        lists[i]? = some rowIds → (∀ v ∈ row, validCoord v) ∧ ∃ candidates,
          rowCandidates index rowIds = .ok candidates ∧ ∃ list,
          normalizeRankedList (topRows subset rank row candidates k) = .ok list := by
      intro i row rowIds hrow hrowIds
      obtain ⟨hits, hhits⟩ := hsingles i row rowIds hrow hrowIds
      obtain ⟨hall, candidates, hcandidates, -, hnormal⟩ := (searchRows_iff subset hshaped hrank
        (hrows row (List.mem_of_getElem? hrow))).mp hhits
      exact ⟨hall, candidates, hcandidates, hits, hnormal⟩
    obtain ⟨ls, hls⟩ := @exists_map_ok _ _ _ (rowCandidates index) lists fun rowIds hmem => by
      obtain ⟨i, hi, rfl⟩ := List.getElem_of_mem hmem
      obtain ⟨-, candidates, hcandidates, -⟩ := hanswer
        (List.getElem?_eq_getElem (hcount ▸ hi)) (List.getElem?_eq_getElem hi)
      exact ⟨candidates, hcandidates⟩
    have hread : ∀ {i : Nat} {candidates : List UInt32}, ls[i]? = some candidates →
        ∃ rowIds, lists[i]? = some rowIds ∧ rowCandidates index rowIds = .ok candidates := by
      intro i candidates hi
      have hentry := congrArg (·[i]?) hls
      simp only [List.getElem?_map, hi, Option.map_some] at hentry
      exact Option.map_eq_some_iff.mp hentry
    obtain ⟨shown, hshown⟩ := @exists_map_ok _ _ _ (fun input =>
        normalizeRankedList (topRows subset rank input.1 input.2 k)) (rows.zip ls)
      fun input hmem => by
        obtain ⟨i, hi⟩ := List.mem_iff_getElem?.mp hmem
        obtain ⟨hrow, hcandidates⟩ := List.getElem?_zip_eq_some.mp hi
        obtain ⟨rowIds, hrowIds, hsame⟩ := hread hcandidates
        obtain ⟨-, candidates, hother, hnormal⟩ := hanswer hrow hrowIds
        obtain rfl := Except.ok.inj (hsame.symm.trans hother)
        exact hnormal
    refine ⟨_, (searchBatch_iff subset hshaped hrank hrows).mpr ⟨fun row hmem => ?_, hcount, ls,
      hls, ?_, shown, hshown, rfl⟩⟩
    · obtain ⟨i, hi⟩ := List.mem_iff_getElem?.mp hmem
      obtain ⟨rowIds, hrowIds⟩ := hpaired hi
      exact (hanswer hi hrowIds).1
    -- the buffer has a row of the longest list for every query
    · rcases largest_cases ls with hzero | ⟨candidates, hmem, hsize⟩
      · rw [hzero, Nat.min_zero, Nat.mul_zero]
        exact Nat.two_pow_pos 64
      · obtain ⟨i, hi⟩ := List.mem_iff_getElem?.mp hmem
        obtain ⟨rowIds, hrowIds, hcandidates⟩ := hread hi
        rw [← hsize, (rowCandidates_spec hcandidates).2.2.2]
        exact hsizes rowIds (List.mem_of_getElem? hrowIds)

/-! ## Scans that score nothing -/

theorem takeD_eq {A : Type} (n : Nat) (list : List A) (a : A) :
    list.takeD n a = list.take n ++ List.replicate (n - list.length) a := by
  induction n generalizing list with
  | zero => simp
  | succ n ih =>
    cases list with
    | nil => simp [List.replicate_succ]
    | cons b list =>
      rw [List.length_cons, Nat.succ_sub_succ]
      exact congrArg (b :: ·) (ih list)

def zeroSubset : BestSubset OrdinalIndex.zeroScans where
  score _ _ _ := .zero
  best _ _ candidates := candidates
  best_perm _ _ _ := List.Perm.refl _
  best_sorted _ _ _ := List.pairwise_of_forall fun _ _ => le_rfl
  subset_best {_ _ candidates} _ _ k := by
    refine ⟨List.replicate (k - candidates.length) negInfinity, ?_⟩
    show OrdinalIndex.zeroScores candidates k = _
    rw [OrdinalIndex.zeroScores, takeD_eq, List.length_map, List.map_take, List.map_replicate]

/-- Every score of the scans is zero. -/
theorem zeroSubset_finite {rank : RankQuant Unit} {row : List F32} {candidates : List UInt32}
    {k : Nat} : ∀ hit ∈ topRows zeroSubset rank row candidates k, hit.score.isFinite := by
  intro hit hhit
  obtain ⟨slot, -, rfl⟩ := List.mem_map.mp hhit
  show F32.zero.isFinite
  decide

/-- Two queries of zeros and minus ones. -/
def twoRows : List (List F32) :=
  [List.replicate 64 .zero, List.replicate 64 ⟨0xBF800000⟩]

theorem twoRows_length : ∀ row ∈ twoRows, row.length = 64 := by
  simp [twoRows]

theorem twoRows_valid : ∀ row ∈ twoRows, ∀ v ∈ row, validCoord v := by
  intro row hrow v hv
  simp only [twoRows, List.mem_cons, List.not_mem_nil, or_false] at hrow
  obtain rfl | rfl := hrow <;> rw [List.eq_of_mem_replicate hv] <;> decide

/-- Two of three rows for the first query, and one row given twice for the second. -/
theorem twoRows_batch_eq_singles : ∃ batch first second,
    searchBatchRowsWithAllowlists OrdinalIndex.zeroScans OrdinalIndex.twoPool
      OrdinalIndex.threeRows twoRows.flatten 2 (some [[2, 0], [1, 1]]) = .ok batch ∧
    batch.forQuery 0 = some first ∧ first.length = 2 ∧
    batch.forQuery 1 = some second ∧ second.length = 1 := by
  obtain ⟨hsame, haccept, hone⟩ := allowlist_batch_eq_singles OrdinalIndex.zeroScans zeroSubset
    OrdinalIndex.twoPool OrdinalIndex.threeRows OrdinalIndex.threeRows_shaped
    OrdinalIndex.threeRank rfl twoRows twoRows_length 2 [[2, 0], [1, 1]] rfl
  have hids : ∀ rowIds ∈ [[2, 0], [1, 1]], ∀ rowId : UInt64, rowId ∈ rowIds →
      rowId.toNat < 3 ∧ rowId.toNat < 2 ^ 32 := by simp
  have hfits : ∀ rowIds : List UInt64, min 2 rowIds.toFinset.card ≤ 2 := fun _ => min_le_left _ _
  obtain ⟨batch, hbatch⟩ := haccept (fun i row rowIds hrow hrowIds => by
    have hmem := List.mem_of_getElem? hrow
    exact (hone row hmem rowIds).mpr ⟨twoRows_valid row hmem,
      hids rowIds (List.mem_of_getElem? hrowIds), (hfits rowIds).trans_lt (by norm_num),
      fun _ _ => zeroSubset_finite⟩) fun rowIds _ =>
        (Nat.mul_le_mul_left 2 (hfits rowIds)).trans_lt (by norm_num)
  obtain ⟨-, hrow⟩ := hsame batch hbatch
  obtain ⟨first, -, hfirst, -, htwo, -⟩ := hrow 0 _ _ rfl rfl
  obtain ⟨second, -, hsecond, -, hsingle, -⟩ := hrow 1 _ _ rfl rfl
  exact ⟨batch, first, second, hbatch, hfirst, htwo, hsecond, hsingle⟩

end Searches

end OrdinalDB.Hybrid
