import OrdinalDB.Lib.Batches
import OrdinalDB.Lib.F32
import OrdinalDB.Lib.Outcome
import OrdinalDB.Lib.Ranking

/-!
# Ranked batches

`RankedBatch` of `ordinaldb-hybrid/src/fusion.rs`: the constructors, the
normaliser they share, and what every accepted batch looks like
(`ranked_batch_canonical`). Scores are ordered by `total_cmp`, which ranks `0.0`
above `-0.0`, so these two are no tie (`signed_zeros_reversed`).
-/

namespace OrdinalDB.Hybrid

open Float32Bits

structure ScoredRow where
  rowId : UInt64
  score : F32
deriving DecidableEq, Repr

abbrev RankedBatch := Batch ScoredRow

/-- The errors of the constructors, by what their texts name. -/
inductive HybridError
  | noOffsets
  | firstOffset
  | descendingOffsets
  | finalOffset (offset hits : Nat)
  | nonFinite (rowId : UInt64) (score : F32)
  | unsorted
  | duplicate (rowId : UInt64)
  | counts (scores ids : Nat)
  | overflow
  | flatLength (length expected : Nat)
  | rankConstant
  | queryCounts (dense sparse : Nat)
deriving DecidableEq, Repr

/-- The number of values of a `usize`. -/
def usizeBound : Nat := 2 ^ 64

/-! ## Normalising -/

/-- `rank_row_order`. -/
def rankRowOrder (a b : ScoredRow) : Ordering :=
  Ranking.order (fun row => row.score.totalKey) (fun row => row.rowId.toNat) a b

def checkFinite (rows : List ScoredRow) : Except HybridError Unit :=
  match rows.find? fun row => !row.score.isFinite with
  | some row => .error (.nonFinite row.rowId row.score)
  | none => .ok ()

def sortRankedSlice (rows : List ScoredRow) : Except HybridError (List ScoredRow) := do
  checkFinite rows
  return Ranking.sort (fun row => row.score.totalKey) (fun row => row.rowId.toNat) rows

def normalizeRankedList (rows : List ScoredRow) : Except HybridError (List ScoredRow) := do
  return Ranking.keepFirst ScoredRow.rowId ∅ (← sortRankedSlice rows)

def validateNoDuplicateRows (seen : Finset UInt64) : List ScoredRow → Except HybridError Unit
  | [] => .ok ()
  | row :: rows =>
    if row.rowId ∈ seen then .error (.duplicate row.rowId)
    else validateNoDuplicateRows (insert row.rowId seen) rows

def validateSortedRankedSlice (rows : List ScoredRow) : Except HybridError Unit := do
  checkFinite rows
  if (rows.zip rows.tail).any fun pair => rankRowOrder pair.1 pair.2 = .gt then
    throw .unsorted
  validateNoDuplicateRows ∅ rows

def validateOffsets (offsets : List Nat) (hitLen : Nat) : Except HybridError Unit :=
  match offsets with
  | [] => .error .noOffsets
  | first :: rest =>
    if first ≠ 0 then .error .firstOffset
    else if (offsets.zip rest).any fun pair => pair.1 > pair.2 then .error .descendingOffsets
    else
      let last := rest.getLastD first
      if last ≠ hitLen then .error (.finalOffset last hitLen) else .ok ()

/-! ## Constructors -/

namespace RankedBatch

/-- The loop that normalises one list after another. -/
def normalizeAll (lists : List (List ScoredRow)) : Except HybridError RankedBatch :=
  lists.foldlM (fun batch list => (normalizeRankedList list).map batch.push) Batch.empty

def fromOffsetsHits (offsets : List Nat) (hits : List ScoredRow) :
    Except HybridError RankedBatch := do
  validateOffsets offsets hits.length
  normalizeAll (Batch.lists ⟨offsets, hits⟩)

def fromSortedOffsetsHits (offsets : List Nat) (hits : List ScoredRow) :
    Except HybridError RankedBatch := do
  validateOffsets offsets hits.length
  let batch : RankedBatch := ⟨offsets, hits⟩
  batch.lists.forM validateSortedRankedSlice
  return batch

def fromRankedLists (lists : List (List ScoredRow)) : Except HybridError RankedBatch :=
  normalizeAll lists

def single (hits : List ScoredRow) : Except HybridError RankedBatch := fromRankedLists [hits]

/-- The checks on flat results, and the row loop: the hits of query `q` are those among the
entries from `q * k` to `q * k + k`. -/
def fromFlat {Id : Type} (hit : F32 × Id → Option ScoredRow) (nq k : Nat) (scores : List F32)
    (ids : List Id) : Except HybridError RankedBatch :=
  if scores.length ≠ ids.length then .error (.counts scores.length ids.length)
  else if usizeBound ≤ nq * k then .error .overflow
  else if scores.length ≠ nq * k then .error (.flatLength scores.length (nq * k))
  else
    let chunk (q : Nat) :=
      ((Batch.slice scores (q * k) (q * k + k)).zip (Batch.slice ids (q * k) (q * k + k))).filterMap
        hit
    let flat := (List.range nq).foldl (fun batch q => batch.push (chunk q)) Batch.empty
    fromOffsetsHits flat.offsets flat.hits

def fromFlatScoresIds (nq k : Nat) (scores : List F32) (ids : List UInt64) :
    Except HybridError RankedBatch :=
  fromFlat (fun (score, rowId) => some ⟨rowId, score⟩) nq k scores ids

def fromFlatScoresSlots (nq k : Nat) (scores : List F32) (slots : List UInt32) :
    Except HybridError RankedBatch :=
  fromFlatScoresIds nq k scores (slots.map UInt32.toUInt64)

/-- Negative indices are padding. -/
def fromFlatScoresI64Indices (nq k : Nat) (scores : List F32) (indices : List Int64) :
    Except HybridError RankedBatch :=
  fromFlat (fun ((score, index) : F32 × Int64) =>
    if index < 0 then none else some ⟨index.toUInt64, score⟩) nq k scores indices

/-- A constructor with its arguments. -/
inductive Call
  | offsetsHits (offsets : List Nat) (hits : List ScoredRow)
  | sortedOffsetsHits (offsets : List Nat) (hits : List ScoredRow)
  | rankedLists (lists : List (List ScoredRow))
  | single (hits : List ScoredRow)
  | flatScoresIds (nq k : Nat) (scores : List F32) (ids : List UInt64)
  | flatScoresSlots (nq k : Nat) (scores : List F32) (slots : List UInt32)
  | flatScoresI64Indices (nq k : Nat) (scores : List F32) (indices : List Int64)

namespace Call

def build : Call → Except HybridError RankedBatch
  | offsetsHits offsets hits => fromOffsetsHits offsets hits
  | sortedOffsetsHits offsets hits => fromSortedOffsetsHits offsets hits
  | rankedLists lists => fromRankedLists lists
  | single hits => RankedBatch.single hits
  | flatScoresIds nq k scores ids => fromFlatScoresIds nq k scores ids
  | flatScoresSlots nq k scores slots => fromFlatScoresSlots nq k scores slots
  | flatScoresI64Indices nq k scores indices => fromFlatScoresI64Indices nq k scores indices

/-- The entries of one query in a flat result. -/
def flatRow {A : Type} (k : Nat) (flat : List A) (q : Nat) : List A := (flat.drop (q * k)).take k

/-- The input hits of every query, without padding. -/
def inputs : Call → List (List ScoredRow)
  | offsetsHits offsets hits | sortedOffsetsHits offsets hits => Batch.lists ⟨offsets, hits⟩
  | rankedLists lists => lists
  | single hits => [hits]
  | flatScoresIds nq k scores ids =>
    (List.range nq).map fun q =>
      (flatRow k (scores.zip ids) q).map fun (score, rowId) => ⟨rowId, score⟩
  | flatScoresSlots nq k scores slots =>
    (List.range nq).map fun q =>
      (flatRow k (scores.zip slots) q).map fun (score, slot) => ⟨slot.toUInt64, score⟩
  | flatScoresI64Indices nq k scores indices =>
    (List.range nq).map fun q =>
      ((flatRow k (scores.zip indices) q).filter fun entry => 0 ≤ entry.2).map
        fun (score, index) => ⟨index.toUInt64, score⟩

end Call

end RankedBatch

/-! ## Canonical batches -/

/-- Finite scores, descending by `total_cmp` with ties by row id ascending, and no row twice. -/
structure RankedList (list : List ScoredRow) : Prop where
  finite : ∀ row ∈ list, row.score.isFinite
  sorted : list.Pairwise fun a b => b.score.totalKey < a.score.totalKey ∨
    a.score = b.score ∧ a.rowId < b.rowId
  nodup : (list.map ScoredRow.rowId).Nodup

structure Canonical (batch : RankedBatch) : Prop where
  offsets : batch.Valid
  ranked : ∀ q list, batch.forQuery q = some list → RankedList list

/-- The rows of the input, each with its best score. -/
structure BestOf (input list : List ScoredRow) : Prop where
  rows : ∀ id, id ∈ list.map ScoredRow.rowId ↔ id ∈ input.map ScoredRow.rowId
  best : ∀ row ∈ list, row ∈ input ∧
    ∀ other ∈ input, other.rowId = row.rowId → other.score.totalKey ≤ row.score.totalKey

section Lists

variable {input list list' rows : List ScoredRow} {a b : ScoredRow}

theorem rankRowOrder_eq_lt : rankRowOrder a b = .lt ↔
    b.score.totalKey < a.score.totalKey ∨ a.score = b.score ∧ a.rowId < b.rowId := by
  rw [rankRowOrder, Ranking.order_eq_lt, F32.totalKey_injective.eq_iff, UInt64.lt_iff_toNat_lt,
    @eq_comm _ b.score]

theorem RankedList.strict (h : RankedList list) :
    list.Pairwise fun a b => rankRowOrder a b = .lt :=
  h.sorted.imp rankRowOrder_eq_lt.mpr

theorem rankedList_of_pairwise (hfinite : ∀ row ∈ list, row.score.isFinite)
    (hsorted : list.Pairwise fun a b => rankRowOrder a b ≠ .gt)
    (hnodup : (list.map ScoredRow.rowId).Nodup) : RankedList list :=
  ⟨hfinite,
    (Ranking.strict_of_nodup hsorted (Ranking.nodup_toNat hnodup)).imp rankRowOrder_eq_lt.mp,
    hnodup⟩

/-- The input decides the list. -/
theorem BestOf.unique (hlist : RankedList list) (hlist' : RankedList list')
    (h : BestOf input list) (h' : BestOf input list') : list = list' := by
  have hsub : ∀ {l r : List ScoredRow}, BestOf input l → BestOf input r → l ⊆ r := by
    intro l r hl hr row hrow
    have hid : row.rowId ∈ r.map ScoredRow.rowId :=
      (hr.rows _).mpr ((hl.rows _).mp (List.mem_map_of_mem hrow))
    obtain ⟨row', hrow', heq⟩ := List.mem_map.mp hid
    have hle := (hl.best row hrow).2 row' (hr.best row' hrow').1 heq
    have hge := (hr.best row' hrow').2 row (hl.best row hrow).1 heq.symm
    have hscore := F32.totalKey_injective (le_antisymm hle hge)
    obtain ⟨_, _⟩ := row
    obtain ⟨_, _⟩ := row'
    obtain rfl : _ = _ := heq
    obtain rfl : _ = _ := hscore
    exact hrow'
  have hperm := (List.perm_ext_iff_of_nodup (List.Nodup.of_map _ hlist.nodup)
    (List.Nodup.of_map _ hlist'.nodup)).mpr fun row => ⟨fun hrow => hsub h h' hrow,
      fun hrow => hsub h' h hrow⟩
  exact Ranking.eq_of_perm hlist.strict hlist'.strict hperm

theorem checkFinite_eq_ok : checkFinite rows = .ok () ↔ ∀ row ∈ rows, row.score.isFinite := by
  unfold checkFinite
  cases hfind : rows.find? fun row => !row.score.isFinite with
  | none => simpa using List.find?_eq_none.mp hfind
  | some row =>
    refine iff_of_false (fun h => by cases h) fun hfinite => ?_
    have hrow := List.find?_some hfind
    rw [hfinite row (List.mem_of_find?_eq_some hfind)] at hrow
    cases hrow

theorem normalizeRankedList_spec (h : normalizeRankedList input = .ok list) :
    RankedList list ∧ BestOf input list := by
  have hchecked : checkFinite input = .ok () ∧ Ranking.keepFirst ScoredRow.rowId ∅
      (Ranking.sort (fun row => row.score.totalKey) (fun row => row.rowId.toNat) input) = list := by
    unfold normalizeRankedList sortRankedSlice at h
    cases hcheck : checkFinite input with
    | error e => rw [hcheck] at h; cases h
    | ok u => rw [hcheck] at h; exact ⟨rfl, Except.ok.inj h⟩
  obtain ⟨hcheck, rfl⟩ := hchecked
  have hfinite := checkFinite_eq_ok.mp hcheck
  have hperm := Ranking.sort_perm (fun row : ScoredRow => row.score.totalKey)
    (fun row => row.rowId.toNat) input
  have hsorted := Ranking.sort_pairwise (fun row : ScoredRow => row.score.totalKey)
    (fun row => row.rowId.toNat) input
  have hmem : ∀ row ∈ Ranking.keepFirst ScoredRow.rowId ∅ _, row ∈ input := fun row hrow =>
    hperm.mem_iff.mp (Ranking.keepFirst_sublist.mem hrow)
  refine ⟨rankedList_of_pairwise (fun row hrow => hfinite row (hmem row hrow))
    (hsorted.sublist Ranking.keepFirst_sublist) Ranking.keepFirst_nodup, fun id => ?_,
    fun row hrow => ⟨hmem row hrow, fun other hother hid => ?_⟩⟩
  · rw [List.mem_map, Ranking.exists_mem_keepFirst, List.mem_map]
    exact ⟨fun h => h.2.imp fun _ => And.imp_left hperm.mem_iff.mp,
      fun h => ⟨Finset.notMem_empty id, h.imp fun _ => And.imp_left hperm.mem_iff.mpr⟩⟩
  · rcases Ranking.keepFirst_first hsorted hrow (hperm.mem_iff.mpr hother) hid with rfl | horder
    · exact le_refl _
    · rcases Ranking.order_ne_gt.mp horder with hlt | ⟨heq, -⟩
      · exact hlt.le
      · exact heq.le

theorem validateNoDuplicateRows_spec {seen : Finset UInt64}
    (h : validateNoDuplicateRows seen rows = .ok ()) :
    (rows.map ScoredRow.rowId).Nodup ∧ ∀ row ∈ rows, row.rowId ∉ seen := by
  induction rows generalizing seen with
  | nil => exact ⟨List.nodup_nil, fun _ hrow => by cases hrow⟩
  | cons row rows ih =>
    unfold validateNoDuplicateRows at h
    split at h
    next => cases h
    next hnew =>
      obtain ⟨hnodup, hunseen⟩ := ih h
      refine ⟨List.nodup_cons.mpr ⟨fun hmem => ?_, hnodup⟩, List.forall_mem_cons.mpr
        ⟨hnew, fun other hother hseen => hunseen other hother (Finset.mem_insert_of_mem hseen)⟩⟩
      obtain ⟨other, hother, heq⟩ := List.mem_map.mp hmem
      exact hunseen other hother (heq ▸ Finset.mem_insert_self _ _)

theorem bestOf_self (h : RankedList list) : BestOf list list := by
  refine ⟨fun _ => Iff.rfl, fun row hrow => ⟨hrow, fun other hother hid => ?_⟩⟩
  rw [List.inj_on_of_nodup_map h.nodup hother hrow hid]

theorem validateSortedRankedSlice_spec (h : validateSortedRankedSlice list = .ok ()) :
    RankedList list := by
  unfold validateSortedRankedSlice at h
  cases hcheck : checkFinite list with
  | error e => rw [hcheck] at h; cases h
  | ok u =>
    cases hsorted : (list.zip list.tail).any fun pair => rankRowOrder pair.1 pair.2 = .gt with
    | true => rw [hcheck, hsorted] at h; cases h
    | false =>
      rw [hcheck, hsorted] at h
      have hnodup := (@validateNoDuplicateRows_spec list ∅ h).1
      refine rankedList_of_pairwise (checkFinite_eq_ok.mp hcheck) ?_ hnodup
      refine Batch.pairwise_of_neighbours (fun _ _ _ => Ranking.order_ne_gt_trans) ?_
      intro pair hpair hgt
      exact List.any_eq_false.mp hsorted pair hpair (decide_eq_true hgt)

end Lists

/-! ## Accepted batches -/

section Batches

variable {batch : RankedBatch} {inputs : List (List ScoredRow)} {offsets : List Nat}
  {hits : List ScoredRow} {q : Nat}

theorem validateOffsets_spec (h : validateOffsets offsets hits.length = .ok ()) :
    (⟨offsets, hits⟩ : RankedBatch).Valid := by
  unfold validateOffsets at h
  split at h
  next => cases h
  next first rest =>
    split at h
    next => cases h
    next hfirst =>
      split at h
      next => cases h
      next hascending =>
        dsimp only at h
        split at h
        next => cases h
        next hlast =>
          refine ⟨by rw [not_not.mp hfirst]; rfl, ?_, ?_⟩
          · refine Batch.pairwise_of_neighbours (fun _ _ _ => Nat.le_trans) fun pair hpair => ?_
            have hnone := List.any_eq_false.mp (Bool.eq_false_of_not_eq_true hascending) pair hpair
            simpa using hnone
          · rw [List.getLast?_cons, ← List.getLastD_eq_getLast?, not_not.mp hlast]

/-- Every list of the batch is the normalised input of its query. -/
theorem normalizeAll_spec (h : RankedBatch.normalizeAll inputs = .ok batch) :
    batch.Valid ∧ batch.queryCount = inputs.length ∧ ∀ q list, batch.forQuery q = some list →
      ∃ input, inputs[q]? = some input ∧ normalizeRankedList input = .ok list := by
  obtain ⟨lists, hlists, rfl⟩ := Batch.foldlM_push_eq_ok.mp h
  have hlength := congrArg List.length hlists
  rw [List.length_map, List.length_map] at hlength
  refine ⟨(Batch.ofLists_spec lists).1, ?_, fun q list hlist => ?_⟩
  · rw [Batch.queryCount_ofLists, hlength]
  · rw [Batch.forQuery_ofLists] at hlist
    have hq := congrArg (·[q]?) hlists
    simp only [List.getElem?_map, hlist, Option.map_some] at hq
    exact Option.map_eq_some_iff.mp hq

/-- What an accepted batch is: ranked lists of the rows of the inputs. -/
structure Accepts (inputs : List (List ScoredRow)) (batch : RankedBatch) : Prop where
  canonical : Canonical batch
  count : batch.queryCount = inputs.length
  best : ∀ q list, batch.forQuery q = some list →
    ∃ input, inputs[q]? = some input ∧ BestOf input list

theorem accepts_normalizeAll (h : RankedBatch.normalizeAll inputs = .ok batch) :
    Accepts inputs batch := by
  obtain ⟨hvalid, hcount, hlists⟩ := normalizeAll_spec h
  refine ⟨⟨hvalid, fun q list hlist => ?_⟩, hcount, fun q list hlist => ?_⟩
  · obtain ⟨input, -, hnormal⟩ := hlists q list hlist
    exact (normalizeRankedList_spec hnormal).1
  · obtain ⟨input, hinput, hnormal⟩ := hlists q list hlist
    exact ⟨input, hinput, (normalizeRankedList_spec hnormal).2⟩

theorem fromOffsetsHits_spec (h : RankedBatch.fromOffsetsHits offsets hits = .ok batch) :
    (⟨offsets, hits⟩ : RankedBatch).Valid ∧ Accepts (Batch.lists ⟨offsets, hits⟩) batch := by
  unfold RankedBatch.fromOffsetsHits at h
  cases hoffsets : validateOffsets offsets hits.length with
  | error e => rw [hoffsets] at h; cases h
  | ok u =>
    rw [hoffsets] at h
    exact ⟨validateOffsets_spec hoffsets, accepts_normalizeAll h⟩

theorem fromSortedOffsetsHits_spec
    (h : RankedBatch.fromSortedOffsetsHits offsets hits = .ok batch) :
    Accepts (Batch.lists ⟨offsets, hits⟩) batch := by
  unfold RankedBatch.fromSortedOffsetsHits at h
  cases hoffsets : validateOffsets offsets hits.length with
  | error e => rw [hoffsets] at h; cases h
  | ok u =>
    have hvalid := validateOffsets_spec hoffsets
    cases hlists : (Batch.lists ⟨offsets, hits⟩).forM validateSortedRankedSlice with
    | error e => simp [hoffsets, hlists, bind, Except.bind] at h
    | ok u =>
      simp only [hoffsets, hlists, bind, Except.bind, pure, Except.pure, Except.ok.injEq] at h
      subst h
      have hranked : ∀ q list, Batch.forQuery ⟨offsets, hits⟩ q = some list →
          (Batch.lists ⟨offsets, hits⟩)[q]? = some list ∧ RankedList list := by
        intro q list hlist
        rw [hvalid.forQuery_eq] at hlist
        exact ⟨hlist, validateSortedRankedSlice_spec
          (Outcome.forM_eq_ok.mp hlists list (List.mem_of_getElem? hlist))⟩
      exact ⟨⟨hvalid, fun q list hlist => (hranked q list hlist).2⟩, Batch.length_lists.symm,
        fun q list hlist => ⟨list, (hranked q list hlist).1, bestOf_self (hranked q list hlist).2⟩⟩

theorem zip_slice {A B : Type} (l : List A) (r : List B) (k q : Nat) :
    (Batch.slice l (q * k) (q * k + k)).zip (Batch.slice r (q * k) (q * k + k)) =
      RankedBatch.Call.flatRow k (l.zip r) q := by
  simp only [Batch.slice, RankedBatch.Call.flatRow, Nat.add_sub_cancel_left, List.zip,
    List.take_zipWith, List.drop_zipWith]

theorem fromFlat_spec {Id : Type} {hit : F32 × Id → Option ScoredRow} {nq k : Nat}
    {scores : List F32} {ids : List Id}
    (h : RankedBatch.fromFlat hit nq k scores ids = .ok batch) :
    Accepts ((List.range nq).map fun q =>
      (RankedBatch.Call.flatRow k (scores.zip ids) q).filterMap hit) batch := by
  unfold RankedBatch.fromFlat at h
  split at h
  next => cases h
  next =>
    split at h
    next => cases h
    next =>
      split at h
      next => cases h
      next =>
        simp only [zip_slice, ← List.foldl_map] at h
        have haccepts := (fromOffsetsHits_spec h).2
        have hlists := (Batch.ofLists_spec ((List.range nq).map fun q =>
          (RankedBatch.Call.flatRow k (scores.zip ids) q).filterMap hit)).2
        exact hlists ▸ haccepts

theorem filterMap_padding (entries : List (F32 × Int64)) :
    entries.filterMap (fun x => if x.2 < 0 then none else some ⟨x.2.toUInt64, x.1⟩) =
      (entries.filter fun entry => 0 ≤ entry.2).map fun (score, index) =>
        (⟨index.toUInt64, score⟩ : ScoredRow) := by
  induction entries with
  | nil => rfl
  | cons entry entries ih =>
    by_cases hpadding : entry.2 < 0
    · have hdropped : ¬0 ≤ entry.2 := Int64.not_le.mpr hpadding
      rw [List.filter_cons_of_neg (by simpa using hdropped), ← ih]
      exact List.filterMap_cons_none (if_pos hpadding)
    · have hkept : 0 ≤ entry.2 := Int64.not_lt.mp hpadding
      rw [List.filter_cons_of_pos (by simpa using hkept), List.map_cons, ← ih]
      exact List.filterMap_cons_some (if_neg hpadding)

theorem fromFlatScoresIds_spec {nq k : Nat} {scores : List F32} {ids : List UInt64}
    (h : RankedBatch.fromFlatScoresIds nq k scores ids = .ok batch) :
    Accepts ((List.range nq).map fun q =>
      (RankedBatch.Call.flatRow k (scores.zip ids) q).map fun (score, rowId) => ⟨rowId, score⟩)
      batch := by
  have haccepts := fromFlat_spec h
  simp only [← Function.comp_def some, List.filterMap_eq_map] at haccepts
  exact haccepts

theorem flatRow_zip_map {A B C : Type} (f : B → C) (l : List A) (r : List B) (k q : Nat) :
    RankedBatch.Call.flatRow k (l.zip (r.map f)) q =
      (RankedBatch.Call.flatRow k (l.zip r) q).map (Prod.map id f) := by
  have hzip : l.zip (r.map f) = (l.zip r).map (Prod.map id f) := by
    rw [List.zip_map_right]
  simp only [RankedBatch.Call.flatRow, hzip, List.map_take, List.map_drop]

theorem build_accepts {call : RankedBatch.Call} (h : call.build = .ok batch) :
    Accepts call.inputs batch := by
  cases call with
  | offsetsHits offsets hits => exact (fromOffsetsHits_spec h).2
  | sortedOffsetsHits offsets hits => exact fromSortedOffsetsHits_spec h
  | rankedLists lists => exact accepts_normalizeAll h
  | single hits => exact accepts_normalizeAll h
  | flatScoresIds nq k scores ids => exact fromFlatScoresIds_spec h
  | flatScoresSlots nq k scores slots =>
    have haccepts := fromFlatScoresIds_spec h
    simp only [flatRow_zip_map, List.map_map] at haccepts
    exact haccepts
  | flatScoresI64Indices nq k scores indices =>
    have haccepts := fromFlat_spec h
    simp only [filterMap_padding] at haccepts
    exact haccepts

end Batches

/-- Every accepted batch is canonical and holds the best hit of every input row, query by query:
equal inputs give equal lists, whatever the other queries are. -/
theorem ranked_batch_canonical :
    (∀ (call : RankedBatch.Call) (batch : RankedBatch), call.build = .ok batch →
      Accepts call.inputs batch) ∧
    ∀ (call call' : RankedBatch.Call) (batch batch' : RankedBatch), call.build = .ok batch →
      call'.build = .ok batch' → ∀ (q q' : Nat) (input : List ScoredRow),
        call.inputs[q]? = some input → call'.inputs[q']? = some input →
          ∃ list, batch.forQuery q = some list ∧ batch'.forQuery q' = some list := by
  refine ⟨fun call batch h => build_accepts h, fun call call' batch batch' h h' q q' input hinput
    hinput' => ?_⟩
  have hlist : ∀ {call : RankedBatch.Call} {batch : RankedBatch} {q : Nat},
      call.build = .ok batch → call.inputs[q]? = some input →
        ∃ list, batch.forQuery q = some list ∧ RankedList list ∧ BestOf input list := by
    intro call batch q hbuild hinput
    have haccepts := build_accepts hbuild
    have hvalid := haccepts.canonical.offsets
    have hq : q < batch.lists.length := by
      rw [Batch.length_lists, haccepts.count]
      exact (List.getElem?_eq_some_iff.mp hinput).1
    have hread : batch.forQuery q = some batch.lists[q] := by
      rw [hvalid.forQuery_eq, List.getElem?_eq_getElem hq]
    obtain ⟨input', hinput', hbest⟩ := haccepts.best q _ hread
    obtain rfl := Option.some.inj (hinput.symm.trans hinput')
    exact ⟨_, hread, haccepts.canonical.ranked q _ hread, hbest⟩
  obtain ⟨list, hread, hranked, hbest⟩ := hlist h hinput
  obtain ⟨list', hread', hranked', hbest'⟩ := hlist h' hinput'
  exact ⟨list, hread, hbest.unique hranked hranked' hbest' ▸ hread'⟩

/-- One query with two tied rows and a padding entry that has no score. -/
def paddedCall : RankedBatch.Call :=
  .flatScoresI64Indices 1 3 [F32.one, ⟨0x7fc00000⟩, F32.one] [4, -1, 2]

theorem ranked_batch_canonical_padded :
    Accepts paddedCall.inputs ⟨[0, 2], [⟨2, F32.one⟩, ⟨4, F32.one⟩]⟩ :=
  ranked_batch_canonical.1 paddedCall _ (by decide +kernel)

/-! ## Signed zeros -/

def negZero : F32 := ⟨0x80000000⟩

/-- Scores descending as numbers, with ties by row id ascending. -/
def NumericallySorted (list : List ScoredRow) : Prop :=
  list.Pairwise fun a b => b.score.lt a.score ∨ a.score.key = b.score.key ∧ a.rowId < b.rowId

/-- Row 5 at `0.0` is listed before row 3 at `-0.0`. -/
theorem signed_zeros_reversed : ∃ batch : RankedBatch, ∃ list,
    RankedBatch.fromRankedLists [[⟨5, F32.zero⟩, ⟨3, negZero⟩]] = .ok batch ∧
      batch.forQuery 0 = some list ∧ F32.zero.key = negZero.key ∧ ¬NumericallySorted list := by
  refine ⟨⟨[0, 2], [⟨5, F32.zero⟩, ⟨3, negZero⟩]⟩, [⟨5, F32.zero⟩, ⟨3, negZero⟩], by decide +kernel,
    by decide +kernel, by decide +kernel, ?_⟩
  unfold NumericallySorted
  decide +kernel

end OrdinalDB.Hybrid
