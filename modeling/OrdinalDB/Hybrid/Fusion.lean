import OrdinalDB.Hybrid.RankedBatch
import OrdinalDB.Lib.Table

/-!
# Reciprocal rank fusion

`rrf_fuse_batch` and `add_rrf_source` of `ordinaldb-hybrid/src/fusion.rs`, with
the contributions as rationals. The accumulator is a map by row id; its order of
iteration does not matter, since the fused rows are sorted by a total order.

`rrf_fuses` says what the fused list of every query is, and that exchanging the
inputs with their windows exchanges the roles in every row.
-/

namespace OrdinalDB.Hybrid

open Float32Bits

/-! ## The code -/

structure RrfConfig where
  rankConstant : F32
  denseWindow : Nat
  sparseWindow : Nat
  topK : Nat
deriving DecidableEq, Repr

def RrfConfig.validate (config : RrfConfig) : Except HybridError Unit :=
  if !config.rankConstant.isFinite || config.rankConstant.le F32.zero then .error .rankConstant
  else .ok ()

structure FusedRow where
  rowId : UInt64
  fusedScore : ℚ
  denseRank : Option Nat
  sparseRank : Option Nat
  denseScore : Option F32
  sparseScore : Option F32
deriving DecidableEq

abbrev FusedBatch := Batch FusedRow

structure Accumulator where
  fusedScore : ℚ := 0
  denseRank : Option Nat := none
  sparseRank : Option Nat := none
  denseScore : Option F32 := none
  sparseScore : Option F32 := none
deriving DecidableEq

inductive Source
  | dense
  | sparse
deriving DecidableEq, Repr

/-- Account one hit; the ranks and scores that are there stay. -/
def Accumulator.add (entry : Accumulator) (source : Source) (contribution : ℚ) (rank : Nat)
    (score : F32) : Accumulator :=
  let entry := { entry with fusedScore := entry.fusedScore + contribution }
  match source with
  | .dense =>
    { entry with
      denseRank := some (entry.denseRank.getD rank)
      denseScore := some (entry.denseScore.getD score) }
  | .sparse =>
    { entry with
      sparseRank := some (entry.sparseRank.getD rank)
      sparseScore := some (entry.sparseScore.getD score) }

abbrev Accumulators := Table UInt64 Accumulator

/-- The loop body of `add_rrf_source` on a row and its index. -/
def addHit (rankConstant : ℚ) (source : Source) (accum : Accumulators) (hit : ScoredRow × Nat) :
    Accumulators :=
  let rank := hit.2 + 1
  let contribution := 1 / (rankConstant + rank)
  accum.insert hit.1.rowId
    ((accum[hit.1.rowId]?.getD {}).add source contribution rank hit.1.score)

def addRrfSource (accum : Accumulators) (rows : List ScoredRow) (rankConstant : ℚ) (window : Nat)
    (source : Source) : Accumulators :=
  (rows.take window).zipIdx.foldl (addHit rankConstant source) accum

def Accumulator.row (rowId : UInt64) (acc : Accumulator) : FusedRow :=
  ⟨rowId, acc.fusedScore, acc.denseRank, acc.sparseRank, acc.denseScore, acc.sparseScore⟩

/-- The fused rows of one query in order, before truncation. -/
def fuseQuery (config : RrfConfig) (dense sparse : List ScoredRow) : List FusedRow :=
  let rankConstant := config.rankConstant.toRat
  let accum := addRrfSource ∅ dense rankConstant config.denseWindow .dense
  let accum := addRrfSource accum sparse rankConstant config.sparseWindow .sparse
  Ranking.sort FusedRow.fusedScore (fun row => row.rowId.toNat)
    (accum.toList.map fun (rowId, acc) => acc.row rowId)

def rrfFuseBatch (dense sparse : RankedBatch) (config : RrfConfig) :
    Except HybridError FusedBatch := do
  config.validate
  if dense.queryCount ≠ sparse.queryCount then
    throw (.queryCounts dense.queryCount sparse.queryCount)
  return (List.range dense.queryCount).foldl (fun batch q =>
    batch.push ((fuseQuery config ((dense.forQuery q).getD []) ((sparse.forQuery q).getD [])).take
      config.topK)) Batch.empty

/-! ## The specification -/

/-- The contribution of a rank; a row that is not listed contributes nothing. -/
def contribution (rankConstant : ℚ) : Option Nat → ℚ
  | none => 0
  | some rank => 1 / (rankConstant + rank)

/-- `rank` is the 1-based position of `hit` in the list. -/
def RankedAt (list : List ScoredRow) (hit : ScoredRow) (rank : Nat) : Prop :=
  ∃ i, list[i]? = some hit ∧ rank = i + 1

/-- The rank and the score of a row are those of its hit in the list, if it has one. -/
structure FromList (list : List ScoredRow) (rowId : UInt64) (rank : Option Nat)
    (score : Option F32) : Prop where
  rank : ∀ r, rank = some r ↔ ∃ hit, RankedAt list hit r ∧ hit.rowId = rowId
  score : ∀ s, score = some s ↔ ∃ hit ∈ list, hit.rowId = rowId ∧ hit.score = s

/-- The fused rows of two lists, in order. -/
structure Fuses (rankConstant : ℚ) (dense sparse : List ScoredRow) (rows : List FusedRow) :
    Prop where
  union : ∀ id, id ∈ rows.map FusedRow.rowId ↔
    id ∈ dense.map ScoredRow.rowId ∨ id ∈ sparse.map ScoredRow.rowId
  once : (rows.map FusedRow.rowId).Nodup
  dense : ∀ row ∈ rows, FromList dense row.rowId row.denseRank row.denseScore
  sparse : ∀ row ∈ rows, FromList sparse row.rowId row.sparseRank row.sparseScore
  score : ∀ row ∈ rows, row.fusedScore =
    contribution rankConstant row.denseRank + contribution rankConstant row.sparseRank
  sorted : rows.Pairwise fun a b => b.fusedScore < a.fusedScore ∨
    a.fusedScore = b.fusedScore ∧ a.rowId < b.rowId

def RrfConfig.swap (config : RrfConfig) : RrfConfig :=
  { config with denseWindow := config.sparseWindow, sparseWindow := config.denseWindow }

def FusedRow.swap (row : FusedRow) : FusedRow :=
  { row with
    denseRank := row.sparseRank, sparseRank := row.denseRank
    denseScore := row.sparseScore, sparseScore := row.denseScore }

/-! ## One list -/

section OneList

variable {rankConstant : ℚ} {source : Source} {accum : Accumulators} {rows : List ScoredRow}
  {id : UInt64} {hit : ScoredRow} {i : Nat}

/-- The hit of a row, with its index from `start` on. -/
def locate (start : Nat) (rows : List ScoredRow) (id : UInt64) : Option (ScoredRow × Nat) :=
  (rows.zipIdx start).find? fun entry => entry.1.rowId = id

theorem locate_cons (start : Nat) (row : ScoredRow) :
    locate start (row :: rows) id =
      if row.rowId = id then some (row, start) else locate (start + 1) rows id := by
  unfold locate
  rw [List.zipIdx_cons, List.find?_cons]
  split <;> simp_all

theorem locate_eq_none {start : Nat} :
    locate start rows id = none ↔ id ∉ rows.map ScoredRow.rowId := by
  induction rows generalizing start with
  | nil => simp [locate]
  | cons row rows ih =>
    rw [locate_cons, List.map_cons, List.mem_cons, not_or, ← @ih (start + 1)]
    split
    next hid => exact iff_of_false (by simp) fun h => h.1 hid.symm
    next hid => exact ⟨fun h => ⟨fun heq => hid heq.symm, h⟩, And.right⟩

theorem locate_eq_some (h : (rows.map ScoredRow.rowId).Nodup) (start : Nat) :
    locate start rows id = some (hit, i) ↔
      ∃ j, rows[j]? = some hit ∧ hit.rowId = id ∧ i = start + j := by
  induction rows generalizing start with
  | nil => simp [locate]
  | cons row rows ih =>
    obtain ⟨hnew, hnodup⟩ := List.nodup_cons.mp h
    rw [locate_cons]
    split
    next hid =>
      constructor
      · intro hfound
        obtain ⟨rfl, rfl⟩ := Prod.mk.inj (Option.some.inj hfound)
        exact ⟨0, rfl, hid, rfl⟩
      · rintro ⟨j, hj, hhit, rfl⟩
        cases j with
        | zero => rw [Option.some.inj hj]; rfl
        | succ j =>
          -- the id of the head is not met again
          have hrest : rows[j]? = some hit := hj
          have hmem := List.mem_map_of_mem (f := ScoredRow.rowId) (List.mem_of_getElem? hrest)
          rw [hhit, ← hid] at hmem
          exact absurd hmem hnew
    next hid =>
      rw [ih hnodup]
      constructor
      · rintro ⟨j, hj, hhit, rfl⟩
        exact ⟨j + 1, hj, hhit, by omega⟩
      · rintro ⟨j, hj, hhit, rfl⟩
        cases j with
        | zero => exact absurd (Option.some.inj hj ▸ hhit) hid
        | succ j => exact ⟨j, hj, hhit, by omega⟩

/-- What one pass makes of the entry of a row. -/
def passed (rankConstant : ℚ) (source : Source) (found : Option (ScoredRow × Nat))
    (entry : Option Accumulator) : Option Accumulator :=
  match found with
  | none => entry
  | some (hit, i) =>
    some ((entry.getD {}).add source (1 / (rankConstant + (i + 1 : Nat))) (i + 1) hit.score)

theorem getElem?_foldl_addHit (h : (rows.map ScoredRow.rowId).Nodup) (start : Nat) :
    ((rows.zipIdx start).foldl (addHit rankConstant source) accum)[id]? =
      passed rankConstant source (locate start rows id) accum[id]? := by
  induction rows generalizing accum start with
  | nil => rfl
  | cons row rows ih =>
    obtain ⟨hnew, hnodup⟩ := List.nodup_cons.mp h
    rw [List.zipIdx_cons, List.foldl_cons, ih hnodup, locate_cons]
    split
    next hid =>
      have hnone : locate (start + 1) rows id = none := locate_eq_none.mpr (hid ▸ hnew)
      rw [hnone, ← hid]
      exact Table.getElem?_insert_self
    next hid =>
      rw [addHit, Table.getElem?_insert_of_ne (Ne.symm hid)]

/-- The parts of an entry that its pass fills in. -/
theorem fromList_locate (h : (rows.map ScoredRow.rowId).Nodup) :
    FromList rows id ((locate 0 rows id).map fun found => found.2 + 1)
      ((locate 0 rows id).map fun found => found.1.score) := by
  constructor
  · intro r
    rw [Option.map_eq_some_iff]
    constructor
    · rintro ⟨⟨hit, i⟩, hfound, rfl⟩
      obtain ⟨j, hj, hid, rfl⟩ := (locate_eq_some h 0).mp hfound
      exact ⟨hit, ⟨j, hj, by simp⟩, hid⟩
    · rintro ⟨hit, ⟨i, hi, rfl⟩, hid⟩
      exact ⟨(hit, i), (locate_eq_some h 0).mpr ⟨i, hi, hid, by simp⟩, rfl⟩
  · intro s
    rw [Option.map_eq_some_iff]
    constructor
    · rintro ⟨⟨hit, i⟩, hfound, rfl⟩
      obtain ⟨j, hj, hid, rfl⟩ := (locate_eq_some h 0).mp hfound
      exact ⟨hit, List.mem_of_getElem? hj, hid, rfl⟩
    · rintro ⟨hit, hmem, hid, rfl⟩
      obtain ⟨i, hi⟩ := List.mem_iff_getElem?.mp hmem
      exact ⟨(hit, i), (locate_eq_some h 0).mpr ⟨i, hi, hid, by simp⟩, rfl⟩

end OneList

/-! ## Both lists -/

section BothLists

variable {config : RrfConfig} {dense sparse : List ScoredRow} {rankConstant : ℚ}
  {rows rows' : List FusedRow} {row : FusedRow}

/-- The row of an id, by its hits in the two lists. -/
def fusedRow (rankConstant : ℚ) (rowId : UInt64) (d s : Option (ScoredRow × Nat)) : FusedRow where
  rowId := rowId
  fusedScore := contribution rankConstant (d.map fun found => found.2 + 1) +
    contribution rankConstant (s.map fun found => found.2 + 1)
  denseRank := d.map fun found => found.2 + 1
  sparseRank := s.map fun found => found.2 + 1
  denseScore := d.map fun found => found.1.score
  sparseScore := s.map fun found => found.1.score

/-- Both passes: no entry for a row without hits, otherwise what the hits say. -/
theorem passed_passed (rowId : UInt64) (d s : Option (ScoredRow × Nat)) :
    (passed rankConstant .sparse s (passed rankConstant .dense d none)).map
        (Accumulator.row rowId) =
      if d = none ∧ s = none then none else some (fusedRow rankConstant rowId d s) := by
  cases d <;> cases s <;>
    simp [passed, Accumulator.add, Accumulator.row, fusedRow, contribution]

theorem nodup_fuseQuery : ((fuseQuery config dense sparse).map FusedRow.rowId).Nodup := by
  unfold fuseQuery
  rw [((Ranking.sort_perm _ _ _).map FusedRow.rowId).nodup_iff, List.map_map]
  exact Table.nodup_keys_toList _

section Query

variable (hdense : (dense.map ScoredRow.rowId).Nodup)
  (hsparse : (sparse.map ScoredRow.rowId).Nodup)

include hdense hsparse

theorem mem_fuseQuery : row ∈ fuseQuery config dense sparse ↔
    (row.rowId ∈ (dense.take config.denseWindow).map ScoredRow.rowId ∨
      row.rowId ∈ (sparse.take config.sparseWindow).map ScoredRow.rowId) ∧
    row = fusedRow config.rankConstant.toRat row.rowId
      (locate 0 (dense.take config.denseWindow) row.rowId)
      (locate 0 (sparse.take config.sparseWindow) row.rowId) := by
  have hdense' := hdense.sublist ((List.take_sublist config.denseWindow dense).map ScoredRow.rowId)
  have hsparse' :=
    hsparse.sublist ((List.take_sublist config.sparseWindow sparse).map ScoredRow.rowId)
  have hrow : row ∈ fuseQuery config dense sparse ↔
      (passed config.rankConstant.toRat .sparse
        (locate 0 (sparse.take config.sparseWindow) row.rowId)
        (passed config.rankConstant.toRat .dense
          (locate 0 (dense.take config.denseWindow) row.rowId) none)).map
        (Accumulator.row row.rowId) = some row := by
    unfold fuseQuery addRrfSource
    rw [(Ranking.sort_perm _ _ _).mem_iff, List.mem_map, Option.map_eq_some_iff]
    constructor
    · rintro ⟨⟨id, acc⟩, hentry, rfl⟩
      rw [Std.ExtTreeMap.mem_toList_iff_getElem?_eq_some, getElem?_foldl_addHit hsparse',
        getElem?_foldl_addHit hdense', Std.ExtTreeMap.getElem?_empty] at hentry
      exact ⟨acc, hentry, rfl⟩
    · rintro ⟨acc, hentry, hsame⟩
      refine ⟨(row.rowId, acc), ?_, hsame⟩
      rw [Std.ExtTreeMap.mem_toList_iff_getElem?_eq_some, getElem?_foldl_addHit hsparse',
        getElem?_foldl_addHit hdense', Std.ExtTreeMap.getElem?_empty]
      exact hentry
  rw [hrow, passed_passed]
  split
  next hnone =>
    rw [locate_eq_none, locate_eq_none] at hnone
    exact iff_of_false (by simp) fun h => h.1.elim hnone.1 hnone.2
  next hsome =>
    rw [locate_eq_none, locate_eq_none, not_and_or, not_not, not_not] at hsome
    rw [Option.some.injEq, and_iff_right hsome, eq_comm]

theorem fuses_fuseQuery : Fuses config.rankConstant.toRat (dense.take config.denseWindow)
    (sparse.take config.sparseWindow) (fuseQuery config dense sparse) := by
  have hdense' := hdense.sublist ((List.take_sublist config.denseWindow dense).map ScoredRow.rowId)
  have hsparse' :=
    hsparse.sublist ((List.take_sublist config.sparseWindow sparse).map ScoredRow.rowId)
  have hmem := fun row => @mem_fuseQuery config dense sparse row hdense hsparse
  refine ⟨fun id => ?_, nodup_fuseQuery, fun row hrow => ?_, fun row hrow => ?_,
    fun row hrow => ?_, ?_⟩
  · rw [List.mem_map]
    constructor
    · rintro ⟨row, hrow, rfl⟩
      exact ((hmem row).mp hrow).1
    · intro hid
      exact ⟨fusedRow config.rankConstant.toRat id (locate 0 (dense.take config.denseWindow) id)
        (locate 0 (sparse.take config.sparseWindow) id), (hmem _).mpr ⟨hid, rfl⟩, rfl⟩
  · rw [((hmem row).mp hrow).2]
    exact fromList_locate hdense'
  · rw [((hmem row).mp hrow).2]
    exact fromList_locate hsparse'
  · rw [((hmem row).mp hrow).2]
    rfl
  · have hnodup := Ranking.nodup_toNat (@nodup_fuseQuery config dense sparse)
    refine (Ranking.strict_of_nodup (Ranking.sort_pairwise _ _ _) hnodup).imp fun {a b} hlt => ?_
    rw [Ranking.order_eq_lt, @eq_comm _ b.fusedScore] at hlt
    exact hlt.imp_right (And.imp_right UInt64.lt_iff_toNat_lt.mpr)

end Query

/-! ## Uniqueness and exchange -/

theorem FromList.unique {list : List ScoredRow} {id : UInt64} {rank rank' : Option Nat}
    {score score' : Option F32} (h : FromList list id rank score)
    (h' : FromList list id rank' score') : rank = rank' ∧ score = score' :=
  ⟨Option.ext fun r => (h.rank r).trans (h'.rank r).symm,
    Option.ext fun s => (h.score s).trans (h'.score s).symm⟩

/-- The two lists decide the fused rows. -/
theorem Fuses.unique (h : Fuses rankConstant dense sparse rows)
    (h' : Fuses rankConstant dense sparse rows') : rows = rows' := by
  have hsub : ∀ {l r : List FusedRow}, Fuses rankConstant dense sparse l →
      Fuses rankConstant dense sparse r → l ⊆ r := by
    intro l r hl hr row hrow
    have hid := (hr.union row.rowId).mpr ((hl.union row.rowId).mp (List.mem_map_of_mem hrow))
    obtain ⟨row', hrow', heq⟩ := List.mem_map.mp hid
    have hdense := (hl.dense row hrow).unique (heq ▸ hr.dense row' hrow')
    have hsparse := (hl.sparse row hrow).unique (heq ▸ hr.sparse row' hrow')
    have hscore : row.fusedScore = row'.fusedScore := by
      rw [hl.score row hrow, hr.score row' hrow', hdense.1, hsparse.1]
    have hsame : row = row' := by
      obtain ⟨_, _, _, _, _, _⟩ := row
      obtain ⟨_, _, _, _, _, _⟩ := row'
      simp_all
    exact hsame ▸ hrow'
  have hstrict : ∀ {l : List FusedRow}, Fuses rankConstant dense sparse l →
      l.Pairwise fun a b =>
        Ranking.order FusedRow.fusedScore (fun row => row.rowId.toNat) a b = .lt := fun hl =>
    hl.sorted.imp fun {a b} hlt => by
      rw [Ranking.order_eq_lt, @eq_comm _ b.fusedScore]
      exact hlt.imp_right (And.imp_right UInt64.lt_iff_toNat_lt.mp)
  have hperm := (List.perm_ext_iff_of_nodup (List.Nodup.of_map _ h.once)
    (List.Nodup.of_map _ h'.once)).mpr fun row => ⟨fun hrow => hsub h h' hrow,
      fun hrow => hsub h' h hrow⟩
  exact Ranking.eq_of_perm (hstrict h) (hstrict h') hperm

/-- Exchanging the lists exchanges the roles in every row. -/
theorem Fuses.swap (h : Fuses rankConstant dense sparse rows) :
    Fuses rankConstant sparse dense (rows.map FusedRow.swap) := by
  have hids : (rows.map FusedRow.swap).map FusedRow.rowId = rows.map FusedRow.rowId := by
    rw [List.map_map]
    rfl
  refine ⟨fun id => ?_, hids ▸ h.once, ?_, ?_, ?_, List.pairwise_map.mpr h.sorted⟩
  · rw [hids, h.union, or_comm]
  · exact List.forall_mem_map.mpr h.sparse
  · exact List.forall_mem_map.mpr h.dense
  · exact List.forall_mem_map.mpr fun row hrow => (h.score row hrow).trans (add_comm _ _)

end BothLists

/-! ## Batches -/

section Batches

variable {dense sparse : RankedBatch} {config : RrfConfig} {fused : FusedBatch} {q : Nat}

theorem rrfFuseBatch_eq_ok : rrfFuseBatch dense sparse config = .ok fused ↔
    config.validate = .ok () ∧ dense.queryCount = sparse.queryCount ∧
      fused = Batch.ofLists ((List.range dense.queryCount).map fun q =>
        (fuseQuery config ((dense.forQuery q).getD []) ((sparse.forQuery q).getD [])).take
          config.topK) := by
  unfold rrfFuseBatch Batch.ofLists
  rw [List.foldl_map]
  cases config.validate with
  | error e => exact iff_of_false (fun h => by cases h) fun h => by cases h.1
  | ok u =>
    by_cases hcount : dense.queryCount = sparse.queryCount
    · simp [hcount, bind, Except.bind, pure, Except.pure, eq_comm]
    · simp [hcount, bind, Except.bind, throw, throwThe, MonadExceptOf.throw]

theorem Canonical.forQuery_isSome (h : Canonical dense) (hq : q < dense.queryCount) :
    ∃ list, dense.forQuery q = some list ∧ (list.map ScoredRow.rowId).Nodup := by
  have hlength : q < dense.lists.length := Batch.length_lists.symm ▸ hq
  have hread : dense.forQuery q = some dense.lists[q] := by
    rw [h.offsets.forQuery_eq, List.getElem?_eq_getElem hlength]
  exact ⟨_, hread, (h.ranked q _ hread).nodup⟩

/-- The fused list of every query. -/
structure FusesBatch (dense sparse : RankedBatch) (config : RrfConfig) (fused : FusedBatch) :
    Prop where
  offsets : fused.Valid
  count : fused.queryCount = dense.queryCount
  query : ∀ q < dense.queryCount, ∃ d s rows, dense.forQuery q = some d ∧
    sparse.forQuery q = some s ∧ fused.forQuery q = some (rows.take config.topK) ∧
    Fuses config.rankConstant.toRat (d.take config.denseWindow) (s.take config.sparseWindow) rows

theorem fusesBatch_of_ok (hdense : Canonical dense) (hsparse : Canonical sparse)
    (h : rrfFuseBatch dense sparse config = .ok fused) : FusesBatch dense sparse config fused := by
  obtain ⟨-, hcount, rfl⟩ := rrfFuseBatch_eq_ok.mp h
  refine ⟨(Batch.ofLists_spec _).1, by simp [Batch.queryCount_ofLists], fun q hq => ?_⟩
  obtain ⟨d, hd, hdnodup⟩ := hdense.forQuery_isSome hq
  obtain ⟨s, hs, hsnodup⟩ := hsparse.forQuery_isSome (hcount ▸ hq)
  refine ⟨d, s, _, hd, hs, ?_, fuses_fuseQuery hdnodup hsnodup⟩
  rw [Batch.forQuery_ofLists, List.getElem?_map, List.getElem?_range hq]
  simp only [Option.map_some, hd, hs, Option.getD_some]

theorem fuseQuery_swap {d s : List ScoredRow} (hd : (d.map ScoredRow.rowId).Nodup)
    (hs : (s.map ScoredRow.rowId).Nodup) :
    fuseQuery config.swap s d = (fuseQuery config d s).map FusedRow.swap :=
  (@fuses_fuseQuery config.swap s d hs hd).unique (@fuses_fuseQuery config d s hd hs).swap

/-- The inputs that are fused: the configuration is valid, and the batches have equally many
queries. -/
theorem rrfFuseBatch_accepts : (∃ fused, rrfFuseBatch dense sparse config = .ok fused) ↔
    config.validate = .ok () ∧ dense.queryCount = sparse.queryCount := by
  constructor
  · rintro ⟨fused, h⟩
    obtain ⟨hvalid, hcount, -⟩ := rrfFuseBatch_eq_ok.mp h
    exact ⟨hvalid, hcount⟩
  · rintro ⟨hvalid, hcount⟩
    exact ⟨_, rrfFuseBatch_eq_ok.mpr ⟨hvalid, hcount, rfl⟩⟩

/-- Fusion accepts a valid configuration with batches of equally many queries. It meets its
specification, and exchanging the inputs together with their windows gives the same rows with the
roles exchanged. -/
theorem rrf_fuses (hdense : Canonical dense) (hsparse : Canonical sparse) :
    ((∃ fused, rrfFuseBatch dense sparse config = .ok fused) ↔
      config.validate = .ok () ∧ dense.queryCount = sparse.queryCount) ∧
    ∀ fused, rrfFuseBatch dense sparse config = .ok fused →
      FusesBatch dense sparse config fused ∧
      ∃ exchanged, rrfFuseBatch sparse dense config.swap = .ok exchanged ∧
        ∀ q, exchanged.forQuery q = (fused.forQuery q).map (List.map FusedRow.swap) := by
  refine ⟨rrfFuseBatch_accepts, fun fused h => ?_⟩
  obtain ⟨hvalid, hcount, hfused⟩ := rrfFuseBatch_eq_ok.mp h
  have hexchanged := (@rrfFuseBatch_eq_ok _ _ config.swap _).mpr ⟨hvalid, hcount.symm, rfl⟩
  refine ⟨fusesBatch_of_ok hdense hsparse h, _, hexchanged, fun q => ?_⟩
  rw [hfused, Batch.forQuery_ofLists, Batch.forQuery_ofLists, List.getElem?_map, List.getElem?_map,
    ← hcount]
  by_cases hq : q < dense.queryCount
  · obtain ⟨d, hd, hdnodup⟩ := hdense.forQuery_isSome hq
    obtain ⟨s, hs, hsnodup⟩ := hsparse.forQuery_isSome (hcount ▸ hq)
    rw [List.getElem?_range hq]
    simp only [Option.map_some, hd, hs, Option.getD_some, fuseQuery_swap hdnodup hsnodup,
      List.map_take]
    rfl
  · rw [List.getElem?_eq_none (by simpa using hq)]
    rfl

end Batches

/-- A query with a row in both lists and one tied with it in neither window of the other. -/
def denseSample : RankedBatch := ⟨[0, 2], [⟨4, F32.one⟩, ⟨9, F32.zero⟩]⟩

def sparseSample : RankedBatch := ⟨[0, 1], [⟨9, F32.one⟩]⟩

def configSample : RrfConfig := ⟨F32.one, 5, 5, 1⟩

theorem rrf_fuses_sample : ∃ fused, rrfFuseBatch denseSample sparseSample configSample = .ok fused ∧
    FusesBatch denseSample sparseSample configSample fused := by
  have hdense : RankedBatch.fromSortedOffsetsHits denseSample.offsets denseSample.hits =
      .ok denseSample := by decide +kernel
  have hsparse : RankedBatch.fromSortedOffsetsHits sparseSample.offsets sparseSample.hits =
      .ok sparseSample := by decide +kernel
  obtain ⟨haccepts, hfuses⟩ := @rrf_fuses denseSample sparseSample configSample
    (fromSortedOffsetsHits_spec hdense).canonical (fromSortedOffsetsHits_spec hsparse).canonical
  obtain ⟨fused, hfused⟩ := haccepts.mpr ⟨by decide +kernel, by decide +kernel⟩
  exact ⟨fused, hfused, (hfuses fused hfused).1⟩

/-- Row 9 is second in the one list and first in the other: 1/3 + 1/2. -/
example : fuseQuery configSample denseSample.hits sparseSample.hits =
    [⟨9, 5 / 6, some 2, some 1, some F32.zero, some F32.one⟩,
      ⟨4, 1 / 2, some 1, none, some F32.one, none⟩] := by
  decide +kernel

end OrdinalDB.Hybrid
