import OrdinalDB.Hybrid.Accepting
import OrdinalDB.Hybrid.Trees
import OrdinalDB.Lib.Table
import OrdinalDB.Ltr.Auxiliaries

/-!
# Feature vectors and reranking

`ltr_features.rs` and the scoring half of `ltr_model.rs`: the rows of a fused batch get their
feature vectors from source batches, a document-length table and query lengths, are scored by the
model and sorted again. Single-precision arithmetic is a parameter.

`rerank_aligned`: every row is scored on its own features, and the list of a query is an answer
to the inputs of that query. Lists are sorted by `total_cmp`, which ranks `0.0` above `-0.0`
(`rerank_zeros_reversed`).
-/

namespace OrdinalDB.Hybrid

open Float32Bits Outcome

/-! ## Definitions -/

/-- A row of `FusedBatch`, as far as reranking reads it. -/
structure FusedHit where
  rowId : UInt64
  fusedScore : F32
deriving DecidableEq, Repr

structure LtrFeatureInputs where
  fused : Batch FusedHit
  rankCosScores : Option RankedBatch
  denseCosScores : Option RankedBatch
  bm25Scores : Option RankedBatch
  docLenChars : Option (UInt64 → Option UInt32)
  queryLenChars : Option (List UInt32)

structure LtrCandidateFeatures where
  rowId : UInt64
  features : List F32
deriving DecidableEq, Repr

structure LtrFeatureBatch where
  featureNames : List String
  rows : Batch LtrCandidateFeatures

structure LtrModel where
  featureNames : List String
  baseScore : F32
  learningRate : F32
  trees : List CompiledTree

/-- Every tree was compiled for the features of the model, as in every model that is loaded. -/
def LtrModel.Compiled (self : LtrModel) : Prop :=
  ∃ options : LtrLoadOptions, ∀ tree ∈ self.trees, ∃ treeIdx record,
    compileTree treeIdx record self.featureNames.length options = .ok tree

/-- The arithmetic of `f32`. -/
structure LtrArith where
  ofNat : Nat → F32
  add : F32 → F32 → F32
  mul : F32 → F32 → F32

inductive SourceKind
  | rankCosScores
  | denseCosScores
  | bm25Scores
deriving DecidableEq, Repr

inductive RerankError
  | noFeatureNames
  | emptyFeatureName
  | duplicateFeatureName (name : String)
  | queryCount (source : SourceKind) (count fused : Nat)
  | queryLengthCount (count fused : Nat)
  | missingQuery (source : SourceKind) (query : Nat)
  | sourceNotFinite (source : SourceKind) (rowId : UInt64)
  | missingSource (feature : String) (rowId : UInt64)
  | missingDocLen (rowId : UInt64)
  | missingQueryLen (query : Nat)
  | unsupportedFeature (name : String)
  | featureNotFinite (name : String) (rowId : UInt64)
  | schemaMismatch
  | featureCount (length expected : Nat)
  | inputNotFinite (feature : Nat)
  | tree (error : LtrError)
  | scoreNotFinite
  | batch (error : HybridError)
deriving DecidableEq, Repr

abbrev Reranking := Except RerankError

structure SourceHit where
  rank : Nat
  score : F32
deriving DecidableEq, Repr

abbrev SourceMap := Table UInt64 SourceHit

namespace LtrFeatureInputs

def source (inputs : LtrFeatureInputs) : SourceKind → Option RankedBatch
  | .rankCosScores => inputs.rankCosScores
  | .denseCosScores => inputs.denseCosScores
  | .bm25Scores => inputs.bm25Scores

end LtrFeatureInputs

/-- The loop of `source_map`: the first hit of a row stays. -/
def addSource (kind : SourceKind) (map : SourceMap) (entry : ScoredRow × Nat) :
    Reranking SourceMap := do
  reject (!entry.1.score.isFinite) (.sourceNotFinite kind entry.1.rowId)
  match map[entry.1.rowId]? with
  | some _ => pure map
  | none => pure (map.insert entry.1.rowId ⟨entry.2 + 1, entry.1.score⟩)

def sourceMap (batch : Option RankedBatch) (queryIdx : Nat) (kind : SourceKind) :
    Reranking SourceMap :=
  match batch with
  | none => .ok ∅
  | some batch =>
    match batch.forQuery queryIdx with
    | none => .error (.missingQuery kind queryIdx)
    | some rows => rows.zipIdx.foldlM (addSource kind) ∅

def requiredSource (map : SourceMap) (rowId : UInt64) (feature : String) : Reranking SourceHit :=
  match map[rowId]? with
  | some hit => .ok hit
  | none => .error (.missingSource feature rowId)

/-- The source and the part of its hit that a feature reads. -/
def sourceFeature (ar : LtrArith) : String → Option (SourceKind × (SourceHit → F32))
  | "bm25_score" => some (.bm25Scores, SourceHit.score)
  | "bm25_rank" => some (.bm25Scores, fun hit => ar.ofNat hit.rank)
  | "rank_cos" => some (.rankCosScores, SourceHit.score)
  | "rank_cos_rank" => some (.rankCosScores, fun hit => ar.ofNat hit.rank)
  | "dense_cos" => some (.denseCosScores, SourceHit.score)
  | "dense_rank" => some (.denseCosScores, fun hit => ar.ofNat hit.rank)
  | _ => none

/-- The value of `feature_value` before the last check. -/
def rawFeature (ar : LtrArith) (name : String) (fused : FusedHit) (queryIdx : Nat)
    (inputs : LtrFeatureInputs) (maps : SourceKind → SourceMap) : Reranking F32 :=
  match sourceFeature ar name with
  | some (kind, part) => (requiredSource (maps kind) fused.rowId name).map part
  | none =>
    match name with
    | "rrf_score" => .ok fused.fusedScore
    | "doc_len_chars" =>
      match inputs.docLenChars.bind fun lookup => lookup fused.rowId with
      | some len => .ok (ar.ofNat len.toNat)
      | none => .error (.missingDocLen fused.rowId)
    | "query_len_chars" =>
      match inputs.queryLenChars.bind fun lengths => lengths[queryIdx]? with
      | some len => .ok (ar.ofNat len.toNat)
      | none => .error (.missingQueryLen queryIdx)
    | other => .error (.unsupportedFeature other)

def featureValue (ar : LtrArith) (name : String) (fused : FusedHit) (queryIdx : Nat)
    (inputs : LtrFeatureInputs) (maps : SourceKind → SourceMap) : Reranking F32 := do
  let value ← rawFeature ar name fused queryIdx inputs maps
  reject (!value.isFinite) (.featureNotFinite name fused.rowId)
  pure value

def validateFeatureNames (names : List String) : Reranking Unit := do
  reject (names = []) .noFeatureNames
  let _ ← names.foldlM (fun (seen : Finset String) name => do
    reject (Ltr.trim name.toList = []) .emptyFeatureName
    reject (name ∈ seen) (.duplicateFeatureName name)
    pure (insert name seen)) ∅

def validateInputs (inputs : LtrFeatureInputs) : Reranking Unit := do
  let queryCount := inputs.fused.queryCount
  [SourceKind.rankCosScores, .denseCosScores, .bm25Scores].forM fun kind =>
    match inputs.source kind with
    | none => pure ()
    | some batch =>
      reject (batch.queryCount ≠ queryCount) (.queryCount kind batch.queryCount queryCount)
  match inputs.queryLenChars with
  | none => pure ()
  | some lengths =>
    reject (lengths.length ≠ queryCount) (.queryLengthCount lengths.length queryCount)

/-- The rows of one query. -/
def queryRows (ar : LtrArith) (inputs : LtrFeatureInputs) (names : List String) (queryIdx : Nat) :
    Reranking (List LtrCandidateFeatures) := do
  let bm25 ← sourceMap inputs.bm25Scores queryIdx .bm25Scores
  let rankCos ← sourceMap inputs.rankCosScores queryIdx .rankCosScores
  let denseCos ← sourceMap inputs.denseCosScores queryIdx .denseCosScores
  let maps : SourceKind → SourceMap
    | .bm25Scores => bm25
    | .rankCosScores => rankCos
    | .denseCosScores => denseCos
  ((inputs.fused.forQuery queryIdx).getD []).mapM fun fused => do
    let features ← names.mapM fun name => featureValue ar name fused queryIdx inputs maps
    pure ⟨fused.rowId, features⟩

def LtrFeatureBatch.fromInputs (ar : LtrArith) (inputs : LtrFeatureInputs) (names : List String) :
    Reranking LtrFeatureBatch := do
  validateFeatureNames names
  validateInputs inputs
  let rows ← (List.range inputs.fused.queryCount).foldlM (fun batch queryIdx =>
    (queryRows ar inputs names queryIdx).map batch.push) Batch.empty
  pure ⟨names, rows⟩

namespace LtrModel

def scoreFeatures (ar : LtrArith) (self : LtrModel) (features : List F32) : Reranking F32 := do
  reject (features.length ≠ self.featureNames.length)
    (.featureCount features.length self.featureNames.length)
  match features.findIdx? fun value => !value.isFinite with
  | some idx => throw (.inputNotFinite idx)
  | none => pure ()
  let score ← self.trees.foldlM (fun score tree =>
    match scoreTree tree features with
    | .ok value => .ok (ar.add score (ar.mul self.learningRate value))
    | .error error => .error (.tree error)) self.baseScore
  reject (!score.isFinite) .scoreNotFinite
  pure score

/-- The hits of one query. -/
def rerankQuery (ar : LtrArith) (self : LtrModel) (topK : Nat)
    (candidates : List LtrCandidateFeatures) : Reranking (List ScoredRow) := do
  let hits ← candidates.mapM fun candidate => do
    let score ← self.scoreFeatures ar candidate.features
    pure (⟨candidate.rowId, score⟩ : ScoredRow)
  pure ((Ranking.sort (fun row => row.score.totalKey) (fun row => row.rowId.toNat) hits).take topK)

def rerankBatch (ar : LtrArith) (self : LtrModel) (features : LtrFeatureBatch) (topK : Nat) :
    Reranking RankedBatch := do
  reject (features.featureNames ≠ self.featureNames) .schemaMismatch
  let batch ← (List.range features.rows.queryCount).foldlM (fun batch queryIdx =>
    (self.rerankQuery ar topK ((features.rows.forQuery queryIdx).getD [])).map batch.push)
    Batch.empty
  match RankedBatch.fromSortedOffsetsHits batch.offsets batch.hits with
  | .ok batch => .ok batch
  | .error error => .error (.batch error)

end LtrModel

def rerankFusedBatch (ar : LtrArith) (reranker : LtrModel) (inputs : LtrFeatureInputs)
    (topK : Nat) : Reranking RankedBatch := do
  let features ← LtrFeatureBatch.fromInputs ar inputs reranker.featureNames
  reranker.rerankBatch ar features topK

/-! ## Sources -/

/-- The first hit of a row, with its position from one. -/
def FirstAt (rows : List ScoredRow) (rowId : UInt64) (hit : SourceHit) : Prop :=
  ∃ i row, rows[i]? = some row ∧ row.rowId = rowId ∧
    (∀ other ∈ rows.take i, other.rowId ≠ rowId) ∧ hit = ⟨i + 1, row.score⟩

/-- The first hit from a position on. -/
def firstHit (rowId : UInt64) : Nat → List ScoredRow → Option SourceHit
  | _, [] => none
  | start, row :: rows =>
    if row.rowId = rowId then some ⟨start + 1, row.score⟩ else firstHit rowId (start + 1) rows

section Sources

variable {rows : List ScoredRow} {rowId : UInt64} {hit : SourceHit} {map out : SourceMap}
  {kind : SourceKind}

theorem firstHit_eq_some {start : Nat} : firstHit rowId start rows = some hit ↔
    ∃ i row, rows[i]? = some row ∧ row.rowId = rowId ∧
      (∀ other ∈ rows.take i, other.rowId ≠ rowId) ∧ hit = ⟨start + i + 1, row.score⟩ := by
  induction rows generalizing start with
  | nil => simp [firstHit]
  | cons first rows ih =>
    rw [firstHit]
    split
    next hfirst =>
      constructor
      · intro h
        exact ⟨0, first, rfl, hfirst, nofun, (Option.some.inj h).symm⟩
      · rintro ⟨i, row, hrow, hid, hbefore, rfl⟩
        cases i with
        | zero =>
          obtain rfl := Option.some.inj hrow
          rfl
        | succ i => exact absurd hfirst (hbefore first List.mem_cons_self)
    next hother =>
      rw [ih]
      constructor
      · rintro ⟨i, row, hrow, hid, hbefore, rfl⟩
        refine ⟨i + 1, row, hrow, hid, List.forall_mem_cons.mpr ⟨hother, hbefore⟩, ?_⟩
        rw [Nat.add_right_comm start 1 i, Nat.add_assoc start i 1]
      · rintro ⟨i, row, hrow, hid, hbefore, rfl⟩
        cases i with
        | zero =>
          obtain rfl := Option.some.inj hrow
          exact absurd hid hother
        | succ i =>
          refine ⟨i, row, hrow, hid, (List.forall_mem_cons.mp hbefore).2, ?_⟩
          rw [Nat.add_right_comm start 1 i, Nat.add_assoc start i 1]

theorem firstAt_iff : FirstAt rows rowId hit ↔ firstHit rowId 0 rows = some hit := by
  rw [firstHit_eq_some]
  simp only [Nat.zero_add]
  rfl

/-- An entry that is there stays, and a new one is the first hit. -/
theorem foldlM_addSource {start : Nat}
    (h : (rows.zipIdx start).foldlM (addSource kind) map = .ok out) (rowId : UInt64) :
    out[rowId]? = map[rowId]?.or (firstHit rowId start rows) := by
  induction rows generalizing start map with
  | nil =>
    obtain rfl := pure_eq_ok.mp h
    exact (Option.or_none).symm
  | cons row rows ih =>
    rw [List.zipIdx_cons, List.foldlM_cons] at h
    obtain ⟨next, hnext, hrest⟩ := bind_eq_ok.mp h
    obtain ⟨-, -, hadd⟩ := bind_eq_ok.mp hnext
    rw [ih hrest, firstHit]
    split at hadd
    next found hfound =>
      obtain rfl := pure_eq_ok.mp hadd
      split
      next hsame =>
        rw [← hsame, hfound]
        rfl
      next => rfl
    next hmissing =>
      obtain rfl := pure_eq_ok.mp hadd
      split
      next hsame =>
        rw [← hsame, hmissing, Table.getElem?_insert_self]
        rfl
      next hother => rw [Table.getElem?_insert_of_ne fun heq => hother heq.symm]

theorem sourceMap_spec {batch : Option RankedBatch} {queryIdx : Nat}
    (h : sourceMap batch queryIdx kind = .ok map) (rowId : UInt64) :
    map[rowId]? = (batch.bind (·.forQuery queryIdx)).bind (firstHit rowId 0) := by
  unfold sourceMap at h
  cases batch with
  | none =>
    obtain rfl := Except.ok.inj h
    exact Std.ExtTreeMap.getElem?_empty
  | some batch =>
    dsimp only at h
    rw [Option.bind_some]
    split at h
    next => cases h
    next rows hrows =>
      rw [hrows, foldlM_addSource h, Std.ExtTreeMap.getElem?_empty]
      rfl

end Sources

/-! ## Features -/

/-- What the rows of one query are ranked by. -/
structure QueryInputs where
  fused : List FusedHit
  source : SourceKind → Option (List ScoredRow)
  docLen : Option (UInt64 → Option UInt32)
  queryLen : Option UInt32

def LtrFeatureInputs.query (inputs : LtrFeatureInputs) (queryIdx : Nat) : QueryInputs where
  fused := (inputs.fused.forQuery queryIdx).getD []
  source kind := (inputs.source kind).bind (·.forQuery queryIdx)
  docLen := inputs.docLenChars
  queryLen := inputs.queryLenChars.bind (·[queryIdx]?)

/-- The value of a feature of a row. -/
def FeatureOf (ar : LtrArith) (query : QueryInputs) (fused : FusedHit) (name : String)
    (value : F32) : Prop :=
  match sourceFeature ar name with
  | some (kind, part) => ∃ rows hit, query.source kind = some rows ∧
      FirstAt rows fused.rowId hit ∧ value = part hit
  | none =>
    name = "rrf_score" ∧ value = fused.fusedScore ∨
    name = "doc_len_chars" ∧ (∃ lookup len, query.docLen = some lookup ∧
      lookup fused.rowId = some len ∧ value = ar.ofNat len.toNat) ∨
    name = "query_len_chars" ∧ ∃ len, query.queryLen = some len ∧ value = ar.ofNat len.toNat

/-- A vector holds the features of a row in the order of the names. -/
def Aligned (ar : LtrArith) (names : List String) (query : QueryInputs) (fused : FusedHit)
    (vector : List F32) : Prop :=
  List.Forall₂ (FeatureOf ar query fused) names vector

/-- What the list of a query is: the rows with the scores of their own vectors, sorted and cut. -/
def Reranked (ar : LtrArith) (model : LtrModel) (topK : Nat) (query : QueryInputs)
    (list : List ScoredRow) : Prop :=
  ∃ scored full : List ScoredRow,
    List.Forall₂ (fun fused hit => hit.rowId = fused.rowId ∧ ∃ vector,
      Aligned ar model.featureNames query fused vector ∧
      model.scoreFeatures ar vector = .ok hit.score) query.fused scored ∧
    full.Perm scored ∧ (full.Pairwise fun a b => rankRowOrder a b ≠ .gt) ∧
    list = full.take topK

section Features

variable {ar : LtrArith} {inputs : LtrFeatureInputs} {query : QueryInputs} {fused : FusedHit}
  {name : String} {value value' : F32} {queryIdx : Nat} {maps : SourceKind → SourceMap}
  {names : List String}

/-- The maps of a query hold the first hits of its lists. -/
def Reads (inputs : LtrFeatureInputs) (queryIdx : Nat) (maps : SourceKind → SourceMap) : Prop :=
  ∀ kind rowId, (maps kind)[rowId]? =
    ((inputs.query queryIdx).source kind).bind (firstHit rowId 0)

theorem featureValue_spec (hmaps : Reads inputs queryIdx maps)
    (h : featureValue ar name fused queryIdx inputs maps = .ok value) :
    FeatureOf ar (inputs.query queryIdx) fused name value := by
  obtain ⟨raw, hraw, hrest⟩ := bind_eq_ok.mp h
  obtain ⟨-, -, hvalue⟩ := bind_eq_ok.mp hrest
  obtain rfl := pure_eq_ok.mp hvalue
  unfold FeatureOf
  unfold rawFeature at hraw
  split at hraw
  next kind part hsource =>
    unfold requiredSource at hraw
    split at hraw
    next hit hhit =>
      rw [hmaps kind fused.rowId] at hhit
      obtain ⟨rows, hrows, hfirst⟩ := Option.bind_eq_some_iff.mp hhit
      exact ⟨rows, hit, hrows, firstAt_iff.mpr hfirst, (Except.ok.inj hraw).symm⟩
    next => cases hraw
  next hsource =>
    split at hraw
    next => exact .inl ⟨rfl, (Except.ok.inj hraw).symm⟩
    next =>
      split at hraw
      next len hlen =>
        obtain ⟨lookup, hlookup, hlen⟩ := Option.bind_eq_some_iff.mp hlen
        exact .inr (.inl ⟨rfl, lookup, len, hlookup, hlen, (Except.ok.inj hraw).symm⟩)
      next => cases hraw
    next =>
      split at hraw
      next len hlen => exact .inr (.inr ⟨rfl, len, hlen, (Except.ok.inj hraw).symm⟩)
      next => cases hraw
    next => cases hraw

/-- A feature has one value. -/
theorem FeatureOf.unique (h : FeatureOf ar query fused name value)
    (h' : FeatureOf ar query fused name value') : value = value' := by
  unfold FeatureOf at h h'
  split at h
  next kind part hsource =>
    rw [hsource] at h'
    obtain ⟨rows, hit, hrows, hfirst, rfl⟩ := h
    obtain ⟨rows', hit', hrows', hfirst', rfl⟩ := h'
    obtain rfl := Option.some.inj (hrows.symm.trans hrows')
    rw [firstAt_iff] at hfirst hfirst'
    obtain rfl := Option.some.inj (hfirst.symm.trans hfirst')
    rfl
  next hsource =>
    rw [hsource] at h'
    rcases h with ⟨rfl, rfl⟩ | ⟨rfl, lookup, len, hlookup, hlen, rfl⟩ | ⟨rfl, len, hlen, rfl⟩
    · rcases h' with ⟨-, rfl⟩ | ⟨hname, -⟩ | ⟨hname, -⟩
      · rfl
      · exact absurd hname (by decide)
      · exact absurd hname (by decide)
    · rcases h' with ⟨hname, -⟩ | ⟨-, lookup', len', hlookup', hlen', rfl⟩ | ⟨hname, -⟩
      · exact absurd hname (by decide)
      · obtain rfl := Option.some.inj (hlookup.symm.trans hlookup')
        obtain rfl := Option.some.inj (hlen.symm.trans hlen')
        rfl
      · exact absurd hname (by decide)
    · rcases h' with ⟨hname, -⟩ | ⟨hname, -⟩ | ⟨-, len', hlen', rfl⟩
      · exact absurd hname (by decide)
      · exact absurd hname (by decide)
      · obtain rfl := Option.some.inj (hlen.symm.trans hlen')
        rfl

theorem mapM_forall₂ {E A B : Type} {f : A → Except E B} {l : List A} {r : List B}
    (h : l.mapM f = .ok r) : List.Forall₂ (fun a b => f a = .ok b) l r := by
  have hmap := mapM_eq_ok.mp h
  rw [← List.forall₂_eq_eq_eq, List.forall₂_map_left_iff, List.forall₂_map_right_iff] at hmap
  exact hmap

theorem forall₂_trans {A B D : Type} {R : A → B → Prop} {T : B → D → Prop} {l : List A}
    {m : List B} {n : List D} (h : List.Forall₂ R l m) (h' : List.Forall₂ T m n) :
    List.Forall₂ (fun a d => ∃ b, R a b ∧ T b d) l n := by
  induction h generalizing n with
  | nil =>
    cases h'
    exact .nil
  | cons hab _ ih =>
    cases h' with
    | cons hbd hrest => exact .cons ⟨_, hab, hbd⟩ (ih hrest)

theorem exists_of_forall₂ {A B : Type} {R : A → B → Prop} {l : List A} {r : List B}
    (h : List.Forall₂ R l r) {a : A} (ha : a ∈ l) : ∃ b ∈ r, R a b := by
  induction h with
  | nil => cases ha
  | @cons first other l r hfirst _ ih =>
    rcases List.mem_cons.mp ha with rfl | ha
    · exact ⟨other, List.mem_cons_self, hfirst⟩
    · obtain ⟨b, hb, hab⟩ := ih ha
      exact ⟨b, List.mem_cons_of_mem _ hb, hab⟩

/-- The vectors of the rows of a query. -/
theorem queryRows_spec {candidates : List LtrCandidateFeatures}
    (h : queryRows ar inputs names queryIdx = .ok candidates) :
    List.Forall₂ (fun fused candidate => candidate.rowId = fused.rowId ∧
      Aligned ar names (inputs.query queryIdx) fused candidate.features)
      (inputs.query queryIdx).fused candidates := by
  obtain ⟨bm25, hbm25, h⟩ := bind_eq_ok.mp h
  obtain ⟨rankCos, hrankCos, h⟩ := bind_eq_ok.mp h
  obtain ⟨denseCos, hdenseCos, h⟩ := bind_eq_ok.mp h
  refine (mapM_forall₂ h).imp fun fused candidate hcandidate => ?_
  obtain ⟨features, hfeatures, hmade⟩ := bind_eq_ok.mp hcandidate
  obtain rfl := pure_eq_ok.mp hmade
  refine ⟨rfl, (mapM_forall₂ hfeatures).imp fun name value hvalue => ?_⟩
  refine featureValue_spec (fun kind rowId => ?_) hvalue
  cases kind with
  | rankCosScores => exact sourceMap_spec hrankCos rowId
  | denseCosScores => exact sourceMap_spec hdenseCos rowId
  | bm25Scores => exact sourceMap_spec hbm25 rowId

theorem Aligned.unique {vector vector' : List F32} (h : Aligned ar names query fused vector)
    (h' : Aligned ar names query fused vector') : vector = vector' := by
  have hunique : Relator.RightUnique (FeatureOf ar query fused) := fun _ _ _ => FeatureOf.unique
  exact List.right_unique_forall₂' hunique h h'

theorem eq_of_fields {a b : ScoredRow} (hid : a.rowId = b.rowId) (hscore : a.score = b.score) :
    a = b := by
  cases a
  cases b
  exact congrArg₂ ScoredRow.mk hid hscore

theorem eq_of_order {a b : ScoredRow} (hab : rankRowOrder a b ≠ .gt)
    (hba : rankRowOrder b a ≠ .gt) :
    a = b := by
  rcases Ranking.order_ne_gt.mp hab with hlt | ⟨hscore, hid⟩
  · rcases Ranking.order_ne_gt.mp hba with hlt' | ⟨hscore', -⟩
    · exact absurd hlt hlt'.asymm
    · exact absurd hlt hscore'.not_gt
  · rcases Ranking.order_ne_gt.mp hba with hlt' | ⟨-, hid'⟩
    · exact absurd hlt' hscore.not_gt
    · have hids : a.rowId = b.rowId := UInt64.toNat_inj.mp (le_antisymm hid hid')
      have hscores : b.score = a.score := F32.totalKey_injective hscore
      exact eq_of_fields hids hscores.symm

/-- The inputs of a query decide its list. -/
theorem Reranked.unique {model : LtrModel} {topK : Nat} {list list' : List ScoredRow}
    (h : Reranked ar model topK query list) (h' : Reranked ar model topK query list') :
    list = list' := by
  obtain ⟨scored, full, hscored, hperm, hsorted, rfl⟩ := h
  obtain ⟨scored', full', hscored', hperm', hsorted', rfl⟩ := h'
  have hsame : scored = scored' := by
    refine List.right_unique_forall₂' (fun fused hit hit' => ?_) hscored hscored'
    rintro ⟨hid, vector, hvector, hscore⟩ ⟨hid', vector', hvector', hscore'⟩
    obtain rfl := hvector.unique hvector'
    exact eq_of_fields (hid.trans hid'.symm) (Except.ok.inj (hscore.symm.trans hscore'))
  have hfull : full = full' :=
    (hperm.trans (hsame ▸ hperm'.symm)).eq_of_pairwise (fun a b _ _ => eq_of_order) hsorted hsorted'
  rw [hfull]

/-- One query of `rerank_batch`. -/
theorem rerankQuery_spec {model : LtrModel} {topK : Nat} {candidates : List LtrCandidateFeatures}
    {list : List ScoredRow}
    (hrows : queryRows ar inputs model.featureNames queryIdx = .ok candidates)
    (h : model.rerankQuery ar topK candidates = .ok list) :
    Reranked ar model topK (inputs.query queryIdx) list := by
  obtain ⟨scored, hscored, hsorted⟩ := bind_eq_ok.mp h
  obtain rfl := pure_eq_ok.mp hsorted
  refine ⟨scored, _, ?_, Ranking.sort_perm _ _ scored, Ranking.sort_pairwise _ _ scored, rfl⟩
  have hcandidates := queryRows_spec hrows
  have hhits : List.Forall₂ (fun candidate hit => hit.rowId = candidate.rowId ∧
      model.scoreFeatures ar candidate.features = .ok hit.score) candidates scored :=
    (mapM_forall₂ hscored).imp fun candidate hit hcandidate => by
      obtain ⟨score, hscore, hmade⟩ := bind_eq_ok.mp hcandidate
      obtain rfl := pure_eq_ok.mp hmade
      exact ⟨rfl, hscore⟩
  refine (forall₂_trans hcandidates hhits).imp fun fused hit => ?_
  rintro ⟨candidate, ⟨hrow, hvector⟩, hid, hscore⟩
  exact ⟨hid.trans hrow, candidate.features, hvector, hscore⟩

end Features

/-! ## Batches -/

section Batches

variable {ar : LtrArith} {inputs : LtrFeatureInputs} {model : LtrModel} {topK : Nat}
  {out : RankedBatch}

/-- What an accepted run has done. -/
theorem rerankFusedBatch_eq_ok (h : rerankFusedBatch ar model inputs topK = .ok out) :
    validateInputs inputs = .ok () ∧ ∃ lists : List (List ScoredRow), out = Batch.ofLists lists ∧
      lists.length = inputs.fused.queryCount ∧ (∀ list ∈ lists, RankedList list) ∧
      ∀ queryIdx list, lists[queryIdx]? = some list → ∃ candidates,
        queryRows ar inputs model.featureNames queryIdx = .ok candidates ∧
        model.rerankQuery ar topK candidates = .ok list := by
  obtain ⟨features, hfeatures, hrerank⟩ := bind_eq_ok.mp h
  obtain ⟨_, -, hfeatures⟩ := bind_eq_ok.mp hfeatures
  obtain ⟨_, hinputs, hfeatures⟩ := bind_eq_ok.mp hfeatures
  obtain ⟨rows, hrows, hmade⟩ := bind_eq_ok.mp hfeatures
  obtain rfl := pure_eq_ok.mp hmade
  obtain ⟨candidates, hcandidates, rfl⟩ := Batch.foldlM_push_eq_ok.mp hrows
  obtain ⟨_, -, hrerank⟩ := bind_eq_ok.mp hrerank
  obtain ⟨batch, hbatch, haccept⟩ := bind_eq_ok.mp hrerank
  obtain ⟨lists, hlists, rfl⟩ := Batch.foldlM_push_eq_ok.mp hbatch
  split at haccept
  next accepted haccepted =>
    obtain rfl := Except.ok.inj haccept
    obtain ⟨hranked, rfl⟩ := fromSortedOffsetsHits_iff.mp haccepted
    have hcount : candidates.length = inputs.fused.queryCount := by
      have hlength := congrArg List.length hcandidates
      rw [List.length_map, List.length_map, List.length_range] at hlength
      exact hlength.symm
    have hlength : lists.length = inputs.fused.queryCount := by
      have hmap := congrArg List.length hlists
      rw [List.length_map, List.length_map, List.length_range, Batch.queryCount_ofLists,
        hcount] at hmap
      exact hmap.symm
    refine ⟨hinputs, lists, rfl, hlength, hranked, fun queryIdx list hlist => ?_⟩
    have hlt : queryIdx < inputs.fused.queryCount :=
      hlength ▸ (List.getElem?_eq_some_iff.mp hlist).1
    have hrow := congrArg (·[queryIdx]?) hcandidates
    have hanswer := congrArg (·[queryIdx]?) hlists
    rw [Batch.queryCount_ofLists, hcount] at hanswer
    simp only [List.getElem?_map, List.getElem?_range hlt, hlist, Option.map_some] at hrow hanswer
    obtain ⟨rows, hi, hrows⟩ := Option.map_eq_some_iff.mp hrow.symm
    refine ⟨rows, hrows.symm, ?_⟩
    rw [Batch.forQuery_ofLists, hi, Option.getD_some] at hanswer
    exact Option.some.inj hanswer
  next => cases haccept

/-- An error that is returned: a tree that reads outside its nodes or its features panics. -/
def Fails {A : Type} (result : Reranking A) : Prop :=
  ∃ e, result = .error e ∧ e ≠ .tree .outOfRange

/-- An error from the evaluation of a tree. -/
def InTree (e : RerankError) : Prop := ∃ error, e = .tree error

theorem Fails.of_avoids {A : Type} {result : Reranking A} (hsafe : Avoids InTree result)
    (h : ∀ a, result ≠ .ok a) : Fails result := by
  cases hresult : result with
  | error e => exact ⟨e, rfl, fun heq => hsafe e hresult ⟨_, heq⟩⟩
  | ok a => exact absurd hresult (h a)

/-- Trees that were compiled score every vector that passes the checks before them. -/
theorem scoreFeatures_avoids (hmodel : model.Compiled) (features : List F32) :
    Avoids InTree (model.scoreFeatures ar features) := by
  obtain ⟨options, htrees⟩ := hmodel
  unfold LtrModel.scoreFeatures
  refine (Avoids.reject fun ⟨_, h⟩ => by cases h).bind fun _ hlength => ?_
  cases hfind : features.findIdx? fun value => !value.isFinite with
  | some idx => exact .error fun ⟨_, h⟩ => by cases h
  | none =>
    have hfinite : ∀ value ∈ features, value.isFinite := fun value hvalue => by
      simpa using List.findIdx?_eq_none_iff.mp hfind value hvalue
    have hfinal : ∀ score : F32, Avoids InTree (do
        reject (!score.isFinite) RerankError.scoreNotFinite
        pure score) := fun score =>
      (Avoids.reject fun ⟨_, h⟩ => by cases h).bind fun _ _ => .ok score
    refine (Avoids.ok ()).bind fun _ _ => (Avoids.foldlM (fun score tree htree => ?_) _).bind
      fun score _ => hfinal score
    obtain ⟨treeIdx, record, hcompiled⟩ := htrees tree htree
    obtain ⟨value, -, hvalue, -⟩ := compiled_reaches_leaf hcompiled
      (not_not.mp (reject_eq_ok.mp hlength)) hfinite
    rw [hvalue]
    exact .ok _

theorem rerankQuery_avoids (hmodel : model.Compiled) (candidates : List LtrCandidateFeatures) :
    Avoids InTree (model.rerankQuery ar topK candidates) :=
  (Avoids.mapM fun candidate _ =>
    (scoreFeatures_avoids hmodel candidate.features).bind fun _ _ => .ok _).bind fun _ _ => .ok _

theorem sourceMap_avoids (batch : Option RankedBatch) (queryIdx : Nat) (kind : SourceKind) :
    Avoids InTree (sourceMap batch queryIdx kind) := by
  unfold sourceMap
  split
  · exact .ok _
  · split
    · exact .error fun ⟨_, h⟩ => by cases h
    · refine .foldlM (fun map entry _ => ?_) _
      unfold addSource
      refine (Avoids.reject fun ⟨_, h⟩ => by cases h).bind fun _ _ => ?_
      split <;> exact .ok _

theorem featureValue_avoids (name : String) (fused : FusedHit) (queryIdx : Nat)
    (maps : SourceKind → SourceMap) :
    Avoids InTree (featureValue ar name fused queryIdx inputs maps) := by
  unfold featureValue
  refine Avoids.bind ?_ fun value _ =>
    (Avoids.reject fun ⟨_, h⟩ => by cases h).bind fun _ _ => .ok value
  unfold rawFeature requiredSource
  split
  · refine Avoids.map ?_
    split
    · exact .ok _
    · exact .error fun ⟨_, h⟩ => by cases h
  · split <;> (try split) <;> first | exact .ok _ | exact .error (by rintro ⟨_, ⟨⟩⟩)

theorem fromInputs_avoids (names : List String) :
    Avoids InTree (LtrFeatureBatch.fromInputs ar inputs names) := by
  have hnames : Avoids InTree (validateFeatureNames names) := by
    refine (Avoids.reject fun ⟨_, h⟩ => by cases h).bind fun _ _ =>
      (Avoids.foldlM (fun seen name _ => ?_) _).bind fun _ _ => .ok ()
    exact (Avoids.reject fun ⟨_, h⟩ => by cases h).bind fun _ _ =>
      (Avoids.reject fun ⟨_, h⟩ => by cases h).bind fun _ _ => .ok _
  have hinputs : Avoids InTree (validateInputs inputs) := by
    refine (Avoids.forM fun kind _ => ?_).bind fun _ _ => ?_
    · split
      · exact .ok ()
      · exact .reject fun ⟨_, h⟩ => by cases h
    · split
      · exact .ok ()
      · exact .reject fun ⟨_, h⟩ => by cases h
  refine hnames.bind fun _ _ => hinputs.bind fun _ _ =>
    (Avoids.foldlM (fun batch queryIdx _ => Avoids.map ?_) _).bind fun _ _ => .ok _
  exact (sourceMap_avoids _ _ _).bind fun _ _ => (sourceMap_avoids _ _ _).bind fun _ _ =>
    (sourceMap_avoids _ _ _).bind fun _ _ => Avoids.mapM fun fused _ =>
      (Avoids.mapM fun name _ => featureValue_avoids name fused queryIdx _).bind fun _ _ => .ok _

theorem rerankFusedBatch_avoids (hmodel : model.Compiled) :
    Avoids InTree (rerankFusedBatch ar model inputs topK) := by
  refine (fromInputs_avoids _).bind fun features _ => ?_
  refine (Avoids.reject fun ⟨_, h⟩ => by cases h).bind fun _ _ =>
    (Avoids.foldlM (fun batch _ _ => (rerankQuery_avoids hmodel _).map) _).bind fun batch _ => ?_
  cases RankedBatch.fromSortedOffsetsHits batch.offsets batch.hits with
  | ok batch => exact .ok batch
  | error e => exact .error fun ⟨_, h⟩ => by cases h

theorem validateInputs_queryLen (h : validateInputs inputs = .ok ()) {lengths : List UInt32}
    (hlengths : inputs.queryLenChars = some lengths) :
    lengths.length = inputs.fused.queryCount := by
  obtain ⟨_, -, hlast⟩ := bind_eq_ok.mp h
  rw [hlengths] at hlast
  exact not_not.mp (reject_eq_ok.mp hlast)

theorem validateInputs_counts (h : validateInputs inputs = .ok ()) (kind : SourceKind)
    {batch : RankedBatch} (hsource : inputs.source kind = some batch) :
    batch.queryCount = inputs.fused.queryCount := by
  obtain ⟨_, hall, -⟩ := bind_eq_ok.mp h
  have hkind := forM_eq_ok.mp hall kind (by cases kind <;> decide)
  rw [hsource] at hkind
  exact not_not.mp (reject_eq_ok.mp hkind)

/-- Reranking aligns features, scores and rows, query by query. It returns an error when a source or
the query lengths are those of another number of queries, and when a feature of the model has no
value for a row. -/
theorem rerank_aligned (ar : LtrArith) (model : LtrModel) (hmodel : model.Compiled) (topK : Nat) :
    (∀ (query : QueryInputs) (list list' : List ScoredRow),
      Reranked ar model topK query list → Reranked ar model topK query list' → list = list') ∧
    ∀ inputs : LtrFeatureInputs,
      (∀ kind batch, inputs.source kind = some batch →
        batch.queryCount ≠ inputs.fused.queryCount →
        Fails (rerankFusedBatch ar model inputs topK)) ∧
      (∀ lengths, inputs.queryLenChars = some lengths →
        lengths.length ≠ inputs.fused.queryCount →
        Fails (rerankFusedBatch ar model inputs topK)) ∧
      (∀ queryIdx < inputs.fused.queryCount, ∀ fused ∈ (inputs.query queryIdx).fused,
        ∀ name ∈ model.featureNames, (¬∃ value, FeatureOf ar (inputs.query queryIdx) fused name
          value) → Fails (rerankFusedBatch ar model inputs topK)) ∧
      (∀ queryIdx < inputs.fused.queryCount, ∀ fused ∈ (inputs.query queryIdx).fused,
        ∀ name ∈ model.featureNames, ∀ kind part, sourceFeature ar name = some (kind, part) →
        (∀ rows, (inputs.query queryIdx).source kind = some rows →
          fused.rowId ∉ rows.map ScoredRow.rowId) →
        Fails (rerankFusedBatch ar model inputs topK)) ∧
      rerankFusedBatch ar model inputs topK ≠ .error (.tree .outOfRange) ∧
      ∀ out, rerankFusedBatch ar model inputs topK = .ok out →
        out.queryCount = inputs.fused.queryCount ∧
        ∀ queryIdx < inputs.fused.queryCount, ∃ list, out.forQuery queryIdx = some list ∧
          RankedList list ∧ Reranked ar model topK (inputs.query queryIdx) list := by
  refine ⟨fun query list list' => Reranked.unique, fun inputs => ?_⟩
  have hsafe : Avoids InTree (rerankFusedBatch ar model inputs topK) :=
    rerankFusedBatch_avoids hmodel
  have hanswers : ∀ out, rerankFusedBatch ar model inputs topK = .ok out →
      out.queryCount = inputs.fused.queryCount ∧
      ∀ queryIdx < inputs.fused.queryCount, ∃ list, out.forQuery queryIdx = some list ∧
        RankedList list ∧ Reranked ar model topK (inputs.query queryIdx) list := by
    intro out hout
    obtain ⟨-, lists, rfl, hlength, hranked, hlists⟩ := rerankFusedBatch_eq_ok hout
    refine ⟨by rw [Batch.queryCount_ofLists, hlength], fun queryIdx hlt => ?_⟩
    have hlist := List.getElem?_eq_getElem (hlength ▸ hlt : queryIdx < lists.length)
    obtain ⟨candidates, hrows, hrerank⟩ := hlists queryIdx _ hlist
    exact ⟨_, by rw [Batch.forQuery_ofLists, hlist], hranked _ (List.getElem_mem _),
      rerankQuery_spec hrows hrerank⟩
  have hvalue : ∀ out, rerankFusedBatch ar model inputs topK = .ok out →
      ∀ queryIdx < inputs.fused.queryCount, ∀ fused ∈ (inputs.query queryIdx).fused,
        ∀ name ∈ model.featureNames,
        ∃ value, FeatureOf ar (inputs.query queryIdx) fused name value := by
    intro out hout queryIdx hlt fused hfused name hname
    obtain ⟨list, -, -, scored, full, hscored, -⟩ := (hanswers out hout).2 queryIdx hlt
    obtain ⟨hit, -, -, vector, hvector, -⟩ := exists_of_forall₂ hscored hfused
    obtain ⟨value, -, hvalue⟩ := exists_of_forall₂ hvector hname
    exact ⟨value, hvalue⟩
  refine ⟨fun kind batch hsource hcounts => .of_avoids hsafe fun out hout => ?_,
    fun lengths hlengths hcounts => .of_avoids hsafe fun out hout => ?_,
    fun queryIdx hlt fused hfused name hname hnone => .of_avoids hsafe fun out hout =>
      hnone (hvalue out hout queryIdx hlt fused hfused name hname),
    fun queryIdx hlt fused hfused name hname kind part hkind hlacks =>
      .of_avoids hsafe fun out hout => ?_,
    fun hpanic => hsafe _ hpanic ⟨_, rfl⟩, hanswers⟩
  · obtain ⟨hinputs, -⟩ := rerankFusedBatch_eq_ok hout
    exact hcounts (validateInputs_counts hinputs kind hsource)
  · obtain ⟨hinputs, -⟩ := rerankFusedBatch_eq_ok hout
    exact hcounts (validateInputs_queryLen hinputs hlengths)
  · obtain ⟨value, hfeature⟩ := hvalue out hout queryIdx hlt fused hfused name hname
    unfold FeatureOf at hfeature
    rw [hkind] at hfeature
    obtain ⟨rows, hit, hrows, ⟨i, row, hrow, hid, -⟩, -⟩ := hfeature
    exact hlacks rows hrows (hid ▸ List.mem_map_of_mem (List.mem_of_getElem? hrow))

/-! ## A model of one tree -/

/-- The arithmetic of the values below: the numbers one and two, a factor of one, and sums with a
zero. -/
def unitArith : LtrArith where
  ofNat n := if n = 1 then .one else ⟨0x40000000⟩
  add a b := if a = negZero then b else if b = negZero then a else .zero
  mul a b := if a = .one then b else .zero

/-- The threshold separates the fused scores of the first two ranks, `1/61` and `1/62`; below it the
leaf is `-0.0`. -/
def zeroTree : LtrTree :=
  ⟨[splitNode 0 ⟨0x3C864B8A⟩ 1 2, leafNode negZero, leafNode .zero]⟩

def zeroModel : LtrModel :=
  ⟨["rrf_score", "bm25_rank"], negZero, .one,
    [⟨[.split 0 ⟨0x3C864B8A⟩ 1 2, .leaf negZero, .leaf .zero]⟩]⟩

theorem zeroModel_compiled : zeroModel.Compiled := by
  refine ⟨defaultOptions, fun tree htree => ⟨0, zeroTree, ?_⟩⟩
  obtain rfl := List.mem_singleton.mp htree
  decide +kernel

/-- Rows 5 and 3 for the first query, and row 4 for the second. -/
def zeroInputs : LtrFeatureInputs where
  fused := ⟨[0, 2, 3], [⟨5, ⟨0x3C864B8A⟩⟩, ⟨3, ⟨0x3C842108⟩⟩, ⟨4, ⟨0x3C864B8A⟩⟩]⟩
  rankCosScores := none
  denseCosScores := none
  bm25Scores := some ⟨[0, 2, 3], [⟨5, .one⟩, ⟨3, .zero⟩, ⟨4, .one⟩]⟩
  docLenChars := none
  queryLenChars := none

def zeroOut : RankedBatch := ⟨[0, 2, 3], [⟨5, .zero⟩, ⟨3, negZero⟩, ⟨4, .zero⟩]⟩

theorem zeroModel_rerank : rerankFusedBatch unitArith zeroModel zeroInputs 2 = .ok zeroOut := by
  decide +kernel

/-- Row 5 at `0.0` is listed before row 3 at `-0.0`. -/
theorem rerank_zeros_reversed : zeroModel.Compiled ∧ ∃ out list,
    rerankFusedBatch unitArith zeroModel zeroInputs 2 = .ok out ∧ out.forQuery 0 = some list ∧
      ¬NumericallySorted list := by
  refine ⟨zeroModel_compiled, zeroOut, [⟨5, .zero⟩, ⟨3, negZero⟩], zeroModel_rerank,
    by decide +kernel, ?_⟩
  unfold NumericallySorted
  decide +kernel

/-- Both queries of the batch, and a batch whose second query has no source. -/
theorem rerank_aligned_two :
    (∃ list, zeroOut.forQuery 0 = some list ∧ RankedList list ∧
      Reranked unitArith zeroModel 2 (zeroInputs.query 0) list) ∧
    (∃ list, zeroOut.forQuery 1 = some list ∧ RankedList list ∧
      Reranked unitArith zeroModel 2 (zeroInputs.query 1) list) ∧
    Fails (rerankFusedBatch unitArith zeroModel
      { zeroInputs with bm25Scores := some ⟨[0, 2], [⟨5, .one⟩, ⟨3, .zero⟩]⟩ } 2) := by
  obtain ⟨-, hinputs⟩ := rerank_aligned unitArith zeroModel zeroModel_compiled 2
  obtain ⟨-, -, -, -, -, hok⟩ := hinputs zeroInputs
  obtain ⟨hcounts, -⟩ := hinputs
    { zeroInputs with bm25Scores := some ⟨[0, 2], [⟨5, .one⟩, ⟨3, .zero⟩]⟩ }
  obtain ⟨-, hlists⟩ := hok zeroOut zeroModel_rerank
  exact ⟨hlists 0 (by decide), hlists 1 (by decide),
    hcounts .bm25Scores ⟨[0, 2], [⟨5, .one⟩, ⟨3, .zero⟩]⟩ rfl (by decide)⟩

end Batches

end OrdinalDB.Hybrid
