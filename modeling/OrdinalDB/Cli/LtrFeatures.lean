import OrdinalDB.Hybrid.SparseBatch
import OrdinalDB.Ltr.VerifiedCache

/-!
# Exporting features for learning to rank

`export_ltr_features`, `read_ltr_queries` and `read_ltr_qrels` of `ordinaldb-cli/src/main.rs`, up
to the data that the feature cache is written from. The lines of the two files are given, and the
JSON of a query and the text of an `f32` are parameters.

* `readLtrQueries_eq_ok`: which query files are read, and as what.
* `readLtrQrels_spec`: the last line about a query and a row is the one that counts.
* `export_ltr_features_columns`: what the columns of an export hold, and when `validate_data`
  takes them.
-/

namespace OrdinalDB.Cli

open Ltr (Name QueryCacheRecord FeatureCacheData trim validateData)

open Sparse (Bm25MmapIndex ScoreArith Unspecified AvgArith sparseRowOrder)

open Float32Bits Outcome Text

/-! ## Queries and labels -/

/-- A line of the query file. -/
structure RawQuery where
  queryId : Option Name
  id : Option Name
  query : Option Name
  text : Option Name

structure LtrQueryInput where
  queryId : Name
  query : Name
deriving DecidableEq

inductive InputError
  | queryJson (line : Nat)
  | queryIdMissing (line : Nat)
  | queryMissing (line : Nat)
  | queryEmpty (line : Nat)
  | duplicateQueryId (queryId : Name)
  | noQueries
  | qrelsFields (line : Nat)
  | rowId (line : Nat) (text : Name)
  | label (line : Nat) (text : Name)
  | labelNotFinite (line : Nat)
deriving DecidableEq

abbrev Reading := Except InputError

/-- The loop of `read_ltr_queries`; `seen` holds the ids of the lines before. -/
def readQueryLines (parse : Name → Option RawQuery) (line : Nat) (seen : List Name) :
    List Name → Reading (List LtrQueryInput)
  | [] => pure []
  | text :: rest =>
    if trim text = [] then readQueryLines parse (line + 1) seen rest
    else do
      let raw ← okOr (parse text) (.queryJson line)
      let queryId ← okOr (raw.queryId <|> raw.id) (.queryIdMissing line)
      let query ← okOr (raw.query <|> raw.text) (.queryMissing line)
      reject (trim queryId = [] ∨ trim query = []) (.queryEmpty line)
      reject (queryId ∈ seen) (.duplicateQueryId queryId)
      let queries ← readQueryLines parse (line + 1) (queryId :: seen) rest
      pure (⟨queryId, query⟩ :: queries)

def readLtrQueries (parse : Name → Option RawQuery) (lines : List Name) :
    Reading (List LtrQueryInput) := do
  let queries ← readQueryLines parse 1 [] lines
  reject (queries = []) .noQueries
  pure queries

/-- `split_whitespace`. -/
def splitWhitespace (text : Name) : List Name :=
  (text.splitOnP isWhitespace).filter (· ≠ [])

def qrelsFields (line : Nat) (text : Name) : Reading (Name × Name × Name) :=
  match splitWhitespace text with
  | [queryId, rowId, label] => .ok (queryId, rowId, label)
  | [queryId, _, rowId, label] => .ok (queryId, rowId, label)
  | _ => .error (.qrelsFields line)

/-- `parse::<u64>`. -/
def parseRowId (text : Name) : Option UInt64 :=
  let value := match text with
    | '+' :: digits => parseDecimal (2 ^ 64) digits
    | digits => parseDecimal (2 ^ 64) digits
  value.map UInt64.ofNat

abbrev Judgement := (Name × UInt64) × F32

def judgement (parseLabel : Name → Option F32) (line : Nat) (text : Name) : Reading Judgement := do
  let fields ← qrelsFields line text
  let rowId ← okOr (parseRowId fields.2.1) (.rowId line fields.2.1)
  let label ← okOr (parseLabel fields.2.2) (.label line fields.2.2)
  reject (¬label.isFinite) (.labelNotFinite line)
  pure ((fields.1, rowId), label)

/-- Blank lines and comments. -/
def isSkipped (text : Name) : Bool :=
  trim text = [] || (trim text).head? = some '#'

abbrev Qrels := Finmap fun _ : Name × UInt64 => F32

/-- The loop of `read_ltr_qrels`. -/
def readQrelsLines (parseLabel : Name → Option F32) (line : Nat) (qrels : Qrels) :
    List Name → Reading Qrels
  | [] => pure qrels
  | text :: rest =>
    if isSkipped text then readQrelsLines parseLabel (line + 1) qrels rest
    else do
      let judged ← judgement parseLabel line (trim text)
      readQrelsLines parseLabel (line + 1) (qrels.insert judged.1 judged.2) rest

def readLtrQrels (parseLabel : Name → Option F32) (lines : List Name) : Reading Qrels :=
  readQrelsLines parseLabel 1 ∅ lines

/-! ## Features -/

/-- `as f32`, which rounds to the nearest and ties to even. -/
def f32OfNat (n : Nat) : F32 :=
  let e := n.log2
  if n = 0 then F32.zero
  else if e ≤ 23 then ⟨UInt32.ofNat ((126 + e) * 2 ^ 23 + n * 2 ^ (23 - e))⟩
  else
    let unit := 2 ^ (e - 23)
    let up := unit < 2 * (n % unit) ∨ 2 * (n % unit) = unit ∧ n / unit % 2 = 1
    ⟨UInt32.ofNat ((126 + e) * 2 ^ 23 + (n / unit + if up then 1 else 0))⟩

def featureNames : List Name :=
  ["bm25_score".toList, "bm25_rank".toList, "query_len_chars".toList]

/-- The features of a query's hits, one row after the other. -/
def featuresOf (query : LtrQueryInput) (hits : List Sparse.ScoredRow) : List F32 :=
  hits.zipIdx.flatMap fun (hit, rank) =>
    [hit.score, f32OfNat (rank + 1), f32OfNat query.query.length]

def labelsOf (qrels : Qrels) (query : LtrQueryInput) (hits : List Sparse.ScoredRow) : List F32 :=
  hits.map fun hit => (qrels.lookup (query.queryId, hit.rowId)).getD F32.zero

inductive ExportError
  | topK
  | queries (error : InputError)
  | qrels (error : InputError)
  | search (fault : Sparse.Fault)
  | groupTooLong (queryId : Name)

/-- The data of the cache with the hits of some queries appended. -/
def withHits (qrels : Qrels) (data : FeatureCacheData)
    (found : List (LtrQueryInput × List Sparse.ScoredRow)) : FeatureCacheData :=
  { data with
    groups := data.groups ++ found.map fun one => UInt32.ofNat one.2.length
    rowIds := data.rowIds ++ found.flatMap fun one => one.2.map Sparse.ScoredRow.rowId
    labels := data.labels ++ found.flatMap fun one => labelsOf qrels one.1 one.2
    features := data.features ++ found.flatMap fun one => featuresOf one.1 one.2
    queries := data.queries ++ found.map fun one => ⟨one.1.queryId, one.1.query⟩ }

/-- One query of the loop of `export_ltr_features`. -/
def addQuery (index : Bm25MmapIndex) (std : Unspecified) (sa : ScoreArith) (qrels : Qrels)
    (topK : Nat) (data : FeatureCacheData) (query : LtrQueryInput) :
    Except ExportError FeatureCacheData := do
  let hits ← (index.search std sa query.query topK).mapError .search
  reject (2 ^ 32 ≤ hits.length) (.groupTooLong query.queryId)
  pure (withHits qrels data [(query, hits)])

def exportLtrFeatures (parse : Name → Option RawQuery) (parseLabel : Name → Option F32)
    (index : Bm25MmapIndex) (std : Unspecified) (sa : ScoreArith) (topK : Nat)
    (queryLines qrelsLines : List Name) : Except ExportError FeatureCacheData := do
  reject (topK = 0) .topK
  let queries ← (readLtrQueries parse queryLines).mapError .queries
  let qrels ← (readLtrQrels parseLabel qrelsLines).mapError .qrels
  queries.foldlM (addQuery index std sa qrels topK) ⟨featureNames, [], [], [], [], []⟩

theorem mapError_eq_ok {E E' α : Type} {f : E → E'} {x : Except E α} {a : α} :
    x.mapError f = .ok a ↔ x = .ok a := by
  cases x with
  | error e => exact iff_of_false nofun nofun
  | ok b => rw [Except.mapError, Except.ok.injEq, Except.ok.injEq]

/-! ## What is read -/

section Inputs

variable {parse : Name → Option RawQuery} {parseLabel : Name → Option F32} {lines : List Name}

/-- The query that a line gives. -/
def queryOf (parse : Name → Option RawQuery) (text : Name) : Option LtrQueryInput := do
  let raw ← parse text
  let queryId ← raw.queryId <|> raw.id
  let query ← raw.query <|> raw.text
  pure ⟨queryId, query⟩

structure WellFormed (queries : List LtrQueryInput) : Prop where
  queryId_not_blank : ∀ query ∈ queries, trim query.queryId ≠ []
  query_not_blank : ∀ query ∈ queries, trim query.query ≠ []
  nodup : (queries.map LtrQueryInput.queryId).Nodup

theorem readQueryLines_eq_ok {line : Nat} {seen : List Name} {queries : List LtrQueryInput} :
    readQueryLines parse line seen lines = .ok queries ↔
      (lines.filter (trim · ≠ [])).mapM (queryOf parse) = some queries ∧ WellFormed queries ∧
        ∀ query ∈ queries, query.queryId ∉ seen := by
  induction lines generalizing line seen queries with
  | nil =>
    show Except.ok [] = Except.ok queries ↔ some [] = some queries ∧ _
    rw [Except.ok.injEq, Option.some.injEq]
    refine iff_self_and.mpr ?_
    rintro rfl
    exact ⟨⟨by simp, by simp, List.nodup_nil⟩, by simp⟩
  | cons text rest ih =>
    unfold readQueryLines
    split
    next hblank =>
      rw [ih, List.filter_cons_of_neg (by simpa using hblank)]
    next htext =>
      rw [List.filter_cons_of_pos (by simpa using htext), List.mapM_cons]
      simp only [bind_eq_ok, okOr_eq_ok, reject_eq_ok, exists_const, not_or, pure_eq_ok, ih,
        queryOf, Option.bind_eq_bind, Option.bind_eq_some_iff, Option.pure_def, Option.some.injEq]
      constructor
      · rintro ⟨raw, hraw, queryId, hqueryId, query, hquery, hblank, hseen, queries,
          ⟨hrest, hwell, hnew⟩, rfl⟩
        refine ⟨⟨_, ⟨raw, hraw, queryId, hqueryId, query, hquery, rfl⟩, queries, hrest, rfl⟩,
          ⟨?_, ?_, ?_⟩, ?_⟩
        · exact List.forall_mem_cons.mpr ⟨hblank.1, hwell.queryId_not_blank⟩
        · exact List.forall_mem_cons.mpr ⟨hblank.2, hwell.query_not_blank⟩
        · refine List.nodup_cons.mpr ⟨fun hmem => ?_, hwell.nodup⟩
          obtain ⟨other, hother, heq⟩ := List.mem_map.mp hmem
          exact hnew other hother (heq ▸ List.mem_cons_self)
        · exact List.forall_mem_cons.mpr ⟨hseen, fun other hother hmem =>
            hnew other hother (List.mem_cons_of_mem _ hmem)⟩
      · rintro ⟨⟨_, ⟨raw, hraw, queryId, hqueryId, query, hquery, rfl⟩, queries, hrest, rfl⟩,
          hwell, hseen⟩
        obtain ⟨hfirst, hids⟩ := List.forall_mem_cons.mp hwell.queryId_not_blank
        obtain ⟨hfirst', htexts⟩ := List.forall_mem_cons.mp hwell.query_not_blank
        obtain ⟨hfresh, hnodup⟩ := List.nodup_cons.mp hwell.nodup
        obtain ⟨hunseen, hseen⟩ := List.forall_mem_cons.mp hseen
        refine ⟨raw, hraw, queryId, hqueryId, query, hquery, ⟨hfirst, hfirst'⟩, hunseen, queries,
          ⟨hrest, ⟨hids, htexts, hnodup⟩, fun other hother hmem => ?_⟩, rfl⟩
        rcases List.mem_cons.mp hmem with heq | hmem
        · exact hfresh (List.mem_map.mpr ⟨other, hother, heq⟩)
        · exact hseen other hother hmem

/-- A query file is read when every line gives a query, and the ids differ. -/
theorem readLtrQueries_eq_ok {queries : List LtrQueryInput} :
    readLtrQueries parse lines = .ok queries ↔
      (lines.filter (trim · ≠ [])).mapM (queryOf parse) = some queries ∧ WellFormed queries ∧
        queries ≠ [] := by
  simp only [readLtrQueries, bind_eq_ok, readQueryLines_eq_ok, reject_eq_ok, exists_const,
    pure_eq_ok]
  constructor
  · rintro ⟨_, ⟨hread, hwell, -⟩, hne, rfl⟩
    exact ⟨hread, hwell, hne⟩
  · rintro ⟨hread, hwell, hne⟩
    exact ⟨queries, ⟨hread, hwell, fun _ _ => List.not_mem_nil⟩, hne, rfl⟩

/-- The label of the last judgement of a row. -/
def lastLabel (judged : List Judgement) (key : Name × UInt64) : Option F32 :=
  (judged.reverse.find? (·.1 = key)).map Prod.snd

theorem judgement_finite {line : Nat} {text : Name} {judged : Judgement}
    (h : judgement parseLabel line text = .ok judged) : judged.2.isFinite := by
  simp only [judgement, bind_eq_ok, okOr_eq_ok, reject_eq_ok, exists_const, pure_eq_ok,
    not_not] at h
  obtain ⟨fields, -, rowId, -, label, -, hfinite, rfl⟩ := h
  exact hfinite

/-- The lines of a file as judgements. -/
def Judges (parseLabel : Name → Option F32) (lines : List Name) (judged : List Judgement) : Prop :=
  List.Forall₂ (fun text one => ∃ line, judgement parseLabel line (trim text) = .ok one)
    (lines.filter fun text => !isSkipped text) judged

theorem judged_finite {judged : List Judgement} (h : Judges parseLabel lines judged) :
    ∀ one ∈ judged, one.2.isFinite := by
  unfold Judges at h
  generalize lines.filter _ = kept at h
  induction h with
  | nil => exact fun _ hone => absurd hone List.not_mem_nil
  | cons hone _ ih =>
    obtain ⟨line, hone⟩ := hone
    exact List.forall_mem_cons.mpr ⟨judgement_finite hone, ih⟩

theorem readQrelsLines_spec {line : Nat} {qrels after : Qrels}
    (h : readQrelsLines parseLabel line qrels lines = .ok after) :
    ∃ judged, Judges parseLabel lines judged ∧
      ∀ key, after.lookup key = (lastLabel judged key).or (qrels.lookup key) := by
  induction lines generalizing line qrels with
  | nil =>
    obtain rfl := Except.ok.inj h
    exact ⟨[], .nil, fun _ => rfl⟩
  | cons text rest ih =>
    unfold readQrelsLines at h
    split at h
    next hskipped =>
      obtain ⟨judged, hjudged, hlookup⟩ := ih h
      refine ⟨judged, ?_, hlookup⟩
      unfold Judges
      rwa [List.filter_cons_of_neg (by simpa using hskipped)]
    next htext =>
      obtain ⟨one, hone, h⟩ := bind_eq_ok.mp h
      obtain ⟨judged, hjudged, hlookup⟩ := ih h
      refine ⟨one :: judged, ?_, fun key => ?_⟩
      · unfold Judges
        rw [List.filter_cons_of_pos (by simpa using htext)]
        exact .cons ⟨line, hone⟩ hjudged
      · rw [hlookup, lastLabel, lastLabel, List.reverse_cons, List.find?_append]
        cases hfind : judged.reverse.find? (·.1 = key) with
        | some other => rfl
        | none =>
          by_cases hkey : one.1 = key
          · subst hkey
            simp [Finmap.lookup_insert]
          · simp [hkey, Finmap.lookup_insert_of_ne _ (Ne.symm hkey)]

theorem readLtrQrels_spec {qrels : Qrels} (h : readLtrQrels parseLabel lines = .ok qrels) :
    ∃ judged, Judges parseLabel lines judged ∧ ∀ key, qrels.lookup key = lastLabel judged key := by
  obtain ⟨judged, hjudged, hlookup⟩ := readQrelsLines_spec h
  refine ⟨judged, hjudged, fun key => ?_⟩
  rw [hlookup, Finmap.lookup_empty, Option.or_none]

end Inputs

/-! ## What is exported -/

section Features

theorem isFinite_of_toNat_lt {v : F32} (h : v.bits.toNat < 255 * 2 ^ 23) : v.isFinite := by
  have hexponent : (v.bits >>> 23 &&& 0xff).toNat ≠ 255 := by
    rw [UInt32.toNat_and, UInt32.toNat_shiftRight]
    show v.bits.toNat >>> 23 &&& 2 ^ 8 - 1 ≠ 255
    rw [Nat.and_two_pow_sub_one_eq_mod, Nat.shiftRight_eq_div_pow]
    have hsmall : v.bits.toNat / 2 ^ 23 < 255 := Nat.div_lt_of_lt_mul (by rwa [Nat.mul_comm])
    rw [Nat.mod_eq_of_lt (hsmall.trans (by decide))]
    exact hsmall.ne
  refine bne_iff_ne.mpr fun hall => hexponent ?_
  rw [hall]
  rfl

theorem toNat_ofNat_of_lt {n : Nat} (h : n < 255 * 2 ^ 23) : (UInt32.ofNat n).toNat = n :=
  UInt32.toNat_ofNat_of_lt' (h.trans (by decide))

theorem f32OfNat_finite {n : Nat} (h : n < 2 ^ 64) : (f32OfNat n).isFinite := by
  have hlog : n < 2 ^ (n.log2 + 1) := Nat.lt_log2_self
  unfold f32OfNat
  dsimp only
  split
  next => decide
  next hzero =>
    have he : n.log2 < 64 := (Nat.log2_lt hzero).mpr h
    split
    next hexact =>
      have hmantissa : n * 2 ^ (23 - n.log2) < 2 ^ 24 := by
        refine (Nat.mul_lt_mul_of_pos_right hlog (Nat.two_pow_pos _)).trans_eq ?_
        rw [← Nat.pow_add]
        congr 1
        omega
      have hbits : (126 + n.log2) * 2 ^ 23 + n * 2 ^ (23 - n.log2) < 255 * 2 ^ 23 := by omega
      exact isFinite_of_toNat_lt ((toNat_ofNat_of_lt hbits).trans_lt hbits)
    next hrounded =>
      have hmantissa : n / 2 ^ (n.log2 - 23) < 2 ^ 24 := by
        refine Nat.div_lt_of_lt_mul (hlog.trans_eq ?_)
        rw [← Nat.pow_add]
        congr 1
        omega
      have hbits : ∀ up : Prop, ∀ [Decidable up], (126 + n.log2) * 2 ^ 23 +
          (n / 2 ^ (n.log2 - 23) + if up then 1 else 0) < 255 * 2 ^ 23 := by
        intro up _
        split <;> omega
      exact isFinite_of_toNat_lt ((toNat_ofNat_of_lt (hbits _)).trans_lt (hbits _))

example : f32OfNat (2 ^ 24 + 1) = f32OfNat (2 ^ 24) := by decide +kernel

variable {index : Bm25MmapIndex} {std : Unspecified} {sa : ScoreArith} {qrels : Qrels} {topK : Nat}
  {data after : FeatureCacheData} {found : List (LtrQueryInput × List Sparse.ScoredRow)}

/-- A query with the hits that the search finds. -/
structure Found (index : Bm25MmapIndex) (std : Unspecified) (sa : ScoreArith) (topK : Nat)
    (one : LtrQueryInput × List Sparse.ScoredRow) : Prop where
  search : index.search std sa one.1.query topK = .ok one.2
  length : one.2.length < 2 ^ 32

theorem withHits_cons {one : LtrQueryInput × List Sparse.ScoredRow} :
    withHits qrels (withHits qrels data [one]) found = withHits qrels data (one :: found) := by
  simp [withHits]

theorem withHits_nil : withHits qrels data [] = data := by
  simp [withHits]

theorem addQuery_eq_ok {query : LtrQueryInput} :
    addQuery index std sa qrels topK data query = .ok after ↔
      ∃ hits, Found index std sa topK (query, hits) ∧
        after = withHits qrels data [(query, hits)] := by
  simp only [addQuery, bind_eq_ok, mapError_eq_ok, reject_eq_ok, exists_const, not_le, pure_eq_ok]
  constructor
  · rintro ⟨hits, hsearch, hlength, rfl⟩
    exact ⟨hits, ⟨hsearch, hlength⟩, rfl⟩
  · rintro ⟨hits, ⟨hsearch, hlength⟩, rfl⟩
    exact ⟨hits, hsearch, hlength, rfl⟩

theorem addQueries_eq_ok {queries : List LtrQueryInput} :
    queries.foldlM (addQuery index std sa qrels topK) data = .ok after ↔
      ∃ found, found.map Prod.fst = queries ∧ (∀ one ∈ found, Found index std sa topK one) ∧
        after = withHits qrels data found := by
  induction queries generalizing data with
  | nil =>
    show Except.ok data = Except.ok after ↔ _
    rw [Except.ok.injEq]
    constructor
    · rintro rfl
      exact ⟨[], rfl, fun _ hone => absurd hone List.not_mem_nil, withHits_nil.symm⟩
    · rintro ⟨found, hqueries, -, rfl⟩
      obtain rfl := List.map_eq_nil_iff.mp hqueries
      exact withHits_nil.symm
  | cons query queries ih =>
    rw [List.foldlM_cons]
    simp only [bind_eq_ok, addQuery_eq_ok, ih]
    constructor
    · rintro ⟨_, ⟨hits, hhits, rfl⟩, found, rfl, hfound, rfl⟩
      exact ⟨(query, hits) :: found, rfl, List.forall_mem_cons.mpr ⟨hhits, hfound⟩, withHits_cons⟩
    · rintro ⟨found, hqueries, hfound, rfl⟩
      obtain ⟨⟨_, hits⟩, found, rfl, rfl, rfl⟩ := List.map_eq_cons_iff.mp hqueries
      obtain ⟨hfirst, hfound⟩ := List.forall_mem_cons.mp hfound
      exact ⟨_, ⟨hits, hfirst, rfl⟩, found, rfl, hfound, withHits_cons.symm⟩

/-- The columns of the cache: one group for each query, one row for each hit. -/
structure Columns (judged : List Judgement)
    (found : List (LtrQueryInput × List Sparse.ScoredRow)) (data : FeatureCacheData) : Prop where
  featureNames : data.featureNames = featureNames
  queries : data.queries = found.map fun one => ⟨one.1.queryId, one.1.query⟩
  groups : data.groups.map UInt32.toNat = found.map fun one => one.2.length
  rowIds : data.rowIds = found.flatMap fun one => one.2.map Sparse.ScoredRow.rowId
  labels : data.labels = found.flatMap fun one => one.2.map fun hit =>
    (lastLabel judged (one.1.queryId, hit.rowId)).getD F32.zero
  features : data.features = found.flatMap fun one => featuresOf one.1 one.2

theorem columns_withHits {judged : List Judgement}
    (hlabels : ∀ key, qrels.lookup key = lastLabel judged key)
    (hfound : ∀ one ∈ found, Found index std sa topK one) :
    Columns judged found (withHits qrels ⟨featureNames, [], [], [], [], []⟩ found) where
  featureNames := rfl
  queries := rfl
  groups := by
    show (found.map _).map UInt32.toNat = _
    rw [List.map_map]
    exact List.map_congr_left fun one hone => UInt32.toNat_ofNat_of_lt' (hfound one hone).length
  rowIds := rfl
  labels := by
    show found.flatMap (fun one => labelsOf qrels one.1 one.2) = _
    simp only [labelsOf, hlabels]
  features := rfl

theorem length_featuresOf {query : LtrQueryInput} {hits : List Sparse.ScoredRow} :
    (featuresOf query hits).length = hits.length * 3 := by
  simp [featuresOf, List.length_flatMap]

theorem featuresOf_finite_iff {query : LtrQueryInput} {hits : List Sparse.ScoredRow}
    (hquery : query.query.length < 2 ^ 64) (hhits : hits.length < 2 ^ 32) :
    (∀ value ∈ featuresOf query hits, value.isFinite) ↔ ∀ hit ∈ hits, hit.score.isFinite := by
  unfold featuresOf
  constructor
  · intro hfinite hit hmem
    obtain ⟨rank, hlt, rfl⟩ := List.getElem_of_mem hmem
    refine hfinite _ (List.mem_flatMap.mpr ⟨(hits[rank], rank), ?_, List.mem_cons_self⟩)
    exact List.mem_zipIdx_iff_getElem?.mpr (List.getElem?_eq_getElem hlt)
  · intro hfinite value hvalue
    obtain ⟨⟨hit, rank⟩, hmem, hvalue⟩ := List.mem_flatMap.mp hvalue
    have hhit := List.mem_zipIdx_iff_getElem?.mp hmem
    have hrank : rank < hits.length := (List.getElem?_eq_some_iff.mp hhit).1
    simp only [List.mem_cons, List.not_mem_nil, or_false] at hvalue
    rcases hvalue with rfl | rfl | rfl
    · exact hfinite hit (List.mem_of_getElem? hhit)
    · exact f32OfNat_finite (by omega)
    · exact f32OfNat_finite hquery

theorem lastLabel_finite {parseLabel : Name → Option F32} {lines : List Name}
    {judged : List Judgement} (hjudged : Judges parseLabel lines judged)
    (key : Name × UInt64) : ((lastLabel judged key).getD F32.zero).isFinite := by
  unfold lastLabel
  cases hfind : judged.reverse.find? (·.1 = key) with
  | none => exact (by decide : F32.zero.isFinite)
  | some one =>
    exact judged_finite hjudged one (List.mem_reverse.mp (List.mem_of_find?_eq_some hfind))

/-- `validate_data` takes the columns when the scores are finite and the values can be counted. -/
theorem validateData_columns {parseLabel : Name → Option F32} {lines : List Name}
    {judged : List Judgement} (hjudged : Judges parseLabel lines judged)
    (hfound : ∀ one ∈ found, Found index std sa topK one)
    (hlengths : ∀ one ∈ found, one.1.query.length < 2 ^ 64) (h : Columns judged found data) :
    validateData data = .ok () ↔
      (∀ one ∈ found, ∀ hit ∈ one.2, hit.score.isFinite) ∧
        (found.map fun one => one.2.length).sum * 3 < 2 ^ 64 := by
  have hnames : Ltr.FeatureNames featureNames := ⟨by decide, by decide +kernel, by decide +kernel⟩
  have hgroups : data.groups.length = data.queries.length := by
    have hlength := congrArg List.length h.groups
    rw [List.length_map, List.length_map] at hlength
    rw [hlength, h.queries, List.length_map]
  have hrows : (found.map fun one => one.2.length).sum = data.rowIds.length := by
    rw [h.rowIds, List.length_flatMap]
    simp only [List.length_map]
  have hlabels : (found.map fun one => one.2.length).sum = data.labels.length := by
    rw [h.labels, List.length_flatMap]
    simp only [List.length_map]
  have hvalues : data.features.length = (found.map fun one => one.2.length).sum * 3 := by
    rw [h.features, List.length_flatMap, ← List.sum_map_mul_right]
    simp only [length_featuresOf]
  have hfeatures : (∀ value ∈ data.features, value.isFinite) ↔
      ∀ one ∈ found, ∀ hit ∈ one.2, hit.score.isFinite := by
    rw [h.features, List.forall_mem_flatMap]
    exact forall₂_congr fun one hone =>
      featuresOf_finite_iff (hlengths one hone) (hfound one hone).length
  have hlabel : ∀ label ∈ data.labels, label.isFinite := by
    rw [h.labels]
    intro label hmem
    obtain ⟨one, -, hmem⟩ := List.mem_flatMap.mp hmem
    obtain ⟨hit, -, rfl⟩ := List.mem_map.mp hmem
    exact lastLabel_finite hjudged _
  have hthree : featureNames.length = 3 := rfl
  rw [Ltr.validateData_eq_ok, h.featureNames, h.groups, hfeatures, hthree, hvalues]
  constructor
  · rintro ⟨-, -, _, ⟨-, rfl⟩, -, ⟨hsize, -⟩, hscores, -⟩
    exact ⟨hscores, hsize⟩
  · rintro ⟨hscores, hsize⟩
    exact ⟨hnames, hgroups, _, ⟨by omega, rfl⟩, ⟨hrows, hlabels⟩, ⟨hsize, rfl⟩, hscores, hlabel⟩

end Features

/-- The rows of an export are the searches of the queries that the file holds, each in its order
and without a row twice; a label is the last one that is given for its query and row. Unless a
score is not finite, the cache takes the data. -/
theorem export_ltr_features_columns {ar : AvgArith} {bytes : List UInt8} {index : Bm25MmapIndex}
    (hopen : Bm25MmapIndex.open ar bytes = .ok index) (std : Unspecified) (sa : ScoreArith)
    (parse : Name → Option RawQuery) (parseLabel : Name → Option F32) (topK : Nat)
    (queryLines qrelsLines : List Name) (data : FeatureCacheData)
    (h : exportLtrFeatures parse parseLabel index std sa topK queryLines qrelsLines = .ok data)
    (hlengths : ∀ query ∈ data.queries, query.query.length < 2 ^ 64) :
    ∃ (judged : List Judgement) (found : List (LtrQueryInput × List Sparse.ScoredRow)),
      Judges parseLabel qrelsLines judged ∧
      (queryLines.filter (trim · ≠ [])).mapM (queryOf parse) = some (found.map Prod.fst) ∧
      WellFormed (found.map Prod.fst) ∧ (∀ one ∈ found, Found index std sa topK one) ∧
      (∀ one ∈ found, one.2.Pairwise (fun a b => sparseRowOrder a b = .lt) ∧
        (one.2.map Sparse.ScoredRow.rowId).Nodup ∧ one.2.length ≤ topK) ∧
      Columns judged found data ∧
      (validateData data = .ok () ↔ (∀ one ∈ found, ∀ hit ∈ one.2, hit.score.isFinite) ∧
        (found.map fun one => one.2.length).sum * 3 < 2 ^ 64) := by
  simp only [exportLtrFeatures, bind_eq_ok, mapError_eq_ok, reject_eq_ok, exists_const,
    readLtrQueries_eq_ok, addQueries_eq_ok] at h
  obtain ⟨-, _, ⟨hqueries, hwell, -⟩, qrels, hqrels, found, rfl, hfound, rfl⟩ := h
  obtain ⟨judged, hjudged, hlookup⟩ := readLtrQrels_spec hqrels
  have hcolumns := columns_withHits hlookup hfound
  have hshort : ∀ one ∈ found, one.1.query.length < 2 ^ 64 := fun one hone =>
    hlengths ⟨one.1.queryId, one.1.query⟩ (hcolumns.queries ▸ List.mem_map_of_mem hone)
  obtain ⟨-, dict, haccepted⟩ := Bm25MmapIndex.open_accepted hopen
  refine ⟨judged, found, hjudged, hqueries, hwell, hfound, fun one hone => ?_, hcolumns,
    validateData_columns hjudged hfound hshort hcolumns⟩
  obtain ⟨full, hfull, hsearch, -⟩ := haccepted.search_views std sa one.1.query
  have hhits : full.take topK = one.2 :=
    Except.ok.inj ((hsearch topK).symm.trans (hfound one hone).search)
  have hpart : one.2.Sublist full := hhits ▸ List.take_sublist topK full
  refine ⟨hfull.sorted.sublist hpart, hfull.nodup.sublist (hpart.map _), ?_⟩
  rw [← hhits, List.length_take]
  exact Nat.min_le_left _ _

/-! ## One query -/

/-- A line that is its own id and text. -/
def plainQuery (text : Name) : Option RawQuery :=
  some ⟨some text, none, none, some text⟩

def plainLabel (text : Name) : Option F32 :=
  if text = ['1'] then some F32.one else if text = ['0'] then some F32.zero else none

def sampleQueryLines : List Name :=
  ["beta".toList, "  ".toList]

def sampleQrelsLines : List Name :=
  ["# judged".toList, "beta 20 0".toList, "beta Q0 20 1".toList]

/-- A sort that can be evaluated. -/
def insertingSort : Unspecified :=
  { Unspecified.sorting with
    sortUnstable := List.insertionSort fun a b => sparseRowOrder a b ≠ .gt
    sortUnstable_perm := fun rows => List.perm_insertionSort _ rows
    sortUnstable_sorted := by
      have htrans : IsTrans Sparse.ScoredRow fun a b => sparseRowOrder a b ≠ .gt := by
        refine ⟨fun a b c hab hbc => ?_⟩
        rw [Sparse.sparseRowOrder_eq_order] at hab hbc ⊢
        exact Ranking.order_ne_gt_trans hab hbc
      have htotal : Std.Total fun a b : Sparse.ScoredRow => sparseRowOrder a b ≠ .gt := by
        refine ⟨fun a b => ?_⟩
        rw [Sparse.sparseRowOrder_eq_order, Sparse.sparseRowOrder_eq_order]
        exact Ranking.order_ne_gt_total a b
      exact List.pairwise_insertionSort _ }

def sampleFeatures (index : Bm25MmapIndex) : Except ExportError FeatureCacheData :=
  exportLtrFeatures plainQuery plainLabel index insertingSort
    ⟨fun _ _ _ _ => F32.one, fun _ score => score⟩ 5 sampleQueryLines sampleQrelsLines

theorem sampleFeatures_columns : ∃ index data, Bm25MmapIndex.open Sparse.sampleAvg
      Bm25MmapIndex.sampleBytes = .ok index ∧ sampleFeatures index = .ok data ∧
    data.labels = [F32.zero, F32.one] ∧
    ∃ judged found, Columns judged found data ∧ WellFormed (found.map Prod.fst) := by
  obtain ⟨index, hopen, hcheck⟩ := @Bm25MmapIndex.opened_of_any Bm25MmapIndex.sampleBytes
    (fun index => (sampleFeatures index).toOption.any fun data =>
      data.labels = [F32.zero, F32.one] && data.queries = [⟨"beta".toList, "beta".toList⟩])
    (by decide +kernel)
  cases hdata : sampleFeatures index with
  | error e =>
    rw [hdata] at hcheck
    cases hcheck
  | ok data =>
    rw [hdata] at hcheck
    obtain ⟨hlabels, hqueries⟩ := (Bool.and_eq_true _ _).mp hcheck
    have hlengths : ∀ query ∈ data.queries, query.query.length < 2 ^ 64 := by
      rw [of_decide_eq_true hqueries]
      decide
    obtain ⟨judged, found, -, -, hwell, -, -, hcolumns, -⟩ := export_ltr_features_columns hopen
      insertingSort _ plainQuery plainLabel 5 sampleQueryLines sampleQrelsLines data hdata hlengths
    exact ⟨index, data, hopen, hdata, of_decide_eq_true hlabels, judged, found, hcolumns, hwell⟩

end OrdinalDB.Cli
