import OrdinalDB.Sparse.Search

/-!
# Searches as views of one ranking

`search`, `search_with_allowlist` and `search_with_prepared_allowlist` of
`Bm25MmapIndex` as the source has them: the scores come out of a hash map in any order, and
more than `top_k` rows are cut by a selection before they are sorted.

* `Accepted.searchBy_eq`: the order of the map and the selection do not matter.
* `Accepted.search_allowed`: an allowlist filters the documents while the scores are added, and
  the result is the filtered ranking.
* `search_views`: every search shows a part of the one full ranking.
-/

namespace OrdinalDB.Sparse

open ByteCodec Float32Bits

/-! ## Definitions -/

/-- What the standard library leaves open: the iteration of a `HashMap`,
`select_nth_unstable_by` and `sort_unstable_by`. -/
structure Unspecified where
  iterate : Scores → List (Nat × F32)
  iterate_perm : ∀ scores, (iterate scores).Perm scores.toList
  selectNth : List ScoredRow → Nat → List ScoredRow
  selectNth_perm : ∀ rows n, (selectNth rows n).Perm rows
  /-- The rows up to the selected one come before the rest. -/
  selectNth_split : ∀ rows n, n < rows.length → ∀ a ∈ (selectNth rows n).take (n + 1),
    ∀ b ∈ (selectNth rows n).drop (n + 1), sparseRowOrder a b ≠ .gt
  sortUnstable : List ScoredRow → List ScoredRow
  sortUnstable_perm : ∀ rows, (sortUnstable rows).Perm rows
  sortUnstable_sorted : ∀ rows, (sortUnstable rows).Pairwise fun a b => sparseRowOrder a b ≠ .gt

/-- Sort where the library selects. -/
def Unspecified.sorting : Unspecified where
  iterate := Std.TreeMap.toList
  iterate_perm _ := .refl _
  selectNth rows _ := rankedRows rows
  selectNth_perm rows _ := rankedRows_perm rows
  selectNth_split rows n _ := by
    have hsorted := rankedRows_pairwise rows
    rw [← List.take_append_drop (n + 1) (rankedRows rows)] at hsorted
    exact (List.pairwise_append.mp hsorted).2.2
  sortUnstable := rankedRows
  sortUnstable_perm := rankedRows_perm
  sortUnstable_sorted := rankedRows_pairwise

/-- The end of a search: select, truncate, sort. -/
def selectTop (std : Unspecified) (topK : Nat) (rows : List ScoredRow) : List ScoredRow :=
  std.sortUnstable
    (if rows.length > topK then (std.selectNth rows (topK - 1)).take topK else rows)

namespace Bm25MmapIndex

variable (self : Bm25MmapIndex) (std : Unspecified) (sa : ScoreArith)

def searchBy (query : List Char) (topK : Nat) (allowlist : Option (Finset Nat)) :
    Checked (List ScoredRow) :=
  if self.header.docCount = 0 ∨ topK = 0 then .ok []
  else
    let queryTerms := dedupePreservingOrder (tokenizeText self.header.tokenizer query)
    if queryTerms = [] then .ok []
    else do
      let scores ← self.scoreTerms sa allowlist ∅ queryTerms
      let rows ← (std.iterate scores).mapM self.scoredRow
      return selectTop std topK rows

def searchWithAllowlist (query : List Char) (topK : Nat) (allowlist : Option (List UInt64)) :
    Checked (List ScoredRow) :=
  match allowlist with
  | none => self.searchBy std sa query topK none
  | some rowIds => do
    let prepared ← self.prepareAllowlist rowIds
    self.searchBy std sa query topK (some prepared)

def search (query : List Char) (topK : Nat) : Checked (List ScoredRow) :=
  self.searchWithAllowlist std sa query topK none

end Bm25MmapIndex

/-! ## Selecting -/

/-- Selecting before sorting leaves the first rows of the ranking. -/
theorem selectTop_eq {std : Unspecified} {topK : Nat} {rows other : List ScoredRow}
    (hpos : 0 < topK) (hperm : other.Perm rows) (hnodup : (rows.map ScoredRow.rowId).Nodup) :
    selectTop std topK other = (rankedRows rows).take topK := by
  have hranked := rankedRows_sorted hnodup
  -- a sorted list of some of the rows is their one ranking
  have hsorted : ∀ {part : List ScoredRow}, (part.map ScoredRow.rowId).Nodup →
      (std.sortUnstable part).Pairwise fun a b => sparseRowOrder a b = .lt := by
    intro part hpart
    have hids := ((std.sortUnstable_perm part).map ScoredRow.rowId).nodup_iff.mpr hpart
    exact Ranking.strict_of_nodup (std.sortUnstable_sorted part) (Ranking.nodup_toNat hids)
  have hother : (other.map ScoredRow.rowId).Nodup :=
    (hperm.map ScoredRow.rowId).nodup_iff.mpr hnodup
  have hrankedPerm : other.Perm (rankedRows rows) :=
    hperm.trans (rankedRows_perm rows).symm
  unfold selectTop
  split
  next hlong =>
    let selected := std.selectNth other (topK - 1)
    have hselected : selected.Perm other := std.selectNth_perm other _
    have hpos' : topK - 1 + 1 = topK := Nat.sub_add_cancel hpos
    have hids : ((selected.take topK ++ selected.drop topK).map ScoredRow.rowId).Nodup := by
      rw [List.take_append_drop]
      exact (hselected.map ScoredRow.rowId).nodup_iff.mpr hother
    rw [List.map_append] at hids
    obtain ⟨hfront, hback, hdisjoint⟩ := List.nodup_append.mp hids
    have hsplit : ∀ a ∈ selected.take topK, ∀ b ∈ selected.drop topK,
        sparseRowOrder a b = .lt := by
      intro a ha b hb
      have hle := std.selectNth_split other (topK - 1) (by omega) a (by rwa [hpos']) b
        (by rwa [hpos'])
      have hne : a.rowId ≠ b.rowId :=
        hdisjoint _ (List.mem_map_of_mem ha) _ (List.mem_map_of_mem hb)
      rw [sparseRowOrder_eq_order, Ranking.order_ne_gt] at hle
      exact sparseRowOrder_eq_lt.mpr (hle.imp_right fun hrows => ⟨hrows.1,
        lt_of_le_of_ne hrows.2 fun heq => hne (UInt64.toNat_inj.mp heq)⟩)
    have hwhole : rankedRows rows =
        std.sortUnstable (selected.take topK) ++ std.sortUnstable (selected.drop topK) := by
      refine Ranking.eq_of_perm hranked (List.pairwise_append.mpr
        ⟨hsorted hfront, hsorted hback, fun a ha b hb => ?_⟩) ?_
      · exact hsplit a ((std.sortUnstable_perm _).mem_iff.mp ha) b
          ((std.sortUnstable_perm _).mem_iff.mp hb)
      · refine hrankedPerm.symm.trans (hselected.symm.trans ?_)
        rw [← List.take_append_drop topK selected]
        exact ((std.sortUnstable_perm _).append (std.sortUnstable_perm _)).symm.trans
          (by rw [List.take_append_drop])
    have hlength : (std.sortUnstable (selected.take topK)).length = topK := by
      rw [(std.sortUnstable_perm _).length_eq, List.length_take, hselected.length_eq]
      exact Nat.min_eq_left (Nat.le_of_lt hlong)
    rw [hwhole, List.take_left' hlength]
  next hshort =>
    have hall : (rankedRows rows).take topK = rankedRows rows :=
      List.take_of_length_le (hrankedPerm.length_eq ▸ not_lt.mp hshort)
    rw [hall]
    exact Ranking.eq_of_perm (hsorted hother) hranked
      ((std.sortUnstable_perm other).trans hrankedPerm)

/-! ## Allowed documents -/

namespace Bm25MmapIndex

variable {self : Bm25MmapIndex} {dict : List ScannedTerm} (std : Unspecified) (sa : ScoreArith)
  {allowed : Finset Nat} {scores kept : Scores}

/-- The scores of the allowed documents. -/
def Keeps (allowed : Finset Nat) (scores kept : Scores) : Prop :=
  ∀ d : Nat, kept[d]? = if d ∈ allowed then scores[d]? else none

/-- A document gets the same contributions in the same order, whether others are allowed
or not. -/
theorem Accepted.scorePostings_keeps (h : Accepted self dict) (docFreq : Nat)
    {offsets : List Nat} {postings : List (Nat × Nat)}
    (hread : offsets.mapM self.posting = .ok postings)
    (hrange : ∀ p ∈ postings, p.1 < self.header.docCount) (hkeeps : Keeps allowed scores kept) :
    ∃ out out', self.scorePostings sa none docFreq scores offsets = .ok out ∧
      self.scorePostings sa (some allowed) docFreq kept offsets = .ok out' ∧
      Keeps allowed out out' := by
  induction offsets generalizing scores kept postings with
  | nil => exact ⟨scores, kept, rfl, rfl, hkeeps⟩
  | cons offset offsets ih =>
    rw [List.mapM_cons] at hread
    obtain ⟨p, hp, hread⟩ := bind_eq_ok.mp hread
    obtain ⟨rest, hrest, hread⟩ := bind_eq_ok.mp hread
    obtain rfl := Except.ok.inj hread
    simp only [posting, bind_eq_ok, pure, Except.pure, Except.ok.injEq] at hp
    obtain ⟨d, hd, tfOffset, htfOffset, tf, htf, rfl⟩ := hp
    have hrangeRest : ∀ p ∈ rest, p.1 < self.header.docCount := fun p hp =>
      hrange p (List.mem_cons_of_mem _ hp)
    have hlt : d < self.header.docCount := hrange (d, tf) List.mem_cons_self
    obtain ⟨len, hlen⟩ := h.sections.docLen_ok h.limit hlt
    let added (scores : Scores) : Scores := scores.alter d fun sum =>
      some (sa.add (sum.getD F32.zero) (sa.contribution self.header docFreq tf len))
    have hlookup : ∀ (scores : Scores) (k : Nat), (added scores)[k]? =
        if d = k then some (sa.add (scores[d]?.getD F32.zero)
          (sa.contribution self.header docFreq tf len)) else scores[k]? := by
      intro scores k
      simp [added, Std.TreeMap.getElem?_alter]
    have hfull : self.scorePostings sa none docFreq scores (offset :: offsets) =
        self.scorePostings sa none docFreq (added scores) offsets := by
      rw [Bm25MmapIndex.scorePostings, hd, ok_bind, Option.any_none, if_neg Bool.false_ne_true,
        htfOffset, ok_bind, htf, ok_bind, hlen, ok_bind]
    rw [hfull]
    by_cases hmem : d ∈ allowed
    · have hpart : self.scorePostings sa (some allowed) docFreq kept (offset :: offsets) =
          self.scorePostings sa (some allowed) docFreq (added kept) offsets := by
        rw [Bm25MmapIndex.scorePostings, hd, ok_bind, if_neg (by simpa using hmem), htfOffset,
          ok_bind, htf, ok_bind, hlen, ok_bind]
      rw [hpart]
      refine ih hrest hrangeRest fun k => ?_
      have hsame : kept[d]? = scores[d]? := (hkeeps d).trans (if_pos hmem)
      rw [hlookup, hlookup, hkeeps k, hsame]
      split
      next heq => rw [if_pos (heq ▸ hmem)]
      next => rfl
    · have hpart : self.scorePostings sa (some allowed) docFreq kept (offset :: offsets) =
          self.scorePostings sa (some allowed) docFreq kept offsets := by
        rw [Bm25MmapIndex.scorePostings, hd, ok_bind, if_pos (by simpa using hmem)]
      rw [hpart]
      refine ih hrest hrangeRest fun k => ?_
      rw [hlookup, hkeeps k]
      split
      next hk =>
        have hne : d ≠ k := fun heq => hmem (heq ▸ hk)
        rw [if_neg hne]
      next => rfl

theorem Accepted.scoreTerms_keeps (h : Accepted self dict) (terms : List Term)
    (hkeeps : Keeps allowed scores kept) :
    ∃ out out', self.scoreTerms sa none scores terms = .ok out ∧
      self.scoreTerms sa (some allowed) kept terms = .ok out' ∧ Keeps allowed out out' := by
  induction terms generalizing scores kept with
  | nil => exact ⟨scores, kept, rfl, rfl, hkeeps⟩
  | cons term terms ih =>
    rw [Bm25MmapIndex.scoreTerms, Bm25MmapIndex.scoreTerms, h.findTerm, ok_bind, ok_bind]
    cases hfind : dict.find? fun d => d.term = term with
    | none => exact ih hkeeps
    | some e =>
      obtain ⟨j, hj⟩ := List.getElem?_of_mem (List.mem_of_find?_eq_some hfind)
      obtain ⟨_, _, hscan, -⟩ := h.term hj
      obtain ⟨range, hrange, hlist⟩ := bind_eq_ok.mp hscan.list
      obtain ⟨between, between', hbetween, hbetween', hkeeps'⟩ := h.scorePostings_keeps sa
        e.entry.postingsLen hlist (fun p hp => (hscan.inRange p hp).1) hkeeps
      obtain ⟨out, out', hout, hout', hkeeps''⟩ := ih hkeeps'
      refine ⟨out, out', ?_, ?_, hkeeps''⟩
      · rw [Option.map_some]
        simp only [hrange, ok_bind, hbetween, hout]
      · rw [Option.map_some]
        simp only [hrange, ok_bind, hbetween', hout']

/-- The rows of the scores, one by one. -/
theorem Accepted.mem_rows (h : Accepted self dict)
    (hscores : ∀ d ∈ scores, d < self.header.docCount) {row : ScoredRow} :
    row ∈ scores.toList.map self.rowOf ↔
      ∃ d : Nat, self.docToRowId[d]? = some row.rowId ∧ scores[d]? = some row.score := by
  constructor
  · intro hrow
    obtain ⟨⟨d, score⟩, hentry, rfl⟩ := List.mem_map.mp hrow
    exact ⟨d, h.docToRowId_eq (hscores d (mem_of_mem_toList hentry)),
      Std.TreeMap.mem_toList_iff_getElem?_eq_some.mp hentry⟩
  · rintro ⟨d, hid, hscore⟩
    refine List.mem_map.mpr
      ⟨(d, row.score), Std.TreeMap.mem_toList_iff_getElem?_eq_some.mpr hscore, ?_⟩
    rw [rowOf, List.getD_eq_getElem?_getD, hid]
    rfl

theorem Accepted.prepareAllowlist_spec (h : Accepted self dict) {rowIds : List UInt64}
    (hprepare : self.prepareAllowlist rowIds = .ok allowed) (d : Nat) :
    d ∈ allowed ↔ ∃ id ∈ rowIds, self.docToRowId[d]? = some id := by
  induction rowIds generalizing allowed with
  | nil =>
    obtain rfl := Except.ok.inj hprepare
    simp
  | cons id rowIds ih =>
    rw [Bm25MmapIndex.prepareAllowlist] at hprepare
    split at hprepare
    next => cases hprepare
    next docOrdinal hlookup =>
      obtain ⟨rest, hrest, heq⟩ := bind_eq_ok.mp hprepare
      obtain rfl := Except.ok.inj heq
      have hdoc : self.docToRowId[docOrdinal]? = some id := (h.indexes id docOrdinal).mp hlookup
      rw [Finset.mem_insert, ih hrest, List.exists_mem_cons_iff]
      refine or_congr_left ⟨?_, fun hd => h.indexes.pos_unique hd hdoc⟩
      rintro rfl
      exact hdoc

/-! ## Searches -/

/-- The order of the hash map and the selection leave no trace. -/
theorem Accepted.searchBy_eq (h : Accepted self dict) (query : List Char) (topK : Nat)
    (allowlist : Option (Finset Nat)) :
    self.searchBy std sa query topK allowlist =
      self.searchWithPreparedAllowlist sa query topK allowlist := by
  obtain ⟨scores, hscores, -⟩ := h.scoreTerms sa allowlist ∅
    (dedupePreservingOrder (tokenizeText self.header.tokenizer query))
  have hmatch := h.mem_scores sa allowlist hscores
  have hlt : ∀ d ∈ scores, d < self.header.docCount := fun d hd =>
    h.matches_lt ((hmatch d).mp hd).2
  have hread : (std.iterate scores).mapM self.scoredRow =
      .ok ((std.iterate scores).map self.rowOf) :=
    h.readRows fun entry hentry =>
      hlt _ (mem_of_mem_toList ((std.iterate_perm scores).mem_iff.mp hentry))
  rw [h.search_eq sa allowlist hscores topK]
  have hwhole := h.search_eq sa allowlist hscores topK
  unfold searchWithPreparedAllowlist at hwhole
  unfold searchBy
  split
  next hnothing => rw [← hwhole, if_pos hnothing]
  next hsome =>
    rw [if_neg hsome] at hwhole
    dsimp only at hwhole ⊢
    split
    next hterms => rw [← hwhole, if_pos hterms]
    next =>
      have hpos : 0 < topK := Nat.pos_of_ne_zero fun hzero => hsome (.inr hzero)
      rw [hscores, ok_bind, hread, ok_bind]
      exact congrArg Except.ok
        (selectTop_eq hpos ((std.iterate_perm scores).map self.rowOf) (h.scoredRows hlt).1)

/-- The rows of the full ranking. -/
structure FullRanking (index : Bm25MmapIndex) (full : List ScoredRow) : Prop where
  length : full.length ≤ index.header.docCount
  sorted : full.Pairwise fun a b => sparseRowOrder a b = .lt
  nodup : (full.map ScoredRow.rowId).Nodup

/-- The ranking of the allowed documents is the full ranking, filtered. -/
theorem Accepted.search_allowed (h : Accepted self dict) (query : List Char) :
    ∃ full : List ScoredRow, FullRanking self full ∧
      (∀ topK, self.searchBy std sa query topK none = .ok (full.take topK)) ∧
      ∀ (allowed : Finset Nat) (keep : ScoredRow → Bool),
        (∀ row, keep row ↔ ∃ d ∈ allowed, self.docToRowId[d]? = some row.rowId) →
        ∀ topK, self.searchBy std sa query topK (some allowed) =
          .ok ((full.filter keep).take topK) := by
  have hempty : ∀ allowed, Keeps allowed ∅ ∅ := fun allowed d => by simp
  obtain ⟨scores, hscores, -⟩ := h.scoreTerms sa none ∅
    (dedupePreservingOrder (tokenizeText self.header.tokenizer query))
  have hlt : ∀ d ∈ scores, d < self.header.docCount := fun d hd =>
    h.matches_lt ((h.mem_scores sa none hscores d).mp hd).2
  have hranked := rankedRows_sorted (h.scoredRows hlt).1
  have hrankedPerm := rankedRows_perm (scores.toList.map self.rowOf)
  refine ⟨rankedRows (scores.toList.map self.rowOf), ⟨?_, hranked, ?_⟩, fun topK => ?_,
    fun allowed keep hkeep topK => ?_⟩
  · have hsub : scores.keys ⊆ List.range self.header.docCount := fun d hd =>
      List.mem_range.mpr (hlt d (Std.TreeMap.mem_keys.mp hd))
    have hle := (Std.TreeMap.nodup_keys.subperm hsub).length_le
    rw [hrankedPerm.length_eq, List.length_map]
    simpa [← Std.TreeMap.map_fst_toList_eq_keys] using hle
  · exact (hrankedPerm.map ScoredRow.rowId).nodup_iff.mpr (h.scoredRows hlt).1
  · rw [h.searchBy_eq std sa, h.search_eq sa none hscores]
  · obtain ⟨out, kept, hout, hkept, hkeeps⟩ := h.scoreTerms_keeps sa
      (dedupePreservingOrder (tokenizeText self.header.tokenizer query)) (hempty allowed)
    obtain rfl := Except.ok.inj (hscores.symm.trans hout)
    have hltKept : ∀ d ∈ kept, d < self.header.docCount := fun d hd =>
      h.matches_lt ((h.mem_scores sa _ hkept d).mp hd).2
    rw [h.searchBy_eq std sa, h.search_eq sa _ hkept]
    have hnodup := (h.scoredRows hlt).1
    have hnodupKept := (h.scoredRows hltKept).1
    have hfiltered : rankedRows (kept.toList.map self.rowOf) =
        (rankedRows (scores.toList.map self.rowOf)).filter keep := by
      refine Ranking.eq_of_perm (rankedRows_sorted hnodupKept) (hranked.filter keep) ?_
      refine (rankedRows_perm _).trans (List.Perm.trans ?_ (hrankedPerm.filter keep).symm)
      refine (List.perm_ext_iff_of_nodup (List.Nodup.of_map _ hnodupKept)
        ((List.Nodup.of_map _ hnodup).filter keep)).mpr fun row => ?_
      rw [List.mem_filter, h.mem_rows hltKept, h.mem_rows hlt, hkeep]
      constructor
      · rintro ⟨d, hid, hscore⟩
        rw [hkeeps d] at hscore
        obtain ⟨hmem, hscore⟩ := Option.ite_none_right_eq_some.mp hscore
        exact ⟨⟨d, hid, hscore⟩, d, hmem, hid⟩
      · rintro ⟨⟨d, hid, hscore⟩, d', hmem, hid'⟩
        obtain rfl := h.indexes.pos_unique hid hid'
        exact ⟨d, hid, by rw [hkeeps d, if_pos hmem, hscore]⟩
    rw [hfiltered]

/-- Every search of an opened index shows a part of the full ranking of its query. -/
theorem Accepted.search_views (h : Accepted self dict) (query : List Char) :
    ∃ full : List ScoredRow, FullRanking self full ∧
      (∀ topK, self.search std sa query topK = .ok (full.take topK)) ∧
      ∀ rowIds : List UInt64, (∀ id ∈ rowIds, id ∈ self.docToRowId) → ∀ topK,
        self.searchWithAllowlist std sa query topK (some rowIds) =
          .ok ((full.filter fun row => decide (row.rowId ∈ rowIds)).take topK) := by
  obtain ⟨full, hfull, hsearch, hallowed⟩ := h.search_allowed std sa query
  refine ⟨full, hfull, hsearch, fun rowIds hknown topK => ?_⟩
  obtain ⟨prepared, hprepared⟩ := h.prepareAllowlist hknown
  rw [searchWithAllowlist, hprepared, ok_bind]
  refine hallowed prepared _ (fun row => ?_) topK
  simp only [decide_eq_true_eq, h.prepareAllowlist_spec hprepared]
  constructor
  · intro hrow
    obtain ⟨d, hd⟩ := List.getElem?_of_mem (hknown _ hrow)
    exact ⟨d, ⟨_, hrow, hd⟩, hd⟩
  · rintro ⟨d, ⟨id, hid, hd⟩, hd'⟩
    obtain rfl := Option.some.inj (hd.symm.trans hd')
    exact hid

end Bm25MmapIndex

end OrdinalDB.Sparse
