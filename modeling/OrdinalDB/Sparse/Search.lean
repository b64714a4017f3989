import OrdinalDB.Lib.Ranking
import OrdinalDB.Sparse.SelfConsistency

/-!
# Searching an opened index

`find_term`, `prepare_allowlist` and `search_with_prepared_allowlist` of
`Bm25MmapIndex`.

The scores are `f32` sums of the parameter `ScoreArith`. The accumulator is
keyed by document; its order of iteration does not matter, since the rows are
sorted by a total order. `top_k` rows are selected by that order before they
are sorted, which leaves the first ones of the sorted list.
-/

namespace OrdinalDB.Sparse

open ByteCodec Float32Bits

/-- The `f32` operations on scores: one posting's contribution, by the header, the document
frequency, the term frequency and the document length, and `+`. -/
structure ScoreArith where
  contribution : Header → Nat → Nat → Nat → F32
  add : F32 → F32 → F32

/-- A document's score so far. -/
abbrev Scores := Std.TreeMap Nat F32

structure ScoredRow where
  rowId : UInt64
  score : F32
deriving DecidableEq, Repr

/-- `sparse_row_order`: scores descending, then row ids ascending. -/
def sparseRowOrder (a b : ScoredRow) : Ordering :=
  (compare b.score.totalKey a.score.totalKey).then (compare a.rowId.toNat b.rowId.toNat)

/-- Keep the first of every term. -/
def dedupePreservingOrder (terms : List Term) : List Term := terms.eraseDups

namespace Bm25MmapIndex

variable (self : Bm25MmapIndex)

/-- The search loop of `find_term` on the window from `lo` to `hi`. -/
def findTermIn (target : Term) (lo hi : Nat) : Checked (Option TermEntry) :=
  if lo < hi then do
    let mid := lo + (hi - lo) / 2
    let entry ← self.termEntry mid
    let bytes ← self.termBytes entry
    match compare bytes target with
    | .lt => findTermIn target (mid + 1) hi
    | .gt => findTermIn target lo mid
    | .eq => return some entry
  else return none
termination_by hi - lo

def findTerm (target : Term) : Checked (Option TermEntry) :=
  self.findTermIn target 0 self.header.termCount

/-- The document ordinals of an allowlist. -/
def prepareAllowlist : List UInt64 → Checked (Finset Nat)
  | [] => .ok ∅
  | id :: rowIds =>
    match self.rowIdToDoc.lookup id with
    | none => fail (.rowId s!"allowlist row_id {id} is not present in sparse mmap")
    | some docOrdinal => do return insert docOrdinal (← prepareAllowlist rowIds)

/-- Add one term's postings to the scores. -/
def scorePostings (sa : ScoreArith) (allowlist : Option (Finset Nat)) (docFreq : Nat) :
    Scores → List Nat → Checked Scores
  | scores, [] => .ok scores
  | scores, offset :: offsets => do
    let docOrdinal ← leAt self.mmap 4 offset
    if allowlist.any fun allowed => docOrdinal ∉ allowed then
      scorePostings sa allowlist docFreq scores offsets
    else
      let tf ← leAt self.mmap 2 (← addUnchecked offset 4)
      let docLen ← self.docLen docOrdinal
      let score := sa.contribution self.header docFreq tf docLen
      scorePostings sa allowlist docFreq
        (scores.alter docOrdinal fun sum => some (sa.add (sum.getD F32.zero) score)) offsets

def scoreTerms (sa : ScoreArith) (allowlist : Option (Finset Nat)) :
    Scores → List Term → Checked Scores
  | scores, [] => .ok scores
  | scores, term :: terms => do
    match ← self.findTerm term with
    | none => scoreTerms sa allowlist scores terms
    | some entry =>
      let range ← self.postingRange entry
      let scores ←
        self.scorePostings sa allowlist entry.postingsLen scores (postingOffsets range)
      scoreTerms sa allowlist scores terms

def pinnedRowId (docOrdinal : Nat) : Checked UInt64 :=
  match self.docToRowId[docOrdinal]? with
  | some rowId => .ok rowId
  | none => fail (.malformed "doc ordinal out of range")

def scoredRow (entry : Nat × F32) : Checked ScoredRow := do
  return ⟨← self.pinnedRowId entry.1, entry.2⟩

def searchWithPreparedAllowlist (sa : ScoreArith) (query : List Char) (topK : Nat)
    (allowlist : Option (Finset Nat)) : Checked (List ScoredRow) :=
  if self.header.docCount = 0 ∨ topK = 0 then .ok []
  else
    let queryTerms := dedupePreservingOrder (tokenizeText self.header.tokenizer query)
    if queryTerms = [] then .ok []
    else do
      let scores ← self.scoreTerms sa allowlist ∅ queryTerms
      let rows ← scores.toList.mapM self.scoredRow
      return (rows.mergeSort fun a b => sparseRowOrder a b ≠ .gt).take topK

/-! ## The dictionary -/

variable {self} {dict : List ScannedTerm}

theorem Accepted.sorted (h : Accepted self dict) :
    dict.Pairwise fun a b => compare a.term b.term = .lt := by
  obtain ⟨_, _, hscans, -⟩ := h.scans
  exact List.pairwise_map.mp hscans.sorted.2

/-- The dictionary has one entry for a term. -/
theorem Accepted.find_eq (h : Accepted self dict) {j : Nat} {d : ScannedTerm}
    (hj : dict[j]? = some d) : (dict.find? fun e => e.term = d.term) = some d := by
  obtain ⟨hlt, rfl⟩ := List.getElem?_eq_some_iff.mp hj
  have hmem : dict[j] ∈ dict := List.getElem_mem hlt
  have hfound : (dict.find? fun e => e.term = dict[j].term).isSome :=
    List.find?_isSome.mpr ⟨_, hmem, by simp⟩
  obtain ⟨e, he⟩ := Option.isSome_iff_exists.mp hfound
  have hsame : e.term = dict[j].term := by simpa using List.find?_some he
  have hnodup : dict.Pairwise fun a b => a.term ≠ b.term :=
    h.sorted.imp fun hcompare heq => by simp [heq] at hcompare
  obtain ⟨k, hk, rfl⟩ := List.getElem_of_mem (List.mem_of_find?_eq_some he)
  rw [he]
  congr
  rcases Nat.lt_trichotomy k j with hkj | hkj | hkj
  · exact absurd hsame (List.pairwise_iff_getElem.mp hnodup k j hk hlt hkj)
  · exact hkj
  · exact absurd hsame.symm (List.pairwise_iff_getElem.mp hnodup j k hlt hk hkj)

/-- While the window holds every term that equals the target, the search finds it or its
absence. -/
theorem Accepted.findTermIn (h : Accepted self dict) (target : Term) {lo hi : Nat}
    (hhi : hi ≤ dict.length)
    (hwindow : ∀ (j : Nat) (d : ScannedTerm), dict[j]? = some d → d.term = target →
      lo ≤ j ∧ j < hi) :
    self.findTermIn target lo hi =
      .ok ((dict.find? fun d => d.term = target).map ScannedTerm.entry) := by
  induction hn : hi - lo using Nat.strong_induction_on generalizing lo hi with
  | _ n ih =>
  unfold Bm25MmapIndex.findTermIn
  split
  next hlt =>
    have hmid : lo + (hi - lo) / 2 < dict.length := by omega
    have hd := List.getElem?_eq_getElem hmid
    obtain ⟨_, _, hscan, -⟩ := h.term hd
    simp only [hscan.entry, hscan.bytes, ok_bind]
    have hsorted := List.pairwise_iff_getElem.mp h.sorted
    split
    next hless =>
      -- the middle and everything before it are too small
      refine ih _ (by omega) hhi (fun j d hj htarget => ⟨?_, (hwindow j d hj htarget).2⟩) rfl
      obtain ⟨hjlt, rfl⟩ := List.getElem?_eq_some_iff.mp hj
      refine Nat.succ_le_of_lt (Nat.lt_of_not_le fun hle => ?_)
      rcases Nat.lt_or_eq_of_le hle with hbefore | rfl
      · have hsmall := hsorted j _ hjlt hmid hbefore
        rw [htarget] at hsmall
        rw [Std.OrientedOrd.eq_swap, hsmall] at hless
        cases hless
      · rw [htarget, Std.ReflOrd.compare_self] at hless
        cases hless
    next hgreater =>
      refine ih _ (by omega) (by omega) (fun j d hj htarget => ⟨(hwindow j d hj htarget).1, ?_⟩) rfl
      obtain ⟨hjlt, rfl⟩ := List.getElem?_eq_some_iff.mp hj
      refine Nat.lt_of_not_le fun hle => ?_
      rcases Nat.lt_or_eq_of_le hle with hafter | rfl
      · have hlarge := hsorted _ j hmid hjlt hafter
        rw [htarget, hgreater] at hlarge
        cases hlarge
      · rw [htarget, Std.ReflOrd.compare_self] at hgreater
        cases hgreater
    next hequal =>
      have hterm : dict[lo + (hi - lo) / 2].term = target :=
        Std.LawfulEqCmp.eq_of_compare hequal
      rw [← hterm, h.find_eq hd]
      rfl
  next hstop =>
    have hnone : (dict.find? fun d => d.term = target) = none := by
      refine List.find?_eq_none.mpr fun d hd => ?_
      obtain ⟨j, hj⟩ := List.getElem?_of_mem hd
      intro htarget
      have := hwindow j d hj (of_decide_eq_true htarget)
      omega
    rw [hnone]
    rfl

/-- `find_term` looks the term up in the dictionary. -/
theorem Accepted.findTerm (h : Accepted self dict) (target : Term) :
    self.findTerm target =
      .ok ((dict.find? fun d => d.term = target).map ScannedTerm.entry) := by
  refine h.findTermIn target (by rw [h.termCount]) fun j d hj _ => ⟨Nat.zero_le j, ?_⟩
  rw [← h.termCount]
  exact (List.getElem?_eq_some_iff.mp hj).1

/-! ## Allowlists -/

/-- An allowlist of stored rows is prepared. -/
theorem Accepted.prepareAllowlist (h : Accepted self dict) {rowIds : List UInt64}
    (hpresent : ∀ id ∈ rowIds, id ∈ self.docToRowId) :
    ∃ allowed, self.prepareAllowlist rowIds = .ok allowed := by
  induction rowIds with
  | nil => exact ⟨∅, rfl⟩
  | cons id rowIds ih =>
    obtain ⟨i, hi⟩ := List.getElem?_of_mem (hpresent id List.mem_cons_self)
    obtain ⟨allowed, hallowed⟩ := ih fun id hid => hpresent id (List.mem_cons_of_mem _ hid)
    refine ⟨insert i allowed, ?_⟩
    unfold Bm25MmapIndex.prepareAllowlist
    simp only [(h.indexes id i).mpr hi, hallowed, ok_bind]
    rfl

/-! ## Scores -/

def allows (allowlist : Option (Finset Nat)) (docOrdinal : Nat) : Prop :=
  ∀ allowed, allowlist = some allowed → docOrdinal ∈ allowed

theorem any_not_mem_iff {allowlist : Option (Finset Nat)} {docOrdinal : Nat} :
    (allowlist.any fun allowed => docOrdinal ∉ allowed) = true ↔ ¬allows allowlist docOrdinal := by
  cases allowlist <;> simp [allows]

variable (sa : ScoreArith) (allowlist : Option (Finset Nat))

/-- Contributions are added to a score one after another. -/
def total (start : Option F32) (parts : List F32) : Option F32 :=
  parts.foldl (fun sum part => some (sa.add (sum.getD F32.zero) part)) start

theorem total_some (score : F32) (parts : List F32) :
    total sa (some score) parts = some (parts.foldl sa.add score) := by
  induction parts generalizing score with
  | nil => rfl
  | cons part parts ih => exact ih _

theorem total_none_eq_some {parts : List F32} {score : F32}
    (h : total sa none parts = some score) : score = parts.foldl sa.add F32.zero := by
  cases parts with
  | nil => cases h
  | cons part parts => exact (Option.some.inj ((total_some sa _ parts).symm.trans h)).symm

/-- What postings contribute to the score of a document. -/
def contributions (self : Bm25MmapIndex) (dict : List ScannedTerm) (docFreq : Nat)
    (postings : List (Nat × Nat)) (docOrdinal : Nat) : List F32 :=
  (postings.filter fun p => p.1 = docOrdinal).map fun p =>
    sa.contribution self.header docFreq p.2
      (frequencySum (dict.map ScannedTerm.postings) docOrdinal)

/-- What a term contributes. -/
def termContributions (self : Bm25MmapIndex) (dict : List ScannedTerm) (docOrdinal : Nat)
    (term : Term) : List F32 :=
  (dict.find? fun e => e.term = term).elim [] fun e =>
    contributions sa self dict e.entry.postingsLen e.postings docOrdinal

/-- The postings of a term score exactly the allowed documents that they name. -/
theorem Accepted.scorePostings (h : Accepted self dict) (docFreq : Nat) (scores : Scores)
    {offsets : List Nat} {postings : List (Nat × Nat)}
    (hread : offsets.mapM self.posting = .ok postings)
    (hrange : ∀ p ∈ postings, p.1 < self.header.docCount) :
    ∃ out, self.scorePostings sa allowlist docFreq scores offsets = .ok out ∧
      (∀ d, d ∈ out ↔ d ∈ scores ∨ allows allowlist d ∧ d ∈ postings.map Prod.fst) ∧
      ∀ d, allows allowlist d →
        out[d]? = total sa scores[d]? (contributions sa self dict docFreq postings d) := by
  induction offsets generalizing scores postings with
  | nil =>
    obtain rfl := Except.ok.inj hread
    exact ⟨scores, rfl, by simp, fun _ _ => rfl⟩
  | cons offset offsets ih =>
    rw [List.mapM_cons] at hread
    obtain ⟨p, hp, hread⟩ := bind_eq_ok.mp hread
    obtain ⟨rest, hrest, hread⟩ := bind_eq_ok.mp hread
    obtain rfl := Except.ok.inj hread
    simp only [posting, bind_eq_ok, pure, Except.pure, Except.ok.injEq] at hp
    obtain ⟨d, hd, tfOffset, htfOffset, tf, htf, rfl⟩ := hp
    have hrangeRest : ∀ p ∈ rest, p.1 < self.header.docCount := fun p hp =>
      hrange p (List.mem_cons_of_mem _ hp)
    have hlt : d < self.header.docCount := hrange (d, tf) List.mem_cons_self
    have hlen := h.docLens d hlt
    unfold Bm25MmapIndex.scorePostings
    rw [hd, ok_bind]
    split
    next hskip =>
      have hskip := any_not_mem_iff.mp hskip
      obtain ⟨out, hout, hmem, hscore⟩ := ih scores hrest hrangeRest
      refine ⟨out, hout, fun k => ?_, fun k hallowed => ?_⟩
      · rw [hmem, List.map_cons, List.mem_cons]
        constructor
        · exact Or.imp_right fun hk => ⟨hk.1, .inr hk.2⟩
        · rintro (hk | ⟨hallowed, rfl | hk⟩)
          · exact .inl hk
          · exact absurd hallowed hskip
          · exact .inr ⟨hallowed, hk⟩
      · have hne : d ≠ k := fun heq => hskip (heq ▸ hallowed)
        rw [hscore k hallowed, contributions, contributions, List.filter_cons_of_neg (by simpa)]
    next hkeep =>
      have hallowed : allows allowlist d := not_not.mp (mt any_not_mem_iff.mpr hkeep)
      rw [htfOffset, ok_bind, htf, ok_bind, hlen, ok_bind]
      obtain ⟨out, hout, hmem, hscore⟩ := ih (scores.alter d fun sum =>
        some (sa.add (sum.getD F32.zero) (sa.contribution self.header docFreq tf
          (frequencySum (dict.map ScannedTerm.postings) d)))) hrest hrangeRest
      refine ⟨out, hout, fun k => ?_, fun k hallowedK => ?_⟩
      · rw [hmem, List.map_cons, List.mem_cons, Std.TreeMap.mem_alter]
        rcases eq_or_ne k d with rfl | hne
        · simp [hallowed]
        · have hcompare : compare d k ≠ .eq := fun heq => hne (Nat.compare_eq_eq.mp heq).symm
          simp [hcompare, hne]
      · rw [hscore k hallowedK, Std.TreeMap.getElem?_alter]
        rcases eq_or_ne d k with rfl | hne
        · rw [if_pos (Nat.compare_eq_eq.mpr rfl)]
          simp [contributions, total]
        · rw [if_neg (mt Nat.compare_eq_eq.mp hne), contributions, contributions,
            List.filter_cons_of_neg (by simpa)]

/-- The terms score exactly the allowed documents that contain one of them, with the total of what
they contribute. -/
theorem Accepted.scoreTerms (h : Accepted self dict) (scores : Scores) (terms : List Term) :
    ∃ out, self.scoreTerms sa allowlist scores terms = .ok out ∧
      (∀ d, d ∈ out ↔ d ∈ scores ∨ allows allowlist d ∧
        ∃ e ∈ dict, e.term ∈ terms ∧ d ∈ e.postings.map Prod.fst) ∧
      ∀ d, allows allowlist d →
        out[d]? = total sa scores[d]? (terms.flatMap (termContributions sa self dict d)) := by
  induction terms generalizing scores with
  | nil => exact ⟨scores, rfl, by simp, fun _ _ => rfl⟩
  | cons term terms ih =>
    unfold Bm25MmapIndex.scoreTerms
    rw [h.findTerm, ok_bind]
    cases hfind : dict.find? fun d => d.term = term with
    | none =>
      obtain ⟨out, hout, hmem, hscore⟩ := ih scores
      refine ⟨out, hout, fun d => ?_, fun d hallowed => ?_⟩
      · have hother : ∀ e ∈ dict, e.term ∈ term :: terms ↔ e.term ∈ terms := fun e he => by
          have hne : e.term ≠ term := by simpa using List.find?_eq_none.mp hfind e he
          simp [hne]
        rw [hmem]
        refine or_congr_right (and_congr_right fun _ => exists_congr fun e => ?_)
        exact and_congr_right fun he => by rw [hother e he]
      · rw [hscore d hallowed, List.flatMap_cons, termContributions, hfind]
        rfl
    | some e =>
      have hterm : e.term = term := by simpa using List.find?_some hfind
      have hdict := List.mem_of_find?_eq_some hfind
      obtain ⟨j, hj⟩ := List.getElem?_of_mem hdict
      obtain ⟨_, _, hscan, -⟩ := h.term hj
      obtain ⟨range, hrange, hlist⟩ := bind_eq_ok.mp hscan.list
      obtain ⟨between, hbetween, hmemBetween, hscoreBetween⟩ := h.scorePostings sa allowlist
        e.entry.postingsLen scores hlist fun p hp => (hscan.inRange p hp).1
      obtain ⟨out, hout, hmem, hscore⟩ := ih between
      refine ⟨out, ?_, fun d => ?_, fun d hallowed => ?_⟩
      · rw [Option.map_some]
        simp only [hrange, ok_bind, hbetween, hout]
      · rw [hmem, hmemBetween, or_assoc]
        refine or_congr_right ?_
        constructor
        · rintro (⟨hallowed, hd⟩ | ⟨hallowed, e', he', hterms, hd⟩)
          · exact ⟨hallowed, e, hdict, hterm ▸ List.mem_cons_self, hd⟩
          · exact ⟨hallowed, e', he', List.mem_cons_of_mem _ hterms, hd⟩
        · rintro ⟨hallowed, e', he', hterms, hd⟩
          rcases List.mem_cons.mp hterms with hhead | hterms
          · -- the dictionary has one entry for the term
            obtain ⟨k, hk⟩ := List.getElem?_of_mem he'
            have hsame := h.find_eq hk
            rw [hhead, hfind] at hsame
            obtain rfl := Option.some.inj hsame
            exact .inl ⟨hallowed, hd⟩
          · exact .inr ⟨hallowed, e', he', hterms, hd⟩
      · rw [hscore d hallowed, hscoreBetween d hallowed, List.flatMap_cons, termContributions,
          hfind]
        exact List.foldl_append.symm

end Bm25MmapIndex

/-! ## The order of the rows -/

theorem sparseRowOrder_eq_order (a b : ScoredRow) : sparseRowOrder a b =
    Ranking.order (fun row => row.score.totalKey) (fun row => row.rowId.toNat) a b := rfl

theorem sparseRowOrder_eq_lt {a b : ScoredRow} : sparseRowOrder a b = .lt ↔
    b.score.totalKey < a.score.totalKey ∨
      b.score.totalKey = a.score.totalKey ∧ a.rowId.toNat < b.rowId.toNat := by
  rw [sparseRowOrder_eq_order, Ranking.order_eq_lt]

/-- The rows in order. -/
def rankedRows (rows : List ScoredRow) : List ScoredRow :=
  rows.mergeSort fun a b => sparseRowOrder a b ≠ .gt

theorem rankedRows_pairwise (rows : List ScoredRow) :
    (rankedRows rows).Pairwise fun a b => sparseRowOrder a b ≠ .gt := by
  have htrans : ∀ a b c : ScoredRow, decide (sparseRowOrder a b ≠ .gt) →
      decide (sparseRowOrder b c ≠ .gt) → decide (sparseRowOrder a c ≠ .gt) := by
    intro a b c hab hbc
    rw [decide_eq_true_eq, sparseRowOrder_eq_order] at hab hbc ⊢
    exact Ranking.order_ne_gt_trans hab hbc
  have htotal : ∀ a b : ScoredRow, (decide (sparseRowOrder a b ≠ .gt) ||
      decide (sparseRowOrder b a ≠ .gt)) = true := by
    intro a b
    rw [Bool.or_eq_true, decide_eq_true_eq, decide_eq_true_eq, sparseRowOrder_eq_order,
      sparseRowOrder_eq_order]
    exact Ranking.order_ne_gt_total a b
  exact (List.pairwise_mergeSort htrans htotal rows).imp of_decide_eq_true

theorem rankedRows_perm (rows : List ScoredRow) : (rankedRows rows).Perm rows :=
  List.mergeSort_perm rows _

/-- Rows with distinct ids are strictly ordered. -/
theorem rankedRows_sorted {rows : List ScoredRow} (hnodup : (rows.map ScoredRow.rowId).Nodup) :
    (rankedRows rows).Pairwise fun a b => sparseRowOrder a b = .lt :=
  Ranking.strict_of_nodup (rankedRows_pairwise rows)
    (Ranking.nodup_toNat (((rankedRows_perm rows).map ScoredRow.rowId).nodup_iff.mpr hnodup))

/-! ## The rows of a search -/

namespace Bm25MmapIndex

variable {self : Bm25MmapIndex} {dict : List ScannedTerm} (sa : ScoreArith)
  (allowlist : Option (Finset Nat))

/-- The document contains a token of the query. -/
def Matches (self : Bm25MmapIndex) (dict : List ScannedTerm) (query : List Char)
    (docOrdinal : Nat) : Prop :=
  ∃ d ∈ dict, d.term ∈ tokenizeText self.header.tokenizer query ∧
    docOrdinal ∈ d.postings.map Prod.fst

theorem Accepted.matches_lt (h : Accepted self dict) {query : List Char} {docOrdinal : Nat}
    (hmatch : Matches self dict query docOrdinal) : docOrdinal < self.header.docCount := by
  obtain ⟨d, hd, -, hmem⟩ := hmatch
  obtain ⟨p, hp, rfl⟩ := List.mem_map.mp hmem
  obtain ⟨j, hj⟩ := List.getElem?_of_mem hd
  obtain ⟨_, _, hscan, -⟩ := h.term hj
  exact (hscan.inRange p hp).1

/-- The row of a score. -/
def rowOf (self : Bm25MmapIndex) (entry : Nat × F32) : ScoredRow :=
  ⟨self.docToRowId.getD entry.1 0, entry.2⟩

theorem Accepted.docToRowId_eq (h : Accepted self dict) {d : Nat} (hd : d < self.header.docCount) :
    self.docToRowId[d]? = some (self.docToRowId.getD d 0) := by
  have hlt : d < self.docToRowId.length := by
    rw [h.rowCount]
    exact hd
  simp [hlt]

theorem Accepted.readRows (h : Accepted self dict) {entries : List (Nat × F32)}
    (hentries : ∀ entry ∈ entries, entry.1 < self.header.docCount) :
    entries.mapM self.scoredRow = .ok (entries.map self.rowOf) := by
  refine LayoutLemmas.mapM_ok (List.forall₂_map_right_iff.mpr (List.forall₂_same.mpr ?_))
  intro entry hentry
  simp only [scoredRow, pinnedRowId, h.docToRowId_eq (hentries entry hentry), ok_bind]
  rfl

theorem mem_of_mem_toList {scores : Scores} {entry : Nat × F32} (h : entry ∈ scores.toList) :
    entry.1 ∈ scores := by
  rw [← Std.TreeMap.mem_keys, ← Std.TreeMap.map_fst_toList_eq_keys]
  exact List.mem_map_of_mem h

/-- Scored documents are rows with distinct ids. -/
theorem Accepted.scoredRows (h : Accepted self dict) {scores : Scores}
    (hscores : ∀ d ∈ scores, d < self.header.docCount) :
    ((scores.toList.map self.rowOf).map ScoredRow.rowId).Nodup ∧
      ∀ id, id ∈ (scores.toList.map self.rowOf).map ScoredRow.rowId ↔
        ∃ d, d ∈ scores ∧ self.docToRowId[d]? = some id := by
  have hid : ∀ d ∈ scores, self.docToRowId[d]? = some (self.docToRowId.getD d 0) :=
    fun d hd => h.docToRowId_eq (hscores d hd)
  have hids : (scores.toList.map self.rowOf).map ScoredRow.rowId =
      scores.keys.map fun d => self.docToRowId.getD d 0 := by
    rw [← Std.TreeMap.map_fst_toList_eq_keys, List.map_map, List.map_map]
    rfl
  rw [hids]
  refine ⟨?_, fun id => ?_⟩
  · refine List.Nodup.map_on (fun d hd e he heq => ?_) Std.TreeMap.nodup_keys
    have hd := hid d (Std.TreeMap.mem_keys.mp hd)
    have he := hid e (Std.TreeMap.mem_keys.mp he)
    rw [heq] at hd
    exact h.indexes.pos_unique hd he
  · rw [List.mem_map]
    constructor
    · rintro ⟨d, hd, rfl⟩
      exact ⟨d, Std.TreeMap.mem_keys.mp hd, hid d (Std.TreeMap.mem_keys.mp hd)⟩
    · rintro ⟨d, hd, hlookup⟩
      exact ⟨d, Std.TreeMap.mem_keys.mpr hd, Option.some.inj ((hid d hd).symm.trans hlookup)⟩

/-- The scored documents are the allowed ones that match. -/
theorem Accepted.mem_scores (h : Accepted self dict) {query : List Char} {scores : Scores}
    (hscores : self.scoreTerms sa allowlist ∅
      (dedupePreservingOrder (tokenizeText self.header.tokenizer query)) = .ok scores) (d : Nat) :
    d ∈ scores ↔ allows allowlist d ∧ Matches self dict query d := by
  obtain ⟨out, hout, hmem, -⟩ := h.scoreTerms sa allowlist ∅
    (dedupePreservingOrder (tokenizeText self.header.tokenizer query))
  obtain rfl := Except.ok.inj (hscores.symm.trans hout)
  rw [hmem]
  simp [dedupePreservingOrder, Matches, List.mem_eraseDups]

/-- The score of a document is the total of what the terms of the query contribute. -/
theorem Accepted.score_eq (h : Accepted self dict) {query : List Char} {scores : Scores}
    (hscores : self.scoreTerms sa allowlist ∅
      (dedupePreservingOrder (tokenizeText self.header.tokenizer query)) = .ok scores) {d : Nat}
    (hallowed : allows allowlist d) :
    scores[d]? = total sa none ((dedupePreservingOrder (tokenizeText self.header.tokenizer
      query)).flatMap (termContributions sa self dict d)) := by
  obtain ⟨out, hout, -, hscore⟩ := h.scoreTerms sa allowlist ∅
    (dedupePreservingOrder (tokenizeText self.header.tokenizer query))
  obtain rfl := Except.ok.inj (hscores.symm.trans hout)
  rw [hscore d hallowed]
  simp

/-- A search returns the first rows of the ranked list of the scores. -/
theorem Accepted.search_eq (h : Accepted self dict) {query : List Char} {scores : Scores}
    (hscores : self.scoreTerms sa allowlist ∅
      (dedupePreservingOrder (tokenizeText self.header.tokenizer query)) = .ok scores)
    (topK : Nat) : self.searchWithPreparedAllowlist sa query topK allowlist =
      .ok ((rankedRows (scores.toList.map self.rowOf)).take topK) := by
  have hmatch := h.mem_scores sa allowlist hscores
  have hlt : ∀ entry ∈ scores.toList, entry.1 < self.header.docCount := fun entry hentry =>
    h.matches_lt ((hmatch _).mp (mem_of_mem_toList hentry)).2
  unfold searchWithPreparedAllowlist
  split
  next hnothing =>
    have hempty : (rankedRows (scores.toList.map self.rowOf)).take topK = [] := by
      rcases hnothing with hzero | rfl
      · -- without documents there are no scores
        have hnone : scores.toList = [] := List.eq_nil_iff_forall_not_mem.mpr fun entry hentry => by
          have := hlt entry hentry
          omega
        rw [hnone]
        simp [rankedRows]
      · simp
    rw [hempty]
  next =>
    dsimp only
    split
    next hterms =>
      rw [hterms] at hscores
      obtain rfl := Except.ok.inj hscores
      have hnone : (∅ : Scores).toList = [] := rfl
      simp [hnone, rankedRows]
    next =>
      rw [hscores, ok_bind, h.readRows hlt, ok_bind]
      rfl

/-- A search returns the first rows of the ranked list of the allowed documents that match, each
with the total of its contributions. -/
theorem Accepted.search (h : Accepted self dict) (query : List Char) (topK : Nat) :
    ∃ ranked : List ScoredRow, self.searchWithPreparedAllowlist sa query topK allowlist =
        .ok (ranked.take topK) ∧
      ranked.Pairwise (fun a b => sparseRowOrder a b = .lt) ∧
      (ranked.map ScoredRow.rowId).Nodup ∧
      (∀ id, id ∈ ranked.map ScoredRow.rowId ↔ ∃ d, self.docToRowId[d]? = some id ∧
        allows allowlist d ∧ Matches self dict query d) ∧
      ∀ row ∈ ranked, ∃ d, self.docToRowId[d]? = some row.rowId ∧
        some row.score = total sa none ((dedupePreservingOrder (tokenizeText self.header.tokenizer
          query)).flatMap (termContributions sa self dict d)) := by
  obtain ⟨scores, hscores, -⟩ := h.scoreTerms sa allowlist ∅
    (dedupePreservingOrder (tokenizeText self.header.tokenizer query))
  have hmatch := h.mem_scores sa allowlist hscores
  have hlt : ∀ d ∈ scores, d < self.header.docCount := fun d hd => h.matches_lt ((hmatch d).mp hd).2
  obtain ⟨hnodup, hids⟩ := h.scoredRows hlt
  have hrows := rankedRows_perm (scores.toList.map self.rowOf)
  have hperm := hrows.map ScoredRow.rowId
  refine ⟨rankedRows (scores.toList.map self.rowOf), h.search_eq sa allowlist hscores topK,
    rankedRows_sorted hnodup, hperm.nodup_iff.mpr hnodup, fun id => ?_, fun row hrow => ?_⟩
  · rw [hperm.mem_iff, hids]
    refine exists_congr fun d => ?_
    rw [hmatch, and_comm]
  · obtain ⟨⟨d, score⟩, hentry, rfl⟩ := List.mem_map.mp (hrows.mem_iff.mp hrow)
    have hd := mem_of_mem_toList hentry
    refine ⟨d, h.docToRowId_eq (hlt d hd), ?_⟩
    rw [← h.score_eq sa allowlist hscores ((hmatch d).mp hd).1]
    exact (Std.TreeMap.mem_toList_iff_getElem?_eq_some.mp hentry).symm

end Bm25MmapIndex

end OrdinalDB.Sparse
