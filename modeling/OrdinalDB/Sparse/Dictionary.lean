import OrdinalDB.Sparse.Builder

/-!
# What the inverted index contains

The dictionary and the postings of a successful `BuiltSparse::from_docs`, in
terms of the documents: `postingsOf docs term` is the list of positions and
frequencies of a term, and `Describes` says that the built index has exactly
the terms of the documents, sorted, each with that list (`fromDocs_describes`).
-/

namespace OrdinalDB.Sparse

/-- The documents that contain `term`, with how often, in document order. -/
def postingsOf (docs : List PendingDoc) (term : Term) : List (Nat × Nat) :=
  docs.zipIdx.filterMap fun (doc, ordinal) =>
    if doc.terms.count term = 0 then none else some (ordinal, doc.terms.count term)

/-- The built index is the inverted index of `docs`. -/
structure Describes (ar : AvgArith) (docs : List PendingDoc) (built : BuiltSparse) : Prop where
  rowIds : built.rowIds = docs.map PendingDoc.rowId
  docLens : built.docLens = docs.map fun doc => doc.terms.length
  sorted : built.terms.Pairwise fun a b => compare a b = .lt
  mem_terms : ∀ term, term ∈ built.terms ↔ ∃ doc ∈ docs, term ∈ doc.terms
  postings : built.postings = built.terms.map (postingsOf docs)
  count : built.postingsCount = (built.postings.map List.length).sum
  avg : built.avgDocLen = ar.mean (docs.map fun doc => doc.terms.length).sum docs.length
  total_lt : (docs.map fun doc => doc.terms.length).sum < usizeLimit
  ordinal_le : docs.length ≤ u32Max + 1
  docLen_le : ∀ doc ∈ docs, doc.terms.length ≤ u32Max
  freq_le : ∀ doc ∈ docs, ∀ term, doc.terms.count term ≤ 65535

namespace DictionaryLemmas

/-! ## One document -/

theorem countTerms_spec {counts out : Std.TreeMap Term Nat} {terms : List Term}
    (h : countTerms counts terms = .ok out) (term : Term) :
    out[term]? = if terms.count term = 0 then counts[term]?
      else some (counts[term]?.getD 0 + terms.count term) := by
  induction terms generalizing counts with
  | nil =>
    obtain rfl := Except.ok.inj h
    simp
  | cons head terms ih =>
    rw [countTerms] at h
    split at h
    · cases h
    rw [ih h, Std.TreeMap.getElem?_alter, List.count_cons]
    by_cases heq : head = term
    · subst heq
      by_cases hzero : terms.count head = 0
      · simp [hzero]
      · simp [hzero]
        omega
    · simp [heq]

/-- Pushing distinct terms appends one posting to each of their lists. -/
theorem pushPostings_spec {rowId : UInt64} {docOrdinal : Nat} {postings out : PostingMap}
    {counts : List (Term × Nat)} (hnd : (counts.map Prod.fst).Nodup)
    (h : pushPostings rowId docOrdinal postings counts = .ok out) :
    (∀ term count, (term, count) ∈ counts → count ≤ 65535 ∧
      out[term]? = some (postings[term]?.getD [] ++ [(docOrdinal, count)])) ∧
    ∀ term, term ∉ counts.map Prod.fst → out[term]? = postings[term]? := by
  induction counts generalizing postings with
  | nil =>
    obtain rfl := Except.ok.inj h
    simp
  | cons entry counts ih =>
    obtain ⟨head, n⟩ := entry
    rw [pushPostings] at h
    split at h
    swap
    · cases h
    next hn =>
    rw [List.map_cons, List.nodup_cons] at hnd
    obtain ⟨hpushed, hkept⟩ := ih hnd.2 h
    constructor
    · intro term count hmem
      rcases List.mem_cons.mp hmem with heq | hmem
      · obtain ⟨rfl, rfl⟩ := Prod.ext_iff.mp heq
        refine ⟨hn, ?_⟩
        rw [hkept _ hnd.1, Std.TreeMap.getElem?_alter_self]
      · have hne : head ≠ term := by
          rintro rfl
          exact hnd.1 (List.mem_map.mpr ⟨_, hmem, rfl⟩)
        obtain ⟨hcount, hout⟩ := hpushed term count hmem
        rw [hout, Std.TreeMap.getElem?_alter]
        exact ⟨hcount, by simp [hne]⟩
    · intro term hterm
      rw [List.map_cons, List.mem_cons, not_or] at hterm
      rw [hkept term hterm.2, Std.TreeMap.getElem?_alter]
      simp [Ne.symm hterm.1]

theorem postingsOf_concat (docs : List PendingDoc) (doc : PendingDoc) (term : Term) :
    postingsOf (docs ++ [doc]) term = postingsOf docs term ++
      if doc.terms.count term = 0 then [] else [(docs.length, doc.terms.count term)] := by
  rw [postingsOf, List.zipIdx_append, List.filterMap_append]
  congr 1
  by_cases hzero : doc.terms.count term = 0 <;> simp [hzero]

/-! ## All documents -/

/-- The loop state after the documents `done`. -/
structure BuildInv (s : BuildState) (done : List PendingDoc) : Prop where
  postings : ∀ term, s.postings[term]? =
    if postingsOf done term = [] then none else some (postingsOf done term)
  rowIds : s.rowIds = done.map PendingDoc.rowId
  docLens : s.docLens = done.map fun doc => doc.terms.length
  totalLen : s.totalLen = (done.map fun doc => doc.terms.length).sum
  total_lt : s.totalLen < usizeLimit
  ordinal_le : done.length ≤ u32Max + 1
  docLen_le : ∀ doc ∈ done, doc.terms.length ≤ u32Max
  freq_le : ∀ doc ∈ done, ∀ term, doc.terms.count term ≤ 65535

theorem addDocument_spec {s s' : BuildState} {done : List PendingDoc} {doc : PendingDoc}
    (hinv : BuildInv s done) (h : addDocument s done.length doc = .ok s') :
    BuildInv s' (done ++ [doc]) := by
  simp only [addDocument, bind_eq_ok, rejectIf_eq_ok, checkedAdd_eq_ok, not_lt, pure,
    Except.pure, Except.ok.injEq, exists_const] at h
  obtain ⟨hordinal, hlen, totalLen, ⟨htotal, rfl⟩, counts, hcounts, postings, hpush, rfl⟩ := h
  have hnd : (counts.toList.map Prod.fst).Nodup := by
    have hdistinct := Std.TreeMap.distinct_keys_toList (t := counts)
    exact List.pairwise_map.mpr (hdistinct.imp fun hne heq => hne (by simp [heq]))
  obtain ⟨hpushed, hkept⟩ := pushPostings_spec hnd hpush
  have hcount (term : Term) : counts[term]? =
      if doc.terms.count term = 0 then none else some (doc.terms.count term) := by
    simpa using countTerms_spec hcounts term
  have hentry {term : Term} (hne : doc.terms.count term ≠ 0) :
      (term, doc.terms.count term) ∈ counts.toList := by
    rw [Std.TreeMap.mem_toList_iff_getElem?_eq_some, hcount, if_neg hne]
  refine ⟨fun term => ?_, by simp [hinv.rowIds], by simp [hinv.docLens], by simp [hinv.totalLen],
    htotal, by simpa using hordinal, ?_, ?_⟩
  · by_cases hzero : doc.terms.count term = 0
    · have habsent : term ∉ counts.toList.map Prod.fst := by
        rw [List.mem_map]
        rintro ⟨⟨t, n⟩, hmem, rfl⟩
        rw [Std.TreeMap.mem_toList_iff_getElem?_eq_some, hcount, if_pos hzero] at hmem
        cases hmem
      rw [hkept term habsent, hinv.postings, postingsOf_concat]
      simp [hzero]
    · rw [(hpushed term _ (hentry hzero)).2, hinv.postings, postingsOf_concat]
      by_cases hnil : postingsOf done term = [] <;> simp [hzero, hnil]
  · intro d hd
    rcases List.mem_append.mp hd with hd | hd
    · exact hinv.docLen_le d hd
    · obtain rfl := List.mem_singleton.mp hd
      exact hlen
  · intro d hd term
    rcases List.mem_append.mp hd with hd | hd
    · exact hinv.freq_le d hd term
    · obtain rfl := List.mem_singleton.mp hd
      by_cases hzero : d.terms.count term = 0
      · omega
      · exact (hpushed term _ (hentry hzero)).1

theorem addDocuments_spec {s s' : BuildState} {done docs : List PendingDoc}
    (hinv : BuildInv s done) (h : addDocuments s done.length docs = .ok s') :
    BuildInv s' (done ++ docs) := by
  induction docs generalizing s done with
  | nil =>
    obtain rfl := Except.ok.inj h
    simpa using hinv
  | cons doc docs ih =>
    rw [addDocuments, bind_eq_ok] at h
    obtain ⟨next, hdoc, hrest⟩ := h
    have hnext := addDocument_spec hinv hdoc
    have hinv' := ih hnext (by simpa using hrest)
    simpa using hinv'

theorem checkedTotal_eq_ok {message : String} {acc n : Nat} {lens : List Nat}
    (h : checkedTotal message acc lens = .ok n) : n = acc + lens.sum := by
  induction lens generalizing acc with
  | nil =>
    obtain rfl := Except.ok.inj h
    simp
  | cons len lens ih =>
    rw [checkedTotal, bind_eq_ok] at h
    obtain ⟨next, hadd, hrest⟩ := h
    obtain ⟨-, rfl⟩ := checkedAdd_eq_ok.mp hadd
    rw [ih hrest, List.sum_cons, Nat.add_assoc]

theorem postingsOf_eq_nil {docs : List PendingDoc} {term : Term} :
    postingsOf docs term = [] ↔ ∀ doc ∈ docs, term ∉ doc.terms := by
  rw [postingsOf, List.filterMap_eq_nil_iff]
  constructor
  · intro h doc hdoc hterm
    obtain ⟨i, hi⟩ := List.mem_iff_getElem?.mp hdoc
    have hpair := h (doc, i) (List.mem_zipIdx_iff_getElem?.mpr hi)
    simp [List.count_eq_zero.not.mpr (not_not.mpr hterm)] at hpair
  · rintro h ⟨doc, i⟩ hpair
    have hdoc : doc ∈ docs := List.mem_of_getElem? (List.mem_zipIdx_iff_getElem?.mp hpair)
    simp [List.count_eq_zero.mpr (h doc hdoc)]

end DictionaryLemmas

open DictionaryLemmas in
/-- A successful build is the inverted index of its documents. -/
theorem fromDocs_describes {ar : AvgArith} {tokenizer : TokenizerKind} {docs : List PendingDoc}
    {built : BuiltSparse} (h : BuiltSparse.fromDocs ar tokenizer docs = .ok built) :
    Describes ar docs built ∧ built.tokenizer = tokenizer := by
  simp only [BuiltSparse.fromDocs, bind_eq_ok, pure, Except.pure, Except.ok.injEq] at h
  obtain ⟨s, hdocs, count, hcount, rfl⟩ := h
  have hempty : BuildInv ⟨∅, [], [], 0⟩ [] :=
    ⟨by simp [postingsOf], rfl, rfl, rfl, by decide, by simp, by simp, by simp⟩
  have hinv := addDocuments_spec hempty hdocs
  rw [List.nil_append] at hinv
  have hentry {term : Term} {list : List (Nat × Nat)} :
      (term, list) ∈ s.postings.toList ↔ list ≠ [] ∧ list = postingsOf docs term := by
    rw [Std.TreeMap.mem_toList_iff_getElem?_eq_some, hinv.postings]
    split
    · next hnil =>
      simp only [reduceCtorEq, false_iff, not_and]
      rintro hne rfl
      exact hne hnil
    · next hne =>
      rw [Option.some.injEq]
      constructor
      · rintro rfl
        exact ⟨hne, rfl⟩
      · exact fun h => h.2.symm
  refine ⟨⟨hinv.rowIds, hinv.docLens, ?_, fun term => ?_, ?_, ?_, ?_, hinv.totalLen ▸ hinv.total_lt,
    hinv.ordinal_le, hinv.docLen_le, hinv.freq_le⟩, rfl⟩
  · exact List.pairwise_map.mpr Std.TreeMap.ordered_keys_toList
  · rw [List.mem_map]
    constructor
    · rintro ⟨⟨t, list⟩, hmem, rfl⟩
      obtain ⟨hne, rfl⟩ := hentry.mp hmem
      by_contra hnone
      exact hne (postingsOf_eq_nil.mpr fun doc hdoc hterm => hnone ⟨doc, hdoc, hterm⟩)
    · rintro ⟨doc, hdoc, hterm⟩
      refine ⟨(term, postingsOf docs term), hentry.mpr ⟨?_, rfl⟩, rfl⟩
      exact fun hnil => postingsOf_eq_nil.mp hnil doc hdoc hterm
  · rw [List.map_map]
    refine List.map_congr_left fun entry hmem => ?_
    exact (hentry.mp (show (entry.1, entry.2) ∈ _ from hmem)).2
  · simpa [Function.comp_def] using checkedTotal_eq_ok hcount
  · rw [hinv.totalLen]

end OrdinalDB.Sparse
