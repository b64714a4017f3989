import OrdinalDB.Sparse.Views

/-!
# Retrieval

A corpus of texts, built, written and opened again: a search returns exactly
the rows whose text shares a token with the query, in order, each with the sum
of its contributions (`search_finds_matches`).
-/

namespace OrdinalDB.Sparse

open ByteCodec Float32Bits RoundTripLemmas

/-- The calls that hand over a corpus. -/
def corpusCalls (corpus : List (UInt64 × List Char)) : List (UInt64 × DocSource) :=
  corpus.map fun (rowId, text) => (rowId, .text text)

def corpusDocs (tokenizer : TokenizerKind) (corpus : List (UInt64 × List Char)) :
    List PendingDoc :=
  corpus.map fun (rowId, text) => ⟨rowId, tokenizeText tokenizer text⟩

/-- When every text is accepted, the builder holds all of them. -/
theorem docs_of_accepted {corpus : List (UInt64 × List Char)} {b : SparseIndexBuilder}
    (haccepted : ∀ entry ∈ (Machine.runCalls SparseIndexBuilder.add b (corpusCalls corpus)).1,
      entry.2 = .ok ()) :
    (Machine.runCalls SparseIndexBuilder.add b (corpusCalls corpus)).2.docs =
      b.docs ++ corpusDocs b.tokenizer corpus := by
  induction corpus generalizing b with
  | nil => simp [corpusCalls, corpusDocs, Machine.runCalls]
  | cons row corpus ih =>
    obtain ⟨rowId, text⟩ := row
    have hhead : (b.addText rowId text).1 = .ok () := haccepted _ List.mem_cons_self
    have hrest := ih (b := (b.addText rowId text).2) fun entry hentry =>
      haccepted entry (List.mem_cons_of_mem _ hentry)
    have hadded : (b.addText rowId text).2.docs =
        b.docs ++ [⟨rowId, tokenizeText b.tokenizer text⟩] ∧
          (b.addText rowId text).2.tokenizer = b.tokenizer := by
      unfold SparseIndexBuilder.addText SparseIndexBuilder.addDoc at hhead ⊢
      split at hhead
      next => cases hhead
      next hfresh => simp [hfresh]
    rw [hadded.1, hadded.2] at hrest
    simpa [corpusCalls, corpusDocs, Machine.runCalls, SparseIndexBuilder.add] using hrest

/-- The postings of a term name the documents that contain it. -/
theorem mem_postingsOf {docs : List PendingDoc} {term : Term} {d : Nat} :
    d ∈ (postingsOf docs term).map Prod.fst ↔ ∃ doc, docs[d]? = some doc ∧ term ∈ doc.terms := by
  simp only [postingsOf, List.mem_map, List.mem_filterMap, Prod.exists]
  constructor
  · rintro ⟨_, _, ⟨doc, ordinal, hdoc, hposting⟩, rfl⟩
    split at hposting
    next => cases hposting
    next hcount =>
      obtain ⟨rfl, -⟩ := Prod.mk.inj (Option.some.inj hposting)
      exact ⟨doc, List.mem_zipIdx_iff_getElem?.mp hdoc, List.count_pos_iff.mp (Nat.pos_of_ne_zero hcount)⟩
  · rintro ⟨doc, hdoc, hterm⟩
    refine ⟨d, doc.terms.count term, ⟨doc, d, List.mem_zipIdx_iff_getElem?.mpr hdoc, ?_⟩, rfl⟩
    rw [if_neg (List.count_pos_iff.mpr hterm).ne']

theorem filter_zipIdx {A : Type} {items : List A} {item : A} (start : Nat) {i : Nat}
    (h : items[i]? = some item) :
    (items.zipIdx start).filter (fun entry => entry.2 = start + i) = [(item, start + i)] := by
  induction items generalizing start i with
  | nil => cases h
  | cons head items ih =>
    rw [List.zipIdx_cons]
    cases i with
    | zero =>
      obtain rfl := Option.some.inj h
      have hrest : (items.zipIdx (start + 1)).filter (fun entry => entry.2 = start + 0) = [] :=
        List.filter_eq_nil_iff.mpr fun entry hentry => by
          have := List.le_snd_of_mem_zipIdx hentry
          simp only [decide_eq_true_eq]
          omega
      rw [List.filter_cons_of_pos (by simp), hrest]
      rfl
    | succ i =>
      have hrest := ih (start + 1) (i := i) h
      rw [Nat.add_right_comm, Nat.add_assoc] at hrest
      rw [List.filter_cons_of_neg (by simp), hrest]

/-- The postings of a term name a document that contains it once. -/
theorem filter_postingsOf {docs : List PendingDoc} {doc : PendingDoc} {d : Nat}
    (hdoc : docs[d]? = some doc) (term : Term) :
    (postingsOf docs term).filter (fun p => p.1 = d) =
      if term ∈ doc.terms then [(d, doc.terms.count term)] else [] := by
  have hsame : ∀ entry : PendingDoc × Nat, ((if entry.1.terms.count term = 0 then none
      else some (entry.2, entry.1.terms.count term)).filter fun p => p.1 = d) =
        if decide (entry.2 = d) = true then (if entry.1.terms.count term = 0 then none
          else some (entry.2, entry.1.terms.count term)) else none := by
    intro entry
    by_cases hcount : entry.1.terms.count term = 0 <;> simp [hcount, Option.filter]
  have hentry := filter_zipIdx 0 hdoc
  rw [Nat.zero_add] at hentry
  rw [postingsOf, List.filter_filterMap]
  simp only [hsame]
  rw [← List.filterMap_filter, hentry]
  by_cases hterm : term ∈ doc.terms
  · have hcount : doc.terms.count term ≠ 0 := (List.count_pos_iff.mpr hterm).ne'
    simp [hterm, hcount]
  · simp [hterm, List.count_eq_zero.mpr hterm]

/-- The sum of what the tokens of a query contribute to a text that has them, in the order of the
query. -/
def queryScore (sa : ScoreArith) (header : Header) (docs : List PendingDoc)
    (query text : List Term) : F32 :=
  (((dedupePreservingOrder query).filter (· ∈ text)).map fun term =>
    sa.contribution header (docs.countP fun doc => term ∈ doc.terms) (text.count term)
      text.length).foldl sa.add F32.zero

namespace Bm25MmapIndex

variable {ar : AvgArith} {docs : List PendingDoc} {built : BuiltSparse} {index : Bm25MmapIndex}
  {dict : List ScannedTerm} {tokenizer : TokenizerKind} {docFreqs : List Nat}

/-- A document of the decoded index matches when it contains a token of the query. -/
theorem matches_iff (hd : Describes ar docs built)
    (hdecode : contentOf index dict = ⟨tokenizer, built.rowIds, built.docLens, built.avgDocLen,
      built.terms, docFreqs, built.postings⟩) {query : List Char} {d : Nat} :
    Matches index dict query d ↔
      ∃ doc, docs[d]? = some doc ∧ ∃ term ∈ doc.terms, term ∈ tokenizeText tokenizer query := by
  have htokenizer : index.header.tokenizer = tokenizer := congrArg Decoded.tokenizer hdecode
  have hterms : dict.map ScannedTerm.term = built.terms := congrArg Decoded.terms hdecode
  have hpostings : dict.map ScannedTerm.postings = built.postings :=
    congrArg Decoded.postings hdecode
  have hentry : ∀ e ∈ dict, e.postings = postingsOf docs e.term := by
    rw [hd.postings, ← hterms, List.map_map] at hpostings
    exact List.map_inj_left.mp hpostings
  unfold Matches
  rw [htokenizer]
  constructor
  · rintro ⟨e, he, hquery, hmem⟩
    rw [hentry e he] at hmem
    obtain ⟨doc, hdoc, hterm⟩ := mem_postingsOf.mp hmem
    exact ⟨doc, hdoc, e.term, hterm, hquery⟩
  · rintro ⟨doc, hdoc, term, hterm, hquery⟩
    have hmem := (hd.mem_terms term).mpr ⟨doc, List.mem_of_getElem? hdoc, hterm⟩
    rw [← hterms] at hmem
    obtain ⟨e, he, rfl⟩ := List.mem_map.mp hmem
    exact ⟨e, he, hquery, hentry e he ▸ mem_postingsOf.mpr ⟨doc, hdoc, hterm⟩⟩

/-- What a term contributes to the score of a document. -/
theorem Accepted.termContributions_eq (h : Accepted index dict) (sa : ScoreArith)
    (hd : Describes ar docs built) (hdecode : contentOf index dict = ⟨tokenizer, built.rowIds,
      built.docLens, built.avgDocLen, built.terms, docFreqs, built.postings⟩) {d : Nat}
    {doc : PendingDoc} (hdoc : docs[d]? = some doc) (hlt : d < index.header.docCount)
    (term : Term) : termContributions sa index dict d term =
      if term ∈ doc.terms then [sa.contribution index.header
        (docs.countP fun doc => term ∈ doc.terms) (doc.terms.count term) doc.terms.length]
      else [] := by
  have hterms : dict.map ScannedTerm.term = built.terms := congrArg Decoded.terms hdecode
  have hpostings : dict.map ScannedTerm.postings = built.postings :=
    congrArg Decoded.postings hdecode
  have hlens : (List.range index.header.docCount).map
      (frequencySum (dict.map ScannedTerm.postings)) = docs.map fun doc => doc.terms.length :=
    (congrArg Decoded.docLens hdecode).trans hd.docLens
  have hlen : frequencySum (dict.map ScannedTerm.postings) d = doc.terms.length := by
    have hat := congrArg (·[d]?) hlens
    simpa [hdoc, hlt] using hat
  unfold termContributions
  cases hfind : dict.find? fun e => e.term = term with
  | none =>
    have hnot : term ∉ doc.terms := by
      intro hterm
      have hmem := (hd.mem_terms term).mpr ⟨doc, List.mem_of_getElem? hdoc, hterm⟩
      rw [← hterms] at hmem
      obtain ⟨e, he, rfl⟩ := List.mem_map.mp hmem
      simpa using List.find?_eq_none.mp hfind e he
    rw [if_neg hnot]
    rfl
  | some e =>
    obtain rfl : e.term = term := by simpa using List.find?_some hfind
    obtain ⟨j, hj⟩ := List.getElem?_of_mem (List.mem_of_find?_eq_some hfind)
    obtain ⟨_, _, hscan, -⟩ := h.term hj
    rw [hd.postings, ← hterms, List.map_map] at hpostings
    have hentry : e.postings = postingsOf docs e.term :=
      List.map_inj_left.mp hpostings e (List.mem_of_find?_eq_some hfind)
    have hfreq : e.entry.postingsLen = docs.countP fun doc => e.term ∈ doc.terms := by
      rw [← hscan.docFreq, hentry, postingsOf_length]
    simp only [Option.elim_some, contributions, hentry, filter_postingsOf hdoc, hfreq, hlen]
    split <;> rfl

/-- A document that is scored has the sum of the contributions of the tokens that it shares. -/
theorem Accepted.score_of_total (h : Accepted index dict) (sa : ScoreArith)
    (hd : Describes ar docs built) (hdecode : contentOf index dict = ⟨tokenizer, built.rowIds,
      built.docLens, built.avgDocLen, built.terms, docFreqs, built.postings⟩) {d : Nat}
    {doc : PendingDoc} (hdoc : docs[d]? = some doc) (hlt : d < index.header.docCount)
    {query : List Term} {score : F32} (hscore : some score = total sa none
      ((dedupePreservingOrder query).flatMap (termContributions sa index dict d))) :
    score = queryScore sa index.header docs query doc.terms := by
  have hparts : ∀ terms : List Term, terms.flatMap (termContributions sa index dict d) =
      (terms.filter (· ∈ doc.terms)).map fun term => sa.contribution index.header
        (docs.countP fun doc => term ∈ doc.terms) (doc.terms.count term) doc.terms.length := by
    intro terms
    induction terms with
    | nil => rfl
    | cons term terms ih =>
      rw [List.flatMap_cons, ih, h.termContributions_eq sa hd hdecode hdoc hlt]
      by_cases hterm : term ∈ doc.terms
      · simp [hterm]
      · simp [hterm]
  rw [hparts] at hscore
  exact total_none_eq_some sa hscore.symm

/-- A search that may return every document returns each row whose text shares a token with the
query once, by descending score and then ascending row id; the score is the sum of what the shared
tokens contribute. -/
theorem search_finds_matches {ar : AvgArith} (har : ar.Lawful) (sa : ScoreArith)
    (tokenizer : TokenizerKind) (corpus : List (UInt64 × List Char)) {b : SparseIndexBuilder}
    {log : List ((UInt64 × DocSource) × Checked Unit)}
    (hbuild : Machine.runCalls SparseIndexBuilder.add (.new tokenizer) (corpusCalls corpus) = (log, b))
    (haccepted : ∀ entry ∈ log, entry.2 = .ok ())
    (hlen : ∀ row ∈ corpus, ∀ term ∈ tokenizeText tokenizer row.2, term.length < 2 ^ 32)
    {bytes : List UInt8} {report : SparseBuildReport} (hwrite : b.writeMmap ar = .ok (bytes, report))
    (query : List Char) (topK : Nat) (htop : corpus.length ≤ topK) :
    ∃ index rows, Bm25MmapIndex.open ar bytes = .ok index ∧
      index.searchWithPreparedAllowlist sa query topK none = .ok rows ∧
      (∀ std, index.search std sa query topK = .ok rows) ∧
      rows.Pairwise (fun a b => sparseRowOrder a b = .lt) ∧
      (rows.map ScoredRow.rowId).Nodup ∧
      (∀ rowId, rowId ∈ rows.map ScoredRow.rowId ↔
        ∃ text, (rowId, text) ∈ corpus ∧
          ∃ term ∈ tokenizeText tokenizer text, term ∈ tokenizeText tokenizer query) ∧
      ∀ row ∈ rows, ∃ text, (row.rowId, text) ∈ corpus ∧
        row.score = queryScore sa index.header (corpusDocs tokenizer corpus)
          (tokenizeText tokenizer query) (tokenizeText tokenizer text) := by
  have hdocs : b.docs = corpusDocs tokenizer corpus := by
    have hall := @docs_of_accepted corpus (.new tokenizer) (by rwa [hbuild])
    rw [hbuild] at hall
    simpa [SparseIndexBuilder.new] using hall
  have hinv : BuilderInv tokenizer b := by
    have hnew := builder_inv tokenizer (corpusCalls corpus)
    rwa [hbuild] at hnew
  have hterms : ∀ doc ∈ b.docs, ∀ term ∈ doc.terms, term.length < 2 ^ 32 := by
    intro doc hdoc
    rw [hdocs] at hdoc
    obtain ⟨row, hrow, rfl⟩ := List.mem_map.mp hdoc
    exact hlen row hrow
  obtain ⟨built, index, -, hd, hopen, -, hdecode⟩ := writeMmap_opens har hinv hterms hwrite
  obtain ⟨-, dict, haccepted'⟩ := open_accepted hopen
  have hcontent := Except.ok.inj (haccepted'.decode.symm.trans hdecode)
  obtain ⟨ranked, hsearch, hsorted, hnodup, hids, hscores⟩ :=
    haccepted'.search sa none query topK
  have hrows : index.docToRowId = b.docs.map PendingDoc.rowId :=
    (congrArg Decoded.rowIds hcontent).trans hd.rowIds
  have hmem : ∀ rowId, rowId ∈ ranked.map ScoredRow.rowId ↔
      ∃ doc ∈ b.docs, doc.rowId = rowId ∧
        ∃ term ∈ doc.terms, term ∈ tokenizeText tokenizer query := by
    intro rowId
    rw [hids]
    simp only [matches_iff hd hcontent, hrows, List.getElem?_map, Option.map_eq_some_iff]
    constructor
    · rintro ⟨d, ⟨doc, hdoc, hid⟩, -, doc', hdoc', hmatch⟩
      obtain rfl := Option.some.inj (hdoc.symm.trans hdoc')
      exact ⟨doc, List.mem_of_getElem? hdoc, hid, hmatch⟩
    · rintro ⟨doc, hdoc, hid, hmatch⟩
      obtain ⟨d, hd⟩ := List.getElem?_of_mem hdoc
      exact ⟨d, ⟨doc, hd, hid⟩, fun _ hnone => absurd hnone.symm (Option.some_ne_none _), doc, hd,
        hmatch⟩
  -- every row is there: the ranked rows are distinct rows of the corpus
  have hall : ranked.take topK = ranked := by
    refine List.take_of_length_le ?_
    have hsub : ranked.map ScoredRow.rowId ⊆ b.docs.map PendingDoc.rowId := fun rowId hrow => by
      obtain ⟨doc, hdoc, rfl, -⟩ := (hmem rowId).mp hrow
      exact List.mem_map_of_mem hdoc
    have hle := (hnodup.subperm hsub).length_le
    rw [hdocs] at hle
    simp only [List.length_map, corpusDocs] at hle
    exact hle.trans htop
  rw [hall] at hsearch
  refine ⟨index, ranked, hopen, hsearch, fun std => ?_, hsorted, hnodup, fun rowId => ?_,
    fun row hrow => ?_⟩
  · exact (haccepted'.searchBy_eq std sa query topK none).trans hsearch
  · rw [hmem, hdocs]
    constructor
    · rintro ⟨doc, hdoc, rfl, hmatch⟩
      obtain ⟨⟨rowId, text⟩, hrow, rfl⟩ := List.mem_map.mp hdoc
      exact ⟨text, hrow, hmatch⟩
    · rintro ⟨text, hrow, hmatch⟩
      exact ⟨⟨rowId, tokenizeText tokenizer text⟩, List.mem_map.mpr ⟨_, hrow, rfl⟩, rfl, hmatch⟩
  · obtain ⟨d, hd', hscore⟩ := hscores row hrow
    have hlt : d < index.header.docCount := by
      rw [← haccepted'.rowCount]
      exact (List.getElem?_eq_some_iff.mp hd').1
    rw [hrows, List.getElem?_map] at hd'
    obtain ⟨doc, hdoc, hid⟩ := Option.map_eq_some_iff.mp hd'
    have htokenizer : index.header.tokenizer = tokenizer :=
      congrArg Decoded.tokenizer hcontent
    have hsum := haccepted'.score_of_total sa hd hcontent hdoc hlt hscore
    rw [htokenizer] at hsum
    have hmemDoc := List.mem_of_getElem? hdoc
    rw [hdocs] at hmemDoc hsum
    obtain ⟨⟨rowId, text⟩, hrow', rfl⟩ := List.mem_map.mp hmemDoc
    obtain rfl : rowId = row.rowId := hid
    exact ⟨text, hrow', hsum⟩

def sampleCorpus : List (UInt64 × List Char) :=
  [(10, "Alpha alpha beta".toList), (20, "beta".toList)]

/-- The scores of `beta` in the two texts. -/
def sampleScores : ScoreArith where
  contribution _ _ _ docLen := if docLen = 3 then ⟨0x3e1afe76⟩ else ⟨0x3e6ab488⟩
  add sum score := if sum = F32.zero then score else sum

theorem search_finds_matches_sample : ∃ bytes index rows,
    Bm25MmapIndex.open sampleAvg bytes = .ok index ∧
      index.searchWithPreparedAllowlist sampleScores "BETA!".toList 2 none = .ok rows ∧
      (rows.map ScoredRow.rowId).Nodup ∧ 10 ∈ rows.map ScoredRow.rowId ∧
      20 ∈ rows.map ScoredRow.rowId := by
  let run := Machine.runCalls SparseIndexBuilder.add (.new .simple) (corpusCalls sampleCorpus)
  have haccepted : ∀ entry ∈ run.1, entry.2 = .ok () := by decide +kernel
  have hlen : ∀ row ∈ sampleCorpus, ∀ term ∈ tokenizeText .simple row.2, term.length < 2 ^ 32 := by
    decide +kernel
  obtain ⟨⟨bytes, report⟩, h⟩ : ∃ out, run.2.writeMmap sampleAvg = .ok out := by
    have hok : (run.2.writeMmap sampleAvg).isOk := by decide +kernel
    cases hwrite : run.2.writeMmap sampleAvg with
    | ok out => exact ⟨out, rfl⟩
    | error e =>
      rw [hwrite] at hok
      cases hok
  obtain ⟨index, rows, hopen, hsearch, -, -, hnodup, hmem, -⟩ := search_finds_matches sampleAvg_lawful
    sampleScores .simple sampleCorpus rfl haccepted hlen h "BETA!".toList 2 (by decide)
  refine ⟨bytes, index, rows, hopen, hsearch, hnodup, (hmem 10).mpr ?_, (hmem 20).mpr ?_⟩
  · exact ⟨"Alpha alpha beta".toList, by decide, utf8 "beta".toList, by decide +kernel⟩
  · exact ⟨"beta".toList, by decide, utf8 "beta".toList, by decide +kernel⟩

end Bm25MmapIndex

end OrdinalDB.Sparse
