import OrdinalDB.Sparse.Validated

/-!
# Redundant fields of an opened index

An opened index decodes (`Accepted.decode`), and every redundant field agrees
with the decoded content except the posting count of the header, which is only
bounded: `self_consistent_iff`. A file whose header counts fewer postings than
it has is opened (`miscounted_opens`).
-/

namespace OrdinalDB.Sparse

open ByteCodec Float32Bits LayoutLemmas

namespace Bm25MmapIndex

/-- The header and the sections agree with the decoded content. -/
structure SelfConsistent (index : Bm25MmapIndex) (content : Decoded) : Prop where
  docCount : index.header.docCount = content.rowIds.length
  termCount : index.header.termCount = content.terms.length
  postingsCount : index.header.postingsCount = content.postings.flatten.length
  docFreqs : content.docFreqs = content.postings.map List.length
  docLens : content.docLens =
    (List.range index.header.docCount).map (frequencySum content.postings)
  sorted : content.terms.Pairwise fun a b => compare a b = .lt
  normalized : ∀ term ∈ content.terms, isNormalizedTermV1 term
  termTiles : ∀ i term, content.terms[i]? = some term → ∃ entry, index.termEntry i = .ok entry ∧
    entry.termOffset = index.header.termBytesOffset + ((content.terms.take i).map List.length).sum ∧
    entry.termLen = term.length
  termsEnd : index.header.termBytesOffset + (content.terms.map List.length).sum =
    index.header.postingsOffset
  postingTiles : ∀ i postings, content.postings[i]? = some postings →
    ∃ entry, index.termEntry i = .ok entry ∧
      entry.postingsOffset = index.header.postingsOffset +
        ((content.postings.take i).map List.length).sum * 8 ∧
      entry.postingsLen = postings.length
  postingsEnd : index.header.postingsOffset + content.postings.flatten.length * 8 =
    index.mmap.length

variable {index : Bm25MmapIndex} {dict : List ScannedTerm}

/-- What the dictionary of an accepted index says about its terms. -/
theorem Accepted.term (h : Accepted index dict) {j : Nat} {d : ScannedTerm}
    (hj : dict[j]? = some d) : ∃ t u, ScansTerm index j t d u ∧
      t.termCursor = index.header.termBytesOffset +
        ((dict.take j).map fun d => d.term.length).sum ∧
      t.postingCursor = index.header.postingsOffset +
        ((dict.take j).map fun d => d.postings.length).sum * 8 := by
  obtain ⟨start, stop, hscans, hterm, hposting, -⟩ := h.scans
  obtain ⟨t, u, hscan, htermCursor, hpostingCursor⟩ := hscans.term hj
  rw [Nat.zero_add] at hscan
  exact ⟨t, u, hscan, hterm ▸ htermCursor, hposting ▸ hpostingCursor⟩

/-- The content of an accepted index. -/
def contentOf (index : Bm25MmapIndex) (dict : List ScannedTerm) : Decoded where
  tokenizer := index.header.tokenizer
  rowIds := index.docToRowId
  docLens := (List.range index.header.docCount).map
    (frequencySum (dict.map ScannedTerm.postings))
  avgDocLen := index.header.avgDocLen
  terms := dict.map ScannedTerm.term
  docFreqs := dict.map fun d => d.postings.length
  postings := dict.map ScannedTerm.postings

theorem Accepted.decode (h : Accepted index dict) : index.decode = .ok (contentOf index dict) := by
  have hread {β : Type} {f : TermEntry → Checked β} {g : ScannedTerm → β}
      (hf : ∀ (j : Nat) (d : ScannedTerm), dict[j]? = some d → f d.entry = .ok (g d)) :
      (dict.map ScannedTerm.entry).mapM f = .ok (dict.map g) := by
    refine mapM_ok (List.forall₂_iff_get.mpr ⟨by simp, fun j hj hj' => ?_⟩)
    have hlt : j < dict.length := by simpa using hj
    simpa using hf j _ (List.getElem?_eq_getElem hlt)
  have hlens : (List.range index.header.docCount).mapM index.docLen =
      .ok ((List.range index.header.docCount).map
        (frequencySum (dict.map ScannedTerm.postings))) := by
    refine mapM_ok (forall₂_range (by simp) fun j len hj => ?_)
    obtain ⟨hlt, rfl⟩ := List.getElem?_eq_some_iff.mp hj
    simpa using h.docLens j (by simpa using hlt)
  have hentries : (List.range index.header.termCount).mapM index.termEntry =
      .ok (dict.map ScannedTerm.entry) := by
    refine mapM_ok (forall₂_range (by simp [h.termCount]) fun j entry hj => ?_)
    rw [List.getElem?_map] at hj
    obtain ⟨d, hd, rfl⟩ := Option.map_eq_some_iff.mp hj
    obtain ⟨_, _, hscan, -⟩ := h.term hd
    exact hscan.entry
  have hterms : (dict.map ScannedTerm.entry).mapM index.termBytes =
      .ok (dict.map ScannedTerm.term) := hread fun j d hd => by
    obtain ⟨_, _, hscan, -⟩ := h.term hd
    exact hscan.bytes
  have hpostings : (dict.map ScannedTerm.entry).mapM index.postingList =
      .ok (dict.map ScannedTerm.postings) := hread fun j d hd => by
    obtain ⟨_, _, hscan, -⟩ := h.term hd
    exact hscan.list
  have hfreqs : (dict.map ScannedTerm.entry).map TermEntry.postingsLen =
      dict.map fun d => d.postings.length := by
    rw [List.map_map]
    refine List.map_congr_left fun d hd => ?_
    obtain ⟨j, hj⟩ := List.getElem?_of_mem hd
    obtain ⟨_, _, hscan, -⟩ := h.term hj
    exact hscan.docFreq.symm
  rw [Bm25MmapIndex.decode, hlens, ok_bind, hentries, ok_bind, hterms, ok_bind, hpostings, ok_bind,
    hfreqs]
  rfl

theorem length_flatten_map (dict : List ScannedTerm) :
    (dict.map ScannedTerm.postings).flatten.length =
      (dict.map fun d => d.postings.length).sum := by
  rw [List.length_flatten, List.map_map]
  rfl

/-- The postings section is filled. -/
theorem Accepted.postingsEnd (h : Accepted index dict) :
    index.header.postingsOffset + (contentOf index dict).postings.flatten.length * 8 =
      index.mmap.length := by
  obtain ⟨start, stop, hscans, -, hposting, -, hstop⟩ := h.scans
  rw [contentOf, length_flatten_map, ← hposting, ← hstop, hscans.cursors.2]

/-- Every byte string that opens decodes, and agrees with what it decodes to exactly when the
posting count of its header fills the postings section. -/
theorem self_consistent_iff {ar : AvgArith} {bytes : List UInt8}
    (h : Bm25MmapIndex.open ar bytes = .ok index) :
    ∃ content, index.decode = .ok content ∧
      (SelfConsistent index content ↔
        index.header.postingsOffset + index.header.postingsCount * 8 = bytes.length) := by
  obtain ⟨rfl, dict, haccepted⟩ := open_accepted h
  refine ⟨contentOf index dict, haccepted.decode, ?_⟩
  have hend := haccepted.postingsEnd
  constructor
  · intro hconsistent
    rw [hconsistent.postingsCount, hend]
  · intro hfills
    obtain ⟨start, stop, hscans, hterm, -, hstop, -⟩ := haccepted.scans
    constructor
    case docCount => exact haccepted.rowCount.symm
    case termCount => simp [contentOf, haccepted.termCount]
    case postingsCount => omega
    case docFreqs => simp [contentOf]
    case docLens => rfl
    case sorted => exact hscans.sorted.2
    case normalized =>
      intro term hmem
      obtain ⟨d, hd, rfl⟩ := List.mem_map.mp hmem
      obtain ⟨j, hj⟩ := List.getElem?_of_mem hd
      obtain ⟨_, _, hscan, -⟩ := haccepted.term hj
      exact hscan.normalized
    case termTiles =>
      intro i term hi
      rw [contentOf, List.getElem?_map] at hi
      obtain ⟨d, hd, rfl⟩ := Option.map_eq_some_iff.mp hi
      obtain ⟨t, _, hscan, hcursor, -⟩ := haccepted.term hd
      refine ⟨d.entry, hscan.entry, ?_, (termBytes_length hscan.bytes).symm⟩
      rw [hscan.termStart, hcursor, contentOf, ← List.map_take, List.map_map]
      rfl
    case termsEnd =>
      rw [← hterm, ← hstop, hscans.cursors.1, contentOf, List.map_map]
      rfl
    case postingTiles =>
      intro i postings hi
      rw [contentOf, List.getElem?_map] at hi
      obtain ⟨d, hd, rfl⟩ := Option.map_eq_some_iff.mp hi
      obtain ⟨t, _, hscan, -, hcursor⟩ := haccepted.term hd
      refine ⟨d.entry, hscan.entry, ?_, hscan.docFreq.symm⟩
      rw [hscan.postingStart, hcursor, contentOf, ← List.map_take, List.map_map]
      rfl
    case postingsEnd => exact hend

/-! ## A miscounted file -/

/-- The file that the builder writes for two documents. -/
def sampleBytes : List UInt8 :=
  match (Machine.runCalls SparseIndexBuilder.add (.new .simple) sampleCalls).2.writeMmap
    sampleAvg with
  | .ok (bytes, _) => bytes
  | .error _ => []

/-- The same file with one posting less in its header. -/
def miscountedBytes : List UInt8 := sampleBytes.set 48 2

theorem opened_of_any {bytes : List UInt8} {check : Bm25MmapIndex → Bool}
    (h : (Bm25MmapIndex.open sampleAvg bytes).toOption.any check) :
    ∃ index, Bm25MmapIndex.open sampleAvg bytes = .ok index ∧ check index := by
  cases hopen : Bm25MmapIndex.open sampleAvg bytes with
  | error e =>
    rw [hopen] at h
    cases h
  | ok index =>
    rw [hopen] at h
    exact ⟨index, rfl, h⟩

theorem self_consistent_iff_sample : ∃ index content,
    Bm25MmapIndex.open sampleAvg sampleBytes = .ok index ∧ index.decode = .ok content ∧
      SelfConsistent index content := by
  have hopen : (Bm25MmapIndex.open sampleAvg sampleBytes).toOption.any fun index =>
      index.header.postingsOffset + index.header.postingsCount * 8 = sampleBytes.length := by
    decide +kernel
  obtain ⟨index, hindex, hfills⟩ := opened_of_any hopen
  obtain ⟨content, hcontent, hiff⟩ := self_consistent_iff hindex
  exact ⟨index, content, hindex, hcontent, hiff.mpr (of_decide_eq_true hfills)⟩

/-- It opens, and decodes to three postings. -/
theorem miscounted_opens : ∃ index content,
    Bm25MmapIndex.open sampleAvg miscountedBytes = .ok index ∧ index.decode = .ok content ∧
      index.header.postingsCount = 2 ∧ content.postings.flatten.length = 3 ∧
      ¬SelfConsistent index content := by
  have hopen : (Bm25MmapIndex.open sampleAvg miscountedBytes).toOption.any fun index =>
      index.header.postingsCount = 2 &&
        index.decode.toOption.any fun content => content.postings.flatten.length = 3 := by
    decide +kernel
  obtain ⟨index, hindex, hcheck⟩ := opened_of_any hopen
  obtain ⟨hcount, hdecode⟩ := (Bool.and_eq_true _ _).mp hcheck
  cases hcontent : index.decode with
  | error e =>
    rw [hcontent] at hdecode
    cases hdecode
  | ok content =>
    rw [hcontent] at hdecode
    have hthree : content.postings.flatten.length = 3 := of_decide_eq_true hdecode
    have htwo : index.header.postingsCount = 2 := of_decide_eq_true hcount
    refine ⟨index, content, hindex, hcontent, htwo, hthree, fun hconsistent => ?_⟩
    have hsame := hconsistent.postingsCount
    omega

end Bm25MmapIndex

end OrdinalDB.Sparse
