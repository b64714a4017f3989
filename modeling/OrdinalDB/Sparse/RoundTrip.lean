import OrdinalDB.Lib.Machine
import OrdinalDB.Sparse.Scan

/-!
# The sparse format round-trips

The builder's documents are distinct and normalized (`BuilderInv`), so what it
writes is a `Written` file, and a `Written` file opens (`open_ok`) and decodes
through the reader's accessors to the built index (`decode_ok`). The main result
is `bm25_roundtrip`.
-/

namespace OrdinalDB.Sparse

open ByteCodec Float32Bits LayoutLemmas ScanLemmas

/-! ## What the index decodes to -/

/-- The content of an index, read through its accessors. -/
structure Decoded where
  tokenizer : TokenizerKind
  rowIds : List UInt64
  docLens : List Nat
  avgDocLen : F32
  terms : List Term
  docFreqs : List Nat
  postings : List (List (Nat × Nat))
deriving DecidableEq, Repr

namespace Bm25MmapIndex

/-- One posting, as the search loop reads it. -/
def posting (self : Bm25MmapIndex) (offset : Nat) : Checked (Nat × Nat) := do
  let docOrdinal ← leAt self.mmap 4 offset
  let tf ← leAt self.mmap 2 (← addUnchecked offset 4)
  return (docOrdinal, tf)

def postingList (self : Bm25MmapIndex) (entry : TermEntry) : Checked (List (Nat × Nat)) := do
  let range ← self.postingRange entry
  (postingOffsets range).mapM self.posting

def decode (self : Bm25MmapIndex) : Checked Decoded := do
  let docLens ← (List.range self.header.docCount).mapM self.docLen
  let entries ← (List.range self.header.termCount).mapM self.termEntry
  let terms ← entries.mapM self.termBytes
  let postings ← entries.mapM self.postingList
  return ⟨self.header.tokenizer, self.docToRowId, docLens, self.header.avgDocLen, terms,
    entries.map TermEntry.postingsLen, postings⟩

end Bm25MmapIndex

namespace RoundTripLemmas

variable {ar : AvgArith} {docs : List PendingDoc} {built : BuiltSparse} {bytes : List UInt8}
  {at' : Offsets} {entries : List TermEntry}

/-! ## The builder -/

/-- What every sequence of calls keeps: distinct row ids and normalized terms. -/
structure BuilderInv (tokenizer : TokenizerKind) (b : SparseIndexBuilder) : Prop where
  tokenizer : b.tokenizer = tokenizer
  seen : ∀ rowId, rowId ∈ b.seenRowIds ↔ rowId ∈ b.docs.map PendingDoc.rowId
  nodup : (b.docs.map PendingDoc.rowId).Nodup
  normalized : ∀ doc ∈ b.docs, ∀ term ∈ doc.terms, isNormalizedTermV1 term

theorem addDoc_inv {tokenizer : TokenizerKind} {b : SparseIndexBuilder} (h : BuilderInv tokenizer b)
    {rowId : UInt64} {terms : List Term} (hterms : ∀ term ∈ terms, isNormalizedTermV1 term) :
    BuilderInv tokenizer (b.addDoc rowId terms).2 := by
  rw [SparseIndexBuilder.addDoc]
  split
  · exact h
  · next hfresh =>
    refine ⟨h.tokenizer, fun r => ?_, ?_, ?_⟩
    · simp [h.seen r, or_comm]
    · have hnew : rowId ∉ b.docs.map PendingDoc.rowId := fun hmem => hfresh ((h.seen rowId).mpr hmem)
      rw [List.map_append, List.nodup_append]
      refine ⟨h.nodup, List.nodup_singleton _, fun x hx y hy hxy => hnew ?_⟩
      obtain rfl : y = rowId := by simpa using hy
      exact hxy ▸ hx
    · intro doc hdoc
      rcases List.mem_append.mp hdoc with hdoc | hdoc
      · exact h.normalized doc hdoc
      · obtain rfl := List.mem_singleton.mp hdoc
        exact hterms

theorem add_inv {tokenizer : TokenizerKind} {b : SparseIndexBuilder} (h : BuilderInv tokenizer b)
    (call : UInt64 × DocSource) : BuilderInv tokenizer (b.add call).2 := by
  obtain ⟨rowId, source⟩ := call
  cases source with
  | text text => exact addDoc_inv h fun term hterm => tokenizeText_normalized hterm
  | normalizedTerms terms =>
    refine addDoc_inv h fun term hterm => ?_
    obtain ⟨word, -, hword⟩ := List.mem_filterMap.mp hterm
    exact normalizeTerm_normalized hword

theorem builder_inv (tokenizer : TokenizerKind) (calls : List (UInt64 × DocSource)) :
    BuilderInv tokenizer
      (Machine.runCalls SparseIndexBuilder.add (SparseIndexBuilder.new tokenizer) calls).2 := by
  have hnew : BuilderInv tokenizer (.new tokenizer) := ⟨rfl, by simp [SparseIndexBuilder.new],
    by simp [SparseIndexBuilder.new], by simp [SparseIndexBuilder.new]⟩
  have hstep : ∀ b call, BuilderInv tokenizer b →
      BuilderInv tokenizer (SparseIndexBuilder.add b call).2 := fun b call h => add_inv h call
  exact Machine.runCalls_invariant hstep hnew calls

/-- What the builder writes is a written file of its documents. -/
theorem written_of_toBytes (hd : Describes ar docs built) (h : built.toBytes = .ok bytes)
    (hnd : (docs.map PendingDoc.rowId).Nodup) (hle : docs.length ≤ u32Max)
    (hnormal : ∀ doc ∈ docs, ∀ term ∈ doc.terms, isNormalizedTermV1 term)
    (hlen : ∀ doc ∈ docs, ∀ term ∈ doc.terms, term.length < 2 ^ 32) :
    ∃ at' entries, Written ar docs built bytes at' entries := by
  obtain ⟨at', entries, hsums, hlayout, hentries⟩ := toBytes_layout hd h
  obtain ⟨hcount, hentry⟩ := termEntries_spec hentries
  have hterm {P : Term → Prop} (hP : ∀ doc ∈ docs, ∀ term ∈ doc.terms, P term) :
      ∀ term ∈ built.terms, P term := fun term hmem => by
    obtain ⟨doc, hdoc, hmem⟩ := (hd.mem_terms term).mp hmem
    exact hP doc hdoc term hmem
  have hzip : built.terms.zip built.postings = built.terms.map fun t => (t, postingsOf docs t) := by
    rw [hd.postings]
    simpa using List.zip_map' (f := id) (g := postingsOf docs) (l := built.terms)
  refine ⟨at', entries, hd, hsums, hlayout, fun i term hi => ?_, ?_, hd.rowIds ▸ hnd, hle,
    hterm hnormal, hterm hlen⟩
  · have hitem : (built.terms.zip built.postings)[i]? = some (term, postingsOf docs term) := by
      rw [hzip, List.getElem?_map, hi]
      rfl
    rw [hentry i _ hitem, hzip, ← List.map_take, List.map_map, List.map_map]
    rfl
  · rw [hcount, hzip, List.length_map]

/-! ## Opening and decoding -/

theorem validateLayout_ok (w : Written ar docs built bytes at' entries) (har : ar.Lawful)
    {self : Bm25MmapIndex} (hm : self.mmap = bytes) (hh : self.header = headerOf built at') :
    ∃ tables, self.validateLayout ar = .ok tables ∧ tables.docToRowId = built.rowIds ∧
      SlotTable.Indexes tables.rowIdToDoc built.rowIds := by
  let start : Bm25MmapIndex.RowIdTables := ⟨[], ∅⟩
  have hnone : start.docToRowId = built.rowIds.take 0 := rfl
  have hempty : SlotTable.Indexes start.rowIdToDoc start.docToRowId := .empty
  obtain ⟨tables, htables, hids, hindex⟩ := w.readRowIds_ok hm hh (Nat.zero_add _) hnone hempty
  refine ⟨tables, ?_, hids, hindex⟩
  have hread : self.readRowIds built.rowIds.length 0 ⟨[], ∅⟩ = .ok tables := htables
  have hstart : (⟨none, at'.termBytes, at'.postings, List.replicate built.rowIds.length 0⟩ :
      Bm25MmapIndex.ScanState) = scanStateAt docs built at' 0 := by
    simp [scanStateAt, termStart, postingStart, lensAfter, w.docCount]
  have hscan := scanTerms_ok w hm hh (Nat.zero_add built.terms.length)
  have htotal : 0 + built.docLens.sum < usizeLimit := by
    rw [Nat.zero_add, w.describes.docLens]
    exact w.describes.total_lt
  have hlens : self.checkDocLens 0 0 built.docLens = .ok built.docLens.sum := by
    simpa using checkDocLens_ok w hm hh (List.drop_zero (l := built.docLens)) htotal
  have havg : ¬ar.differs built.avgDocLen (ar.mean built.docLens.sum built.rowIds.length) := by
    rw [w.docCount, ← w.avg_eq, har.self _ (w.avg_finite har)]
    exact Bool.false_ne_true
  have hcursor : ¬termStart built at' built.terms.length ≠ at'.postings := fun hne =>
    hne (termStart_end w)
  have hposting : ¬postingStart docs built at' built.terms.length ≠ bytes.length := fun hne =>
    hne (postingStart_end w)
  rw [Bm25MmapIndex.validateLayout, w.validateSections_ok hm hh, ok_bind,
    w.validateScalars_ok har hh, ok_bind, hm, hh]
  simp only [hread, ok_bind, hstart, hscan]
  simp only [scanStateAt, rejectIf_of_not hcursor, rejectIf_of_not hposting, ok_bind,
    lensAfter_end w, hlens, rejectIf_of_not havg]
  rfl

theorem open_ok (w : Written ar docs built bytes at' entries) (har : ar.Lawful) :
    ∃ index, Bm25MmapIndex.open ar bytes = .ok index ∧ index.mmap = bytes ∧
      index.header = headerOf built at' ∧ index.docToRowId = built.rowIds ∧
      SlotTable.Indexes index.rowIdToDoc built.rowIds := by
  obtain ⟨tables, htables, hids, hindex⟩ : ∃ tables,
      (⟨bytes, headerOf built at', [], ∅⟩ : Bm25MmapIndex).validateLayout ar = .ok tables ∧
        tables.docToRowId = built.rowIds ∧ SlotTable.Indexes tables.rowIdToDoc built.rowIds :=
    validateLayout_ok w har rfl rfl
  refine ⟨⟨bytes, headerOf built at', tables.docToRowId, tables.rowIdToDoc⟩, ?_, rfl, rfl, hids,
    hindex⟩
  rw [Bm25MmapIndex.open, parse_ok w.sums w.layout, ok_bind]
  simp only [htables, ok_bind]
  rfl

theorem postingList_ok (w : Written ar docs built bytes at' entries) {index : Bm25MmapIndex}
    (hm : index.mmap = bytes) (hh : index.header = headerOf built at') {i : Nat} {term : Term}
    (hi : built.terms[i]? = some term) :
    index.postingList (entryOf docs built at' i term) = .ok (postingsOf docs term) := by
  rw [Bm25MmapIndex.postingList, postingRange_ok w hm hh hi, ok_bind, postingStart_succ hi,
    postingOffsets_eq]
  refine mapM_ok ?_
  rw [List.forall₂_map_left_iff]
  refine forall₂_range rfl fun j p hj => ?_
  obtain ⟨doc, hdoc, hfreq, -⟩ := postingsOf_ordinal_lt (List.mem_of_getElem? hj)
  have hord : p.1 ≤ u32Max := by
    have hlt := (List.getElem?_eq_some_iff.mp hdoc).1
    have := w.docs_le
    omega
  have htf : p.2 ≤ 65535 := hfreq ▸ w.describes.freq_le doc (List.mem_of_getElem? hdoc) term
  obtain ⟨h₀, ha, h₁, -⟩ := posting_words hm w.bytes_lt (postingAt w hi hj) hord htf
  rw [Bm25MmapIndex.posting, h₀, ok_bind, ha, ok_bind, h₁, ok_bind]
  rfl

theorem decode_ok (w : Written ar docs built bytes at' entries) {index : Bm25MmapIndex}
    (hm : index.mmap = bytes) (hh : index.header = headerOf built at')
    (hids : index.docToRowId = built.rowIds) :
    index.decode = .ok ⟨built.tokenizer, built.rowIds, built.docLens, built.avgDocLen, built.terms,
      built.terms.map fun term => (postingsOf docs term).length, built.postings⟩ := by
  let found : List TermEntry := built.terms.mapIdx fun i term => entryOf docs built at' i term
  have hlens : (List.range built.rowIds.length).mapM index.docLen = .ok built.docLens :=
    mapM_ok (forall₂_range (w.docCount.trans w.docLens_length.symm) fun i len hi =>
      w.docLen_ok hm hh hi)
  have hfound {i : Nat} {entry : TermEntry} (h : found[i]? = some entry) :
      ∃ term, built.terms[i]? = some term ∧ entry = entryOf docs built at' i term := by
    simp only [found, List.getElem?_mapIdx, Option.map_eq_some_iff] at h
    obtain ⟨term, hi, rfl⟩ := h
    exact ⟨term, hi, rfl⟩
  have hentries : (List.range built.terms.length).mapM index.termEntry = .ok found := by
    refine mapM_ok (forall₂_range (by simp [found]) fun i entry h => ?_)
    obtain ⟨term, hi, rfl⟩ := hfound h
    exact termEntry_ok w hm hh hi
  have heach {β : Type} {f : TermEntry → Checked β} {g : Term → β}
      (h : ∀ i term, built.terms[i]? = some term → f (entryOf docs built at' i term) = .ok (g term)) :
      found.mapM f = .ok (built.terms.map g) := by
    refine mapM_ok (List.forall₂_iff_get.mpr ⟨by simp [found], fun i hi hi' => ?_⟩)
    obtain ⟨term, hterm, hentry⟩ := hfound (List.getElem?_eq_getElem hi)
    obtain ⟨hlt, heq⟩ := List.getElem?_eq_some_iff.mp hterm
    simpa [hentry, heq] using h i term hterm
  have hterms := heach fun i term hi => termBytes_ok w hm hh hi
  have hpostings := heach fun i term hi => postingList_ok w hm hh hi
  have hfreqs : found.map TermEntry.postingsLen =
      built.terms.map fun term => (postingsOf docs term).length := by
    refine List.ext_getElem? fun i => ?_
    simp only [found, List.getElem?_map, List.getElem?_mapIdx]
    cases built.terms[i]? <;> rfl
  have hterms' : found.mapM index.termBytes = .ok built.terms := by simpa using hterms
  rw [Bm25MmapIndex.decode, hh]
  simp only [hlens, hentries, ok_bind, hterms', hpostings, hfreqs, hids]
  rw [w.describes.postings]
  rfl

/-- A term's postings are as many as the documents that contain it. -/
theorem postingsOf_length (docs : List PendingDoc) (term : Term) :
    (postingsOf docs term).length = docs.countP fun doc => term ∈ doc.terms := by
  induction docs using List.reverseRecOn with
  | nil => rfl
  | append_singleton docs doc ih =>
    rw [DictionaryLemmas.postingsOf_concat, List.length_append, ih, List.countP_append]
    by_cases hmem : term ∈ doc.terms
    · simp [hmem, List.count_eq_zero]
    · simp [hmem, List.count_eq_zero.mpr hmem]

/-- What a builder writes opens, and decodes to the inverted index of its documents. -/
theorem writeMmap_opens (har : ar.Lawful) {tokenizer : TokenizerKind} {b : SparseIndexBuilder}
    (hinv : BuilderInv tokenizer b)
    (hlen : ∀ doc ∈ b.docs, ∀ term ∈ doc.terms, term.length < 2 ^ 32)
    {report : SparseBuildReport} (h : b.writeMmap ar = .ok (bytes, report)) :
    ∃ built index, BuiltSparse.fromDocs ar tokenizer b.docs = .ok built ∧
      Describes ar b.docs built ∧ Bm25MmapIndex.open ar bytes = .ok index ∧
      SlotTable.Indexes index.rowIdToDoc built.rowIds ∧
      index.decode = .ok {
        tokenizer
        rowIds := built.rowIds
        docLens := built.docLens
        avgDocLen := built.avgDocLen
        terms := built.terms
        docFreqs := built.terms.map fun term => b.docs.countP fun doc => term ∈ doc.terms
        postings := built.postings } := by
  simp only [SparseIndexBuilder.writeMmap, bind_eq_ok, rejectIf_eq_ok, exists_const, pure,
    Except.pure, Except.ok.injEq, Prod.mk.injEq, Nat.not_lt, gt_iff_lt] at h
  obtain ⟨hle, built, hbuilt, _, hbytes, rfl, -⟩ := h
  rw [hinv.tokenizer] at hbuilt
  obtain ⟨hd, htok⟩ := fromDocs_describes hbuilt
  obtain ⟨at', entries, w⟩ := written_of_toBytes hd hbytes hinv.nodup hle hinv.normalized hlen
  obtain ⟨index, hopen, hm, hh, hids, hindex⟩ := open_ok w har
  refine ⟨built, index, hbuilt, hd, hopen, hindex, ?_⟩
  rw [decode_ok w hm hh hids, htok]
  simp only [postingsOf_length]

end RoundTripLemmas

open RoundTripLemmas in
/-- Whatever the builder writes opens again and decodes to what was built: the inverted
index of its documents, each term with its postings and its document frequency. -/
theorem bm25_roundtrip {ar : AvgArith} (har : ar.Lawful) (tokenizer : TokenizerKind)
    (calls : List (UInt64 × DocSource)) {b : SparseIndexBuilder}
    (hb : b = (Machine.runCalls SparseIndexBuilder.add (.new tokenizer) calls).2)
    (hlen : ∀ doc ∈ b.docs, ∀ term ∈ doc.terms, term.length < 2 ^ 32)
    {bytes : List UInt8} {report : SparseBuildReport} (h : b.writeMmap ar = .ok (bytes, report)) :
    ∃ built index, BuiltSparse.fromDocs ar tokenizer b.docs = .ok built ∧
      Describes ar b.docs built ∧ Bm25MmapIndex.open ar bytes = .ok index ∧
      SlotTable.Indexes index.rowIdToDoc built.rowIds ∧
      index.decode = .ok {
        tokenizer
        rowIds := built.rowIds
        docLens := built.docLens
        avgDocLen := built.avgDocLen
        terms := built.terms
        docFreqs := built.terms.map fun term => b.docs.countP fun doc => term ∈ doc.terms
        postings := built.postings } := by
  have hinv : BuilderInv tokenizer b := hb ▸ builder_inv tokenizer calls
  exact writeMmap_opens har hinv hlen h

/-- The quotient `4 / 2` of the two documents below. -/
def sampleAvg : AvgArith where
  avg := fun total _ => if total = 0 then F32.zero else ⟨0x40000000⟩
  differs := fun a expected => a != expected

theorem sampleAvg_lawful : sampleAvg.Lawful where
  finite := fun total _ _ _ _ => by
    by_cases h : total = 0 <;> simp only [sampleAvg, h, if_true, if_false] <;> decide
  nonneg := fun total _ _ _ _ => by
    by_cases h : total = 0 <;> simp only [sampleAvg, h, if_true, if_false] <;> decide
  pos := fun total _ hpos _ _ _ => by
    simp only [sampleAvg, Nat.ne_of_gt hpos, if_false]
    decide
  self := fun x _ => by simp [sampleAvg]

def sampleCalls : List (UInt64 × DocSource) :=
  [(10, .text "Alpha alpha beta".toList), (20, .normalizedTerms ["beta".toList]),
    (10, .text "again".toList)]

/-- A repeated row id is rejected, the other two documents are written and read back. -/
theorem bm25_roundtrip_sample :
    ∃ bytes index, Bm25MmapIndex.open sampleAvg bytes = .ok index ∧
      index.decode = .ok {
        tokenizer := .simple
        rowIds := [10, 20]
        docLens := [3, 1]
        avgDocLen := ⟨0x40000000⟩
        terms := [utf8 "alpha".toList, utf8 "beta".toList]
        docFreqs := [1, 2]
        postings := [[(0, 2)], [(0, 1), (1, 1)]] } := by
  let b := (Machine.runCalls SparseIndexBuilder.add (.new .simple) sampleCalls).2
  have hlen : ∀ doc ∈ b.docs, ∀ term ∈ doc.terms, term.length < 2 ^ 32 := by decide +kernel
  obtain ⟨⟨bytes, report⟩, h⟩ : ∃ out, b.writeMmap sampleAvg = .ok out := by
    have hok : (b.writeMmap sampleAvg).isOk := by decide +kernel
    cases hw : b.writeMmap sampleAvg with
    | ok out => exact ⟨out, rfl⟩
    | error e =>
      rw [hw] at hok
      cases hok
  obtain ⟨built, index, hbuilt, -, hopen, -, hdecode⟩ :=
    bm25_roundtrip sampleAvg_lawful .simple sampleCalls rfl hlen h
  refine ⟨bytes, index, hopen, hdecode.trans ?_⟩
  have hsample : BuiltSparse.fromDocs sampleAvg .simple b.docs = .ok ⟨.simple, [10, 20], [3, 1],
      [utf8 "alpha".toList, utf8 "beta".toList], [[(0, 2)], [(0, 1), (1, 1)]], 3, ⟨0x40000000⟩⟩ := by
    decide +kernel
  rw [hsample] at hbuilt
  obtain rfl := Except.ok.inj hbuilt
  decide +kernel

end OrdinalDB.Sparse
