import OrdinalDB.Sparse.RoundTrip

/-!
# What validation establishes

`Bm25MmapIndex.open` on arbitrary bytes. Every check of `validate_layout` is
read back as a fact about the accessors: the sections lie in the file
(`Sections`), the scan has read a list of terms with their postings
(`Scans`), and an opened index is `Accepted` with that list (`open_accepted`).
-/

namespace OrdinalDB.Sparse

open ByteCodec Float32Bits LayoutLemmas ScanLemmas

/-! ## Words -/

theorem leAt_eq_ok {bytes : List UInt8} {w off v : Nat} :
    leAt bytes w off = .ok v ↔ off + w < usizeLimit ∧ wordAt bytes w off = some v := by
  unfold leAt
  split
  next hlt => cases wordAt bytes w off <;> simp [fail, hlt]
  next hlt => simp [hlt]

/-- A word inside of the file is read. -/
theorem leAt_of_le {bytes : List UInt8} (hlimit : bytes.length < usizeLimit) {w off : Nat}
    (h : off + w ≤ bytes.length) : ∃ v, leAt bytes w off = .ok v := by
  obtain ⟨v, hv⟩ := wordAt_of_le h
  exact ⟨v, leAt_eq_ok.mpr ⟨by omega, hv⟩⟩

theorem addUnchecked_eq_ok {a b n : Nat} :
    addUnchecked a b = .ok n ↔ a + b < usizeLimit ∧ n = a + b := by
  unfold addUnchecked
  split <;> simp_all [eq_comm]

theorem sliceUnchecked_eq_ok {bytes chunk : List UInt8} {start stop : Nat} :
    sliceUnchecked bytes start stop = .ok chunk ↔
      start ≤ stop ∧ slice bytes start (stop - start) = some chunk := by
  unfold sliceUnchecked
  split
  next hle => cases slice bytes start (stop - start) <;> simp [hle]
  next hle => simp [hle]

namespace Bm25MmapIndex

variable {self : Bm25MmapIndex}

/-! ## Sections -/

/-- The sections that a header claims, against the file. -/
structure Sections (index : Bm25MmapIndex) : Prop where
  fileLen : index.header.fileLen = index.mmap.length
  rowIds : index.header.rowIdsOffset = headerLen
  docCount_le : index.header.docCount ≤ u32Max
  docLen : index.header.docLenOffset = index.header.rowIdsOffset + index.header.docCount * 8
  termTable : index.header.termTableOffset = index.header.docLenOffset + index.header.docCount * 4
  termBytes : index.header.termBytesOffset =
    index.header.termTableOffset + index.header.termCount * 32
  termBytes_le : index.header.termBytesOffset ≤ index.header.postingsOffset
  postings_le : index.header.postingsOffset ≤ index.mmap.length
  postingsCount_le :
    index.header.postingsOffset + index.header.postingsCount * 8 ≤ index.mmap.length

theorem checkedSection_eq_ok {fileLen base count elemLen : Nat} {label : String} {u : Unit} :
    checkedSection fileLen base count elemLen label = .ok u ↔
      base + count * elemLen < usizeLimit ∧ base + count * elemLen ≤ fileLen := by
  simp only [checkedSection, bind_eq_ok, checkedOffset_eq_ok, rejectIf_eq_ok]
  constructor
  · rintro ⟨stop, ⟨hlt, rfl⟩, hle⟩
    exact ⟨hlt, by omega⟩
  · rintro ⟨hlt, hle⟩
    exact ⟨_, ⟨hlt, rfl⟩, by omega⟩

theorem sections_of_validate {u : Unit} (h : self.validateSections = .ok u) : Sections self := by
  simp only [validateSections, bind_eq_ok, rejectIf_eq_ok, checkedOffset_eq_ok,
    checkedSection_eq_ok, exists_const, not_not, not_or, Nat.not_lt, gt_iff_lt, rowIdLen,
    docLenLen, termEntryLen, postingLen] at h
  obtain ⟨hfile, hrowIds, hcount, _, ⟨-, rfl⟩, hdocLen, _, ⟨-, rfl⟩, htable, _, ⟨-, rfl⟩, hbytes,
    -, -, -, ⟨-, hpostings⟩, hle, hlen⟩ := h
  exact ⟨hfile, hrowIds, hcount, hdocLen.symm, htable.symm, hbytes.symm, hle, hlen, hpostings⟩

/-- The row ids, the lengths and the term table end before the postings. -/
theorem Sections.bounds (h : Sections self) :
    self.header.rowIdsOffset + self.header.docCount * 8 ≤ self.mmap.length ∧
      self.header.docLenOffset + self.header.docCount * 4 ≤ self.mmap.length ∧
      self.header.termTableOffset + self.header.termCount * 32 ≤ self.mmap.length := by
  have := h.docLen
  have := h.termTable
  have := h.termBytes
  have := h.termBytes_le
  have := h.postings_le
  omega

/-- The accessors of a document are defined below the document count. -/
theorem Sections.rowId (h : Sections self) (hlimit : self.mmap.length < usizeLimit) {i : Nat}
    (hi : i < self.header.docCount) : ∃ id, self.rowId i = .ok id := by
  have hbound := h.bounds.1
  have hoffset : checkedOffset self.header.rowIdsOffset i rowIdLen =
      .ok (self.header.rowIdsOffset + i * 8) :=
    checkedOffset_eq_ok.mpr ⟨by simp only [rowIdLen]; omega, rfl⟩
  obtain ⟨v, hv⟩ := leAt_of_le hlimit
    (show self.header.rowIdsOffset + i * 8 + 8 ≤ self.mmap.length by omega)
  refine ⟨UInt64.ofNat v, ?_⟩
  rw [Bm25MmapIndex.rowId, rejectIf_of_not (Nat.not_le_of_lt hi), ok_bind, hoffset, ok_bind, hv]
  rfl

theorem Sections.docLen_ok (h : Sections self) (hlimit : self.mmap.length < usizeLimit) {i : Nat}
    (hi : i < self.header.docCount) : ∃ len, self.docLen i = .ok len := by
  have hbound := h.bounds.2.1
  have hoffset : checkedOffset self.header.docLenOffset i docLenLen =
      .ok (self.header.docLenOffset + i * 4) :=
    checkedOffset_eq_ok.mpr ⟨by simp only [docLenLen]; omega, rfl⟩
  obtain ⟨v, hv⟩ := leAt_of_le hlimit
    (show self.header.docLenOffset + i * 4 + 4 ≤ self.mmap.length by omega)
  refine ⟨v, ?_⟩
  rw [Bm25MmapIndex.docLen, rejectIf_of_not (Nat.not_le_of_lt hi), ok_bind, hoffset, ok_bind, hv]

/-! ## Row ids -/

theorem rowIds_of_read {count idx : Nat} {tables out : RowIdTables}
    (h : self.readRowIds count idx tables = .ok out)
    (hlength : tables.docToRowId.length = idx)
    (hindex : SlotTable.Indexes tables.rowIdToDoc tables.docToRowId) :
    out.docToRowId.length = idx + count ∧ SlotTable.Indexes out.rowIdToDoc out.docToRowId := by
  induction count generalizing idx tables with
  | zero =>
    obtain rfl := Except.ok.inj h
    exact ⟨hlength, hindex⟩
  | succ count ih =>
    simp only [readRowIds, bind_eq_ok, rejectIf_eq_ok, exists_const] at h
    obtain ⟨rowId, -, -, hfresh, hrest⟩ := h
    have hnew : rowId ∉ tables.docToRowId := fun hmem => hfresh (hindex.mem_iff.mpr hmem)
    have hnext := ih hrest (by simp [hlength]) (hlength ▸ hindex.concat hnew)
    exact ⟨by omega, hnext.2⟩

/-! ## Postings -/

theorem addDocLen_eq_ok {lens out : List Nat} {d tf : Nat} (h : addDocLen lens d tf = .ok out) :
    d < lens.length ∧ out = lens.modify d (· + tf) := by
  unfold addDocLen at h
  split at h
  next => cases h
  next len hlen =>
    simp only [bind_eq_ok, checkedAdd_eq_ok, pure, Except.pure, Except.ok.injEq] at h
    obtain ⟨_, ⟨-, rfl⟩, rfl⟩ := h
    obtain ⟨hlt, rfl⟩ := List.getElem?_eq_some_iff.mp hlen
    exact ⟨hlt, (List.modify_eq_set_get (· + tf) hlt).symm⟩

/-- The scan of one term has read its postings, in order and in range. -/
theorem postings_of_scan {previous : Option Nat} {lens out offsets : List Nat}
    (h : self.scanPostings previous lens offsets = .ok out) :
    ∃ postings, offsets.mapM self.posting = .ok postings ∧ postings.length = offsets.length ∧
      (∀ d, previous = some d → ∀ p ∈ postings, d < p.1) ∧
      (postings.map Prod.fst).Pairwise (· < ·) ∧
      (∀ p ∈ postings, p.1 < self.header.docCount ∧ 0 < p.2) ∧
      out = addPostings lens postings := by
  induction offsets generalizing previous lens with
  | nil =>
    obtain rfl := Except.ok.inj h
    exact ⟨[], rfl, rfl, by simp, by simp, by simp, rfl⟩
  | cons offset offsets ih =>
    simp only [scanPostings, bind_eq_ok, rejectIf_eq_ok, exists_const, Nat.not_le,
      ge_iff_le] at h
    obtain ⟨d, hd, hlt, hprevious, tfOffset, htfOffset, tf, htf, hpos, _, -, _, -, -, lens', hlens,
      hrest⟩ := h
    obtain ⟨postings, hread, hlength, hnext, hsorted, hrange, rfl⟩ := ih hrest
    have hposting : self.posting offset = .ok (d, tf) := by
      rw [posting, hd, ok_bind, htfOffset, ok_bind, htf]
      rfl
    have hafter := hnext d rfl
    refine ⟨(d, tf) :: postings, ?_, by simp [hlength], ?_, ?_, ?_, ?_⟩
    · rw [List.mapM_cons, hposting, ok_bind, hread]
      rfl
    · rintro before rfl p hp
      have hbefore : before < d := by simpa using hprevious
      rcases List.mem_cons.mp hp with rfl | hp
      · exact hbefore
      · exact hbefore.trans (hafter p hp)
    · rw [List.map_cons, List.pairwise_cons]
      refine ⟨fun other hother => ?_, hsorted⟩
      obtain ⟨p, hp, rfl⟩ := List.mem_map.mp hother
      exact hafter p hp
    · intro p hp
      rcases List.mem_cons.mp hp with rfl | hp
      · exact ⟨hlt, Nat.pos_of_ne_zero hpos⟩
      · exact hrange p hp
    · rw [(addDocLen_eq_ok hlens).2]
      rfl

/-! ## One term -/

theorem termBytes_length {entry : TermEntry} {term : Term} (h : self.termBytes entry = .ok term) :
    term.length = entry.termLen := by
  simp only [termBytes, bind_eq_ok, checkedAdd_eq_ok, rejectIf_eq_ok, exists_const,
    sliceUnchecked_eq_ok] at h
  obtain ⟨_, ⟨-, rfl⟩, -, -, hslice⟩ := h
  obtain ⟨hle, hsome⟩ := Option.ite_none_right_eq_some.mp hslice
  obtain rfl := Option.some.inj hsome
  rw [List.length_take, List.length_drop]
  omega

theorem postingRange_eq_ok {entry : TermEntry} {range : Nat × Nat} :
    self.postingRange entry = .ok range ↔
      range = (entry.postingsOffset, entry.postingsOffset + entry.postingsLen * 8) ∧
        self.header.postingsOffset ≤ entry.postingsOffset ∧
        entry.postingsOffset + entry.postingsLen * 8 ≤ self.mmap.length ∧
        entry.postingsOffset + entry.postingsLen * 8 < usizeLimit := by
  simp only [postingRange, bind_eq_ok, checkedOffset_eq_ok, rejectIf_eq_ok, exists_const, pure,
    Except.pure, Except.ok.injEq, postingLen, not_or, Nat.not_lt, gt_iff_lt]
  constructor
  · rintro ⟨_, ⟨hlt, rfl⟩, ⟨hstart, hstop⟩, rfl⟩
    exact ⟨rfl, hstart, hstop, hlt⟩
  · rintro ⟨rfl, hstart, hstop, hlt⟩
    exact ⟨_, ⟨hlt, rfl⟩, ⟨hstart, hstop⟩, rfl⟩

/-- A term of the dictionary, with its entry and its postings. -/
structure ScannedTerm where
  entry : TermEntry
  term : Term
  postings : List (Nat × Nat)

/-- What the scan has established about the term at `idx`. -/
structure ScansTerm (index : Bm25MmapIndex) (idx : Nat) (s : ScanState) (d : ScannedTerm)
    (s' : ScanState) : Prop where
  entry : index.termEntry idx = .ok d.entry
  bytes : index.termBytes d.entry = .ok d.term
  list : index.postingList d.entry = .ok d.postings
  termStart : d.entry.termOffset = s.termCursor
  postingStart : d.entry.postingsOffset = s.postingCursor
  docFreq : d.postings.length = d.entry.postingsLen
  nonempty : d.postings ≠ []
  normalized : isNormalizedTermV1 d.term
  sorted : ∀ previous, s.previous = some previous → compare previous d.term = .lt
  ordinals : (d.postings.map Prod.fst).Pairwise (· < ·)
  inRange : ∀ p ∈ d.postings, p.1 < index.header.docCount ∧ 0 < p.2
  state : s' = ⟨some d.term, s.termCursor + d.term.length,
    s.postingCursor + d.postings.length * 8, addPostings s.docLens d.postings⟩

theorem scansTerm_of_scan {idx : Nat} {s s' : ScanState} (h : self.scanTerm s idx = .ok s') :
    ∃ d, ScansTerm self idx s d s' := by
  unfold scanTerm at h
  obtain ⟨entry, hentry, h⟩ := bind_eq_ok.mp h
  obtain ⟨_, hstart, h⟩ := bind_eq_ok.mp h
  obtain ⟨_, -, h⟩ := bind_eq_ok.mp h
  obtain ⟨term, hterm, h⟩ := bind_eq_ok.mp h
  split at h
  next => cases h
  next text _ =>
    simp only [bind_eq_ok, rejectIf_eq_ok, checkedAdd_eq_ok, exists_const, pure, Except.pure,
      Except.ok.injEq, not_not] at h hstart
    obtain ⟨hnormal, hsorted, _, ⟨-, rfl⟩, range, hrange, hposting, hnonempty, lens, hscan, rfl⟩ := h
    obtain ⟨hsame, hbounds⟩ := postingRange_eq_ok.mp hrange
    subst hsame
    obtain ⟨postings, hread, hlength, -, hordinals, hinRange, rfl⟩ := postings_of_scan hscan
    rw [postingOffsets_eq] at hlength hread
    have hcount : postings.length = entry.postingsLen := by simpa using hlength
    have hlist : self.postingList entry = .ok postings := by
      rw [postingList, hrange, ok_bind, postingOffsets_eq]
      exact hread
    refine ⟨⟨entry, term, postings⟩, hentry, hterm, hlist, hstart, hposting, hcount, ?_, ?_, ?_,
      hordinals, hinRange, ?_⟩
    · rintro rfl
      exact hnonempty hcount.symm
    · simpa using hnormal
    · intro previous hprevious
      rw [hprevious] at hsorted
      simpa using hsorted
    · rw [termBytes_length hterm, hcount, ← hstart, ← hposting]

/-! ## All terms -/

/-- The scan from the term at `i` on has read the listed terms. -/
inductive Scans (index : Bm25MmapIndex) : Nat → ScanState → List ScannedTerm → ScanState → Prop
  | nil {i : Nat} {s : ScanState} : Scans index i s [] s
  | cons {i : Nat} {s t u : ScanState} {d : ScannedTerm} {rest : List ScannedTerm} :
      ScansTerm index i s d t → Scans index (i + 1) t rest u → Scans index i s (d :: rest) u

theorem scans_of_scan {count i : Nat} {s s' : ScanState} (h : self.scanTerms count i s = .ok s') :
    ∃ dict, dict.length = count ∧ Scans self i s dict s' := by
  induction count generalizing i s with
  | zero =>
    obtain rfl := Except.ok.inj h
    exact ⟨[], rfl, .nil⟩
  | succ count ih =>
    obtain ⟨t, hterm, hrest⟩ := bind_eq_ok.mp h
    obtain ⟨d, hd⟩ := scansTerm_of_scan hterm
    obtain ⟨dict, hlength, hdict⟩ := ih hrest
    exact ⟨d :: dict, by simp [hlength], .cons hd hdict⟩

variable {i : Nat} {s s' : ScanState} {dict : List ScannedTerm}

/-- The cursors have moved over the terms and their postings. -/
theorem Scans.cursors (h : Scans self i s dict s') :
    s'.termCursor = s.termCursor + (dict.map fun d => d.term.length).sum ∧
      s'.postingCursor = s.postingCursor + (dict.map fun d => d.postings.length).sum * 8 := by
  induction h with
  | nil => simp
  | cons hterm _ ih =>
    simp only [hterm.state] at ih
    simp only [List.map_cons, List.sum_cons]
    omega

/-- Every term is read where the terms before it end. -/
theorem Scans.term (h : Scans self i s dict s') {j : Nat} {d : ScannedTerm}
    (hj : dict[j]? = some d) : ∃ t u, ScansTerm self (i + j) t d u ∧
      t.termCursor = s.termCursor + ((dict.take j).map fun d => d.term.length).sum ∧
      t.postingCursor = s.postingCursor + ((dict.take j).map fun d => d.postings.length).sum * 8 := by
  induction h generalizing j with
  | nil => simp at hj
  | cons hterm _ ih =>
    cases j with
    | zero =>
      obtain rfl := Option.some.inj hj
      exact ⟨_, _, hterm, by simp, by simp⟩
    | succ j =>
      obtain ⟨t, u, hscan, htermCursor, hpostingCursor⟩ := ih hj
      rw [hterm.state] at htermCursor hpostingCursor
      refine ⟨t, u, ?_, ?_, ?_⟩
      · rwa [Nat.add_right_comm] at hscan
      · rw [htermCursor]
        simp [Nat.add_assoc]
      · rw [hpostingCursor]
        simp only [List.take_succ_cons, List.map_cons, List.sum_cons]
        omega

/-- The terms are strictly increasing. -/
theorem Scans.sorted (h : Scans self i s dict s') :
    (∀ previous, s.previous = some previous → ∀ d ∈ dict, compare previous d.term = .lt) ∧
      (dict.map ScannedTerm.term).Pairwise fun a b => compare a b = .lt := by
  induction h with
  | nil => simp
  | cons hterm _ ih =>
    rw [hterm.state] at ih
    obtain ⟨hfirst, hrest⟩ := ih
    constructor
    · intro previous hprevious d hd
      have hlt := hterm.sorted previous hprevious
      rcases List.mem_cons.mp hd with rfl | hd
      · exact hlt
      · exact Std.TransCmp.lt_trans hlt (hfirst _ rfl d hd)
    · rw [List.map_cons, List.pairwise_cons]
      refine ⟨fun term hmem => ?_, hrest⟩
      obtain ⟨d, hd, rfl⟩ := List.mem_map.mp hmem
      exact hfirst _ rfl d hd

/-- The frequencies of a document in the postings of some terms. -/
def frequencySum (postings : List (List (Nat × Nat))) (docOrdinal : Nat) : Nat :=
  ((postings.flatten.filter fun p => p.1 = docOrdinal).map Prod.snd).sum

/-- The computed lengths are the sums of the frequencies. -/
theorem Scans.docLens (h : Scans self i s dict s') (d : Nat) :
    s'.docLens[d]? =
      s.docLens[d]?.map (· + frequencySum (dict.map ScannedTerm.postings) d) := by
  induction h with
  | nil => simp [frequencySum]
  | cons hterm _ ih =>
    rw [ih, hterm.state, addPostings_getElem?, Option.map_map]
    congr 1
    funext len
    simp [frequencySum, Nat.add_assoc]

theorem lens_of_check {i total sum : Nat} {lens : List Nat}
    (h : self.checkDocLens i total lens = .ok sum) {d len : Nat} (hd : lens[d]? = some len) :
    self.docLen (i + d) = .ok len := by
  induction lens generalizing i total d with
  | nil => simp at hd
  | cons computed rest ih =>
    simp only [checkDocLens, bind_eq_ok, rejectIf_eq_ok, exists_const, not_not] at h
    obtain ⟨stored, hstored, rfl, _, -, hrest⟩ := h
    cases d with
    | zero =>
      obtain rfl := Option.some.inj hd
      exact hstored
    | succ d =>
      have := ih hrest hd
      rwa [Nat.add_right_comm] at this

/-! ## Accepted indexes -/

/-- An opened index with the dictionary that validation has read. -/
structure Accepted (index : Bm25MmapIndex) (dict : List ScannedTerm) : Prop where
  limit : index.mmap.length < usizeLimit
  sections : Sections index
  rowCount : index.docToRowId.length = index.header.docCount
  indexes : SlotTable.Indexes index.rowIdToDoc index.docToRowId
  termCount : dict.length = index.header.termCount
  scans : ∃ start stop, Scans index 0 start dict stop ∧
    start.termCursor = index.header.termBytesOffset ∧
    start.postingCursor = index.header.postingsOffset ∧
    stop.termCursor = index.header.postingsOffset ∧ stop.postingCursor = index.mmap.length
  docLens : ∀ d, d < index.header.docCount →
    index.docLen d = .ok (frequencySum (dict.map ScannedTerm.postings) d)

/-- The accessors of the scan look at the file and the header only. -/
theorem Scans.withTables (h : Scans self i s dict s') (tables : RowIdTables) :
    Scans { self with docToRowId := tables.docToRowId, rowIdToDoc := tables.rowIdToDoc } i s dict
      s' := by
  induction h with
  | nil => exact .nil
  | cons hterm _ ih =>
    exact .cons ⟨hterm.entry, hterm.bytes, hterm.list, hterm.termStart, hterm.postingStart,
      hterm.docFreq, hterm.nonempty, hterm.normalized, hterm.sorted, hterm.ordinals,
      hterm.inRange, hterm.state⟩ ih

/-- A header's words are below `2 ^ 64`. -/
theorem parse_fileLen_lt {bytes : List UInt8} {header : Header}
    (h : Header.parse bytes = .ok header) : header.fileLen < usizeLimit := by
  simp only [Header.parse, bind_eq_ok, rejectIf_eq_ok, exists_const, leAt_eq_ok, leF32At, pure,
    Except.pure, Except.ok.injEq] at h
  obtain ⟨-, -, _, -, -, _, -, -, _, -, -, _, -, _, -, _, -, _, -, -, _, -, _, -, _, -, -, _, -, _, -,
    _, -, _, -, _, -, _, -, _, -, _, -, _, -, _, -, _, -, _, ⟨-, hfile⟩, rfl⟩ := h
  exact wordAt_lt hfile

theorem validateLayout_accepted {ar : AvgArith} {tables : RowIdTables}
    (hlimit : self.header.fileLen < usizeLimit) (h : self.validateLayout ar = .ok tables) :
    ∃ dict, Accepted { self with
      docToRowId := tables.docToRowId, rowIdToDoc := tables.rowIdToDoc } dict := by
  simp only [validateLayout, bind_eq_ok, rejectIf_eq_ok, exists_const, not_not] at h
  obtain ⟨_, hsections, _, -, read, hread, stop, hscan, hterms, hpostings, total, hlens, -, hsame⟩ := h
  obtain rfl := Except.ok.inj hsame
  have hsections := sections_of_validate hsections
  obtain ⟨hrows, hindexes⟩ := rowIds_of_read hread rfl SlotTable.Indexes.empty
  obtain ⟨dict, hcount, hscans⟩ := scans_of_scan hscan
  refine ⟨dict, hsections.fileLen ▸ hlimit, ⟨hsections.1, hsections.2, hsections.3, hsections.4,
    hsections.5, hsections.6, hsections.7, hsections.8, hsections.9⟩, by simpa using hrows, hindexes,
    hcount, ⟨_, _, hscans.withTables read, rfl, rfl, hterms, hpostings⟩, fun d hd => ?_⟩
  · have hlookup := hscans.docLens d
    rw [List.getElem?_replicate, if_pos hd, Option.map_some, Nat.zero_add] at hlookup
    have hlen := lens_of_check hlens hlookup
    rwa [Nat.zero_add] at hlen

/-- Whatever opens is accepted with a dictionary. -/
theorem open_accepted {ar : AvgArith} {bytes : List UInt8} {index : Bm25MmapIndex}
    (h : Bm25MmapIndex.open ar bytes = .ok index) :
    index.mmap = bytes ∧ ∃ dict, Accepted index dict := by
  simp only [Bm25MmapIndex.open, bind_eq_ok, pure, Except.pure, Except.ok.injEq] at h
  obtain ⟨header, hparse, tables, hvalid, rfl⟩ := h
  exact ⟨rfl, validateLayout_accepted (parse_fileLen_lt hparse) hvalid⟩

end Bm25MmapIndex

end OrdinalDB.Sparse
