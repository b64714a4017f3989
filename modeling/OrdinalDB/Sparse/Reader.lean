import OrdinalDB.Sparse.Format

/-!
# Opening a sparse index

`Header::parse`, `validate_layout` and the accessors of `Bm25MmapIndex`. The
mapped file is a byte list. Validation is split into the stages the source runs
in order: sections, header scalars, row ids, dictionary scan, document lengths.
-/

namespace OrdinalDB.Sparse

open ByteCodec Float32Bits

/-! ## Words of the mapped file -/

/-- `le_u*_at`. The end of the slice is an unchecked addition. -/
def leAt (bytes : List UInt8) (w offset : Nat) : Checked Nat :=
  if offset + w < usizeLimit then
    match wordAt bytes w offset with
    | some value => .ok value
    | none => fail (.malformed s!"unexpected EOF reading u{8 * w}")
  else .error .panic

/-- `offset + n` on `usize`, unchecked. -/
def addUnchecked (a b : Nat) : Checked Nat :=
  if a + b < usizeLimit then .ok (a + b) else .error .panic

/-- `&bytes[start..end]`. -/
def sliceUnchecked (bytes : List UInt8) (start stop : Nat) : Checked (List UInt8) :=
  if start ≤ stop then
    match slice bytes start (stop - start) with
    | some chunk => .ok chunk
    | none => .error .panic
  else .error .panic

/-! ## The header -/

structure Header where
  docCount : Nat
  termCount : Nat
  postingsCount : Nat
  avgDocLen : F32
  k1 : F32
  b : F32
  tokenizer : TokenizerKind
  tokenizerVersion : Nat
  rowIdsOffset : Nat
  docLenOffset : Nat
  termTableOffset : Nat
  termBytesOffset : Nat
  postingsOffset : Nat
  fileLen : Nat
deriving DecidableEq, Repr

def TokenizerKind.fromU16 (value : Nat) : Checked TokenizerKind :=
  if value = 1 then .ok .simple
  else if value = 2 then .ok .identifierSubtokens
  else fail (.tokenizer s!"unknown tokenizer kind {value}")

def leF32At (bytes : List UInt8) (offset : Nat) : Checked F32 := do
  let bits ← leAt bytes 4 offset
  return ⟨UInt32.ofNat bits⟩

def Header.parse (bytes : List UInt8) : Checked Header := do
  rejectIf (bytes.length < headerLen)
    (.malformed s!"file length {bytes.length} is smaller than header length {headerLen}")
  rejectIf (bytes.take magic.length ≠ magic) (.malformed "invalid sparse mmap magic")
  let fileVersion ← leAt bytes 4 8
  rejectIf (fileVersion ≠ version) (.malformed "unsupported sparse mmap version")
  let fileHeaderLen ← leAt bytes 4 12
  rejectIf (fileHeaderLen ≠ headerLen) (.malformed "invalid sparse mmap header length")
  let endian ← leAt bytes 4 16
  rejectIf (endian ≠ endianMarker) (.malformed "invalid endian marker")
  let flags ← leAt bytes 4 20
  let reserved0 ← leAt bytes 4 28
  let reserved1 ← leAt bytes 4 68
  let reserved2 ← leAt bytes 8 120
  rejectIf (flags ≠ 0 ∨ reserved0 ≠ 0 ∨ reserved1 ≠ 0 ∨ reserved2 ≠ 0)
    (.malformed "reserved header bytes must be zero")
  let tokenizer ← TokenizerKind.fromU16 (← leAt bytes 2 24)
  let fileTokenizerVersion ← leAt bytes 2 26
  rejectIf (fileTokenizerVersion ≠ Sparse.tokenizerVersion)
    (.tokenizer s!"unsupported tokenizer version {fileTokenizerVersion}")
  let docCount ← leAt bytes 8 32
  let termCount ← leAt bytes 8 40
  let postingsCount ← leAt bytes 8 48
  let avgDocLen ← leF32At bytes 56
  let k1 ← leF32At bytes 60
  let b ← leF32At bytes 64
  let rowIdsOffset ← leAt bytes 8 72
  let docLenOffset ← leAt bytes 8 80
  let termTableOffset ← leAt bytes 8 88
  let termBytesOffset ← leAt bytes 8 96
  let postingsOffset ← leAt bytes 8 104
  let fileLen ← leAt bytes 8 112
  return ⟨docCount, termCount, postingsCount, avgDocLen, k1, b, tokenizer, fileTokenizerVersion,
    rowIdsOffset, docLenOffset, termTableOffset, termBytesOffset, postingsOffset, fileLen⟩

/-! ## The index and its accessors -/

structure Bm25MmapIndex where
  mmap : List UInt8
  header : Header
  docToRowId : List UInt64
  rowIdToDoc : Finmap fun _ : UInt64 => Nat

namespace Bm25MmapIndex

variable (self : Bm25MmapIndex)

def rowId (docOrdinal : Nat) : Checked UInt64 := do
  rejectIf (docOrdinal ≥ self.header.docCount) (.malformed "doc ordinal out of range")
  let offset ← checkedOffset self.header.rowIdsOffset docOrdinal rowIdLen
  return UInt64.ofNat (← leAt self.mmap 8 offset)

def docLen (docOrdinal : Nat) : Checked Nat := do
  rejectIf (docOrdinal ≥ self.header.docCount) (.malformed "doc ordinal out of range")
  let offset ← checkedOffset self.header.docLenOffset docOrdinal docLenLen
  leAt self.mmap 4 offset

def termEntry (idx : Nat) : Checked TermEntry := do
  rejectIf (idx ≥ self.header.termCount) (.malformed "term index out of range")
  let offset ← checkedOffset self.header.termTableOffset idx termEntryLen
  let reserved0 ← leAt self.mmap 4 (← addUnchecked offset 12)
  let reserved1 ← leAt self.mmap 4 (← addUnchecked offset 28)
  rejectIf (reserved0 ≠ 0 ∨ reserved1 ≠ 0) (.malformed "term entry reserved bytes must be zero")
  let termOffset ← leAt self.mmap 8 offset
  let termLen ← leAt self.mmap 4 (← addUnchecked offset 8)
  let postingsOffset ← leAt self.mmap 8 (← addUnchecked offset 16)
  let postingsLen ← leAt self.mmap 4 (← addUnchecked offset 24)
  return ⟨termOffset, termLen, postingsOffset, postingsLen⟩

def termBytes (entry : TermEntry) : Checked Term := do
  let stop ← checkedAdd entry.termOffset entry.termLen "term byte range overflow"
  rejectIf (entry.termOffset < self.header.termBytesOffset ∨ stop > self.header.postingsOffset)
    (.malformed "term byte range is outside term section")
  sliceUnchecked self.mmap entry.termOffset stop

/-- The start and the end of an entry's postings. -/
def postingRange (entry : TermEntry) : Checked (Nat × Nat) := do
  let stop ← checkedOffset entry.postingsOffset entry.postingsLen postingLen
  rejectIf (entry.postingsOffset < self.header.postingsOffset ∨ stop > self.mmap.length)
    (.malformed "posting range is outside postings section")
  return (entry.postingsOffset, stop)

/-- The offsets of `range.step_by(POSTING_LEN)`. -/
def postingOffsets (range : Nat × Nat) : List Nat :=
  (List.range ((range.2 - range.1 + (postingLen - 1)) / postingLen)).map
    fun i => range.1 + i * postingLen

/-! ## Validation -/

def checkedSection (fileLen base count elemLen : Nat) (label : String) : Checked Unit := do
  let stop ← checkedOffset base count elemLen
  rejectIf (base > fileLen ∨ stop > fileLen) (.malformed s!"{label} section exceeds file length")

def validateSections : Checked Unit := do
  let h := self.header
  rejectIf (h.fileLen ≠ self.mmap.length)
    (.malformed "header file_len does not match mapped length")
  rejectIf (h.rowIdsOffset ≠ headerLen) (.malformed "row-id section has noncanonical offset")
  rejectIf (h.docCount > u32Max) (.limit "doc count exceeds u32::MAX")
  let rowIdsEnd ← checkedOffset h.rowIdsOffset h.docCount rowIdLen
  rejectIf (rowIdsEnd ≠ h.docLenOffset) (.malformed "row-id section has noncanonical end offset")
  let docLenEnd ← checkedOffset h.docLenOffset h.docCount docLenLen
  rejectIf (docLenEnd ≠ h.termTableOffset)
    (.malformed "doc-length section has noncanonical end offset")
  let termTableEnd ← checkedOffset h.termTableOffset h.termCount termEntryLen
  rejectIf (termTableEnd ≠ h.termBytesOffset) (.malformed "term table has noncanonical end offset")
  checkedSection self.mmap.length h.rowIdsOffset h.docCount rowIdLen "row ids"
  checkedSection self.mmap.length h.docLenOffset h.docCount docLenLen "doc lengths"
  checkedSection self.mmap.length h.termTableOffset h.termCount termEntryLen "term table"
  checkedSection self.mmap.length h.postingsOffset h.postingsCount postingLen "postings"
  rejectIf (h.termBytesOffset > h.postingsOffset ∨ h.postingsOffset > self.mmap.length)
    (.malformed "invalid term/postings section offsets")

def validateScalars : Checked Unit := do
  let h := self.header
  rejectIf (!h.avgDocLen.isFinite || h.avgDocLen.lt F32.zero)
    (.malformed "avg_doc_len must be finite and non-negative")
  rejectIf (h.termCount > 0 ∧ h.avgDocLen.le F32.zero)
    (.malformed "avg_doc_len must be positive when terms are present")
  rejectIf (!h.k1.isFinite || h.k1.le F32.zero) (.malformed "k1 must be finite and positive")
  rejectIf (!h.b.isFinite || !(F32.zero.le h.b && h.b.le F32.one))
    (.malformed "b must be finite and in [0, 1]")

structure RowIdTables where
  docToRowId : List UInt64
  rowIdToDoc : Finmap fun _ : UInt64 => Nat

/-- Read the row ids from ordinal `idx` on. -/
def readRowIds : Nat → Nat → RowIdTables → Checked RowIdTables
  | 0, _, tables => .ok tables
  | count + 1, idx, tables => do
    let rowId ← self.rowId idx
    rejectIf (idx > u32Max) (.limit "doc ordinal exceeds u32::MAX")
    rejectIf (rowId ∈ tables.rowIdToDoc) (.rowId s!"duplicate row_id {rowId} in sparse mmap")
    readRowIds count (idx + 1)
      ⟨tables.docToRowId ++ [rowId], tables.rowIdToDoc.insert rowId idx⟩

/-- Add `tf` to the length computed for `docOrdinal`. -/
def addDocLen (lens : List Nat) (docOrdinal tf : Nat) : Checked (List Nat) :=
  match lens[docOrdinal]? with
  | none => .error .panic
  | some len => do
    let len ← checkedAdd len tf "computed document length overflow"
    return lens.set docOrdinal len

/-- Scan one term's postings. -/
def scanPostings : Option Nat → List Nat → List Nat → Checked (List Nat)
  | _, lens, [] => .ok lens
  | previous, lens, offset :: offsets => do
    let docOrdinal ← leAt self.mmap 4 offset
    rejectIf (docOrdinal ≥ self.header.docCount)
      (.malformed s!"posting doc ordinal {docOrdinal} exceeds doc count {self.header.docCount}")
    rejectIf (previous.any (· ≥ docOrdinal))
      (.malformed "postings for a term must have strictly increasing doc ordinals")
    let tf ← leAt self.mmap 2 (← addUnchecked offset 4)
    rejectIf (tf = 0) (.malformed "posting term frequency must be positive")
    let reserved ← leAt self.mmap 2 (← addUnchecked offset 6)
    rejectIf (reserved ≠ 0) (.malformed "posting reserved bytes must be zero")
    let lens ← addDocLen lens docOrdinal tf
    scanPostings (some docOrdinal) lens offsets

/-- `str::from_utf8`. -/
def fromUtf8 (bytes : Term) : Option (List Char) :=
  (String.fromUTF8? bytes.toByteArray).map String.toList

/-- The state of the dictionary scan. -/
structure ScanState where
  previous : Option Term
  termCursor : Nat
  postingCursor : Nat
  docLens : List Nat
deriving DecidableEq, Repr

def scanTerm (s : ScanState) (idx : Nat) : Checked ScanState := do
  let entry ← self.termEntry idx
  rejectIf (entry.termOffset ≠ s.termCursor) (.malformed "term bytes are not stored contiguously")
  rejectIf (entry.termLen = 0) (.malformed "term length must be positive")
  let term ← self.termBytes entry
  match fromUtf8 term with
  | none => fail (.malformed "term bytes are not valid UTF-8")
  | some text =>
    let preview := text.take 128
    rejectIf (!isNormalizedTermV1 term)
      (.notNormalized entry.termLen preview (term.length > (utf8 preview).length))
    rejectIf (s.previous.any fun previous => compare previous term ≠ .lt)
      (.malformed "term table is not strictly sorted")
    let termCursor ← checkedAdd entry.termOffset entry.termLen "term cursor overflow"
    let range ← self.postingRange entry
    rejectIf (range.1 ≠ s.postingCursor) (.malformed "postings are not stored contiguously")
    rejectIf (entry.postingsLen = 0) (.malformed "term entry has no postings")
    let docLens ← self.scanPostings none s.docLens (postingOffsets range)
    return ⟨some term, termCursor, range.2, docLens⟩

def scanTerms : Nat → Nat → ScanState → Checked ScanState
  | 0, _, s => .ok s
  | count + 1, idx, s => do
    let s ← self.scanTerm s idx
    scanTerms count (idx + 1) s

/-- Compare the stored document lengths with the computed ones, and total them. -/
def checkDocLens : Nat → Nat → List Nat → Checked Nat
  | _, total, [] => .ok total
  | idx, total, computed :: rest => do
    let stored ← self.docLen idx
    rejectIf (stored ≠ computed)
      (.malformed s!"doc_len for ordinal {idx} is {stored}, but postings imply {computed}")
    let total ← checkedAdd total stored "total document length overflow"
    checkDocLens (idx + 1) total rest

def validateLayout (ar : AvgArith) : Checked RowIdTables := do
  self.validateSections
  self.validateScalars
  let tables ← self.readRowIds self.header.docCount 0 ⟨[], ∅⟩
  let s ← self.scanTerms self.header.termCount 0
    ⟨none, self.header.termBytesOffset, self.header.postingsOffset,
      List.replicate self.header.docCount 0⟩
  rejectIf (s.termCursor ≠ self.header.postingsOffset)
    (.malformed "term bytes section has noncanonical end offset")
  rejectIf (s.postingCursor ≠ self.mmap.length)
    (.malformed "postings section has noncanonical end offset")
  let total ← self.checkDocLens 0 0 s.docLens
  rejectIf (ar.differs self.header.avgDocLen (ar.mean total self.header.docCount))
    (.malformed "avg_doc_len does not match document lengths")
  return tables

end Bm25MmapIndex

/-- Parse the header, validate the layout and pin the row-id tables. -/
def Bm25MmapIndex.open (ar : AvgArith) (bytes : List UInt8) : Checked Bm25MmapIndex := do
  let header ← Header.parse bytes
  let index : Bm25MmapIndex := ⟨bytes, header, [], ∅⟩
  let tables ← index.validateLayout ar
  return { index with docToRowId := tables.docToRowId, rowIdToDoc := tables.rowIdToDoc }

end OrdinalDB.Sparse
