import OrdinalDB.Sparse.Builder

/-!
# The bytes of a sparse index

`BuiltSparse::to_bytes` and `SparseIndexBuilder::write_mmap`. Every record of
the format is a list of words, so the header and the table entries are
`ByteCodec.Fields`. A word keeps the low bytes of its value, like the `as`
casts of the source.
-/

namespace OrdinalDB.Sparse

open ByteCodec Float32Bits

/-- The section offsets `to_bytes` computes. -/
structure Offsets where
  rowIds : Nat
  docLen : Nat
  termTable : Nat
  termBytes : Nat
  postings : Nat
  fileLen : Nat
deriving DecidableEq, Repr

structure TermEntry where
  termOffset : Nat
  termLen : Nat
  postingsOffset : Nat
  postingsLen : Nat
deriving DecidableEq, Repr

def TermEntry.fields (entry : TermEntry) : Fields :=
  [(8, entry.termOffset), (4, entry.termLen), (4, 0),
    (8, entry.postingsOffset), (4, entry.postingsLen), (4, 0)]

def postingFields (posting : Nat × Nat) : Fields := [(4, posting.1), (2, posting.2), (2, 0)]

namespace BuiltSparse

def offsets (self : BuiltSparse) : Checked Offsets := do
  let termBytesLen ← checkedTotal "term bytes length overflow" 0 (self.terms.map List.length)
  let rowIds := headerLen
  let docLen ← checkedOffset rowIds self.rowIds.length rowIdLen
  let termTable ← checkedOffset docLen self.docLens.length docLenLen
  let termBytes ← checkedOffset termTable self.terms.length termEntryLen
  let postings ← checkedAdd termBytes termBytesLen "term bytes section overflow"
  let fileLen ← checkedOffset postings self.postingsCount postingLen
  return ⟨rowIds, docLen, termTable, termBytes, postings, fileLen⟩

/-- The term table, with the two cursors the loop moves. -/
def termEntries : Nat → Nat → List (Term × List (Nat × Nat)) → Checked (List TermEntry)
  | _, _, [] => .ok []
  | termCursor, postingCursor, (term, postings) :: rest => do
    let entry := ⟨termCursor, term.length, postingCursor, postings.length⟩
    let termCursor ← checkedAdd termCursor term.length "term cursor overflow"
    let postingCursor ← checkedOffset postingCursor postings.length postingLen
    return entry :: (← termEntries termCursor postingCursor rest)

/-- The header behind the magic. -/
def headerFields (self : BuiltSparse) (at' : Offsets) : Fields :=
  [(4, version), (4, headerLen), (4, endianMarker), (4, 0),
    (2, self.tokenizer.toU16), (2, tokenizerVersion), (4, 0),
    (8, self.rowIds.length), (8, self.terms.length), (8, self.postingsCount),
    (4, self.avgDocLen.bits.toNat), (4, defaultK1.bits.toNat), (4, defaultB.bits.toNat), (4, 0),
    (8, at'.rowIds), (8, at'.docLen), (8, at'.termTable), (8, at'.termBytes), (8, at'.postings),
    (8, at'.fileLen), (8, 0)]

def toBytes (self : BuiltSparse) : Checked (List UInt8) := do
  let at' ← self.offsets
  let entries ← termEntries at'.termBytes at'.postings (self.terms.zip self.postings)
  return magic ++ (encode (self.headerFields at') ++
    (self.rowIds.flatMap (fun rowId => le 8 rowId.toNat) ++
    (self.docLens.flatMap (fun len => le 4 len) ++
    (entries.flatMap (fun entry => encode entry.fields) ++
    (self.terms.flatMap id ++
      self.postings.flatten.flatMap fun posting => encode (postingFields posting))))))

end BuiltSparse

structure SparseBuildReport where
  rowCount : Nat
  termCount : Nat
  postingsCount : Nat
  tokenizer : TokenizerKind
  tokenizerVersion : Nat
  avgDocLen : F32
  fileSizeBytes : Nat
deriving DecidableEq, Repr

/-- The written bytes and the report. Writing them to the path is left to the caller. -/
def SparseIndexBuilder.writeMmap (ar : AvgArith) (self : SparseIndexBuilder) :
    Checked (List UInt8 × SparseBuildReport) := do
  rejectIf (self.docs.length > u32Max)
    (.limit s!"sparse doc count {self.docs.length} exceeds u32::MAX")
  let built ← BuiltSparse.fromDocs ar self.tokenizer self.docs
  let bytes ← built.toBytes
  return (bytes, ⟨self.docs.length, built.terms.length, built.postingsCount, self.tokenizer,
    tokenizerVersion, built.avgDocLen, bytes.length⟩)

end OrdinalDB.Sparse
