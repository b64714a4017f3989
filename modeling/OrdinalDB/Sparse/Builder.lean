import OrdinalDB.Lib.Bytes
import OrdinalDB.Lib.F32
import OrdinalDB.Sparse.Tokenizer

/-!
# Building the sparse index and writing it

`SparseIndexBuilder` and `BuiltSparse` of `ordinaldb-hybrid/src/sparse.rs`: the
inverted index of the documents and its byte layout, a header of 128 bytes and
five sections.

`usize` is 64 bits. A checked operation reports its overflow as an error; an
unchecked one that leaves the range, or a slice out of range, is `Fault.panic`.
The division of the two totals and the reader's comparison of its result are
the parameter `AvgArith`.
-/

namespace OrdinalDB.Sparse

open ByteCodec Float32Bits

/-- `HybridError`. The last case is the malformed-layout text that quotes a term. -/
inductive HybridError
  | malformed (message : String)
  | tokenizer (message : String)
  | rowId (message : String)
  | limit (message : String)
  | notNormalized (termLen : Nat) (preview : List Char) (ellipsis : Bool)
deriving DecidableEq, Repr

inductive Fault
  | error (e : HybridError)
  | panic
deriving DecidableEq, Repr

abbrev Checked := Except Fault

def fail {α : Type} (e : HybridError) : Checked α := .error (.error e)

/-- `if bad { return Err(e) }`. -/
def rejectIf (bad : Prop) [Decidable bad] (e : HybridError) : Checked Unit :=
  if bad then fail e else .ok ()

theorem rejectIf_eq_ok {bad : Prop} [Decidable bad] {e : HybridError} {u : Unit} :
    rejectIf bad e = .ok u ↔ ¬bad := by
  by_cases h : bad <;> simp [rejectIf, fail, h]

theorem rejectIf_of_not {bad : Prop} {inst : Decidable bad} {e : HybridError} (h : ¬bad) :
    rejectIf bad e = .ok () := by
  simp [rejectIf, h]

/-- A step of a checked computation that went through. -/
theorem bind_eq_ok {α β : Type} {x : Checked α} {f : α → Checked β} {b : β} :
    (x >>= f) = .ok b ↔ ∃ a, x = .ok a ∧ f a = .ok b := by
  cases x <;> simp [bind, Except.bind]

@[simp] theorem ok_bind {α β : Type} (a : α) (f : α → Checked β) :
    ((Except.ok a : Checked α) >>= f) = f a := rfl

/-! ## Sizes -/

def usizeLimit : Nat := 2 ^ 64

def u32Max : Nat := 2 ^ 32 - 1

def checkedAdd (a b : Nat) (message : String) : Checked Nat :=
  if a + b < usizeLimit then .ok (a + b) else fail (.limit message)

def checkedOffset (base count elemLen : Nat) : Checked Nat :=
  if count * elemLen < usizeLimit then
    checkedAdd base (count * elemLen) "sparse mmap offset overflow"
  else fail (.limit "sparse mmap offset overflow")

theorem checkedAdd_eq_ok {a b n : Nat} {message : String} :
    checkedAdd a b message = .ok n ↔ a + b < usizeLimit ∧ n = a + b := by
  rw [checkedAdd]
  split <;> simp_all [fail, eq_comm]

theorem checkedOffset_eq_ok {base count elemLen n : Nat} :
    checkedOffset base count elemLen = .ok n ↔
      base + count * elemLen < usizeLimit ∧ n = base + count * elemLen := by
  rw [checkedOffset]
  split
  · exact checkedAdd_eq_ok
  · next h =>
    simp only [fail, reduceCtorEq, false_iff, not_and]
    intro hsum
    omega

/-! ## Format constants -/

/-- `ODBSBM1\0`. -/
def magic : List UInt8 := [0x4f, 0x44, 0x42, 0x53, 0x42, 0x4d, 0x31, 0x00]

def version : Nat := 1
def headerLen : Nat := 128
def endianMarker : Nat := 0x01020304
def tokenizerVersion : Nat := 1

/-- `1.2_f32`. -/
def defaultK1 : F32 := ⟨0x3f99999a⟩

/-- `0.75_f32`. -/
def defaultB : F32 := ⟨0x3f400000⟩

def termEntryLen : Nat := 32
def postingLen : Nat := 8
def rowIdLen : Nat := 8
def docLenLen : Nat := 4

/-- The `f32` operations on the average document length: `total as f32 / count as f32`,
and `(a - e).abs() > f32::EPSILON * e.max(1.0)`. -/
structure AvgArith where
  avg : Nat → Nat → F32
  differs : F32 → F32 → Bool

/-- The average document length: `0.0` without documents. -/
def AvgArith.mean (ar : AvgArith) (total count : Nat) : F32 :=
  if count = 0 then F32.zero else ar.avg total count

/-! ## The builder -/

structure PendingDoc where
  rowId : UInt64
  terms : List Term
deriving DecidableEq, Repr

structure SparseIndexBuilder where
  tokenizer : TokenizerKind
  docs : List PendingDoc
  seenRowIds : List UInt64
deriving DecidableEq, Repr

/-- The two ways to hand over a document. -/
inductive DocSource
  | text (text : List Char)
  | normalizedTerms (terms : List (List Char))

namespace SparseIndexBuilder

def new (tokenizer : TokenizerKind) : SparseIndexBuilder := ⟨tokenizer, [], []⟩

def addDoc (self : SparseIndexBuilder) (rowId : UInt64) (terms : List Term) :
    Checked Unit × SparseIndexBuilder :=
  if rowId ∈ self.seenRowIds then (fail (.rowId s!"duplicate row_id {rowId}"), self)
  else
    (.ok (), { self with
      docs := self.docs ++ [⟨rowId, terms⟩]
      seenRowIds := rowId :: self.seenRowIds })

def addText (self : SparseIndexBuilder) (rowId : UInt64) (text : List Char) :
    Checked Unit × SparseIndexBuilder :=
  self.addDoc rowId (tokenizeText self.tokenizer text)

def addNormalizedTerms (self : SparseIndexBuilder) (rowId : UInt64) (terms : List (List Char)) :
    Checked Unit × SparseIndexBuilder :=
  self.addDoc rowId (terms.filterMap fun term => normalizeTerm (utf8 term))

def add (self : SparseIndexBuilder) (call : UInt64 × DocSource) :
    Checked Unit × SparseIndexBuilder :=
  match call.2 with
  | .text text => self.addText call.1 text
  | .normalizedTerms terms => self.addNormalizedTerms call.1 terms

end SparseIndexBuilder

/-! ## The inverted index -/

structure BuiltSparse where
  tokenizer : TokenizerKind
  rowIds : List UInt64
  docLens : List Nat
  terms : List Term
  postings : List (List (Nat × Nat))
  postingsCount : Nat
  avgDocLen : F32
deriving DecidableEq, Repr

abbrev PostingMap := Std.TreeMap Term (List (Nat × Nat))

/-- The term counts of one document. -/
def countTerms : Std.TreeMap Term Nat → List Term → Checked (Std.TreeMap Term Nat)
  | counts, [] => .ok counts
  | counts, term :: terms =>
    if term = [] then fail (.tokenizer "empty normalized term")
    else countTerms (counts.alter term fun count => some (count.getD 0 + 1)) terms

/-- Append one document's counts to the postings of their terms. -/
def pushPostings (rowId : UInt64) (docOrdinal : Nat) :
    PostingMap → List (Term × Nat) → Checked PostingMap
  | postings, [] => .ok postings
  | postings, (term, count) :: counts =>
    if count ≤ 65535 then
      pushPostings rowId docOrdinal
        (postings.alter term fun list => some (list.getD [] ++ [(docOrdinal, count)])) counts
    else fail (.limit s!"term frequency {count} for row_id {rowId} exceeds u16::MAX")

structure BuildState where
  postings : PostingMap
  rowIds : List UInt64
  docLens : List Nat
  totalLen : Nat

def addDocument (s : BuildState) (docOrdinal : Nat) (doc : PendingDoc) : Checked BuildState := do
  rejectIf (docOrdinal > u32Max) (.limit "doc ordinal exceeds u32::MAX")
  rejectIf (doc.terms.length > u32Max)
    (.limit s!"document {doc.rowId} term count {doc.terms.length} exceeds u32::MAX")
  let totalLen ← checkedAdd s.totalLen doc.terms.length "total sparse document length overflow"
  let counts ← countTerms ∅ doc.terms
  let postings ← pushPostings doc.rowId docOrdinal s.postings counts.toList
  return ⟨postings, s.rowIds ++ [doc.rowId], s.docLens ++ [doc.terms.length], totalLen⟩

def addDocuments : BuildState → Nat → List PendingDoc → Checked BuildState
  | s, _, [] => .ok s
  | s, docOrdinal, doc :: docs => do
    let s ← addDocument s docOrdinal doc
    addDocuments s (docOrdinal + 1) docs

/-- The sum of the list lengths, with the overflow check of every addition. -/
def checkedTotal (message : String) : Nat → List Nat → Checked Nat
  | acc, [] => .ok acc
  | acc, len :: lens => do
    let acc ← checkedAdd acc len message
    checkedTotal message acc lens

def BuiltSparse.fromDocs (ar : AvgArith) (tokenizer : TokenizerKind) (docs : List PendingDoc) :
    Checked BuiltSparse := do
  let s ← addDocuments ⟨∅, [], [], 0⟩ 0 docs
  let entries := s.postings.toList
  let postingsCount ← checkedTotal "postings count overflow" 0 (entries.map (·.2.length))
  let avgDocLen := ar.mean s.totalLen docs.length
  return ⟨tokenizer, s.rowIds, s.docLens, entries.map Prod.fst, entries.map Prod.snd,
    postingsCount, avgDocLen⟩

end OrdinalDB.Sparse
