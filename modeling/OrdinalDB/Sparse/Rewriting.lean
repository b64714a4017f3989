import OrdinalDB.Sparse.AtomicWrite
import OrdinalDB.Sparse.SelfConsistency

/-!
# Rewriting an index that is in use

`write_mmap` over a file that readers open: the bytes of a builder, put in place by `atomic_write`.

`readers_find_index`: whenever a reader opens the path, before, between or after any steps of any
number of writers, it finds an index of one builder.
-/

namespace OrdinalDB.Sparse

open Machine

open Replacement (Files)

open AtomicWrite (Call State Io next start)

/-- A tokenizer and the documents that are added. -/
abbrev Corpus := TokenizerKind × List (UInt64 × DocSource)

def Corpus.builder (corpus : Corpus) : SparseIndexBuilder :=
  (runCalls SparseIndexBuilder.add (.new corpus.1) corpus.2).2

/-- The bytes that `write_mmap` writes for a corpus. -/
structure Corpus.Builds (ar : AvgArith) (corpus : Corpus) (bytes : List UInt8) : Prop where
  short : ∀ doc ∈ corpus.builder.docs, ∀ term ∈ doc.terms, term.length < 2 ^ 32
  written : ∃ report, corpus.builder.writeMmap ar = .ok (bytes, report)

/-- The bytes open as the inverted index of the corpus. -/
def Corpus.Serves (ar : AvgArith) (corpus : Corpus) (bytes : List UInt8) : Prop :=
  ∃ built index, BuiltSparse.fromDocs ar corpus.1 corpus.builder.docs = .ok built ∧
    Describes ar corpus.builder.docs built ∧ Bm25MmapIndex.open ar bytes = .ok index ∧
    ∃ decoded, index.decode = .ok decoded ∧ decoded.rowIds = built.rowIds ∧
      decoded.terms = built.terms ∧ decoded.postings = built.postings

theorem Corpus.Builds.serves {ar : AvgArith} (har : ar.Lawful) {corpus : Corpus}
    {bytes : List UInt8} (h : corpus.Builds ar bytes) : corpus.Serves ar bytes := by
  obtain ⟨report, hwritten⟩ := h.written
  have hinv := RoundTripLemmas.builder_inv corpus.1 corpus.2
  obtain ⟨built, index, hbuilt, hdescribes, hopen, -, hdecode⟩ :=
    RoundTripLemmas.writeMmap_opens har hinv h.short hwritten
  exact ⟨built, index, hbuilt, hdescribes, hopen, _, hdecode, rfl, rfl, rfl⟩

/-- Wherever the writers are, the path holds the index of the corpus of before or of a writer that
has returned, whole. -/
theorem readers_find_index {P : Type} [DecidableEq P] {ar : AvgArith} (har : ar.Lawful)
    (name : String) (calls : P → Call (List UInt8)) (corpora : P → Corpus)
    (hcalls : ∀ p, (corpora p).Builds ar (calls p).content) (before : Files String (List UInt8))
    (old : Corpus) (bytes : List UInt8) (hbefore : before name = some (.file bytes))
    (hold : old.Builds ar bytes) (nonce : Nat → Nat)
    {trace : List (State P (List UInt8) × P × Io)} {t : State P (List UInt8)}
    (hrun : Run (fun s label u => next name calls s label = some u) (start before nonce) trace t) :
    AllStates (fun s => ∃ corpus bytes, s.files name = some (.file bytes) ∧
      corpus.Serves ar bytes ∧ ((∀ p, (s.writing p).pc ≠ .returned) ∧ corpus = old ∨
        ∃ p, (s.writing p).pc = .returned ∧ corpus = corpora p)) trace t := by
  have hserves : ∀ s, AtomicWrite.Inv name calls before s →
      ∃ corpus bytes, s.files name = some (.file bytes) ∧ corpus.Serves ar bytes ∧
        ((∀ p, (s.writing p).pc ≠ .returned) ∧ corpus = old ∨
          ∃ p, (s.writing p).pc = .returned ∧ corpus = corpora p) := by
    intro s hinv
    rcases hinv.target with ⟨hnone, htarget⟩ | ⟨p, hp, htarget⟩
    · exact ⟨old, bytes, htarget.trans hbefore, hold.serves har, .inl ⟨hnone, rfl⟩⟩
    · exact ⟨corpora p, _, htarget, (hcalls p).serves har, .inr ⟨p, hp, rfl⟩⟩
  have hinv := AtomicWrite.inv_of_run hrun
  exact ⟨fun entry hentry => hserves _ (hinv.1 entry hentry), hserves _ hinv.2⟩

/-! ## Two writers -/

/-- The file of a corpus. -/
def Corpus.file (corpus : Corpus) : List UInt8 :=
  match corpus.builder.writeMmap sampleAvg with
  | .ok (bytes, _) => bytes
  | .error _ => []

theorem Corpus.builds_file {corpus : Corpus}
    (hshort : ∀ doc ∈ corpus.builder.docs, ∀ term ∈ doc.terms, term.length < 2 ^ 32)
    (hok : (corpus.builder.writeMmap sampleAvg).isOk) : corpus.Builds sampleAvg corpus.file where
  short := hshort
  written := by
    unfold Corpus.file
    cases hwrite : corpus.builder.writeMmap sampleAvg with
    | error e =>
      rw [hwrite] at hok
      cases hok
    | ok out => exact ⟨out.2, rfl⟩

def sampleBuild : Corpus := (.simple, sampleCalls)

/-- What the two writers index. -/
def sampleCorpora (first : Bool) : Corpus :=
  if first then (.simple, [(30, .text "gamma".toList)])
  else (.simple, [(40, .text "delta delta".toList), (50, .text "gamma".toList)])

theorem sampleCorpora_builds (first : Bool) :
    (sampleCorpora first).Builds sampleAvg (sampleCorpora first).file := by
  cases first <;> exact Corpus.builds_file (by decide +kernel) (by decide +kernel)

/-- The index is written again by two writers. -/
def sampleRewriting : Option (State Bool (List UInt8)) :=
  exec (next "sparse.bm25" fun first => ⟨if first then 7 else 8, (sampleCorpora first).file⟩)
    (start (fun name => if name = "sparse.bm25" then some (.file sampleBuild.file) else none)
      fun _ => 0) AtomicWrite.sampleLabels

/-- A writer has returned, and the path holds the index of one that has. -/
theorem sampleRewriting_index : ∃ t bytes first, sampleRewriting = some t ∧
    (t.writing first).pc = .returned ∧ t.files "sparse.bm25" = some (.file bytes) ∧
    (sampleCorpora first).Serves sampleAvg bytes := by
  have hreturned : sampleRewriting.any fun t => decide ((t.writing true).pc = .returned) := by
    decide +kernel
  obtain ⟨t, ht, hdone⟩ := (Option.any_eq_true _ _).mp hreturned
  obtain ⟨trace, hrun⟩ := run_of_exec ht
  have hold : sampleBuild.Builds sampleAvg sampleBuild.file :=
    Corpus.builds_file (by decide +kernel) (by decide +kernel)
  obtain ⟨corpus, bytes, hfile, hserves, ⟨hnone, -⟩ | ⟨first, hfirst, rfl⟩⟩ :=
    (readers_find_index sampleAvg_lawful "sparse.bm25" _ sampleCorpora sampleCorpora_builds _
      sampleBuild sampleBuild.file rfl hold _ hrun).2
  · exact absurd (of_decide_eq_true hdone) (hnone true)
  · exact ⟨t, bytes, first, ht, hfirst, hfile, hserves⟩

end OrdinalDB.Sparse
