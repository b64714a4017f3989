import OrdinalDB.Lib.SwapRemove
import OrdinalDB.Sparse.Dictionary
import OrdinalDB.Sparse.Reader

/-!
# A written index, as its reader finds it

`Layout` places the header and the five sections of a written file, `Written`
adds what the builder guarantees of their content. The header parses to the
built values (`parse_ok`) and the checks before the dictionary scan pass:
`validateSections_ok`, `validateScalars_ok`, `readRowIds_ok`.
-/

namespace OrdinalDB.Sparse

open ByteCodec Float32Bits

/-- What `f32` division and comparison are relied on for. -/
structure AvgArith.Lawful (ar : AvgArith) : Prop where
  finite : ∀ total count, total < usizeLimit → 0 < count → count < usizeLimit →
    (ar.avg total count).isFinite
  nonneg : ∀ total count, total < usizeLimit → 0 < count → count < usizeLimit →
    (ar.avg total count).lt F32.zero = false
  pos : ∀ total count, 0 < total → total < usizeLimit → 0 < count → count < usizeLimit →
    (ar.avg total count).le F32.zero = false
  self : ∀ x : F32, x.isFinite → ar.differs x x = false

namespace LayoutLemmas

theorem mapM_ok {α β : Type} {f : α → Checked β} {xs : List α} {ys : List β}
    (h : List.Forall₂ (fun x y => f x = .ok y) xs ys) : xs.mapM f = .ok ys := by
  induction h with
  | nil => rfl
  | cons hx _ ih => simp [List.mapM_cons, hx, ih, pure, Except.pure]

theorem forall₂_range {α : Type} {R : Nat → α → Prop} {ys : List α} {n : Nat} (hn : n = ys.length)
    (h : ∀ i y, ys[i]? = some y → R i y) : List.Forall₂ R (List.range n) ys := by
  subst hn
  rw [List.forall₂_iff_get]
  refine ⟨by simp, fun i hi hi' => ?_⟩
  simpa using h i _ (List.getElem?_eq_getElem hi')

theorem leAt_ok {bytes : List UInt8} {off w v : Nat} (h : At bytes off (le w v)) (hv : v < 256 ^ w)
    (hlen : bytes.length < usizeLimit) : leAt bytes w off = .ok v := by
  have hle := h.le_length
  rw [ByteCodec.le_length] at hle
  rw [leAt, if_pos (by omega), h.wordAt_eq hv]

/-! ## The sections -/

/-- Where the parts of a written index stand. -/
structure Layout (built : BuiltSparse) (bytes : List UInt8) (at' : Offsets)
    (entries : List TermEntry) : Prop where
  magic : At bytes 0 Sparse.magic
  header : At bytes 8 (encode (built.headerFields at'))
  rowIds : At bytes at'.rowIds (built.rowIds.flatMap fun rowId => le 8 rowId.toNat)
  docLens : At bytes at'.docLen (built.docLens.flatMap fun len => le 4 len)
  table : At bytes at'.termTable (entries.flatMap fun entry => encode entry.fields)
  terms : At bytes at'.termBytes (built.terms.flatMap id)
  postings : At bytes at'.postings
    (built.postings.flatten.flatMap fun posting => encode (postingFields posting))
  length : bytes.length = at'.fileLen

/-- The offsets, as sums of the section sizes. -/
structure OffsetSums (built : BuiltSparse) (at' : Offsets) : Prop where
  rowIds : at'.rowIds = 128
  docLen : at'.docLen = 128 + built.rowIds.length * 8
  termTable : at'.termTable = at'.docLen + built.docLens.length * 4
  termBytes : at'.termBytes = at'.termTable + built.terms.length * 32
  postings : at'.postings = at'.termBytes + (built.terms.map List.length).sum
  fileLen : at'.fileLen = at'.postings + built.postingsCount * 8
  fileLen_lt : at'.fileLen < usizeLimit

open DictionaryLemmas in
theorem offsets_sums {built : BuiltSparse} {at' : Offsets} (h : built.offsets = .ok at') :
    OffsetSums built at' := by
  simp only [BuiltSparse.offsets, bind_eq_ok, checkedOffset_eq_ok, checkedAdd_eq_ok, pure,
    Except.pure, Except.ok.injEq, headerLen, rowIdLen, docLenLen, termEntryLen, postingLen] at h
  obtain ⟨len, hlen, _, ⟨-, rfl⟩, _, ⟨-, rfl⟩, _, ⟨-, rfl⟩, _, ⟨-, rfl⟩, _, ⟨hlt, rfl⟩, rfl⟩ := h
  have hsum := checkedTotal_eq_ok hlen
  rw [Nat.zero_add] at hsum
  subst hsum
  exact ⟨rfl, rfl, rfl, rfl, rfl, rfl, hlt⟩

/-- Entry `i` of the term table: the cursors have moved past the terms before it. -/
theorem termEntries_spec {termCursor postingCursor : Nat}
    {items : List (Term × List (Nat × Nat))} {entries : List TermEntry}
    (h : BuiltSparse.termEntries termCursor postingCursor items = .ok entries) :
    entries.length = items.length ∧ ∀ (i : Nat) item, items[i]? = some item →
      entries[i]? = some (TermEntry.mk
        (termCursor + ((items.take i).map fun entry => entry.1.length).sum) item.1.length
        (postingCursor + ((items.take i).map fun entry => entry.2.length).sum * 8)
        item.2.length) := by
  induction items generalizing termCursor postingCursor entries with
  | nil =>
    obtain rfl := Except.ok.inj h
    simp
  | cons head items ih =>
    obtain ⟨term, postings⟩ := head
    simp only [BuiltSparse.termEntries, bind_eq_ok, checkedOffset_eq_ok, checkedAdd_eq_ok, pure,
      Except.pure, Except.ok.injEq, postingLen] at h
    obtain ⟨_, ⟨-, rfl⟩, _, ⟨-, rfl⟩, rest, hrest, rfl⟩ := h
    obtain ⟨hlen, hentry⟩ := ih hrest
    refine ⟨by simp [hlen], fun i item hi => ?_⟩
    cases i with
    | zero =>
      obtain rfl := Option.some.inj hi
      simp
    | succ i =>
      rw [List.getElem?_cons_succ] at hi ⊢
      rw [hentry i item hi]
      simp only [List.take_succ_cons, List.map_cons, List.sum_cons, Option.some.injEq,
        TermEntry.mk.injEq]
      exact ⟨by ring, trivial, by ring, trivial⟩

open DictionaryLemmas in
theorem toBytes_layout {ar : AvgArith} {docs : List PendingDoc} {built : BuiltSparse}
    {bytes : List UInt8} (hd : Describes ar docs built) (h : built.toBytes = .ok bytes) :
    ∃ at' entries, OffsetSums built at' ∧ Layout built bytes at' entries ∧
      BuiltSparse.termEntries at'.termBytes at'.postings (built.terms.zip built.postings) =
        .ok entries := by
  simp only [BuiltSparse.toBytes, bind_eq_ok, pure, Except.pure, Except.ok.injEq] at h
  obtain ⟨at', hoff, entries, hentries, rfl⟩ := h
  have hsums := offsets_sums hoff
  have hitems : (built.terms.zip built.postings).length = built.terms.length := by
    simp [hd.postings]
  have hlen := (termEntries_spec hentries).1.trans hitems
  refine ⟨at', entries, hsums, ?_, hentries⟩
  generalize hbytes : magic ++ _ = bytes
  have hwhole := At.whole bytes
  nth_rewrite 2 [← hbytes] at hwhole
  have hheader := hwhole.right
  have hrowIds := hheader.right
  have hdocLens := hrowIds.right
  have htable := hdocLens.right
  have hterms := htable.right
  have hpostings := hterms.right
  have hentry (entry : TermEntry) : (encode entry.fields).length = 32 := by
    simp [width, TermEntry.fields]
  have hposting (posting : Nat × Nat) : (encode (postingFields posting)).length = 8 := by
    simp [width, postingFields]
  have hterms_len : (built.terms.flatMap id).length = (built.terms.map List.length).sum := by
    simp
  have hpostings_len : (built.postings.flatten.flatMap fun posting =>
      encode (postingFields posting)).length = built.postingsCount * 8 := by
    rw [At.flatMap_length_eq hposting, List.length_flatten, hd.count]
  have hheader_len : (encode (built.headerFields at')).length = 120 := by
    simp [width, BuiltSparse.headerFields]
  simp only [At.flatMap_length_eq (fun rowId : UInt64 => ByteCodec.le_length 8 rowId.toNat),
    At.flatMap_length_eq (fun len : Nat => ByteCodec.le_length 4 len),
    At.flatMap_length_eq hentry, hheader_len, hlen, hterms_len,
    show magic.length = 8 from rfl] at hheader hrowIds hdocLens htable hterms hpostings
  obtain ⟨h₁, h₂, h₃, h₄, h₅, h₆, -⟩ := hsums
  refine ⟨hwhole.left, by simpa using hheader.left, ?_, ?_, ?_, ?_, ?_, ?_⟩
  · rw [h₁]
    exact hrowIds.left
  · rw [h₂]
    exact hdocLens.left
  · rw [h₃, h₂]
    exact htable.left
  · rw [h₄, h₃, h₂]
    exact hterms.left
  · rw [h₅, h₄, h₃, h₂]
    exact hpostings
  · rw [← hbytes, h₆, h₅, h₄, h₃, h₂]
    simp only [List.length_append,
      At.flatMap_length_eq (fun rowId : UInt64 => ByteCodec.le_length 8 rowId.toNat),
      At.flatMap_length_eq (fun len : Nat => ByteCodec.le_length 4 len),
      At.flatMap_length_eq hentry, hheader_len, hlen, hterms_len, hpostings_len,
      show magic.length = 8 from rfl]
    omega

/-! ## The header -/

/-- The header of a written index. -/
abbrev headerOf (built : BuiltSparse) (at' : Offsets) : Header :=
  ⟨built.rowIds.length, built.terms.length, built.postingsCount, built.avgDocLen, defaultK1,
    defaultB, built.tokenizer, tokenizerVersion, at'.rowIds, at'.docLen, at'.termTable,
    at'.termBytes, at'.postings, at'.fileLen⟩

/-- The widths of the words behind the magic. -/
def headerWidths : List Nat := [4, 4, 4, 4, 2, 2, 4, 8, 8, 8, 4, 4, 4, 4, 8, 8, 8, 8, 8, 8, 8]

/-- Word `i` behind the magic, at the sum of the widths before it. -/
theorem headerWord_ok {built : BuiltSparse} {bytes : List UInt8} {at' : Offsets}
    {entries : List TermEntry} (hl : Layout built bytes at' entries)
    (hlt : bytes.length < usizeLimit) {i w v off : Nat}
    (hi : (built.headerFields at')[i]? = some (w, v))
    (hoff : 8 + (headerWidths.take i).sum = off) (hv : v < 256 ^ w) :
    leAt bytes w off = .ok v := by
  subst hoff
  have hwidth : width ((built.headerFields at').take i) = (headerWidths.take i).sum := by
    rw [width, List.map_take]
    rfl
  exact leAt_ok (hwidth ▸ hl.header.fields hi) hv hlt

theorem fromU16_toU16 (tokenizer : TokenizerKind) :
    TokenizerKind.fromU16 tokenizer.toU16 = .ok tokenizer := by
  cases tokenizer <;> rfl

theorem leF32At_ok {bytes : List UInt8} {off : Nat} {x : F32}
    (h : leAt bytes 4 off = .ok x.bits.toNat) : leF32At bytes off = .ok x := by
  rw [leF32At, h, ok_bind, UInt32.ofNat_toNat]
  rfl

theorem parse_ok {built : BuiltSparse} {bytes : List UInt8} {at' : Offsets}
    {entries : List TermEntry} (hs : OffsetSums built at') (hl : Layout built bytes at' entries) :
    Header.parse bytes = .ok (headerOf built at') := by
  have hlt : bytes.length < usizeLimit := hl.length ▸ hs.fileLen_lt
  have hlen : headerLen ≤ bytes.length := by
    have := hl.header.le_length
    simp only [encode_length, width, BuiltSparse.headerFields, List.map_cons, List.map_nil,
      List.sum_cons, List.sum_nil] at this
    unfold headerLen
    omega
  have hmagic : bytes.take magic.length = magic := by
    obtain ⟨before, after, heq, hbefore⟩ := hl.magic
    obtain rfl := List.eq_nil_of_length_eq_zero hbefore
    simp [heq]
  have word {i w v : Nat} (off : Nat) (hi : (built.headerFields at')[i]? = some (w, v))
      (hoff : 8 + (headerWidths.take i).sum = off) (hv : v < 256 ^ w) :
      leAt bytes w off = .ok v := headerWord_ok hl hlt hi hoff hv
  have float {i : Nat} {x : F32} (off : Nat)
      (hi : (built.headerFields at')[i]? = some (4, x.bits.toNat))
      (hoff : 8 + (headerWidths.take i).sum = off) : leF32At bytes off = .ok x :=
    leF32At_ok (word off hi hoff x.bits.toNat_lt)
  obtain ⟨h₁, h₂, h₃, h₄, h₅, h₆, hfile⟩ := hs
  rw [usizeLimit] at hfile
  have htok : built.tokenizer.toU16 < 256 ^ 2 := by cases built.tokenizer <;> decide
  simp only [Header.parse, hmagic,
    rejectIf_of_not (Nat.not_lt.mpr hlen),
    word (i := 0) 8 rfl rfl (by norm_num [version]),
    word (i := 1) 12 rfl rfl (by unfold headerLen; omega),
    word (i := 2) 16 rfl rfl (by unfold endianMarker; omega), word (i := 3) 20 rfl rfl (by norm_num),
    word (i := 4) 24 rfl rfl htok, word (i := 5) 26 rfl rfl (by norm_num [tokenizerVersion]),
    word (i := 6) 28 rfl rfl (by norm_num), word (i := 7) 32 rfl rfl (by omega),
    word (i := 8) 40 rfl rfl (by omega), word (i := 9) 48 rfl rfl (by omega),
    float (i := 10) 56 rfl rfl, float (i := 11) 60 rfl rfl, float (i := 12) 64 rfl rfl,
    word (i := 13) 68 rfl rfl (by norm_num), word (i := 14) 72 rfl rfl (by omega),
    word (i := 15) 80 rfl rfl (by omega), word (i := 16) 88 rfl rfl (by omega),
    word (i := 17) 96 rfl rfl (by omega), word (i := 18) 104 rfl rfl (by omega),
    word (i := 19) 112 rfl rfl (by omega), word (i := 20) 120 rfl rfl (by norm_num), ok_bind,
    ne_eq, not_true_eq_false, or_self, fromU16_toU16, rejectIf_of_not not_false]
  rfl

/-! ## The stages of the validation -/

/-- Where the bytes of term `i` start. -/
def termStart (built : BuiltSparse) (at' : Offsets) (i : Nat) : Nat :=
  at'.termBytes + ((built.terms.take i).map List.length).sum

/-- Where the postings of term `i` start. -/
def postingStart (docs : List PendingDoc) (built : BuiltSparse) (at' : Offsets) (i : Nat) : Nat :=
  at'.postings + ((built.terms.take i).map fun t => (postingsOf docs t).length).sum * 8

/-- Entry `i` of the term table. -/
def entryOf (docs : List PendingDoc) (built : BuiltSparse) (at' : Offsets) (i : Nat) (term : Term) :
    TermEntry :=
  ⟨termStart built at' i, term.length, postingStart docs built at' i, (postingsOf docs term).length⟩

/-- A written index: what was built, where its parts stand, and what the builder guarantees. -/
structure Written (ar : AvgArith) (docs : List PendingDoc) (built : BuiltSparse)
    (bytes : List UInt8) (at' : Offsets) (entries : List TermEntry) : Prop where
  describes : Describes ar docs built
  sums : OffsetSums built at'
  layout : Layout built bytes at' entries
  entry : ∀ i term, built.terms[i]? = some term →
    entries[i]? = some (entryOf docs built at' i term)
  entries_length : entries.length = built.terms.length
  rowIds_nodup : built.rowIds.Nodup
  docs_le : docs.length ≤ u32Max
  normalized : ∀ term ∈ built.terms, isNormalizedTermV1 term
  term_lt : ∀ term ∈ built.terms, term.length < 2 ^ 32

namespace Written

variable {ar : AvgArith} {docs : List PendingDoc} {built : BuiltSparse} {bytes : List UInt8}
  {at' : Offsets} {entries : List TermEntry} {self : Bm25MmapIndex}

theorem docCount (w : Written ar docs built bytes at' entries) :
    built.rowIds.length = docs.length := by
  rw [w.describes.rowIds, List.length_map]

theorem docLens_length (w : Written ar docs built bytes at' entries) :
    built.docLens.length = docs.length := by
  rw [w.describes.docLens, List.length_map]

theorem bytes_lt (w : Written ar docs built bytes at' entries) : bytes.length < usizeLimit :=
  w.layout.length ▸ w.sums.fileLen_lt

theorem validateSections_ok (w : Written ar docs built bytes at' entries)
    (hm : self.mmap = bytes) (hh : self.header = headerOf built at') :
    self.validateSections = .ok () := by
  obtain ⟨h₁, h₂, h₃, h₄, h₅, h₆, hlt⟩ := w.sums
  have hfile := w.layout.length
  have hdocs := w.docCount
  have hlens := w.docLens_length
  have hle := w.docs_le
  simp only [Bm25MmapIndex.validateSections, Bm25MmapIndex.checkedSection, hm, hh, headerOf,
    bind_eq_ok, rejectIf_eq_ok, checkedOffset_eq_ok, exists_const, and_assoc, exists_and_left,
    exists_eq_left, headerLen, rowIdLen, docLenLen, termEntryLen, postingLen]
  omega

theorem avg_eq (w : Written ar docs built bytes at' entries) :
    built.avgDocLen = ar.mean built.docLens.sum docs.length := by
  rw [w.describes.avg, w.describes.docLens]

theorem total_pos (w : Written ar docs built bytes at' entries) (h : built.terms ≠ []) :
    0 < built.docLens.sum ∧ docs ≠ [] := by
  obtain ⟨term, hterm⟩ := List.exists_mem_of_ne_nil _ h
  obtain ⟨doc, hdoc, hmem⟩ := (w.describes.mem_terms term).mp hterm
  refine ⟨?_, List.ne_nil_of_mem hdoc⟩
  have hlen : doc.terms.length ∈ built.docLens := by
    rw [w.describes.docLens]
    exact List.mem_map_of_mem hdoc
  exact Nat.lt_of_lt_of_le (List.length_pos_of_mem hmem) (List.single_le_sum (by simp) _ hlen)

theorem docs_length_lt (w : Written ar docs built bytes at' entries) :
    docs.length < usizeLimit :=
  Nat.lt_of_le_of_lt w.docs_le (by unfold u32Max usizeLimit; omega)

theorem total_lt (w : Written ar docs built bytes at' entries) : built.docLens.sum < usizeLimit :=
  w.describes.docLens ▸ w.describes.total_lt

theorem avg_finite (w : Written ar docs built bytes at' entries) (har : ar.Lawful) :
    built.avgDocLen.isFinite := by
  rw [w.avg_eq, AvgArith.mean]
  split
  · decide
  · next hne => exact har.finite _ _ w.total_lt (Nat.pos_of_ne_zero hne) w.docs_length_lt

theorem avg_nonneg (w : Written ar docs built bytes at' entries) (har : ar.Lawful) :
    built.avgDocLen.lt F32.zero = false := by
  rw [w.avg_eq, AvgArith.mean]
  split
  · decide
  · next hne => exact har.nonneg _ _ w.total_lt (Nat.pos_of_ne_zero hne) w.docs_length_lt

theorem validateScalars_ok (w : Written ar docs built bytes at' entries) (har : ar.Lawful)
    (hh : self.header = headerOf built at') : self.validateScalars = .ok () := by
  have hpositive : ¬(built.terms.length > 0 ∧ built.avgDocLen.le F32.zero = true) := by
    rintro ⟨hterms, hle⟩
    obtain ⟨hsum, hdocs⟩ := w.total_pos (List.length_pos_iff.mp hterms)
    have hpos : 0 < docs.length := List.length_pos_iff.mpr hdocs
    rw [w.avg_eq, AvgArith.mean, if_neg (by omega), har.pos _ _ hsum w.total_lt hpos w.docs_length_lt] at hle
    cases hle
  simp only [Bm25MmapIndex.validateScalars, hh, headerOf, w.avg_finite har, w.avg_nonneg har, ok_bind,
    rejectIf_of_not hpositive]
  rfl

/-! ### Row ids -/

theorem rowId_ok (w : Written ar docs built bytes at' entries) (hm : self.mmap = bytes)
    (hh : self.header = headerOf built at') {i : Nat} {rowId : UInt64}
    (hi : built.rowIds[i]? = some rowId) : self.rowId i = .ok rowId := by
  obtain ⟨hlt, -⟩ := List.getElem?_eq_some_iff.mp hi
  have hword := w.layout.rowIds.flatMap (fun r => ByteCodec.le_length 8 r.toNat) hi
  have hbound := hword.le_length
  have hlimit := w.bytes_lt
  have hoff : checkedOffset at'.rowIds i 8 = .ok (at'.rowIds + i * 8) :=
    checkedOffset_eq_ok.mpr ⟨by omega, rfl⟩
  have hnot : ¬i ≥ built.rowIds.length := by omega
  simp only [Bm25MmapIndex.rowId, hm, hh, headerOf, rejectIf_of_not hnot, rowIdLen, hoff, ok_bind,
    leAt_ok hword rowId.toNat_lt hlimit]
  rw [UInt64.ofNat_toNat]
  rfl

theorem docLen_ok (w : Written ar docs built bytes at' entries) (hm : self.mmap = bytes)
    (hh : self.header = headerOf built at') {i len : Nat} (hi : built.docLens[i]? = some len) :
    self.docLen i = .ok len := by
  obtain ⟨hlt, -⟩ := List.getElem?_eq_some_iff.mp hi
  have hword := w.layout.docLens.flatMap (fun n => ByteCodec.le_length 4 n) hi
  have hbound := hword.le_length
  have hlimit := w.bytes_lt
  have hoff : checkedOffset at'.docLen i 4 = .ok (at'.docLen + i * 4) :=
    checkedOffset_eq_ok.mpr ⟨by omega, rfl⟩
  have hnot : ¬i ≥ built.rowIds.length := by
    rw [w.docCount, ← w.docLens_length]
    omega
  have hlen : len < 256 ^ 4 := by
    have hmem := List.mem_of_getElem? hi
    rw [w.describes.docLens] at hmem
    obtain ⟨doc, hdoc, rfl⟩ := List.mem_map.mp hmem
    have := w.describes.docLen_le doc hdoc
    unfold u32Max at this
    omega
  simp only [Bm25MmapIndex.docLen, hm, hh, headerOf, rejectIf_of_not hnot, docLenLen, hoff, ok_bind,
    leAt_ok hword hlen hlimit]

/-- The row-id tables: all row ids in order, and the map that inverts them. -/
theorem readRowIds_ok (w : Written ar docs built bytes at' entries) (hm : self.mmap = bytes)
    (hh : self.header = headerOf built at') {count idx : Nat} {tables : Bm25MmapIndex.RowIdTables}
    (hcount : idx + count = built.rowIds.length) (hids : tables.docToRowId = built.rowIds.take idx)
    (hindex : SlotTable.Indexes tables.rowIdToDoc tables.docToRowId) :
    ∃ out, self.readRowIds count idx tables = .ok out ∧ out.docToRowId = built.rowIds ∧
      SlotTable.Indexes out.rowIdToDoc built.rowIds := by
  induction count generalizing idx tables with
  | zero =>
    have hall : tables.docToRowId = built.rowIds := by rw [hids, List.take_of_length_le (by omega)]
    exact ⟨tables, rfl, hall, hall ▸ hindex⟩
  | succ count ih =>
    have hlt : idx < built.rowIds.length := by omega
    obtain ⟨rowId, hi⟩ : ∃ rowId, built.rowIds[idx]? = some rowId :=
      ⟨_, List.getElem?_eq_getElem hlt⟩
    have hnd : (built.rowIds.take idx ++ [rowId]).Nodup := by
      have htake : built.rowIds.take (idx + 1) = built.rowIds.take idx ++ [rowId] := by
        simp [List.take_add_one, hi]
      exact htake ▸ w.rowIds_nodup.sublist (List.take_sublist _ _)
    have hfresh : rowId ∉ tables.docToRowId := by
      rw [hids]
      exact fun hmem => (List.nodup_append.mp hnd).2.2 rowId hmem rowId List.mem_cons_self rfl
    have hlen : tables.docToRowId.length = idx := by
      rw [hids, List.length_take]
      omega
    have hord : ¬idx > u32Max := by
      have := w.docCount
      have := w.docs_le
      omega
    have hnotin : rowId ∉ tables.rowIdToDoc := fun hmem => hfresh (hindex.mem_iff.mp hmem)
    simp only [Bm25MmapIndex.readRowIds, w.rowId_ok hm hh hi, ok_bind, rejectIf_of_not hord,
      rejectIf_of_not hnotin]
    refine ih (by omega) ?_ ?_
    · simp [hids, List.take_add_one, hi]
    · exact hlen ▸ hindex.concat hfresh

end Written

end LayoutLemmas

end OrdinalDB.Sparse
