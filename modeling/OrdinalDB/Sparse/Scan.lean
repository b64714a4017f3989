import OrdinalDB.Sparse.Layout

/-!
# The dictionary scan of a written index

One term at a time: its entry, its bytes and its postings read back
(`termEntry_ok`, `termBytes_ok`, `postingAt`), the postings add their
frequencies to the computed document lengths (`scanPostings_ok`), and the scan
of all terms ends with exactly the stored lengths (`scanTerms_ok`).
-/

namespace OrdinalDB.Sparse

open ByteCodec Float32Bits LayoutLemmas

namespace ScanLemmas

variable {ar : AvgArith} {docs : List PendingDoc} {built : BuiltSparse} {bytes : List UInt8}
  {at' : Offsets} {entries : List TermEntry} {self : Bm25MmapIndex}

/-! ## Cursors -/

theorem sum_take_succ {α : Type} (f : α → Nat) {xs : List α} {i : Nat} {x : α}
    (h : xs[i]? = some x) : ((xs.take (i + 1)).map f).sum = ((xs.take i).map f).sum + f x := by
  simp [List.take_add_one, h]

theorem sum_take_le {α : Type} (f : α → Nat) (xs : List α) (i : Nat) :
    ((xs.take i).map f).sum ≤ (xs.map f).sum := by
  conv_rhs => rw [← List.take_append_drop i xs, List.map_append, List.sum_append]
  exact Nat.le_add_right _ _

theorem termStart_succ {i : Nat} {term : Term} (h : built.terms[i]? = some term) :
    termStart built at' (i + 1) = termStart built at' i + term.length := by
  rw [termStart, termStart, sum_take_succ _ h, Nat.add_assoc]

theorem termStart_le (w : Written ar docs built bytes at' entries) (i : Nat) :
    termStart built at' i ≤ at'.postings := by
  rw [termStart, w.sums.postings]
  exact Nat.add_le_add_left (sum_take_le _ _ _) _

theorem termStart_end (w : Written ar docs built bytes at' entries) :
    termStart built at' built.terms.length = at'.postings := by
  rw [termStart, w.sums.postings, List.take_length]

theorem postingStart_succ {i : Nat} {term : Term} (h : built.terms[i]? = some term) :
    postingStart docs built at' (i + 1) =
      postingStart docs built at' i + (postingsOf docs term).length * 8 := by
  rw [postingStart, postingStart, sum_take_succ _ h]
  ring

theorem fileLen_eq (w : Written ar docs built bytes at' entries) : at'.fileLen =
    at'.postings + (built.terms.map fun t => (postingsOf docs t).length).sum * 8 := by
  rw [w.sums.fileLen, w.describes.count, w.describes.postings, List.map_map]
  rfl

theorem postingStart_le (w : Written ar docs built bytes at' entries) (i : Nat) :
    postingStart docs built at' i ≤ bytes.length := by
  rw [postingStart, w.layout.length, fileLen_eq w]
  have := sum_take_le (fun t => (postingsOf docs t).length) built.terms i
  omega

theorem postingStart_end (w : Written ar docs built bytes at' entries) :
    postingStart docs built at' built.terms.length = bytes.length := by
  rw [postingStart, List.take_length, w.layout.length, fileLen_eq w]

/-! ## One term -/

theorem postingsOf_length_le (docs : List PendingDoc) (term : Term) :
    (postingsOf docs term).length ≤ docs.length := by
  simpa [postingsOf] using List.length_filterMap_le _ docs.zipIdx

theorem termEntry_ok (w : Written ar docs built bytes at' entries) (hm : self.mmap = bytes)
    (hh : self.header = headerOf built at') {i : Nat} {term : Term}
    (hi : built.terms[i]? = some term) : self.termEntry i = .ok (entryOf docs built at' i term) := by
  have hsize (entry : TermEntry) : (encode entry.fields).length = 32 := by
    simp [width, TermEntry.fields]
  have hrecord := w.layout.table.flatMap hsize (w.entry i term hi)
  have hbound := hrecord.le_length
  rw [hsize] at hbound
  have hlimit := w.bytes_lt
  obtain ⟨hlt, -⟩ := List.getElem?_eq_some_iff.mp hi
  have hnot : ¬i ≥ built.terms.length := by omega
  have hoff : checkedOffset at'.termTable i termEntryLen = .ok (at'.termTable + i * 32) :=
    checkedOffset_eq_ok.mpr ⟨by simp only [termEntryLen]; omega, rfl⟩
  have hadd {n : Nat} (hn : n ≤ 32) :
      addUnchecked (at'.termTable + i * 32) n = .ok (at'.termTable + i * 32 + n) := by
    rw [addUnchecked, if_pos (by omega)]
  have hlen : term.length < 256 ^ 4 := w.term_lt term (List.mem_of_getElem? hi)
  have hdf : (postingsOf docs term).length < 256 ^ 4 := by
    have := postingsOf_length_le docs term
    have := w.docs_le
    unfold u32Max at this
    omega
  have hstart : termStart built at' i < 256 ^ 8 := by
    have := termStart_le w i
    have := w.sums.fileLen
    have := w.sums.fileLen_lt
    unfold usizeLimit at this
    omega
  have hpstart : postingStart docs built at' i < 256 ^ 8 := by
    have := postingStart_le w i
    unfold usizeLimit at hlimit
    omega
  have h₀ := leAt_ok (hrecord.fields (i := 0) rfl) hstart hlimit
  have h₁ := leAt_ok (hrecord.fields (i := 1) rfl) hlen hlimit
  have h₂ := leAt_ok (hrecord.fields (i := 2) rfl) (by omega) hlimit
  have h₃ := leAt_ok (hrecord.fields (i := 3) rfl) hpstart hlimit
  have h₄ := leAt_ok (hrecord.fields (i := 4) rfl) hdf hlimit
  have h₅ := leAt_ok (hrecord.fields (i := 5) rfl) (by omega) hlimit
  simp only [TermEntry.fields, width, List.take_succ_cons, List.take_zero, List.map_cons,
    List.map_nil, List.sum_cons, List.sum_nil, Nat.add_zero, Nat.reduceAdd] at h₀ h₁ h₂ h₃ h₄ h₅
  simp only [Bm25MmapIndex.termEntry, hm, hh, headerOf, rejectIf_of_not hnot, hoff, ok_bind,
    hadd (n := 12) (by omega), hadd (n := 28) (by omega), hadd (n := 8) (by omega),
    hadd (n := 16) (by omega), hadd (n := 24) (by omega), h₀, h₁, h₂, h₃, h₄, h₅]
  rw [rejectIf_of_not (by simp), ok_bind]
  rfl

theorem termBytes_ok (w : Written ar docs built bytes at' entries) (hm : self.mmap = bytes)
    (hh : self.header = headerOf built at') {i : Nat} {term : Term}
    (hi : built.terms[i]? = some term) :
    self.termBytes (entryOf docs built at' i term) = .ok term := by
  obtain ⟨hlt, rfl⟩ := List.getElem?_eq_some_iff.mp hi
  have hterms := w.layout.terms
  have hsplit : built.terms = built.terms.take i ++ built.terms[i] :: built.terms.drop (i + 1) := by
    simp
  rw [hsplit] at hterms
  have hchunk : At bytes (termStart built at' i) built.terms[i] := by
    simpa [termStart] using hterms.flatMap_append
  have hend := termStart_le w (i + 1)
  rw [termStart_succ hi] at hend
  have hlimit := w.bytes_lt
  have hfile := w.layout.length
  have hpost := w.sums.fileLen
  have hstart : at'.termBytes ≤ termStart built at' i := Nat.le_add_right _ _
  have hslice := hchunk.slice_eq
  have hstop (message : String) :
      checkedAdd (termStart built at' i) built.terms[i].length message =
        .ok (termStart built at' i + built.terms[i].length) :=
    checkedAdd_eq_ok.mpr ⟨by omega, rfl⟩
  simp only [Bm25MmapIndex.termBytes, hm, hh, headerOf, entryOf, hstop, ok_bind]
  rw [rejectIf_of_not (by omega), ok_bind, sliceUnchecked, if_pos (Nat.le_add_right _ _),
    Nat.add_sub_cancel_left, hslice]

/-- The postings of term `i` stand where its entry says. -/
theorem postingAt (w : Written ar docs built bytes at' entries) {i j : Nat} {term : Term}
    {posting : Nat × Nat} (hi : built.terms[i]? = some term)
    (hj : (postingsOf docs term)[j]? = some posting) :
    At bytes (postingStart docs built at' i + j * 8) (encode (postingFields posting)) := by
  have hsize (p : Nat × Nat) : (encode (postingFields p)).length = 8 := by
    simp [width, postingFields]
  have hall := w.layout.postings
  have hlists : (built.postings.flatten.flatMap fun p => encode (postingFields p)) =
      built.terms.flatMap fun t => (postingsOf docs t).flatMap fun p => encode (postingFields p) := by
    rw [w.describes.postings, ← List.flatMap_def, List.flatMap_assoc]
  obtain ⟨hlt, rfl⟩ := List.getElem?_eq_some_iff.mp hi
  have hsplit : built.terms = built.terms.take i ++ built.terms[i] :: built.terms.drop (i + 1) := by
    simp
  rw [hlists, hsplit] at hall
  have hlist := hall.flatMap_append
  have hlength : ((built.terms.take i).flatMap fun t =>
      (postingsOf docs t).flatMap fun p => encode (postingFields p)).length =
      ((built.terms.take i).map fun t => (postingsOf docs t).length).sum * 8 := by
    rw [← List.flatMap_assoc, At.flatMap_length_eq hsize, List.length_flatMap]
  rw [hlength] at hlist
  exact hlist.flatMap hsize hj

theorem postingRange_ok (w : Written ar docs built bytes at' entries) (hm : self.mmap = bytes)
    (hh : self.header = headerOf built at') {i : Nat} {term : Term}
    (hi : built.terms[i]? = some term) :
    self.postingRange (entryOf docs built at' i term) =
      .ok (postingStart docs built at' i, postingStart docs built at' (i + 1)) := by
  have hend := postingStart_le w (i + 1)
  have hlimit := w.bytes_lt
  rw [postingStart_succ hi] at hend ⊢
  have hoff : checkedOffset (postingStart docs built at' i) (postingsOf docs term).length
      postingLen = .ok (postingStart docs built at' i + (postingsOf docs term).length * 8) :=
    checkedOffset_eq_ok.mpr ⟨by simp only [postingLen]; omega, rfl⟩
  have hstart : at'.postings ≤ postingStart docs built at' i := Nat.le_add_right _ _
  simp only [Bm25MmapIndex.postingRange, hm, hh, headerOf, entryOf, hoff, ok_bind]
  rw [rejectIf_of_not (by omega), ok_bind]
  rfl

theorem postingOffsets_eq (start n : Nat) :
    Bm25MmapIndex.postingOffsets (start, start + n * 8) =
      (List.range n).map fun j => start + j * 8 := by
  simp only [Bm25MmapIndex.postingOffsets, postingLen]
  congr 2
  omega

/-! ## The computed document lengths -/

/-- Add every posting's frequency at its document. -/
def addPostings (lens : List Nat) (postings : List (Nat × Nat)) : List Nat :=
  postings.foldl (fun lens p => lens.modify p.1 (· + p.2)) lens

theorem addPostings_getElem? (lens : List Nat) (postings : List (Nat × Nat)) (d : Nat) :
    (addPostings lens postings)[d]? =
      lens[d]?.map (· + ((postings.filter fun p => p.1 = d).map Prod.snd).sum) := by
  induction postings generalizing lens with
  | nil => simp [addPostings]
  | cons p postings ih =>
    have hstep := ih (lens.modify p.1 (· + p.2))
    rw [addPostings] at hstep ⊢
    rw [List.foldl_cons, hstep, List.getElem?_modify]
    by_cases hp : p.1 = d
    · cases lens[d]? <;> simp [hp, Nat.add_assoc]
    · cases lens[d]? <;> simp [hp]

theorem postingsOf_ordinal_lt {docs : List PendingDoc} {term : Term} {p : Nat × Nat}
    (h : p ∈ postingsOf docs term) :
    ∃ doc, docs[p.1]? = some doc ∧ p.2 = doc.terms.count term ∧ p.2 ≠ 0 := by
  rw [postingsOf, List.mem_filterMap] at h
  obtain ⟨⟨doc, ordinal⟩, hmem, hp⟩ := h
  by_cases hzero : doc.terms.count term = 0
  · simp [hzero] at hp
  · simp only [hzero, if_false, Option.some.injEq] at hp
    subst hp
    exact ⟨doc, List.mem_zipIdx_iff_getElem?.mp hmem, rfl, hzero⟩

/-- The postings of a term hold one entry for a document, its count. -/
theorem postingsOf_filter_sum (docs : List PendingDoc) (term : Term) (d : Nat) :
    (((postingsOf docs term).filter fun p => p.1 = d).map Prod.snd).sum =
      (docs[d]?.map fun doc => doc.terms.count term).getD 0 := by
  induction docs using List.reverseRecOn with
  | nil => simp [postingsOf]
  | append_singleton docs doc ih =>
    rw [DictionaryLemmas.postingsOf_concat, List.filter_append, List.map_append, List.sum_append, ih,
      List.getElem?_append]
    rcases Nat.lt_trichotomy d docs.length with hlt | rfl | hgt
    · by_cases hzero : doc.terms.count term = 0
      · simp [hlt, hzero]
      · simp [hlt, hzero, Nat.ne_of_gt hlt]
    · by_cases hzero : doc.terms.count term = 0 <;> simp [hzero]
    · have hsub : d - docs.length ≠ 0 := by omega
      by_cases hzero : doc.terms.count term = 0
      · simp [hzero, Nat.not_lt_of_gt hgt, hsub]
      · simp [hzero, Nat.not_lt_of_gt hgt, hsub, Nat.ne_of_lt hgt]

/-- The lengths computed from the first `i` terms. -/
def lensAfter (docs : List PendingDoc) (terms : List Term) (i : Nat) : List Nat :=
  docs.map fun doc => ((terms.take i).map fun t => doc.terms.count t).sum

theorem addPostings_lensAfter {terms : List Term} {i : Nat} {term : Term}
    (hi : terms[i]? = some term) :
    addPostings (lensAfter docs terms i) (postingsOf docs term) = lensAfter docs terms (i + 1) := by
  refine List.ext_getElem? fun d => ?_
  rw [addPostings_getElem?, postingsOf_filter_sum, lensAfter, lensAfter, List.getElem?_map,
    List.getElem?_map]
  cases docs[d]? with
  | none => rfl
  | some doc => exact congrArg some (sum_take_succ (fun t => doc.terms.count t) hi).symm

theorem sum_count_eq_length {terms : List Term} (hnd : terms.Nodup) {words : List Term}
    (hsub : ∀ t ∈ words, t ∈ terms) : (terms.map fun t => words.count t).sum = words.length := by
  have hcard := Multiset.sum_count_eq_card (s := terms.toFinset) (m := (words : Multiset Term))
    fun t ht => List.mem_toFinset.mpr (hsub t (Multiset.mem_coe.mp ht))
  rw [List.sum_toFinset _ hnd] at hcard
  have hcount (t : Term) : @List.count Term instBEqOfDecidableEq t words = words.count t :=
    List.countP_congr fun x _ => by simp only [beq_iff_eq]
  simpa only [Multiset.coe_count, hcount, Multiset.coe_card] using hcard

theorem terms_nodup (w : Written ar docs built bytes at' entries) : built.terms.Nodup :=
  w.describes.sorted.imp fun hlt heq => by simp [heq] at hlt

/-- The scan of all terms computes the stored lengths. -/
theorem lensAfter_end (w : Written ar docs built bytes at' entries) :
    lensAfter docs built.terms built.terms.length = built.docLens := by
  rw [lensAfter, w.describes.docLens, List.take_length]
  refine List.map_congr_left fun doc hdoc => ?_
  exact sum_count_eq_length (terms_nodup w) fun t ht =>
    (w.describes.mem_terms t).mpr ⟨doc, hdoc, ht⟩

/-! ## One term's postings -/

theorem modify_of_getElem? {lens : List Nat} {d len : Nat} (h : lens[d]? = some len)
    (f : Nat → Nat) : lens.modify d f = lens.set d (f len) := by
  rw [List.modify_eq_set, h, Option.getD_some]

/-- A record of three words, as the scan reads it. -/
theorem posting_words (hm : self.mmap = bytes) (hlimit : bytes.length < usizeLimit) {off : Nat}
    {p : Nat × Nat} (h : At bytes off (encode (postingFields p))) (hord : p.1 ≤ u32Max)
    (hfreq : p.2 ≤ 65535) :
    leAt self.mmap 4 off = .ok p.1 ∧ addUnchecked off 4 = .ok (off + 4) ∧
      leAt self.mmap 2 (off + 4) = .ok p.2 ∧ addUnchecked off 6 = .ok (off + 6) ∧
      leAt self.mmap 2 (off + 6) = .ok 0 := by
  have hbound := h.le_length
  rw [encode_length, show width (postingFields p) = 8 from rfl] at hbound
  unfold u32Max at hord
  have h₀ := leAt_ok (h.fields (i := 0) rfl) (show p.1 < 256 ^ 4 by omega) hlimit
  have h₁ := leAt_ok (h.fields (i := 1) rfl) (show p.2 < 256 ^ 2 by omega) hlimit
  have h₂ := leAt_ok (h.fields (i := 2) rfl) (show 0 < 256 ^ 2 by omega) hlimit
  simp only [postingFields, width, List.take_succ_cons, List.take_zero, List.map_cons,
    List.map_nil, List.sum_cons, List.sum_nil, Nat.add_zero, Nat.reduceAdd] at h₀ h₁ h₂
  subst hm
  refine ⟨h₀, ?_, h₁, ?_, h₂⟩
  · rw [addUnchecked, if_pos (by omega)]
  · rw [addUnchecked, if_pos (by omega)]

/-- Scanning records with increasing ordinals adds their frequencies. -/
theorem scanPostings_ok (hm : self.mmap = bytes) (hlimit : bytes.length < usizeLimit)
    {previous : Option Nat} {lens offsets : List Nat} {postings : List (Nat × Nat)}
    (hrecords : List.Forall₂ (fun off p => At bytes off (encode (postingFields p))) offsets postings)
    (hsorted : postings.Pairwise fun p q => p.1 < q.1)
    (hprevious : ∀ q, previous = some q → ∀ p ∈ postings, q < p.1)
    (hcount : self.header.docCount = lens.length) (hle : lens.length ≤ u32Max)
    (hvalid : ∀ p ∈ postings, p.1 < lens.length ∧ p.2 ≠ 0 ∧ p.2 ≤ 65535)
    (hsum : ∀ p ∈ postings, ∀ len, lens[p.1]? = some len → len + p.2 < usizeLimit) :
    self.scanPostings previous lens offsets = .ok (addPostings lens postings) := by
  induction hrecords generalizing previous lens with
  | nil => rfl
  | cons hrecord hrest ih =>
    next off p offsets postings =>
    obtain ⟨hlater, hsorted⟩ := List.pairwise_cons.mp hsorted
    obtain ⟨hlt, hpos, hfreq⟩ := hvalid p List.mem_cons_self
    obtain ⟨h₀, ha₁, h₁, ha₂, h₂⟩ := posting_words hm hlimit hrecord (by omega) hfreq
    obtain ⟨len, hlen⟩ : ∃ len, lens[p.1]? = some len := ⟨_, List.getElem?_eq_getElem hlt⟩
    have hadd (message : String) : checkedAdd len p.2 message = .ok (len + p.2) :=
      checkedAdd_eq_ok.mpr ⟨hsum p List.mem_cons_self len hlen, rfl⟩
    have hafter : ¬previous.any (· ≥ p.1) := by
      cases previous with
      | none => simp
      | some q => simpa using hprevious q rfl p List.mem_cons_self
    have hlens : Bm25MmapIndex.addDocLen lens p.1 p.2 = .ok (lens.modify p.1 (· + p.2)) := by
      simp only [Bm25MmapIndex.addDocLen, hlen, hadd, ok_bind, modify_of_getElem? hlen]
      rfl
    have hkept : ∀ r ∈ postings, (lens.modify p.1 (· + p.2))[r.1]? = lens[r.1]? := by
      intro r hr
      rw [List.getElem?_modify]
      simp [Nat.ne_of_lt (hlater r hr)]
    have hnext : self.scanPostings (some p.1) (lens.modify p.1 (· + p.2)) offsets =
        .ok (addPostings (lens.modify p.1 (· + p.2)) postings) := by
      refine ih hsorted ?_ (by simpa using hcount) (by simpa using hle) ?_ ?_
      · intro q hq r hr
        obtain rfl := Option.some.inj hq
        exact hlater r hr
      · intro r hr
        simpa using hvalid r (List.mem_cons_of_mem _ hr)
      · intro r hr len hl
        exact hsum r (List.mem_cons_of_mem _ hr) len (hkept r hr ▸ hl)
    rw [Bm25MmapIndex.scanPostings, h₀, ok_bind, rejectIf_of_not (by omega), ok_bind,
      rejectIf_of_not hafter, ok_bind, ha₁, ok_bind, h₁, ok_bind, rejectIf_of_not hpos, ok_bind, ha₂,
      ok_bind, h₂, ok_bind, rejectIf_of_not (by omega), ok_bind, hlens, ok_bind, hnext]
    rfl

/-! ## The scan -/

theorem postingsOf_sorted (docs : List PendingDoc) (term : Term) :
    (postingsOf docs term).Pairwise fun p q => p.1 < q.1 := by
  induction docs using List.reverseRecOn with
  | nil => exact .nil
  | append_singleton docs doc ih =>
    rw [DictionaryLemmas.postingsOf_concat]
    split
    · simpa using ih
    · refine List.pairwise_append.mpr ⟨ih, List.pairwise_singleton _ _, fun p hp q hq => ?_⟩
      obtain rfl := List.mem_singleton.mp hq
      obtain ⟨d, hd, -⟩ := postingsOf_ordinal_lt hp
      exact (List.getElem?_eq_some_iff.mp hd).1

theorem lensAfter_length (docs : List PendingDoc) (terms : List Term) (i : Nat) :
    (lensAfter docs terms i).length = docs.length := by
  rw [lensAfter, List.length_map]

theorem scanTermPostings_ok (w : Written ar docs built bytes at' entries) (hm : self.mmap = bytes)
    (hh : self.header = headerOf built at') {i : Nat} {term : Term}
    (hi : built.terms[i]? = some term) :
    self.scanPostings none (lensAfter docs built.terms i) (Bm25MmapIndex.postingOffsets
      (postingStart docs built at' i, postingStart docs built at' (i + 1))) =
      .ok (lensAfter docs built.terms (i + 1)) := by
  have hdocs := w.docs_le
  have hords : ∀ p ∈ postingsOf docs term, p.1 < docs.length := fun p hp => by
    obtain ⟨doc, hdoc, -⟩ := postingsOf_ordinal_lt hp
    exact (List.getElem?_eq_some_iff.mp hdoc).1
  have hrecords : List.Forall₂ (fun off p => At bytes off (encode (postingFields p)))
      ((List.range (postingsOf docs term).length).map fun j => postingStart docs built at' i + j * 8)
      (postingsOf docs term) := by
    rw [List.forall₂_map_left_iff]
    exact LayoutLemmas.forall₂_range rfl fun j p hj => postingAt w hi hj
  rw [postingStart_succ hi, postingOffsets_eq, ← addPostings_lensAfter hi]
  refine scanPostings_ok hm w.bytes_lt hrecords (postingsOf_sorted docs term) (by simp) ?_ ?_ ?_ ?_
  · rw [hh, lensAfter_length]
    exact w.docCount
  · rwa [lensAfter_length]
  · intro p hp
    obtain ⟨doc, hdoc, hfreq, hne⟩ := postingsOf_ordinal_lt hp
    rw [lensAfter_length]
    exact ⟨hords p hp, hne, hfreq ▸ w.describes.freq_le doc (List.mem_of_getElem? hdoc) term⟩
  · intro p hp len hlen
    obtain ⟨doc, hdoc, hfreq, -⟩ := postingsOf_ordinal_lt hp
    rw [lensAfter, List.getElem?_map, hdoc, Option.map_some, Option.some.injEq] at hlen
    -- the counts of the first `i + 1` terms are at most the document's length
    have hpart := sum_take_le (fun t => doc.terms.count t) built.terms (i + 1)
    rw [sum_take_succ _ hi, hlen, ← hfreq, sum_count_eq_length (terms_nodup w) fun t ht =>
      (w.describes.mem_terms t).mpr ⟨doc, List.mem_of_getElem? hdoc, ht⟩] at hpart
    have hle := w.describes.docLen_le doc (List.mem_of_getElem? hdoc)
    unfold u32Max at hle
    unfold usizeLimit
    omega

theorem utf8EncodeChar_ascii {b : UInt8} (h : b < 128) :
    String.utf8EncodeChar (Char.ofNat b.toNat) = [b] := by
  have hall : ∀ n : Fin 128, String.utf8EncodeChar (Char.ofNat n) = [UInt8.ofNat n] := by
    decide +kernel
  simpa using hall ⟨b.toNat, by simpa [UInt8.lt_iff_toNat_lt] using h⟩

/-- A normalized term is ASCII, so it decodes. -/
theorem fromUtf8_normalized {term : Term} (h : isNormalizedTermV1 term) :
    ∃ text, Bm25MmapIndex.fromUtf8 term = some text := by
  simp only [isNormalizedTermV1, Bool.and_eq_true, List.all_eq_true] at h
  have hascii : ∀ b ∈ term, b < 128 := by
    intro b hb
    have hall : ∀ n : Fin 256, isAsciiLowercase (.ofNat n) || isAsciiDigit (.ofNat n) →
        UInt8.ofNat n < 128 := by
      decide +kernel
    have hbyte := hall ⟨b.toNat, b.toNat_lt⟩
    rw [UInt8.ofNat_toNat] at hbyte
    exact hbyte (h.1.2 b hb)
  have hencode : (term.map fun b => Char.ofNat b.toNat).flatMap String.utf8EncodeChar = term := by
    rw [List.flatMap_map]
    exact (List.flatMap_congr fun b hb => utf8EncodeChar_ascii (hascii b hb)).trans (by simp)
  have hvalid : term.toByteArray.IsValidUTF8 := by
    have hencoded := ByteArray.isValidUTF8_utf8Encode (l := term.map fun b => Char.ofNat b.toNat)
    rwa [List.utf8Encode, hencode] at hencoded
  exact ⟨_, by rw [Bm25MmapIndex.fromUtf8, String.fromUTF8?, dif_pos hvalid]; rfl⟩

/-- The scan state after the first `i` terms. -/
def scanStateAt (docs : List PendingDoc) (built : BuiltSparse) (at' : Offsets) (i : Nat) :
    Bm25MmapIndex.ScanState :=
  ⟨(built.terms.take i).getLast?, termStart built at' i, postingStart docs built at' i,
    lensAfter docs built.terms i⟩

theorem previous_lt (w : Written ar docs built bytes at' entries) {i : Nat} {term previous : Term}
    (hi : built.terms[i]? = some term) (hp : (built.terms.take i).getLast? = some previous) :
    compare previous term = .lt := by
  have htake : built.terms.take (i + 1) = built.terms.take i ++ [term] := by
    simp [List.take_add_one, hi]
  have hsorted := w.describes.sorted.sublist (List.take_sublist (i + 1) built.terms)
  rw [htake, List.pairwise_append] at hsorted
  exact hsorted.2.2 previous (List.mem_of_getLast? hp) term List.mem_cons_self

theorem scanTerm_ok (w : Written ar docs built bytes at' entries) (hm : self.mmap = bytes)
    (hh : self.header = headerOf built at') {i : Nat} {term : Term}
    (hi : built.terms[i]? = some term) :
    self.scanTerm (scanStateAt docs built at' i) i = .ok (scanStateAt docs built at' (i + 1)) := by
  have hmem := List.mem_of_getElem? hi
  have hnormal := w.normalized term hmem
  obtain ⟨text, htext⟩ := fromUtf8_normalized hnormal
  have hlast : (built.terms.take (i + 1)).getLast? = some term := by
    simp [List.take_add_one, hi]
  have hentry := termEntry_ok w hm hh hi
  have hbytes := termBytes_ok w hm hh hi
  have hrange := postingRange_ok w hm hh hi
  have hscan : self.scanPostings none (scanStateAt docs built at' i).docLens _ = _ :=
    scanTermPostings_ok w hm hh hi
  have hlen : ¬(entryOf docs built at' i term).termLen = 0 := by
    simp only [isNormalizedTermV1, Bool.and_eq_true, decide_eq_true_eq] at hnormal
    simp only [entryOf]
    omega
  have hsorted : ¬(scanStateAt docs built at' i).previous.any
      fun previous => compare previous term ≠ .lt := by
    rw [scanStateAt]
    cases hp : (built.terms.take i).getLast? with
    | none => simp
    | some previous => simp [previous_lt w hi hp]
  have hcursor (message : String) : checkedAdd (entryOf docs built at' i term).termOffset
      (entryOf docs built at' i term).termLen message = .ok (termStart built at' (i + 1)) := by
    have hend := termStart_le w (i + 1)
    have hfile := w.sums.fileLen
    have hlt := w.sums.fileLen_lt
    rw [termStart_succ hi] at hend ⊢
    exact checkedAdd_eq_ok.mpr ⟨by simp only [entryOf]; omega, rfl⟩
  have hpostings : ¬(entryOf docs built at' i term).postingsLen = 0 := by
    simp only [entryOf]
    rw [List.length_eq_zero_iff, DictionaryLemmas.postingsOf_eq_nil]
    obtain ⟨doc, hdoc, hterm⟩ := (w.describes.mem_terms term).mp hmem
    exact fun hnone => hnone doc hdoc hterm
  have hnormal' : ¬(!isNormalizedTermV1 term) = true := by simp [hnormal]
  rw [Bm25MmapIndex.scanTerm, hentry, ok_bind, rejectIf_of_not (fun hne => hne rfl), ok_bind,
    rejectIf_of_not hlen, ok_bind, hbytes, ok_bind, htext]
  simp only [rejectIf_of_not hnormal', ok_bind, rejectIf_of_not hsorted, hcursor, hrange]
  rw [rejectIf_of_not (fun hne => hne rfl), ok_bind, rejectIf_of_not hpostings, ok_bind, hscan,
    ok_bind, scanStateAt, hlast]
  rfl

theorem scanTerms_ok (w : Written ar docs built bytes at' entries) (hm : self.mmap = bytes)
    (hh : self.header = headerOf built at') {count i : Nat}
    (hcount : i + count = built.terms.length) :
    self.scanTerms count i (scanStateAt docs built at' i) =
      .ok (scanStateAt docs built at' built.terms.length) := by
  induction count generalizing i with
  | zero =>
    obtain rfl : i = built.terms.length := by omega
    rfl
  | succ count ih =>
    have hi := List.getElem?_eq_getElem (show i < built.terms.length by omega)
    rw [Bm25MmapIndex.scanTerms, scanTerm_ok w hm hh hi, ok_bind]
    exact ih (by omega)

/-- The stored lengths pass the comparison, and total to the sum the writer divided. -/
theorem checkDocLens_ok (w : Written ar docs built bytes at' entries) (hm : self.mmap = bytes)
    (hh : self.header = headerOf built at') {i total : Nat} {lens : List Nat}
    (hlens : built.docLens.drop i = lens) (htotal : total + lens.sum < usizeLimit) :
    self.checkDocLens i total lens = .ok (total + lens.sum) := by
  induction lens generalizing i total with
  | nil => rfl
  | cons len lens ih =>
    have hi : built.docLens[i]? = some len := by
      rw [← List.head?_drop, hlens]
      rfl
    have hrest : built.docLens.drop (i + 1) = lens := by
      rw [← List.tail_drop, hlens]
      rfl
    rw [List.sum_cons] at htotal ⊢
    have hadd (message : String) : checkedAdd total len message = .ok (total + len) :=
      checkedAdd_eq_ok.mpr ⟨by omega, rfl⟩
    rw [Bm25MmapIndex.checkDocLens, w.docLen_ok hm hh hi, ok_bind,
      rejectIf_of_not (fun hne => hne rfl), ok_bind, hadd, ok_bind, ih hrest (by omega), Nat.add_assoc]

end ScanLemmas

end OrdinalDB.Sparse
