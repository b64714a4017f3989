import OrdinalDB.Sparse.Views

/-!
# Untrusted files

`Bm25MmapIndex.open` on arbitrary bytes reports errors but never leaves a range
(`open_safe`), and an index that it returns can be searched without an error
(`untrusted_file`).
-/

namespace OrdinalDB.Sparse

open ByteCodec Float32Bits ScanLemmas

/-! ## Safe computations -/

/-- No overflow, no underflow and no slice out of range. -/
def Safe {α : Type} (x : Checked α) : Prop := x ≠ .error .panic

theorem safe_ok {α : Type} (a : α) : Safe (.ok a : Checked α) := nofun

theorem safe_fail {α : Type} (e : HybridError) : Safe (fail e : Checked α) := nofun

theorem safe_of_eq {α : Type} {x : Checked α} {a : α} (h : x = .ok a) : Safe x := h ▸ safe_ok a

theorem safe_rejectIf {bad : Prop} [Decidable bad] {e : HybridError} : Safe (rejectIf bad e) := by
  unfold rejectIf
  split
  next => exact safe_fail e
  next => exact safe_ok ()

theorem safe_bind {α β : Type} {x : Checked α} {f : α → Checked β} (hx : Safe x)
    (hf : ∀ a, x = .ok a → Safe (f a)) : Safe (x >>= f) := by
  cases x with
  | ok a => exact hf a rfl
  | error e => exact fun h => hx (by cases h; rfl)

theorem safe_checkedAdd {a b : Nat} {message : String} : Safe (checkedAdd a b message) := by
  unfold checkedAdd
  split
  next => exact safe_ok _
  next => exact safe_fail _

theorem safe_checkedOffset {base count elemLen : Nat} :
    Safe (checkedOffset base count elemLen) := by
  unfold checkedOffset
  split
  next => exact safe_checkedAdd
  next => exact safe_fail _

theorem safe_leAt {bytes : List UInt8} {w off : Nat} (h : off + w < usizeLimit) :
    Safe (leAt bytes w off) := by
  unfold leAt
  rw [if_pos h]
  split
  next => exact safe_ok _
  next => exact safe_fail _

theorem safe_leF32At {bytes : List UInt8} {off : Nat} (h : off + 4 < usizeLimit) :
    Safe (leF32At bytes off) :=
  safe_bind (safe_leAt h) fun _ _ => safe_ok _

theorem safe_addUnchecked {a b : Nat} (h : a + b < usizeLimit) : Safe (addUnchecked a b) :=
  safe_of_eq (addUnchecked_eq_ok.mpr ⟨h, rfl⟩)

/-- A word behind an unchecked addition. -/
theorem safe_wordBehind {α : Type} {bytes : List UInt8} {w off n : Nat} {f : Nat → Checked α}
    (h : off + n + w < usizeLimit) (hf : ∀ v, Safe (f v)) :
    Safe (addUnchecked off n >>= fun at' => leAt bytes w at' >>= f) := by
  refine safe_bind (safe_addUnchecked (by omega)) fun at' hat => ?_
  obtain ⟨-, rfl⟩ := addUnchecked_eq_ok.mp hat
  exact safe_bind (safe_leAt h) fun v _ => hf v

theorem safe_fromU16 {value : Nat} : Safe (TokenizerKind.fromU16 value) := by
  unfold TokenizerKind.fromU16
  split
  next => exact safe_ok _
  next =>
    split
    next => exact safe_ok _
    next => exact safe_fail _

/-- The header stands at fixed offsets. -/
theorem parse_safe (bytes : List UInt8) : Safe (Header.parse bytes) := by
  unfold Header.parse
  repeat' first
    | exact safe_rejectIf
    | exact safe_fromU16
    | exact safe_leAt (by decide)
    | exact safe_leF32At (by decide)
    | exact safe_ok _
    | refine safe_bind ?_ fun _ _ => ?_

namespace Bm25MmapIndex

variable {self : Bm25MmapIndex}

theorem validateSections_safe : Safe self.validateSections := by
  unfold validateSections checkedSection
  repeat' first
    | exact safe_rejectIf
    | exact safe_checkedOffset
    | refine safe_bind ?_ fun _ _ => ?_

theorem validateScalars_safe : Safe self.validateScalars := by
  unfold validateScalars
  repeat' first
    | exact safe_rejectIf
    | refine safe_bind ?_ fun _ _ => ?_

/-! ## Accessors inside of the sections -/

/-- Every element of a list that was read has been read. -/
theorem mapM_mem_ok {α β : Type} {f : α → Checked β} {xs : List α} {ys : List β}
    (h : xs.mapM f = .ok ys) {x : α} (hx : x ∈ xs) : ∃ y ∈ ys, f x = .ok y := by
  induction xs generalizing ys with
  | nil => cases hx
  | cons head xs ih =>
    rw [List.mapM_cons] at h
    obtain ⟨y, hy, h⟩ := bind_eq_ok.mp h
    obtain ⟨rest, hrest, h⟩ := bind_eq_ok.mp h
    obtain rfl := Except.ok.inj h
    rcases List.mem_cons.mp hx with rfl | hx
    · exact ⟨y, List.mem_cons_self, hy⟩
    · obtain ⟨z, hz, hread⟩ := ih hrest hx
      exact ⟨z, List.mem_cons_of_mem _ hz, hread⟩

theorem postingRange_safe (entry : TermEntry) : Safe (self.postingRange entry) := by
  unfold postingRange
  refine safe_bind safe_checkedOffset fun _ _ => ?_
  exact safe_bind safe_rejectIf fun _ _ => safe_ok _

theorem termBytes_safe (hs : Sections self) (entry : TermEntry) :
    Safe (self.termBytes entry) := by
  unfold termBytes
  refine safe_bind safe_checkedAdd fun stop hstop => ?_
  obtain ⟨-, rfl⟩ := checkedAdd_eq_ok.mp hstop
  refine safe_bind safe_rejectIf fun _ hrange => ?_
  have hrange := rejectIf_eq_ok.mp hrange
  have hpostings := hs.postings_le
  have hslice : slice self.mmap entry.termOffset
      (entry.termOffset + entry.termLen - entry.termOffset) =
        some ((self.mmap.drop entry.termOffset).take
          (entry.termOffset + entry.termLen - entry.termOffset)) := by
    rw [slice, if_pos (by omega)]
  exact safe_of_eq (sliceUnchecked_eq_ok.mpr ⟨Nat.le_add_right _ _, hslice⟩)

section

variable (hlimit : self.mmap.length < usizeLimit) (hs : Sections self)

include hlimit hs

theorem readRowIds_safe {count idx : Nat} (hcount : idx + count ≤ self.header.docCount)
    (tables : RowIdTables) : Safe (self.readRowIds count idx tables) := by
  induction count generalizing idx tables with
  | zero => exact safe_ok _
  | succ count ih =>
    obtain ⟨id, hid⟩ := hs.rowId hlimit (show idx < self.header.docCount by omega)
    unfold readRowIds
    refine safe_bind (safe_of_eq hid) fun _ _ => ?_
    refine safe_bind safe_rejectIf fun _ _ => ?_
    exact safe_bind safe_rejectIf fun _ _ => ih (by omega) _

theorem termEntry_safe (idx : Nat) : Safe (self.termEntry idx) := by
  have hbound := hs.bounds.2.2
  unfold termEntry
  refine safe_bind safe_rejectIf fun _ hidx => ?_
  have hidx := rejectIf_eq_ok.mp hidx
  refine safe_bind safe_checkedOffset fun offset hoffset => ?_
  obtain ⟨-, rfl⟩ := checkedOffset_eq_ok.mp hoffset
  -- the whole entry lies in the term table
  have hentry : self.header.termTableOffset + idx * termEntryLen + 32 ≤ self.mmap.length := by
    simp only [termEntryLen]
    omega
  refine safe_wordBehind (by omega) fun _ => ?_
  refine safe_wordBehind (by omega) fun _ => ?_
  refine safe_bind safe_rejectIf fun _ _ => ?_
  refine safe_bind (safe_leAt (by omega)) fun _ _ => ?_
  refine safe_wordBehind (by omega) fun _ => ?_
  refine safe_wordBehind (by omega) fun _ => ?_
  exact safe_wordBehind (by omega) fun _ => safe_ok _

theorem docLen_safe {d : Nat} (hd : d < self.header.docCount) : Safe (self.docLen d) := by
  obtain ⟨len, hlen⟩ := hs.docLen_ok hlimit hd
  exact safe_of_eq hlen

theorem checkDocLens_safe {idx total : Nat} {lens : List Nat}
    (hlens : idx + lens.length ≤ self.header.docCount) :
    Safe (self.checkDocLens idx total lens) := by
  induction lens generalizing idx total with
  | nil => exact safe_ok _
  | cons computed rest ih =>
    rw [List.length_cons] at hlens
    unfold checkDocLens
    refine safe_bind (docLen_safe hlimit hs (by omega)) fun _ _ => ?_
    refine safe_bind safe_rejectIf fun _ _ => ?_
    exact safe_bind safe_checkedAdd fun _ _ => ih (by omega)

end

/-! ## The scan -/

theorem addPostings_length (lens : List Nat) (postings : List (Nat × Nat)) :
    (addPostings lens postings).length = lens.length := by
  induction postings generalizing lens with
  | nil => rfl
  | cons p postings ih =>
    unfold addPostings at ih ⊢
    rw [List.foldl_cons, ih, List.length_modify]

theorem scanPostings_safe (hlimit : self.mmap.length < usizeLimit) {previous : Option Nat}
    {lens offsets : List Nat} (hlens : lens.length = self.header.docCount)
    (hoffsets : ∀ offset ∈ offsets, offset + 8 ≤ self.mmap.length) :
    Safe (self.scanPostings previous lens offsets) := by
  induction offsets generalizing previous lens with
  | nil => exact safe_ok _
  | cons offset offsets ih =>
    have hoffset := hoffsets offset List.mem_cons_self
    unfold scanPostings
    refine safe_bind (safe_leAt (by omega)) fun d _ => ?_
    refine safe_bind safe_rejectIf fun _ hd => ?_
    refine safe_bind safe_rejectIf fun _ _ => ?_
    refine safe_wordBehind (by omega) fun tf => ?_
    refine safe_bind safe_rejectIf fun _ _ => ?_
    refine safe_wordBehind (by omega) fun _ => ?_
    refine safe_bind safe_rejectIf fun _ _ => ?_
    have hlt : d < lens.length := by
      rw [hlens]
      exact Nat.lt_of_not_le (rejectIf_eq_ok.mp hd)
    refine safe_bind ?_ fun next hnext => ?_
    · unfold addDocLen
      rw [List.getElem?_eq_getElem hlt]
      exact safe_bind safe_checkedAdd fun _ _ => safe_ok _
    · refine ih ?_ fun offset hmem => hoffsets offset (List.mem_cons_of_mem _ hmem)
      rw [(addDocLen_eq_ok hnext).2, List.length_modify, hlens]

/-- The offsets of a range lie in it. -/
theorem postingOffsets_bound {start n offset : Nat}
    (h : offset ∈ postingOffsets (start, start + n * 8)) : offset + 8 ≤ start + n * 8 := by
  rw [postingOffsets_eq, List.mem_map] at h
  obtain ⟨j, hj, rfl⟩ := h
  have := List.mem_range.mp hj
  omega

theorem scanTerm_safe (hlimit : self.mmap.length < usizeLimit) (hs : Sections self)
    {s : ScanState} (hlens : s.docLens.length = self.header.docCount) (idx : Nat) :
    Safe (self.scanTerm s idx) := by
  unfold scanTerm
  refine safe_bind (termEntry_safe hlimit hs idx) fun entry _ => ?_
  refine safe_bind safe_rejectIf fun _ _ => ?_
  refine safe_bind safe_rejectIf fun _ _ => ?_
  refine safe_bind (termBytes_safe hs entry) fun term _ => ?_
  split
  next => exact safe_fail _
  next =>
    refine safe_bind safe_rejectIf fun _ _ => ?_
    refine safe_bind safe_rejectIf fun _ _ => ?_
    refine safe_bind safe_checkedAdd fun _ _ => ?_
    refine safe_bind (postingRange_safe entry) fun range hrange => ?_
    obtain ⟨rfl, -, hstop, -⟩ := postingRange_eq_ok.mp hrange
    refine safe_bind safe_rejectIf fun _ _ => ?_
    refine safe_bind safe_rejectIf fun _ _ => ?_
    refine safe_bind (scanPostings_safe hlimit hlens fun offset hmem => ?_) fun _ _ => safe_ok _
    exact (postingOffsets_bound hmem).trans hstop

theorem scanTerms_safe (hlimit : self.mmap.length < usizeLimit) (hs : Sections self)
    {count idx : Nat} {s : ScanState} (hlens : s.docLens.length = self.header.docCount) :
    Safe (self.scanTerms count idx s) := by
  induction count generalizing idx s with
  | zero => exact safe_ok _
  | succ count ih =>
    unfold scanTerms
    refine safe_bind (scanTerm_safe hlimit hs hlens idx) fun t ht => ih ?_
    obtain ⟨d, hd⟩ := scansTerm_of_scan ht
    rw [hd.state, addPostings_length, hlens]

/-- The scan keeps one length for every document. -/
theorem Scans.docLens_length {i : Nat} {s s' : ScanState} {dict : List ScannedTerm}
    (h : Scans self i s dict s') : s'.docLens.length = s.docLens.length := by
  induction h with
  | nil => rfl
  | cons hterm _ ih => rw [ih, hterm.state, addPostings_length]

theorem validateLayout_safe (ar : AvgArith) (hlimit : self.header.fileLen < usizeLimit) :
    Safe (self.validateLayout ar) := by
  unfold validateLayout
  refine safe_bind validateSections_safe fun _ hsections => ?_
  have hs := sections_of_validate hsections
  rw [hs.fileLen] at hlimit
  refine safe_bind validateScalars_safe fun _ _ => ?_
  refine safe_bind (readRowIds_safe hlimit hs (Nat.zero_add _).le _) fun _ _ => ?_
  refine safe_bind (scanTerms_safe hlimit hs (List.length_replicate ..)) fun s hscan => ?_
  refine safe_bind safe_rejectIf fun _ _ => ?_
  refine safe_bind safe_rejectIf fun _ _ => ?_
  obtain ⟨dict, -, hscans⟩ := scans_of_scan hscan
  have hlens : s.docLens.length = self.header.docCount := by
    rw [hscans.docLens_length, List.length_replicate]
  refine safe_bind (checkDocLens_safe hlimit hs (by omega)) fun _ _ => ?_
  exact safe_bind safe_rejectIf fun _ _ => safe_ok _

theorem open_safe (ar : AvgArith) (bytes : List UInt8) : Safe (Bm25MmapIndex.open ar bytes) := by
  unfold Bm25MmapIndex.open
  refine safe_bind (parse_safe bytes) fun header hparse => ?_
  exact safe_bind (validateLayout_safe ar (parse_fileLen_lt hparse)) fun _ _ => safe_ok _

/-! ## Searching -/

/-- Every read of a search is in bounds, and every search succeeds. -/
structure Searchable (index : Bm25MmapIndex) : Prop where
  entries : ∀ i, i < index.header.termCount → ∃ entry term range, index.termEntry i = .ok entry ∧
    index.termBytes entry = .ok term ∧ index.postingRange entry = .ok range ∧
    ∀ offset ∈ postingOffsets range, ∃ posting len, index.posting offset = .ok posting ∧
      index.docLen posting.1 = .ok len
  findTerm : ∀ term, ∃ found, index.findTerm term = .ok found ∧
    ∀ entry, found = some entry ↔
      ∃ i < index.header.termCount, index.termEntry i = .ok entry ∧
        index.termBytes entry = .ok term
  allowlist : ∀ rowIds : List UInt64, (∀ id ∈ rowIds, id ∈ index.docToRowId) →
    ∃ allowed, index.prepareAllowlist rowIds = .ok allowed
  search : ∀ (sa : ScoreArith) (query : List Char) (topK : Nat) (allowlist : Option (Finset Nat)),
    ∃ rows, index.searchWithPreparedAllowlist sa query topK allowlist = .ok rows
  searchBy : ∀ (std : Unspecified) (sa : ScoreArith) (query : List Char) (topK : Nat)
    (allowlist : Option (Finset Nat)), ∃ rows, index.searchBy std sa query topK allowlist = .ok rows

variable {index : Bm25MmapIndex} {dict : List ScannedTerm}

theorem Accepted.entries (h : Accepted index dict) {j : Nat} {d : ScannedTerm}
    (hj : dict[j]? = some d) : ∃ range, index.postingRange d.entry = .ok range ∧
      ∀ offset ∈ postingOffsets range, ∃ posting len, index.posting offset = .ok posting ∧
        index.docLen posting.1 = .ok len := by
  obtain ⟨_, _, hscan, -⟩ := h.term hj
  obtain ⟨range, hrange, hlist⟩ := bind_eq_ok.mp hscan.list
  refine ⟨range, hrange, fun offset hmem => ?_⟩
  obtain ⟨posting, hposting, hread⟩ := mapM_mem_ok hlist hmem
  obtain ⟨len, hlen⟩ := h.sections.docLen_ok h.limit (hscan.inRange posting hposting).1
  exact ⟨posting, len, hread, hlen⟩

theorem Accepted.searchable (h : Accepted index dict) : Searchable index where
  entries i hi := by
    have hlt : i < dict.length := h.termCount ▸ hi
    obtain ⟨range, hrange, hreads⟩ := h.entries (List.getElem?_eq_getElem hlt)
    obtain ⟨_, _, hscan, -⟩ := h.term (List.getElem?_eq_getElem hlt)
    exact ⟨_, _, range, hscan.entry, hscan.bytes, hrange, hreads⟩
  findTerm term := by
    refine ⟨_, h.findTerm term, fun entry => ?_⟩
    rw [Option.map_eq_some_iff]
    constructor
    · rintro ⟨d, hfind, rfl⟩
      obtain ⟨j, hj⟩ := List.getElem?_of_mem (List.mem_of_find?_eq_some hfind)
      have hterm : d.term = term := by simpa using List.find?_some hfind
      obtain ⟨_, _, hscan, -⟩ := h.term hj
      refine ⟨j, ?_, hscan.entry, hterm ▸ hscan.bytes⟩
      rw [← h.termCount]
      exact (List.getElem?_eq_some_iff.mp hj).1
    · rintro ⟨i, hi, hentry, hbytes⟩
      have hlt : i < dict.length := h.termCount ▸ hi
      have hd := List.getElem?_eq_getElem hlt
      obtain ⟨_, _, hscan, -⟩ := h.term hd
      obtain rfl := Except.ok.inj (hscan.entry.symm.trans hentry)
      obtain rfl := Except.ok.inj (hscan.bytes.symm.trans hbytes)
      exact ⟨_, h.find_eq hd, rfl⟩
  allowlist _ hpresent := h.prepareAllowlist hpresent
  search sa query topK allowlist := by
    obtain ⟨ranked, hranked, -⟩ := h.search sa allowlist query topK
    exact ⟨_, hranked⟩
  searchBy std sa query topK allowlist := by
    obtain ⟨ranked, hranked, -⟩ := h.search sa allowlist query topK
    exact ⟨_, (h.searchBy_eq std sa query topK allowlist).trans hranked⟩

/-- Any byte string opens or is refused without leaving a range, and what opens can be
searched. -/
theorem untrusted_file (ar : AvgArith) (bytes : List UInt8) :
    Safe (Bm25MmapIndex.open ar bytes) ∧
      ∀ index, Bm25MmapIndex.open ar bytes = .ok index → Searchable index := by
  refine ⟨open_safe ar bytes, fun index hopen => ?_⟩
  obtain ⟨-, dict, haccepted⟩ := open_accepted hopen
  exact haccepted.searchable

end Bm25MmapIndex

end OrdinalDB.Sparse
