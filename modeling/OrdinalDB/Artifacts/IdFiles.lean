import OrdinalDB.Artifacts.Copying

/-!
# The id file format

One encoder and two decoders: `write_ids_file` and `read_ids_file` of
`ordinaldb/src/io.rs`, and `read_ordinaldb_ids` of `ordinaldb-hybrid/src/sparse.rs`, which
reads the same file next to a sparse index.

`readIdsFile_exact`: a file is read exactly when it was written from distinct ids,
`id_file_codec` adds what follows for damaged files and for the second decoder.
-/

namespace OrdinalDB.Artifacts

open ByteCodec

/-! ## Definitions -/

/-- What a file can hold. -/
structure FileContent where
  bytes : Bytes
  fits : bytes.length ≤ maxFileBytes

def ordinaldbIdsMagic : Bytes := "ODBIDS1".toUTF8.toList ++ [0]

/-- The second decoder does not look for duplicates. -/
def readOrdinaldbIds (bytes : Bytes) (expectedLen : Nat) : Option (List UInt64) := do
  guard (expectedLen * 8 + 16 < 2 ^ 64)
  guard (bytes.length = expectedLen * 8 + 16)
  guard (slice bytes 0 8 = some ordinaldbIdsMagic)
  guard (wordAt bytes 8 8 = some expectedLen)
  (List.range expectedLen).mapM fun i => (wordAt bytes 8 (16 + i * 8)).map UInt64.ofNat

/-! ## Reading -/

variable {bytes other : Bytes} {n m : Nat} {ids : List UInt64}

/-- What the first decoder has checked. -/
structure ReadsIds (bytes : Bytes) (n : Nat) (ids : List UInt64) : Prop where
  sized : n * 8 + 16 < 2 ^ 64
  length : bytes.length = n * 8 + 16
  magic : slice bytes 0 8 = some idsMagic
  count : wordAt bytes 8 8 = some n
  words : (List.range n).mapM (fun i => (wordAt bytes 8 (16 + i * 8)).map UInt64.ofNat) = some ids
  distinct : ids.Nodup

theorem readIdsFile_eq_some : readIdsFile bytes n = some ids ↔ ReadsIds bytes n ids := by
  simp only [readIdsFile, Option.bind_eq_bind, Option.bind_eq_some_iff, Option.guard_eq_some',
    Option.pure_def, Option.some.injEq, exists_const]
  constructor
  · rintro ⟨hsized, hlength, hmagic, hcount, found, hwords, hdistinct, rfl⟩
    exact ⟨hsized, hlength, hmagic, hcount, hwords, hdistinct⟩
  · intro h
    exact ⟨h.sized, h.length, h.magic, h.count, ids, h.words, h.distinct, rfl⟩

theorem ReadsIds.ids_length (h : ReadsIds bytes n ids) : ids.length = n := by
  have hlength := congrArg List.length (Table.mapM_eq_some.mp h.words)
  rw [List.length_map, List.length_map, List.length_range] at hlength
  exact hlength.symm

theorem ReadsIds.word (h : ReadsIds bytes n ids) {i : Nat} (hi : i < ids.length) :
    wordAt bytes 8 (16 + i * 8) = some ids[i].toNat := by
  have hentry := congrArg (·[i]?) (Table.mapM_eq_some.mp h.words)
  have hin : i < n := h.ids_length ▸ hi
  simp only [List.getElem?_map, List.getElem?_range hin, List.getElem?_eq_getElem hi,
    Option.map_some] at hentry
  obtain ⟨word, hword, hid⟩ := Option.map_eq_some_iff.mp (Option.some.inj hentry)
  have hlt : word < 2 ^ 64 := wordAt_lt hword
  rw [hword, ← hid, UInt64.toNat_ofNat_of_lt' hlt]

/-- The bytes that were read are those of the ids. -/
theorem ReadsIds.bytes_eq (h : ReadsIds bytes n ids) : bytes = idsBytes ids := by
  have hmagic : bytes.take 8 = idsMagic := by
    have hslice := h.magic
    rw [slice, if_pos (by rw [h.length]; omega), List.drop_zero] at hslice
    exact Option.some.inj hslice
  have hcount : (bytes.drop 8).take 8 = le 8 ids.length := by
    rw [take_of_wordAt h.count, h.ids_length]
  have hend : bytes.length = 16 + (ids.map UInt64.toNat).length * 8 := by
    rw [h.length, List.length_map, h.ids_length, Nat.add_comm]
  have hwords : bytes.drop 16 = ids.flatMap fun id => le 8 id.toNat := by
    rw [drop_of_words hend fun i hi => ?_, List.flatMap_map]
    rw [List.length_map] at hi
    rw [h.word hi, List.getElem_map]
  calc bytes
      = bytes.take 8 ++ ((bytes.drop 8).take 8 ++ (bytes.drop 8).drop 8) := by
        rw [List.take_append_drop, List.take_append_drop]
    _ = idsMagic ++ (le 8 ids.length ++ ids.flatMap fun id => le 8 id.toNat) := by
        rw [hmagic, hcount, List.drop_drop, hwords]
    _ = idsBytes ids := (List.append_assoc _ _ _).symm

/-- A file is read exactly when it was written from distinct ids. -/
theorem readIdsFile_exact (file : FileContent) :
    readIdsFile file.bytes n = some ids ↔
      writeIdsFile ids = some file.bytes ∧ ids.length = n ∧ ids.Nodup := by
  constructor
  · intro hread
    have h := readIdsFile_eq_some.mp hread
    refine ⟨?_, h.ids_length, h.distinct⟩
    have hfits := file.fits
    rw [h.bytes_eq] at hfits ⊢
    exact if_pos hfits
  · rintro ⟨hwritten, rfl, hdistinct⟩
    exact readIdsFile_writeIdsFile hdistinct hwritten

/-! ## Damaged files -/

/-- Files that are read agree on their length and header as soon as they agree on the count. -/
theorem ReadsIds.header {others : List UInt64} (h : ReadsIds bytes n ids)
    (hother : ReadsIds other n others) :
    other.length = bytes.length ∧ other.take 16 = bytes.take 16 := by
  have hheader : ∀ {bytes : Bytes} {ids : List UInt64}, ReadsIds bytes n ids →
      bytes.take 16 = idsMagic ++ le 8 n := by
    intro bytes ids h
    rw [h.bytes_eq, idsBytes, h.ids_length]
    exact List.take_left' (by rw [List.length_append, idsMagic_length, le_length])
  exact ⟨hother.length.trans h.length.symm, (hheader hother).trans (hheader h).symm⟩

/-- The count stands in the header. -/
theorem ReadsIds.count_eq {others : List UInt64} (h : ReadsIds bytes n ids)
    (hother : ReadsIds other m others) (hsame : other.take 16 = bytes.take 16) : m = n := by
  have hcount : ∀ {bytes : Bytes} {n : Nat} {ids : List UInt64}, ReadsIds bytes n ids →
      ofLe ((bytes.take 16).drop 8) = n := by
    intro bytes n ids h
    have hword := h.count
    rw [wordAt, slice, if_pos (by rw [h.length]; omega), Option.map_some] at hword
    rw [List.drop_take]
    exact Option.some.inj hword
  rw [← hcount hother, hsame, hcount h]

theorem readIdsFile_truncated (h : ReadsIds bytes n ids) {k : Nat} (hk : k < bytes.length) :
    readIdsFile (bytes.take k) m = none := by
  by_contra hne
  obtain ⟨others, hread⟩ := Option.ne_none_iff_exists'.mp hne
  have hother := readIdsFile_eq_some.mp hread
  have hlength : (bytes.take k).length = k := List.length_take_of_le hk.le
  have hsixteen : 16 ≤ k := by
    rw [← hlength, hother.length]
    exact Nat.le_add_left _ _
  have hsame : (bytes.take k).take 16 = bytes.take 16 := by
    rw [List.take_take, Nat.min_eq_left hsixteen]
  obtain rfl := h.count_eq hother hsame
  have hwhole := (h.header hother).1
  exact absurd (hlength.symm.trans hwhole) hk.ne

theorem readIdsFile_extended (h : ReadsIds bytes n ids) {extra : Bytes} (hextra : extra ≠ []) :
    readIdsFile (bytes ++ extra) m = none := by
  by_contra hne
  obtain ⟨others, hread⟩ := Option.ne_none_iff_exists'.mp hne
  have hother := readIdsFile_eq_some.mp hread
  have hsame : (bytes ++ extra).take 16 = bytes.take 16 :=
    List.take_append_of_le_length (by rw [h.length]; exact Nat.le_add_left _ _)
  obtain rfl := h.count_eq hother hsame
  have hwhole := (h.header hother).1
  rw [List.length_append] at hwhole
  exact hextra (List.length_eq_zero_iff.mp (by omega))

theorem readIdsFile_header_changed (h : ReadsIds bytes n ids) {header : Bytes}
    (hlength : header.length = 16) (hne : header ≠ bytes.take 16) :
    readIdsFile (header ++ bytes.drop 16) m = none := by
  by_contra hsome
  obtain ⟨others, hread⟩ := Option.ne_none_iff_exists'.mp hsome
  have hother := readIdsFile_eq_some.mp hread
  -- the length has not changed, and it determines the count
  have hcount : m = n := by
    have hwhole := hother.length
    rw [List.length_append, List.length_drop, hlength, h.length] at hwhole
    omega
  subst hcount
  have hheader := (h.header hother).2
  rw [List.take_left' hlength] at hheader
  exact hne hheader

/-! ## The second decoder -/

theorem readOrdinaldbIds_of_reads (h : ReadsIds bytes n ids) :
    readOrdinaldbIds bytes n = some ids := by
  have hmagic : slice bytes 0 8 = some ordinaldbIdsMagic := h.magic
  unfold readOrdinaldbIds
  rw [hmagic, h.count, h.words]
  simp only [guard, h.sized, h.length, if_true, Option.bind_eq_bind, Option.bind_some,
    Option.pure_def]

/-- The codec is exact on every file and for every expected row count. A file that is read has
the size that was computed, a size out of range is refused by both decoders, and no damaged
file is read under any count. -/
theorem id_file_codec (file : FileContent) (n : Nat) :
    (∀ ids, readIdsFile file.bytes n = some ids ↔
      writeIdsFile ids = some file.bytes ∧ ids.length = n ∧ ids.Nodup) ∧
    (2 ^ 63 ≤ n * 8 + 16 →
      readIdsFile file.bytes n = none ∧ readOrdinaldbIds file.bytes n = none) ∧
    ∀ ids, readIdsFile file.bytes n = some ids →
      n * 8 + 16 = file.bytes.length ∧
      (∀ m k, k < file.bytes.length → readIdsFile (file.bytes.take k) m = none) ∧
      (∀ m extra, extra ≠ [] → readIdsFile (file.bytes ++ extra) m = none) ∧
      (∀ m header, header.length = 16 → header ≠ file.bytes.take 16 →
        readIdsFile (header ++ file.bytes.drop 16) m = none) ∧
      readOrdinaldbIds file.bytes n = some ids := by
  refine ⟨fun ids => readIdsFile_exact file, fun hlarge => ?_, fun ids hread => ?_⟩
  · have hsize : file.bytes.length ≠ n * 8 + 16 := by
      have hfits := file.fits
      rw [maxFileBytes] at hfits
      omega
    constructor
    · simp [readIdsFile, guard, hsize]
    · simp [readOrdinaldbIds, guard, hsize]
  · have h := readIdsFile_eq_some.mp hread
    exact ⟨h.length.symm, fun m k hk => readIdsFile_truncated h hk,
      fun m extra hextra => readIdsFile_extended h hextra,
      fun m header hlength hne => readIdsFile_header_changed h hlength hne,
      readOrdinaldbIds_of_reads h⟩

end OrdinalDB.Artifacts
