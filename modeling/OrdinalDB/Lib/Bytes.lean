import Mathlib

/-!
# Little-endian fields in a byte string

Fixed-width little-endian words (`le`, `ofLe`), slices with a bounds check, and
`At b off c`: the chunk `c` stands at offset `off` of `b`. A format is a
concatenation, so a reader is proved by splitting `At` along it: `At.left` and
`At.right` for two parts, `At.flatMap` for a table of equal-sized entries,
`At.fields` for a record of words. `drop_of_words` is the way back, from the words that
were read to the bytes; `words` reads a table of equal-sized words.
-/

namespace ByteCodec

/-! ## Words -/

/-- The `w` low-order bytes of `v`, lowest first. -/
def le : Nat → Nat → List UInt8
  | 0, _ => []
  | w + 1, v => UInt8.ofNat (v % 256) :: le w (v / 256)

def ofLe : List UInt8 → Nat
  | [] => 0
  | b :: bs => b.toNat + 256 * ofLe bs

@[simp] theorem le_length (w v : Nat) : (le w v).length = w := by
  induction w generalizing v with
  | zero => rfl
  | succ w ih => simp [le, ih]

theorem ofLe_le {w v : Nat} (h : v < 256 ^ w) : ofLe (le w v) = v := by
  induction w generalizing v with
  | zero =>
    have hv : v = 0 := by simpa using h
    simp [le, ofLe, hv]
  | succ w ih =>
    have hdiv : v / 256 < 256 ^ w := by
      rw [Nat.div_lt_iff_lt_mul (by decide)]
      rwa [Nat.pow_succ] at h
    have hmod : v % 256 < 256 := Nat.mod_lt _ (by decide)
    have hbyte : (UInt8.ofNat (v % 256)).toNat = v % 256 := by
      rw [UInt8.toNat_ofNat', Nat.mod_eq_of_lt hmod]
    rw [le, ofLe, ih hdiv, hbyte]
    omega

/-! ## Slices -/

variable {α β : Type}

/-- `bytes.get(off..off + len)`. -/
def slice (bytes : List α) (off len : Nat) : Option (List α) :=
  if off + len ≤ bytes.length then some ((bytes.drop off).take len) else none

/-- The chunk `c` stands at offset `off`. -/
def At (bytes : List α) (off : Nat) (c : List α) : Prop :=
  ∃ before after, bytes = before ++ c ++ after ∧ before.length = off

namespace At

variable {bytes c d : List α} {off : Nat}

theorem whole (bytes : List α) : At bytes 0 bytes := ⟨[], [], by simp, rfl⟩

theorem le_length (h : At bytes off c) : off + c.length ≤ bytes.length := by
  obtain ⟨before, after, rfl, rfl⟩ := h
  simp

theorem slice_eq (h : At bytes off c) : slice bytes off c.length = some c := by
  have hle := h.le_length
  obtain ⟨before, after, rfl, rfl⟩ := h
  rw [slice, if_pos hle]
  simp

theorem left (h : At bytes off (c ++ d)) : At bytes off c := by
  obtain ⟨before, after, rfl, rfl⟩ := h
  exact ⟨before, d ++ after, by simp, rfl⟩

theorem right (h : At bytes off (c ++ d)) : At bytes (off + c.length) d := by
  obtain ⟨before, after, rfl, rfl⟩ := h
  exact ⟨before ++ c, after, by simp, by simp⟩

/-- Entry `x` of a table stands behind the entries before it. -/
theorem flatMap_append {f : β → List α} {xs ys : List β} {x : β}
    (h : At bytes off ((xs ++ x :: ys).flatMap f)) :
    At bytes (off + (xs.flatMap f).length) (f x) := by
  rw [List.flatMap_append, List.flatMap_cons] at h
  exact h.right.left

theorem flatMap_length_eq {f : β → List α} {n : Nat} (hn : ∀ x, (f x).length = n) (xs : List β) :
    (xs.flatMap f).length = xs.length * n := by
  induction xs with
  | nil => simp
  | cons x xs ih =>
    simp only [List.flatMap_cons, List.length_append, hn, ih, List.length_cons]
    ring

/-- Entry `i` of a table of entries of size `n`. -/
theorem flatMap {f : β → List α} {xs : List β} (h : At bytes off (xs.flatMap f)) {n : Nat}
    (hn : ∀ x, (f x).length = n) {i : Nat} {x : β} (hx : xs[i]? = some x) :
    At bytes (off + i * n) (f x) := by
  obtain ⟨hi, rfl⟩ := List.getElem?_eq_some_iff.mp hx
  have hsplit : xs = xs.take i ++ xs[i] :: xs.drop (i + 1) := by simp
  rw [hsplit] at h
  have hentry := h.flatMap_append
  rwa [flatMap_length_eq hn, List.length_take, Nat.min_eq_left (Nat.le_of_lt hi)] at hentry

end At

/-! ## Records of words -/

/-- A record as widths and values. -/
abbrev Fields := List (Nat × Nat)

def encode (fields : Fields) : List UInt8 := fields.flatMap fun field => le field.1 field.2

def width (fields : Fields) : Nat := (fields.map Prod.fst).sum

@[simp] theorem encode_length (fields : Fields) : (encode fields).length = width fields := by
  simp [encode, width, List.length_flatMap]

/-- Field `i` of a record stands behind the widths of the fields before it. -/
theorem At.fields {bytes : List UInt8} {off : Nat} {fields : Fields}
    (h : At bytes off (encode fields)) {i w v : Nat} (hi : fields[i]? = some (w, v)) :
    At bytes (off + width (fields.take i)) (le w v) := by
  obtain ⟨hlt, heq⟩ := List.getElem?_eq_some_iff.mp hi
  have hsplit : fields = fields.take i ++ (w, v) :: fields.drop (i + 1) := by
    rw [← heq]
    simp
  rw [hsplit, encode] at h
  have hfield := h.flatMap_append
  rwa [← encode, encode_length] at hfield

/-- `le_u*_at`: the word of width `w` at an offset. -/
def wordAt (bytes : List UInt8) (w off : Nat) : Option Nat := (slice bytes off w).map ofLe

theorem At.wordAt_eq {bytes : List UInt8} {off w v : Nat} (h : At bytes off (le w v))
    (hv : v < 256 ^ w) : wordAt bytes w off = some v := by
  have hslice := h.slice_eq
  rw [ByteCodec.le_length] at hslice
  rw [wordAt, hslice, Option.map_some, ofLe_le hv]

/-! ## Reading back -/

theorem ofLe_lt (bytes : List UInt8) : ofLe bytes < 256 ^ bytes.length := by
  induction bytes with
  | nil => simp [ofLe]
  | cons b bytes ih =>
    have hb := b.toNat_lt
    rw [ofLe, List.length_cons, Nat.pow_succ]
    omega

theorem wordAt_of_le {bytes : List UInt8} {w off : Nat} (h : off + w ≤ bytes.length) :
    ∃ v, wordAt bytes w off = some v := by
  rw [wordAt, slice, if_pos h]
  exact ⟨_, rfl⟩

theorem wordAt_lt {bytes : List UInt8} {w off v : Nat} (h : wordAt bytes w off = some v) :
    v < 256 ^ w := by
  obtain ⟨chunk, hchunk, rfl⟩ := Option.map_eq_some_iff.mp h
  obtain ⟨hle, hsome⟩ := Option.ite_none_right_eq_some.mp hchunk
  obtain rfl := Option.some.inj hsome
  have hlength : ((bytes.drop off).take w).length = w := by
    rw [List.length_take, List.length_drop]
    omega
  have hlt := ofLe_lt ((bytes.drop off).take w)
  rwa [hlength] at hlt

theorem le_ofLe (bytes : List UInt8) : le bytes.length (ofLe bytes) = bytes := by
  induction bytes with
  | nil => rfl
  | cons b bytes ih =>
    have hb : b.toNat < 256 := b.toNat_lt
    have hlow : (b.toNat + 256 * ofLe bytes) % 256 = b.toNat := by
      rw [Nat.add_mul_mod_self_left, Nat.mod_eq_of_lt hb]
    have hhigh : (b.toNat + 256 * ofLe bytes) / 256 = ofLe bytes := by
      rw [Nat.add_mul_div_left _ _ (by decide), Nat.div_eq_of_lt hb, Nat.zero_add]
    show UInt8.ofNat ((b.toNat + 256 * ofLe bytes) % 256) ::
      le bytes.length ((b.toNat + 256 * ofLe bytes) / 256) = b :: bytes
    rw [hlow, hhigh, ih, UInt8.ofNat_toNat]

/-- A word that was read stands there. -/
theorem take_of_wordAt {bytes : List UInt8} {w off v : Nat} (h : wordAt bytes w off = some v) :
    (bytes.drop off).take w = le w v := by
  obtain ⟨chunk, hchunk, rfl⟩ := Option.map_eq_some_iff.mp h
  obtain ⟨hle, hsome⟩ := Option.ite_none_right_eq_some.mp hchunk
  obtain rfl := Option.some.inj hsome
  have hlength : ((bytes.drop off).take w).length = w := by
    rw [List.length_take, List.length_drop]
    omega
  have hback := le_ofLe ((bytes.drop off).take w)
  rw [hlength] at hback
  exact hback.symm

/-- Words that are read up to the end of the bytes are all there is behind the offset. -/
theorem drop_of_words {bytes : List UInt8} {w off : Nat} {vs : List Nat}
    (hend : bytes.length = off + vs.length * w)
    (h : ∀ i (hi : i < vs.length), wordAt bytes w (off + i * w) = some vs[i]) :
    bytes.drop off = vs.flatMap (le w) := by
  induction vs generalizing off with
  | nil => exact List.drop_eq_nil_of_le (by simpa using hend.le)
  | cons v vs ih =>
    have hfirst : wordAt bytes w off = some v := by
      have hzero := h 0 (by simp)
      rwa [Nat.zero_mul, Nat.add_zero] at hzero
    have hend' : bytes.length = off + w + vs.length * w := by
      rw [hend, List.length_cons, Nat.succ_mul]
      omega
    have hrest : bytes.drop (off + w) = vs.flatMap (le w) := by
      refine ih hend' fun i hi => ?_
      have hnext := h (i + 1) (Nat.succ_lt_succ hi)
      rw [Nat.succ_mul, Nat.add_comm (i * w) w, ← Nat.add_assoc] at hnext
      exact hnext
    calc bytes.drop off
        = (bytes.drop off).take w ++ (bytes.drop off).drop w := (List.take_append_drop _ _).symm
      _ = le w v ++ vs.flatMap (le w) := by rw [take_of_wordAt hfirst, List.drop_drop, hrest]
      _ = (v :: vs).flatMap (le w) := rfl

/-! ## Tables of words -/

/-- The words of width `w` that a table holds. -/
def words (w : Nat) (bytes : List UInt8) : List Nat :=
  (List.range (bytes.length / w)).map fun i => ofLe ((bytes.drop (i * w)).take w)

@[simp] theorem length_words (w : Nat) (bytes : List UInt8) :
    (words w bytes).length = bytes.length / w := by
  simp [words]

theorem lt_of_mem_words {bytes : List UInt8} {w v : Nat} (h : v ∈ words w bytes) :
    v < 256 ^ w := by
  obtain ⟨i, -, rfl⟩ := List.mem_map.mp h
  exact (ofLe_lt _).trans_le (Nat.pow_le_pow_right (by decide) (List.length_take_le _ _))

/-- Bytes of `n` whole words are the table of these words. -/
theorem flatMap_words {bytes : List UInt8} {w n : Nat} (hw : 0 < w) (h : bytes.length = n * w) :
    (words w bytes).flatMap (le w) = bytes := by
  have hcount : (words w bytes).length = n := by
    rw [length_words, h, Nat.mul_div_cancel _ hw]
  have hread : ∀ i (hi : i < (words w bytes).length),
      wordAt bytes w (0 + i * w) = some (words w bytes)[i] := by
    intro i hi
    have hle : i * w + w ≤ bytes.length := by
      rw [h, ← Nat.succ_mul]
      exact Nat.mul_le_mul_right w (hcount ▸ hi)
    rw [Nat.zero_add, wordAt, slice, if_pos hle]
    simp [words]
  have hend : bytes.length = 0 + (words w bytes).length * w := by rw [hcount, h, Nat.zero_add]
  exact (drop_of_words hend hread).symm

/-- A table is read as the words that it was written from. -/
theorem words_flatMap {w : Nat} (hw : 0 < w) {vs : List Nat} (h : ∀ v ∈ vs, v < 256 ^ w) :
    words w (vs.flatMap (le w)) = vs := by
  have hlength : (vs.flatMap (le w)).length = vs.length * w := by
    exact At.flatMap_length_eq (fun v => le_length w v) vs
  refine List.ext_getElem (by rw [length_words, hlength, Nat.mul_div_cancel _ hw]) ?_
  intro i hi hi'
  have hat := (At.whole (vs.flatMap (le w))).flatMap (fun v => le_length w v)
    (List.getElem?_eq_getElem hi')
  have hslice := hat.slice_eq
  rw [le_length] at hslice
  have hread : ((vs.flatMap (le w)).drop (i * w)).take w = le w vs[i] := by
    unfold slice at hslice
    split at hslice
    next => simpa using Option.some.inj hslice
    next => cases hslice
  simp only [words, List.getElem_map, List.getElem_range]
  rw [hread, ofLe_le (h _ (List.getElem_mem hi'))]

/-- A table of values that are read and written as words is written as it was read. -/
theorem flatMap_map_words {bytes : List UInt8} {w n : Nat} {put : β → Nat} {get : Nat → β}
    (hw : 0 < w) (hput : ∀ v < 256 ^ w, put (get v) = v) (h : bytes.length = n * w) :
    ((words w bytes).map get).flatMap (fun value => le w (put value)) = bytes := by
  rw [List.flatMap_map]
  calc (words w bytes).flatMap (fun v => le w (put (get v)))
      = (words w bytes).flatMap (le w) :=
        List.flatMap_congr fun v hv => by rw [hput v (lt_of_mem_words hv)]
    _ = bytes := flatMap_words hw h

end ByteCodec
