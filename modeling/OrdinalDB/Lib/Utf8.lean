import Mathlib

/-!
# UTF-8

Texts as bytes, and the lossy reading of bytes that need not be UTF-8: it puts U+FFFD for every
ill-formed sequence, up to the byte that cannot go on with it. Different bytes may read alike;
the bytes of a text read as the text (`lossy_encode`).
-/

namespace Utf8

def encode (text : List Char) : List UInt8 := text.flatMap String.utf8EncodeChar

def replacement : Char := Char.ofNat 0xfffd

/-- A sequence that has begun: its bits, how many bytes follow the next one, and the range of the
next one. -/
structure Pending where
  bits : Nat
  more : Nat
  low : Nat
  high : Nat

/-- A byte outside a sequence: the characters that it completes, and the sequence that it begins. -/
def start (b : Nat) : List Char × Option Pending :=
  if b < 0x80 then ([Char.ofNat b], none)
  else if b < 0xc2 then ([replacement], none)
  else if b < 0xe0 then ([], some ⟨b - 0xc0, 0, 0x80, 0xbf⟩)
  -- no overlong forms and no surrogates
  else if b = 0xe0 then ([], some ⟨0, 1, 0xa0, 0xbf⟩)
  else if b = 0xed then ([], some ⟨0xd, 1, 0x80, 0x9f⟩)
  else if b < 0xf0 then ([], some ⟨b - 0xe0, 1, 0x80, 0xbf⟩)
  else if b = 0xf0 then ([], some ⟨0, 2, 0x90, 0xbf⟩)
  else if b < 0xf4 then ([], some ⟨b - 0xf0, 2, 0x80, 0xbf⟩)
  else if b = 0xf4 then ([], some ⟨4, 2, 0x80, 0x8f⟩)
  else ([replacement], none)

/-- A byte that does not go on with the sequence is read outside of it. -/
def feed : Option Pending → Nat → List Char × Option Pending
  | none, b => start b
  | some pending, b =>
    if pending.low ≤ b ∧ b ≤ pending.high then
      let bits := pending.bits * 64 + (b - 0x80)
      if pending.more = 0 then ([Char.ofNat bits], none)
      else ([], some ⟨bits, pending.more - 1, 0x80, 0xbf⟩)
    else (replacement :: (start b).1, (start b).2)

def lossyFrom : Option Pending → List UInt8 → List Char
  | none, [] => []
  | some _, [] => [replacement]
  | pending, b :: rest => (feed pending b.toNat).1 ++ lossyFrom (feed pending b.toNat).2 rest

/-- `String::from_utf8_lossy`. -/
def lossy (bytes : List UInt8) : List Char := lossyFrom none bytes

section Encoded

variable {n bits more low high : Nat} {rest : List UInt8}

theorem lossyFrom_ascii (h : n < 0x80) :
    lossyFrom none (UInt8.ofNat n :: rest) = Char.ofNat n :: lossyFrom none rest := by
  have hn : (UInt8.ofNat n).toNat = n := UInt8.toNat_ofNat_of_lt' (h.trans (by decide))
  simp [lossyFrom, feed, hn, start, h]

/-- A byte that begins a sequence. -/
theorem lossyFrom_start {pending : Pending} (hn : n < 256)
    (h : start n = ([], some pending)) :
    lossyFrom none (UInt8.ofNat n :: rest) = lossyFrom (some pending) rest := by
  have hbyte : (UInt8.ofNat n).toNat = n := UInt8.toNat_ofNat_of_lt' hn
  simp [lossyFrom, feed, hbyte, h]

/-- A byte that goes on with it. -/
theorem lossyFrom_more (hn : n < 256) (hlow : low ≤ n) (hhigh : n ≤ high) (hmore : more ≠ 0) :
    lossyFrom (some ⟨bits, more, low, high⟩) (UInt8.ofNat n :: rest) =
      lossyFrom (some ⟨bits * 64 + (n - 0x80), more - 1, 0x80, 0xbf⟩) rest := by
  have hbyte : (UInt8.ofNat n).toNat = n := UInt8.toNat_ofNat_of_lt' hn
  simp [lossyFrom, feed, hbyte, hlow, hhigh, hmore]

/-- The last byte of a sequence. -/
theorem lossyFrom_last {v : Nat} (hn : n < 256) (hlow : low ≤ n) (hhigh : n ≤ high)
    (hvalue : bits * 64 + (n - 0x80) = v) :
    lossyFrom (some ⟨bits, 0, low, high⟩) (UInt8.ofNat n :: rest) =
      Char.ofNat v :: lossyFrom none rest := by
  have hbyte : (UInt8.ofNat n).toNat = n := UInt8.toNat_ofNat_of_lt' hn
  simp [lossyFrom, feed, hbyte, hlow, hhigh, hvalue]

/-- The first byte of three, with the range of the second one. -/
theorem start_three (h : n < 16) : ∃ low high, start (n + 0xe0) = ([], some ⟨n, 1, low, high⟩) ∧
    (low = if n = 0 then 0xa0 else 0x80) ∧ high = if n = 0xd then 0x9f else 0xbf := by
  unfold start
  interval_cases n <;> exact ⟨_, _, rfl, rfl, rfl⟩

/-- The first byte of four. -/
theorem start_four (h : n < 5) : ∃ low high, start (n + 0xf0) = ([], some ⟨n, 2, low, high⟩) ∧
    (low = if n = 0 then 0x90 else 0x80) ∧ high = if n = 4 then 0x8f else 0xbf := by
  unfold start
  interval_cases n <;> exact ⟨_, _, rfl, rfl, rfl⟩

theorem lossyFrom_encodeChar (c : Char) :
    lossyFrom none (String.utf8EncodeChar c ++ rest) = c :: lossyFrom none rest := by
  obtain ⟨v, hv⟩ : ∃ v, v = c.val.toNat := ⟨_, rfl⟩
  have hchar : Char.ofNat v = c := hv ▸ Char.ofNat_toNat c
  have hvalid : v < 0xd800 ∨ 0xdfff < v ∧ v < 0x110000 := hv ▸ c.valid
  unfold String.utf8EncodeChar
  simp only [← hv]
  split
  next hone => rw [List.cons_append, lossyFrom_ascii (by omega), hchar, List.nil_append]
  next hone =>
    split
    next htwo =>
      have hstart : start (v / 64 % 0x20 + 0xc0) =
          ([], some ⟨v / 64 % 0x20, 0, 0x80, 0xbf⟩) := by
        rw [start, if_neg (by omega), if_neg (by omega), if_pos (by omega), Nat.add_sub_cancel]
      rw [List.cons_append, lossyFrom_start (by omega) hstart, List.cons_append,
        lossyFrom_last (v := v) (by omega) (by omega) (by omega) (by omega), hchar,
        List.nil_append]
    next htwo =>
      split
      next hthree =>
        obtain ⟨low, high, hstart, hlow, hhigh⟩ :=
          start_three (n := v / 4096 % 0x10) (Nat.mod_lt _ (by decide))
        rw [List.cons_append, lossyFrom_start (by omega) hstart, List.cons_append,
          lossyFrom_more (by omega) (by split at hlow <;> omega) (by split at hhigh <;> omega)
            (by decide),
          List.cons_append, lossyFrom_last (v := v) (by omega) (by omega) (by omega) (by omega), hchar,
          List.nil_append]
      next hthree =>
        obtain ⟨low, high, hstart, hlow, hhigh⟩ :=
          start_four (n := v / 262144 % 0x08) (by omega)
        rw [List.cons_append, lossyFrom_start (by omega) hstart, List.cons_append,
          lossyFrom_more (by omega) (by split at hlow <;> omega) (by split at hhigh <;> omega)
            (by decide),
          List.cons_append, lossyFrom_more (by omega) (by omega) (by omega) (by decide),
          List.cons_append, lossyFrom_last (v := v) (by omega) (by omega) (by omega) (by omega), hchar,
          List.nil_append]

end Encoded

/-- The bytes of a text read as the text. -/
@[simp] theorem lossy_encode (text : List Char) : lossy (encode text) = text := by
  induction text with
  | nil => rfl
  | cons c text ih =>
    show lossyFrom none (String.utf8EncodeChar c ++ encode text) = c :: text
    rw [lossyFrom_encodeChar]
    exact congrArg (c :: ·) ih

end Utf8
