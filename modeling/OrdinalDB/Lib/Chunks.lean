import Mathlib

/-!
# Chunks

A list is cut into chunks of one size, the last of which may be shorter, and a buffer is filled
chunk by chunk. `foldl_writeChunk`: whatever the order, every chunk comes from the target, so
`writeChunks_eq` ends with the target when no chunk is left out. Rows of one length are not cut
by chunks of whole rows (`chunk_flatten`).
-/

namespace Chunks

variable {A : Type} {size width i : Nat}

/-- Chunk `i` of a list. -/
def chunk (size : Nat) (list : List A) (i : Nat) : List A := (list.drop (i * size)).take size

/-- The number of chunks. -/
def count (size length : Nat) : Nat := (length + size - 1) / size

/-- Overwrite chunk `i` of a buffer. -/
def writeChunk (size : Nat) (buffer : List A) (i : Nat) (out : List A) : List A :=
  buffer.mapIdx fun p old => if p / size = i then out[p % size]?.getD old else old

/-! ## Positions -/

theorem lt_count (hsize : 0 < size) {length : Nat} : i < count size length ↔ i * size < length := by
  unfold count
  rw [Nat.lt_div_iff_mul_lt hsize]
  omega

/-- Every position lies in one chunk. -/
theorem exists_unique_chunk (hsize : 0 < size) {length p : Nat} (hp : p < length) :
    ∃! i, i < count size length ∧ i * size ≤ p ∧ p < (i + 1) * size := by
  refine ⟨p / size, ⟨(lt_count hsize).mpr ?_, Nat.div_mul_le_self p size, ?_⟩, ?_⟩
  · exact (Nat.div_mul_le_self p size).trans_lt hp
  · exact Nat.lt_mul_of_div_lt (Nat.lt_succ_self _) hsize
  · rintro i ⟨-, hle, hlt⟩
    exact ((Nat.div_eq_iff hsize).mpr ⟨by rwa [Nat.mul_comm] at hle ⊢, by
      rw [Nat.succ_mul] at hlt
      omega⟩).symm

theorem length_chunk (list : List A) : (chunk size list i).length =
    min size (list.length - i * size) := by
  rw [chunk, List.length_take, List.length_drop]

theorem count_mul (hwidth : 0 < width) (hsize : 0 < size) (length : Nat) :
    count (size * width) (length * width) = count size length := by
  refine le_antisymm (Nat.le_of_not_lt fun hlt => ?_) (Nat.le_of_not_lt fun hlt => ?_)
  · have h := (lt_count (Nat.mul_pos hsize hwidth)).mp hlt
    rw [← Nat.mul_assoc] at h
    exact lt_irrefl _ ((lt_count hsize).mpr (Nat.lt_of_mul_lt_mul_right h))
  · have h := Nat.mul_lt_mul_of_pos_right ((lt_count hsize).mp hlt) hwidth
    rw [Nat.mul_assoc] at h
    exact lt_irrefl _ ((lt_count (Nat.mul_pos hsize hwidth)).mpr h)

/-! ## Rows -/

theorem drop_flatten {rows : List (List A)} (h : ∀ row ∈ rows, row.length = width) (n : Nat) :
    rows.flatten.drop (n * width) = (rows.drop n).flatten := by
  induction n generalizing rows with
  | zero => simp
  | succ n ih =>
    cases rows with
    | nil => simp
    | cons row rows =>
      obtain ⟨hrow, hrows⟩ := List.forall_mem_cons.mp h
      have hsplit : (n + 1) * width = row.length + n * width := by rw [hrow, Nat.succ_mul, add_comm]
      rw [List.flatten_cons, hsplit, List.drop_append, List.drop_succ_cons, ← ih hrows]
      simp

theorem take_flatten {rows : List (List A)} (h : ∀ row ∈ rows, row.length = width) (n : Nat) :
    rows.flatten.take (n * width) = (rows.take n).flatten := by
  induction n generalizing rows with
  | zero => simp
  | succ n ih =>
    cases rows with
    | nil => simp
    | cons row rows =>
      obtain ⟨hrow, hrows⟩ := List.forall_mem_cons.mp h
      have hsplit : (n + 1) * width = row.length + n * width := by rw [hrow, Nat.succ_mul, add_comm]
      rw [List.flatten_cons, hsplit, List.take_length_add_append, List.take_succ_cons,
        List.flatten_cons, ih hrows]

theorem flatten_length {rows : List (List A)} (h : ∀ row ∈ rows, row.length = width) :
    rows.flatten.length = rows.length * width := by
  rw [List.length_flatten, List.map_congr_left h]
  simp

/-- A chunk of whole rows. -/
theorem chunk_flatten {rows : List (List A)} (h : ∀ row ∈ rows, row.length = width) :
    chunk (size * width) rows.flatten i = (chunk size rows i).flatten := by
  unfold chunk
  rw [← Nat.mul_assoc, drop_flatten h,
    take_flatten fun row hrow => h row (List.mem_of_mem_drop hrow)]

/-- One row. -/
theorem row_flatten {rows : List (List A)} (h : ∀ row ∈ rows, row.length = width) {row : List A}
    (hrow : rows[i]? = some row) : chunk width rows.flatten i = row := by
  have hone := @chunk_flatten _ 1 _ i _ h
  rw [Nat.one_mul] at hone
  obtain ⟨hi, rfl⟩ := List.getElem?_eq_some_iff.mp hrow
  rw [hone, chunk, Nat.mul_one, List.drop_eq_getElem_cons hi]
  exact List.append_nil _

/-- The chunks make up the list. -/
theorem flatten_chunks (list : List A) (n : Nat) :
    ((List.range n).map (chunk size list)).flatten = list.take (n * size) := by
  induction n with
  | zero => simp
  | succ n ih =>
    rw [List.range_succ, List.map_append, List.flatten_append, ih, Nat.succ_mul, List.take_add]
    exact congrArg _ (List.append_nil _)

/-! ## Writing -/

@[simp] theorem length_writeChunk (buffer out : List A) :
    (writeChunk size buffer i out).length = buffer.length := by
  simp [writeChunk]

/-- A write shows the target in its chunk and leaves the rest. -/
theorem getElem?_writeChunk (hsize : 0 < size) {buffer target : List A}
    (hlength : buffer.length = target.length) (p : Nat) :
    (writeChunk size buffer i (chunk size target i))[p]? =
      if p / size = i then target[p]? else buffer[p]? := by
  rw [writeChunk, List.getElem?_mapIdx]
  cases hold : buffer[p]? with
  | none =>
    have hlast := List.getElem?_eq_none_iff.mp hold
    have htarget : target[p]? = none := List.getElem?_eq_none_iff.mpr (hlength ▸ hlast)
    rw [htarget]
    simp
  | some old =>
    have hp : p < target.length := hlength ▸ (List.getElem?_eq_some_iff.mp hold).1
    rw [Option.map_some]
    split
    next hsame =>
      have hposition : i * size + p % size = p := by
        rw [← hsame, Nat.mul_comm]
        exact Nat.div_add_mod p size
      rw [chunk, List.getElem?_take_of_lt (Nat.mod_lt p hsize), List.getElem?_drop, hposition,
        List.getElem?_eq_getElem hp, Option.getD_some]
    next => rfl

theorem foldl_writeChunk (hsize : 0 < size) {target : List A} {order : List Nat} {buffer : List A}
    (hlength : buffer.length = target.length) (p : Nat) :
    (order.foldl (fun buffer i => writeChunk size buffer i (chunk size target i)) buffer)[p]? =
      if p / size ∈ order then target[p]? else buffer[p]? := by
  induction order generalizing buffer with
  | nil => simp
  | cons i order ih =>
    rw [List.foldl_cons, ih (by rw [length_writeChunk, hlength]), getElem?_writeChunk hsize hlength]
    by_cases hrest : p / size ∈ order
    · simp [hrest]
    · simp [hrest]

/-- All chunks of a target, in any order. -/
theorem writeChunks_eq (hsize : 0 < size) {target buffer : List A} {order : List Nat}
    (hlength : buffer.length = target.length)
    (horder : order.Perm (List.range (count size target.length))) :
    order.foldl (fun buffer i => writeChunk size buffer i (chunk size target i)) buffer =
      target := by
  refine List.ext_getElem? fun p => ?_
  rw [foldl_writeChunk hsize hlength]
  split
  next => rfl
  next hmissing =>
    rw [horder.mem_iff, List.mem_range, lt_count hsize, not_lt] at hmissing
    have hlast := hmissing.trans (Nat.div_mul_le_self p size)
    rw [List.getElem?_eq_none_iff.mpr hlast, List.getElem?_eq_none_iff.mpr (hlength ▸ hlast)]

end Chunks
