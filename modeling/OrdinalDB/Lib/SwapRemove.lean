import Mathlib

/-!
# Arrays with append and swap-remove, and the key table that follows them

A row store appends at its tail and removes by moving the last row into the
hole. A table that gives every row a key has to mirror that move. This module
states the two operations on lists and proves what the owner of such a table
needs.

* `swapRemove` commutes with `map` (`swapRemove_map`), so parallel columns of
  one list of rows stay parallel, and it keeps exactly the other rows
  (`swapRemove_perm`).
* `Indexes m ks` says that the finite map `m` is the inverse of the key list
  `ks`. It is kept by appending fresh keys (`Indexes.append`) and by the
  swap-remove of a key (`Indexes.swapRemove`).
-/

namespace SlotTable

/-- Remove position `i` and move the last element into its place. -/
def swapRemove {α : Type} (xs : List α) (i : Nat) : List α :=
  match xs.getLast? with
  | none => []
  | some last => (xs.set i last).dropLast

variable {α β : Type}

theorem swapRemove_concat (xs : List α) (a : α) (i : Nat) :
    swapRemove (xs ++ [a]) i = ((xs ++ [a]).set i a).dropLast := by
  simp [swapRemove]

@[simp] theorem swapRemove_map (f : α → β) (xs : List α) (i : Nat) :
    swapRemove (xs.map f) i = (swapRemove xs i).map f := by
  rcases List.eq_nil_or_concat' xs with rfl | ⟨init, last, rfl⟩
  · rfl
  · simp only [List.map_append, List.map_cons, List.map_nil, swapRemove_concat,
      List.map_dropLast, List.map_set]

@[simp] theorem swapRemove_length (xs : List α) (i : Nat) :
    (swapRemove xs i).length = xs.length - 1 := by
  rcases List.eq_nil_or_concat' xs with rfl | ⟨init, last, rfl⟩
  · rfl
  · simp [swapRemove]

/-- Removing the last position moves nothing. -/
theorem swapRemove_last (xs : List α) (a : α) :
    swapRemove (xs ++ [a]) xs.length = xs := by
  simp [swapRemove_concat]

/-- Removing an earlier position overwrites it with the last element. -/
theorem swapRemove_of_lt (xs : List α) (a : α) {i : Nat} (h : i < xs.length) :
    swapRemove (xs ++ [a]) i = xs.set i a := by
  rw [swapRemove_concat, List.set_append_left _ _ h, List.dropLast_concat]

theorem getElem?_concat_of_ne {xs : List α} {last a : α} (h : a ≠ last) {j : Nat} :
    (xs ++ [last])[j]? = some a ↔ xs[j]? = some a := by
  rw [List.getElem?_append]
  split
  · rfl
  · next hge =>
    have hnone : xs[j]? = none := List.getElem?_eq_none (by omega)
    rw [hnone, List.getElem?_singleton]
    split <;> simp [Ne.symm h]

theorem set_perm_cons_eraseIdx (xs : List α) (a : α) {i : Nat} (h : i < xs.length) :
    (xs.set i a).Perm (a :: xs.eraseIdx i) := by
  induction xs generalizing i with
  | nil => simp at h
  | cons x xs ih =>
    cases i with
    | zero => simp
    | succ i =>
      have hi : i < xs.length := by simpa using h
      simpa using ((ih hi).cons x).trans (List.Perm.swap _ _ _)

/-- A swap-remove keeps exactly the rows at the other positions. -/
theorem swapRemove_perm (xs : List α) {i : Nat} (h : i < xs.length) :
    (swapRemove xs i).Perm (xs.eraseIdx i) := by
  rcases List.eq_nil_or_concat' xs with rfl | ⟨init, last, rfl⟩
  · simp at h
  · rcases Nat.lt_or_ge i init.length with hi | hi
    · rw [swapRemove_of_lt _ _ hi, List.eraseIdx_append_of_lt_length hi]
      exact (set_perm_cons_eraseIdx init last hi).trans (List.perm_append_singleton _ _).symm
    · have hlast : i = init.length := by simp at h; omega
      subst hlast
      rw [swapRemove_last, List.eraseIdx_append_of_length_le (Nat.le_refl _)]
      simp

theorem mem_swapRemove [DecidableEq α] {xs : List α} (hnd : xs.Nodup) {i : Nat} {a x : α}
    (h : xs[i]? = some a) : x ∈ swapRemove xs i ↔ x ∈ xs ∧ x ≠ a := by
  obtain ⟨hi, rfl⟩ := List.getElem?_eq_some_iff.mp h
  rw [(swapRemove_perm xs hi).mem_iff, ← hnd.erase_getElem i hi, hnd.mem_erase_iff]
  exact and_comm

/-! ## The inverse of a key list -/

variable {κ : Type} [DecidableEq κ]

/-- `m` maps every key of `ks` to its position, and nothing else. -/
def Indexes (m : Finmap fun _ : κ => Nat) (ks : List κ) : Prop :=
  ∀ k i, m.lookup k = some i ↔ ks[i]? = some k

namespace Indexes

variable {m : Finmap fun _ : κ => Nat} {ks : List κ}

theorem mem_iff (h : Indexes m ks) {k : κ} : k ∈ m ↔ k ∈ ks := by
  rw [Finmap.mem_iff, List.mem_iff_getElem?]
  exact exists_congr fun i => h k i

theorem nodup (h : Indexes m ks) : ks.Nodup := by
  rw [List.nodup_iff_getElem?_ne_getElem?]
  intro i j hij hj heq
  obtain ⟨k, hk⟩ : ∃ k, ks[j]? = some k := ⟨ks[j], List.getElem?_eq_getElem hj⟩
  have hi := (h k i).mpr (heq.trans hk)
  have hj' := (h k j).mpr hk
  rw [hi] at hj'
  exact absurd (Option.some.inj hj') (by omega)

theorem empty : Indexes (∅ : Finmap fun _ : κ => Nat) [] := by
  intro k i
  simp

/-- Two positions of one key coincide. -/
theorem pos_unique (h : Indexes m ks) {k : κ} {i j : Nat}
    (hi : ks[i]? = some k) (hj : ks[j]? = some k) : i = j :=
  Option.some.inj (((h k i).mpr hi).symm.trans ((h k j).mpr hj))

theorem concat (h : Indexes m ks) {k : κ} (hk : k ∉ ks) :
    Indexes (m.insert k ks.length) (ks ++ [k]) := by
  intro k' i
  by_cases heq : k' = k
  · subst heq
    rw [Finmap.lookup_insert, List.getElem?_append]
    split
    · next hlt =>
      refine ⟨fun hi => ?_, fun hi => absurd (List.mem_of_getElem? hi) hk⟩
      exact absurd (Option.some.inj hi) (by omega)
    · next hge =>
      rw [List.getElem?_singleton, Option.some.injEq]
      split <;> simp <;> omega
  · rw [Finmap.lookup_insert_of_ne _ heq, h, getElem?_concat_of_ne heq]

end Indexes

/-- Insert the keys of `ks` at consecutive positions from `i` on. -/
def insertFrom (m : Finmap fun _ : κ => Nat) : Nat → List κ → Finmap fun _ : κ => Nat
  | _, [] => m
  | i, k :: ks => insertFrom (m.insert k i) (i + 1) ks

/-- Move the key now at position `i` there, if there is one. -/
def relocate (m : Finmap fun _ : κ => Nat) (ks : List κ) (i : Nat) : Finmap fun _ : κ => Nat :=
  match ks[i]? with
  | some k => m.insert k i
  | none => m

namespace Indexes

variable {m : Finmap fun _ : κ => Nat} {ks : List κ}

/-- Appending a batch of fresh, distinct keys. -/
theorem append (h : Indexes m ks) {new : List κ} (hnd : (ks ++ new).Nodup) :
    Indexes (insertFrom m ks.length new) (ks ++ new) := by
  induction new generalizing m ks with
  | nil => simpa [insertFrom] using h
  | cons k new ih =>
    have hk : k ∉ ks := fun hmem =>
      (List.nodup_append.mp hnd).2.2 k hmem k List.mem_cons_self rfl
    have hcons : ks ++ k :: new = (ks ++ [k]) ++ new := by simp
    rw [hcons] at hnd ⊢
    simpa [insertFrom] using ih (h.concat hk) hnd

/-- Swap-removing the last key moves no other key. -/
theorem swapRemove_concat {last : κ} (h : Indexes m (ks ++ [last])) :
    Indexes (m.erase last) ks := by
  have hnd := List.nodup_append.mp h.nodup
  have hlast : last ∉ ks := fun hmem => hnd.2.2 last hmem last List.mem_cons_self rfl
  intro k j
  by_cases hk : k = last
  · subst hk
    rw [Finmap.lookup_erase]
    exact ⟨fun heq => by simp at heq, fun hmem => absurd (List.mem_of_getElem? hmem) hlast⟩
  · rw [Finmap.lookup_erase_ne hk, h, getElem?_concat_of_ne hk]

/-- Swap-removing an earlier key moves the last key to its position. -/
theorem swapRemove_set {k last : κ} {i : Nat} (h : Indexes m (ks ++ [last]))
    (hi : ks[i]? = some k) :
    Indexes ((m.erase k).insert last i) (ks.set i last) := by
  have hnd := List.nodup_append.mp h.nodup
  have hlast : last ∉ ks := fun hmem => hnd.2.2 last hmem last List.mem_cons_self rfl
  obtain ⟨hlt, -⟩ := List.getElem?_eq_some_iff.mp hi
  intro k' j
  rw [List.getElem?_set]
  by_cases hl : k' = last
  · subst hl
    rw [Finmap.lookup_insert, Option.some.injEq]
    split
    · next heq => simp [heq]
    · next hne => exact ⟨fun heq => absurd heq hne,
        fun hmem => absurd (List.mem_of_getElem? hmem) hlast⟩
  rw [Finmap.lookup_insert_of_ne _ hl]
  by_cases hk : k' = k
  · subst hk
    rw [Finmap.lookup_erase]
    split
    · simp [Ne.symm hl]
    · next hne =>
      refine ⟨fun heq => by simp at heq, fun hj => absurd ?_ hne⟩
      exact h.pos_unique ((getElem?_concat_of_ne hl).mpr hi) ((getElem?_concat_of_ne hl).mpr hj)
  · rw [Finmap.lookup_erase_ne hk, h, getElem?_concat_of_ne hl]
    split
    · next heq =>
      subst heq
      simp [hi, Ne.symm hk, Ne.symm hl]
    · rfl

/-- Swap-removing a key: the map forgets the key and follows the moved one. -/
theorem swapRemove (h : Indexes m ks) {k : κ} {i : Nat} (hk : m.lookup k = some i) :
    Indexes (relocate (m.erase k) (swapRemove ks i) i) (swapRemove ks i) := by
  have hki := (h k i).mp hk
  rcases List.eq_nil_or_concat' ks with rfl | ⟨init, last, rfl⟩
  · simp at hki
  obtain ⟨hi, -⟩ := List.getElem?_eq_some_iff.mp hki
  rcases Nat.lt_or_ge i init.length with hlt | hge
  · have hinit : init[i]? = some k := by rwa [List.getElem?_append_left hlt] at hki
    have hmoved : (init.set i last)[i]? = some last := by simp [hlt]
    rw [swapRemove_of_lt _ _ hlt]
    simpa only [relocate, hmoved] using h.swapRemove_set hinit
  · obtain rfl : i = init.length := by simp at hi; omega
    obtain rfl : last = k := by simpa using hki
    rw [SlotTable.swapRemove_last]
    simpa only [relocate, List.getElem?_eq_none (Nat.le_refl init.length)] using
      h.swapRemove_concat

end Indexes

end SlotTable
