import Mathlib

/-!
# Rankings

Rows with a score and an id, in the order of a ranking: scores descend, and ids
ascend among equal scores. Sorting, keeping the first row of every id, and the
uniqueness of a ranking (`eq_of_perm`).
-/

namespace Ranking

variable {R S I : Type}

/-! ## The order -/

section Order

variable [LinearOrder S] [LinearOrder I] (score : R → S) (id : R → I)

/-- Scores descending, then ids ascending. -/
def order (a b : R) : Ordering := (compare (score b) (score a)).then (compare (id a) (id b))

/-- The rows in order; equal rows keep theirs. -/
def sort (rows : List R) : List R := rows.insertionSort fun a b => order score id a b ≠ .gt

variable {score id} {a b c : R} {rows l r : List R}

theorem order_eq_lt : order score id a b = .lt ↔
    score b < score a ∨ score b = score a ∧ id a < id b := by
  simp [order, Ordering.then_eq_lt, compare_lt_iff_lt]

theorem order_ne_gt : order score id a b ≠ .gt ↔
    score b < score a ∨ score b = score a ∧ id a ≤ id b := by
  simp only [order, ne_eq, Ordering.then_eq_gt, compare_gt_iff_gt, compare_eq_iff_eq,
    not_or, not_and, not_lt]
  constructor
  · rintro ⟨hle, hids⟩
    rcases lt_or_eq_of_le hle with hlt | heq
    · exact .inl hlt
    · exact .inr ⟨heq, hids heq⟩
  · rintro (hlt | ⟨heq, hids⟩)
    · exact ⟨hlt.le, fun heq => absurd heq hlt.ne⟩
    · exact ⟨heq.le, fun _ => hids⟩

theorem order_ne_gt_trans (hab : order score id a b ≠ .gt) (hbc : order score id b c ≠ .gt) :
    order score id a c ≠ .gt := by
  rw [order_ne_gt] at hab hbc ⊢
  rcases hab with hab | ⟨hab, hids⟩ <;> rcases hbc with hbc | ⟨hbc, hids'⟩
  · exact .inl (hbc.trans hab)
  · exact .inl (hbc ▸ hab)
  · exact .inl (hab ▸ hbc)
  · exact .inr ⟨hbc.trans hab, hids.trans hids'⟩

theorem order_ne_gt_total (a b : R) :
    order score id a b ≠ .gt ∨ order score id b a ≠ .gt := by
  rw [order_ne_gt, order_ne_gt]
  rcases lt_trichotomy (score a) (score b) with hlt | heq | hlt
  · exact .inr (.inl hlt)
  · rcases le_total (id a) (id b) with hle | hle
    · exact .inl (.inr ⟨heq.symm, hle⟩)
    · exact .inr (.inr ⟨heq, hle⟩)
  · exact .inl (.inl hlt)

variable (score id) in
theorem sort_perm (rows : List R) : (sort score id rows).Perm rows :=
  List.perm_insertionSort _ rows

variable (score id) in
theorem sort_pairwise (rows : List R) :
    (sort score id rows).Pairwise fun a b => order score id a b ≠ .gt := by
  have htotal : Std.Total fun a b : R => order score id a b ≠ .gt := ⟨order_ne_gt_total⟩
  have htrans : IsTrans R fun a b => order score id a b ≠ .gt := ⟨fun _ _ _ => order_ne_gt_trans⟩
  exact List.pairwise_insertionSort _ rows

/-- Distinct ids of fixed width are distinct numbers. -/
theorem nodup_toNat {rowId : R → UInt64} (h : (rows.map rowId).Nodup) :
    (rows.map fun row => (rowId row).toNat).Nodup := by
  have hmap := h.map (f := UInt64.toNat) fun _ _ heq => UInt64.toNat_inj.mp heq
  rwa [List.map_map] at hmap

/-- Rows with distinct ids are strictly ordered. -/
theorem strict_of_nodup (h : rows.Pairwise fun a b => order score id a b ≠ .gt)
    (hnodup : (rows.map id).Nodup) : rows.Pairwise fun a b => order score id a b = .lt := by
  refine (h.and (List.pairwise_map.mp hnodup)).imp fun {a b} ⟨hle, hne⟩ => order_eq_lt.mpr ?_
  exact (order_ne_gt.mp hle).imp_right fun hids => ⟨hids.1, lt_of_le_of_ne hids.2 hne⟩

/-- One set of rows has one ranking. -/
theorem eq_of_perm (hl : l.Pairwise fun a b => order score id a b = .lt)
    (hr : r.Pairwise fun a b => order score id a b = .lt) (hperm : l.Perm r) : l = r := by
  refine List.Perm.eq_of_pairwise (fun a b _ _ hab hba => ?_) hl hr hperm
  rw [order_eq_lt] at hab hba
  rcases hab with hab | ⟨hab, hids⟩ <;> rcases hba with hba | ⟨hba, hids'⟩
  · exact absurd hab hba.not_gt
  · exact absurd hba hab.ne'
  · exact absurd hab hba.ne'
  · exact absurd hids hids'.not_gt

end Order

/-! ## The first row of every id -/

section KeepFirst

variable [DecidableEq I] (id : R → I)

/-- Drop the rows whose id was seen. -/
def keepFirst (seen : Finset I) : List R → List R
  | [] => []
  | row :: rows =>
    if id row ∈ seen then keepFirst seen rows else row :: keepFirst (insert (id row) seen) rows

variable {id} {seen : Finset I} {rows : List R} {row : R} {i : I}

theorem keepFirst_sublist : (keepFirst id seen rows).Sublist rows := by
  induction rows generalizing seen with
  | nil => exact List.Sublist.refl []
  | cons row rows ih =>
    unfold keepFirst
    split
    next => exact ih.cons row
    next => exact ih.cons_cons row

theorem exists_mem_keepFirst :
    (∃ row ∈ keepFirst id seen rows, id row = i) ↔ i ∉ seen ∧ ∃ row ∈ rows, id row = i := by
  induction rows generalizing seen with
  | nil => simp [keepFirst]
  | cons row rows ih =>
    unfold keepFirst
    split
    next hseen =>
      rw [ih, List.exists_mem_cons_iff]
      constructor
      · exact fun h => ⟨h.1, .inr h.2⟩
      · rintro ⟨hi, rfl | hrest⟩
        · exact absurd hseen hi
        · exact ⟨hi, hrest⟩
    next hnew =>
      rw [List.exists_mem_cons_iff, List.exists_mem_cons_iff, ih]
      constructor
      · rintro (rfl | ⟨hi, hrest⟩)
        · exact ⟨hnew, .inl rfl⟩
        · exact ⟨fun hmem => hi (Finset.mem_insert_of_mem hmem), .inr hrest⟩
      · rintro ⟨hi, rfl | hrest⟩
        · exact .inl rfl
        · by_cases hrow : id row = i
          · exact .inl hrow
          · refine .inr ⟨fun hmem => ?_, hrest⟩
            exact (Finset.mem_insert.mp hmem).elim (fun heq => hrow heq.symm) hi

theorem keepFirst_nodup : ((keepFirst id seen rows).map id).Nodup := by
  induction rows generalizing seen with
  | nil => exact List.nodup_nil
  | cons row rows ih =>
    unfold keepFirst
    split
    next => exact ih
    next =>
      refine List.nodup_cons.mpr ⟨fun hmem => ?_, ih⟩
      have hagain := (exists_mem_keepFirst.mp (List.mem_map.mp hmem)).1
      exact hagain (Finset.mem_insert_self _ _)

/-- A kept row stands before the others of its id. -/
theorem keepFirst_first {rel : R → R → Prop} (hrel : rows.Pairwise rel)
    (hrow : row ∈ keepFirst id seen rows) {other : R} (hother : other ∈ rows)
    (hid : id other = id row) : other = row ∨ rel row other := by
  induction rows generalizing seen with
  | nil => cases hother
  | cons head rows ih =>
    obtain ⟨hhead, hrest⟩ := List.pairwise_cons.mp hrel
    unfold keepFirst at hrow
    split at hrow
    next hseen =>
      rcases List.mem_cons.mp hother with rfl | hother
      · have hnew := (exists_mem_keepFirst.mp ⟨row, hrow, rfl⟩).1
        exact absurd (hid ▸ hseen) hnew
      · exact ih hrest hrow hother
    next =>
      rcases List.mem_cons.mp hrow with rfl | hrow
      · rcases List.mem_cons.mp hother with rfl | hother
        · exact .inl rfl
        · exact .inr (hhead other hother)
      · rcases List.mem_cons.mp hother with rfl | hother
        · have hnew := (exists_mem_keepFirst.mp ⟨row, hrow, rfl⟩).1
          exact absurd (Finset.mem_insert.mpr (.inl hid.symm)) hnew
        · exact ih hrest hrow hother

end KeepFirst

end Ranking
