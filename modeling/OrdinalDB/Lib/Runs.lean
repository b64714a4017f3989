import Mathlib

/-!
# Maximal runs

Positions of a list whose elements satisfy a predicate, and the maximal runs of
such positions.

* `MaximalRun p l start stop`: the positions from `start` below `stop` all hold
  such an element, and the run cannot be extended on either side.
* `MaximalRun.start_eq` and `MaximalRun.stop_eq`: two maximal runs that meet are
  one.
* `slice` is the part of a list that a run covers.
-/

namespace Runs

variable {α : Type} {p : α → Bool} {l : List α}

/-- Position `i` of the list holds an element that satisfies `p`. -/
def At (p : α → Bool) (l : List α) (i : Nat) : Prop := ∃ a, l[i]? = some a ∧ p a

structure MaximalRun (p : α → Bool) (l : List α) (start stop : Nat) : Prop where
  nonempty : start < stop
  all : ∀ i, start ≤ i → i < stop → At p l i
  left : 0 < start → ¬At p l (start - 1)
  right : ¬At p l stop

def slice (l : List α) (start stop : Nat) : List α := (l.drop start).take (stop - start)

theorem At.lt {i : Nat} (h : At p l i) : i < l.length := by
  obtain ⟨a, ha, -⟩ := h
  exact (List.getElem?_eq_some_iff.mp ha).1

theorem not_at_length : ¬At p l l.length := fun h => Nat.lt_irrefl _ h.lt

theorem at_iff_of_drop {i : Nat} {a : α} {rest : List α} (h : l.drop i = a :: rest) :
    At p l i ↔ p a := by
  have hi : l[i]? = some a := by
    have hhead : (l.drop i)[0]? = some a := by rw [h]; rfl
    rwa [List.getElem?_drop] at hhead
  unfold At
  rw [hi]
  constructor
  · rintro ⟨b, hb, hpb⟩
    rwa [Option.some.inj hb]
  · intro hpa
    exact ⟨a, rfl, hpa⟩

theorem slice_succ {start i : Nat} {a : α} {rest : List α} (hi : start ≤ i)
    (h : l.drop i = a :: rest) : slice l start (i + 1) = slice l start i ++ [a] := by
  have hrest : (l.drop start).drop (i - start) = a :: rest := by
    rw [List.drop_drop, Nat.add_sub_cancel' hi, h]
  unfold slice
  rw [Nat.succ_sub hi, List.take_add_one, ← List.head?_drop, hrest]
  rfl

theorem slice_self (start : Nat) : slice l start start = [] := by
  unfold slice
  rw [Nat.sub_self, List.take_zero]

theorem take_append_slice {start stop : Nat} (h : start ≤ stop) :
    l.take start ++ slice l start stop = l.take stop := by
  unfold slice
  rw [← List.take_add, Nat.add_sub_cancel' h]

theorem slice_ne_nil {start stop : Nat} (h : start < stop) (hstop : stop < l.length) :
    slice l start stop ≠ [] := by
  refine List.ne_nil_of_length_pos ?_
  unfold slice
  rw [List.length_take, List.length_drop]
  omega

namespace MaximalRun

variable {start stop start' stop' : Nat}

theorem stop_le (h : MaximalRun p l start stop) : stop ≤ l.length := by
  have hlast := (h.all (stop - 1) (Nat.le_sub_one_of_lt h.nonempty)
    (Nat.sub_one_lt_of_lt h.nonempty)).lt
  have := h.nonempty
  omega

/-- A run that begins among positions that hold such elements begins where they do. -/
theorem start_eq (h : MaximalRun p l start stop) (hall : ∀ i, start' ≤ i → i < stop' → At p l i)
    (hlow : start' ≤ start) (hhigh : start ≤ stop') : start = start' := by
  by_contra hne
  have hlt : start' < start := lt_of_le_of_ne hlow (Ne.symm hne)
  exact h.left (Nat.zero_lt_of_lt hlt)
    (hall (start - 1) (Nat.le_sub_one_of_lt hlt) ((Nat.sub_one_lt_of_lt hlt).trans_le hhigh))

/-- Two runs with one beginning end together. -/
theorem stop_eq (h : MaximalRun p l start stop) (h' : MaximalRun p l start stop') :
    stop = stop' := by
  rcases Nat.lt_trichotomy stop stop' with hlt | heq | hlt
  · exact absurd (h'.all stop h.nonempty.le hlt) h.right
  · exact heq
  · exact absurd (h.all stop' h'.nonempty.le hlt) h'.right

end MaximalRun

end Runs
