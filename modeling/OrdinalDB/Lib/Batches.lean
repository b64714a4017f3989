import Mathlib

/-!
# Batches

A list of lists in one flat list: the list of `q` lies between the offsets `q`
and `q + 1`. A batch is read by `forQuery` and built by `push`; the two agree
(`forQuery_ofLists`).
-/

structure Batch (A : Type) where
  offsets : List Nat
  hits : List A
deriving DecidableEq, Repr

namespace Batch

variable {A : Type} {batch : Batch A} {list : List A} {ls : List (List A)} {q : Nat}

/-! ## Reading -/

def queryCount (batch : Batch A) : Nat := batch.offsets.length - 1

/-- `hits[start..stop]`. -/
def slice (hits : List A) (start stop : Nat) : List A := (hits.drop start).take (stop - start)

/-- The lists between neighbouring offsets. -/
def lists (batch : Batch A) : List (List A) :=
  List.zipWith (slice batch.hits) batch.offsets batch.offsets.tail

def forQuery (batch : Batch A) (q : Nat) : Option (List A) :=
  match batch.offsets[q]?, batch.offsets[q + 1]? with
  | some start, some stop =>
    if start ≤ stop ∧ stop ≤ batch.hits.length then some (slice batch.hits start stop) else none
  | _, _ => none

/-- The offsets start at zero, never decrease and end at the number of hits. -/
structure Valid (batch : Batch A) : Prop where
  start : batch.offsets.head? = some 0
  ascending : batch.offsets.Pairwise (· ≤ ·)
  stop : batch.offsets.getLast? = some batch.hits.length

theorem Valid.le_length (h : batch.Valid) {offset : Nat} (hmem : offset ∈ batch.offsets) :
    offset ≤ batch.hits.length := by
  obtain ⟨before, hsplit⟩ := List.getLast?_eq_some_iff.mp h.stop
  have hascending := h.ascending
  rw [hsplit] at hmem hascending
  rcases List.mem_append.mp hmem with hbefore | hlast
  · exact (List.pairwise_append.mp hascending).2.2 _ hbefore _ List.mem_cons_self
  · exact (List.mem_singleton.mp hlast).le

theorem Valid.forQuery_eq (h : batch.Valid) (q : Nat) : batch.forQuery q = batch.lists[q]? := by
  unfold forQuery lists
  rw [List.getElem?_zipWith, List.getElem?_tail]
  cases hstart : batch.offsets[q]? with
  | none => rfl
  | some start =>
    cases hstop : batch.offsets[q + 1]? with
    | none => rfl
    | some stop =>
      obtain ⟨hq, rfl⟩ := List.getElem?_eq_some_iff.mp hstart
      obtain ⟨hq', rfl⟩ := List.getElem?_eq_some_iff.mp hstop
      have hle := List.pairwise_iff_getElem.mp h.ascending q (q + 1) hq hq' (Nat.lt_succ_self q)
      exact if_pos ⟨hle, h.le_length (List.getElem_mem hq')⟩

theorem length_lists : batch.lists.length = batch.queryCount := by
  simp [lists, queryCount]

/-- A transitive relation between neighbours holds throughout. -/
theorem pairwise_of_neighbours {rel : A → A → Prop} (htrans : ∀ a b c, rel a b → rel b c → rel a c)
    (h : ∀ pair ∈ list.zip list.tail, rel pair.1 pair.2) : list.Pairwise rel := by
  have : IsTrans A rel := ⟨htrans⟩
  refine List.isChain_iff_pairwise.mp (List.isChain_iff_getElem.mpr fun q hq => ?_)
  have hpair : (list[q], list[q + 1]) ∈ list.zip list.tail := by
    refine List.mem_iff_getElem?.mpr ⟨q, List.getElem?_zip_eq_some.mpr ⟨?_, ?_⟩⟩
    · exact List.getElem?_eq_getElem _
    · rw [List.getElem?_tail]
      exact List.getElem?_eq_getElem _
  exact h _ hpair

/-! ## Building -/

def empty : Batch A := ⟨[0], []⟩

/-- Append the hits of one more query. -/
def push (batch : Batch A) (list : List A) : Batch A :=
  ⟨batch.offsets ++ [(batch.hits ++ list).length], batch.hits ++ list⟩

def ofLists (ls : List (List A)) : Batch A := ls.foldl push empty

theorem ofLists_concat : ofLists (ls ++ [list]) = (ofLists ls).push list := by
  simp [ofLists]

theorem valid_empty : (empty : Batch A).Valid := ⟨rfl, List.pairwise_singleton _ _, rfl⟩

theorem Valid.push (h : batch.Valid) : (batch.push list).Valid := by
  refine ⟨?_, List.pairwise_append.mpr ⟨h.ascending, List.pairwise_singleton _ _, ?_⟩, ?_⟩
  · simp [Batch.push, h.start]
  · intro a ha b hb
    rw [List.mem_singleton.mp hb, List.length_append]
    exact (h.le_length ha).trans (Nat.le_add_right _ _)
  · simp [Batch.push]

theorem slice_append {hits : List A} {start stop : Nat} (h : stop ≤ hits.length) :
    slice (hits ++ list) start stop = slice hits start stop := by
  unfold slice
  rw [List.drop_append, List.take_append]
  have hnone : stop - start - (hits.drop start).length = 0 := by
    rw [List.length_drop]
    omega
  rw [hnone, List.take_zero, List.append_nil]

theorem Valid.lists_push (h : batch.Valid) : (batch.push list).lists = batch.lists ++ [list] := by
  obtain ⟨before, hsplit⟩ := List.getLast?_eq_some_iff.mp h.stop
  have hlast : slice (batch.hits ++ list) batch.hits.length (batch.hits ++ list).length = list := by
    simp [slice]
  have hzip : ∀ (f : Nat → Nat → List A) (n : Nat),
      List.zipWith f (batch.offsets ++ [n]) (batch.offsets ++ [n]).tail =
        List.zipWith f batch.offsets batch.offsets.tail ++ [f batch.hits.length n] := by
    intro f n
    have hlength : before.length = (before ++ [batch.hits.length]).tail.length := by simp
    rw [hsplit, List.tail_append_of_ne_nil (by simp), List.append_assoc,
      List.zipWith_append hlength]
    conv => rhs; rw [← List.append_nil (before ++ [batch.hits.length]).tail]
    rw [List.zipWith_append hlength]
    simp
  have hbefore : List.zipWith (slice (batch.hits ++ list)) batch.offsets batch.offsets.tail =
      List.zipWith (slice batch.hits) batch.offsets batch.offsets.tail := by
    rw [← List.map_uncurry_zip_eq_zipWith, ← List.map_uncurry_zip_eq_zipWith]
    refine List.map_congr_left fun window hwindow => slice_append ?_
    exact h.le_length (List.mem_of_mem_tail (List.of_mem_zip hwindow).2)
  unfold lists Batch.push
  rw [hzip, hbefore, hlast]

theorem ofLists_spec (ls : List (List A)) : (ofLists ls).Valid ∧ (ofLists ls).lists = ls := by
  induction ls using List.reverseRecOn with
  | nil => exact ⟨valid_empty, rfl⟩
  | append_singleton ls list ih =>
    rw [ofLists_concat]
    exact ⟨ih.1.push, by rw [ih.1.lists_push, ih.2]⟩

/-- The lists that were pushed are the lists that are read. -/
theorem forQuery_ofLists (ls : List (List A)) (q : Nat) : (ofLists ls).forQuery q = ls[q]? := by
  rw [(ofLists_spec ls).1.forQuery_eq, (ofLists_spec ls).2]

theorem queryCount_ofLists (ls : List (List A)) : (ofLists ls).queryCount = ls.length := by
  rw [← length_lists, (ofLists_spec ls).2]

/-- Pushing lists that are computed one after another, until one fails. -/
theorem foldlM_push_eq_ok {E B : Type} {f : B → Except E (List A)} {inputs : List B} :
    inputs.foldlM (fun batch input => (f input).map batch.push) empty = .ok batch ↔
      ∃ ls : List (List A), inputs.map f = ls.map .ok ∧ batch = ofLists ls := by
  suffices h : ∀ before : Batch A,
      inputs.foldlM (fun batch input => (f input).map batch.push) before = .ok batch ↔
        ∃ ls : List (List A), inputs.map f = ls.map .ok ∧ batch = ls.foldl push before from
    h empty
  induction inputs with
  | nil =>
    intro before
    constructor
    · intro h
      exact ⟨[], rfl, (Except.ok.inj h).symm⟩
    · rintro ⟨ls, hls, rfl⟩
      obtain rfl := List.map_eq_nil_iff.mp hls.symm
      rfl
  | cons input inputs ih =>
    intro before
    rw [List.foldlM_cons]
    cases hinput : f input with
    | error e =>
      refine iff_of_false (fun h => by cases h) ?_
      rintro ⟨ls, hls, -⟩
      cases ls with
      | nil => cases hls
      | cons list ls =>
        rw [List.map_cons, hinput] at hls
        cases (List.cons.inj hls).1
    | ok list =>
      change inputs.foldlM _ (before.push list) = Except.ok batch ↔ _
      rw [ih]
      constructor
      · rintro ⟨ls, hls, rfl⟩
        exact ⟨list :: ls, by rw [List.map_cons, hinput, hls, List.map_cons], rfl⟩
      · rintro ⟨ls, hls, rfl⟩
        cases ls with
        | nil => cases hls
        | cons first ls =>
          rw [List.map_cons, hinput] at hls
          obtain ⟨hfirst, hrest⟩ := List.cons.inj hls
          exact ⟨ls, hrest, by rw [Except.ok.inj hfirst]; rfl⟩

end Batch
