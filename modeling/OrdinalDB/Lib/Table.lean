import Mathlib

/-!
# Ordered tables

A table is an extensional ordered map: two tables are equal when they hold the
same rows. The rules here are about rewriting a table from a list of rows:
`insertMany_filter` (retain the listed keys, then write every row) and
`ofList_eq_some` for rows with distinct keys.
-/

abbrev Table (K V : Type) [Ord K] := Std.ExtTreeMap K V compare

set_option linter.unusedSectionVars false

namespace Table

open Std

variable {K V : Type} [Ord K] [TransOrd K] [LawfulEqOrd K] {t u : Table K V}
  {rows : List (K × V)} {k : K} {v : V}

theorem getElem?_insert_self : (t.insert k v)[k]? = some v :=
  ExtTreeMap.getElem?_insert_self

theorem getElem?_insert_of_ne {a : K} (h : a ≠ k) : (t.insert k v)[a]? = t[a]? := by
  rw [ExtTreeMap.getElem?_insert, if_neg]
  exact fun heq => h (LawfulEqOrd.eq_of_compare heq).symm

/-- Rows do not touch other keys. -/
theorem insertMany_of_not_mem (h : k ∉ rows.map Prod.fst) : (t.insertMany rows)[k]? = t[k]? := by
  induction rows generalizing t with
  | nil => rfl
  | cons row rows ih =>
    obtain ⟨hk, hrows⟩ := not_or.mp (mt List.mem_cons.mpr h)
    rw [ExtTreeMap.insertMany_cons, ih hrows]
    exact getElem?_insert_of_ne hk

/-- A written key has forgotten the table before. -/
theorem insertMany_of_mem (h : k ∈ rows.map Prod.fst) :
    (t.insertMany rows)[k]? = (u.insertMany rows)[k]? := by
  induction rows generalizing t u with
  | nil => cases h
  | cons row rows ih =>
    rw [ExtTreeMap.insertMany_cons, ExtTreeMap.insertMany_cons]
    by_cases hk : k ∈ rows.map Prod.fst
    · exact ih hk
    · have hrow : k = row.1 := (List.mem_cons.mp h).resolve_right hk
      rw [insertMany_of_not_mem hk, insertMany_of_not_mem hk, hrow, getElem?_insert_self,
        getElem?_insert_self]

theorem insertMany_of_nodup (h : (rows.map Prod.fst).Nodup) (hrow : (k, v) ∈ rows) :
    (t.insertMany rows)[k]? = some v := by
  induction rows generalizing t with
  | nil => cases hrow
  | cons row rows ih =>
    obtain ⟨hnew, hrows⟩ := List.nodup_cons.mp h
    rw [ExtTreeMap.insertMany_cons]
    rcases List.mem_cons.mp hrow with rfl | hrow
    · rw [insertMany_of_not_mem hnew, getElem?_insert_self]
    · exact ih hrows hrow

/-- Rows of one key that agree. -/
theorem insertMany_of_agree (h : ∀ row ∈ rows, row.1 = k → row.2 = v)
    (hk : k ∈ rows.map Prod.fst) : (t.insertMany rows)[k]? = some v := by
  induction rows generalizing t with
  | nil => cases hk
  | cons row rows ih =>
    rw [ExtTreeMap.insertMany_cons]
    by_cases hrest : k ∈ rows.map Prod.fst
    · exact ih (fun other hother => h other (List.mem_cons_of_mem _ hother)) hrest
    · have hrow : k = row.1 := (List.mem_cons.mp hk).resolve_right hrest
      rw [insertMany_of_not_mem hrest, hrow, getElem?_insert_self, h row List.mem_cons_self hrow.symm]

/-- The rows with distinct keys are the contents of the table. -/
theorem ofList_eq_some (h : (rows.map Prod.fst).Nodup) :
    ((∅ : Table K V).insertMany rows)[k]? = some v ↔ (k, v) ∈ rows := by
  refine ⟨fun hlookup => ?_, insertMany_of_nodup h⟩
  by_cases hk : k ∈ rows.map Prod.fst
  · obtain ⟨⟨k', w⟩, hrow, rfl⟩ := List.mem_map.mp hk
    rw [insertMany_of_nodup h hrow] at hlookup
    exact Option.some.inj hlookup ▸ hrow
  · rw [insertMany_of_not_mem hk] at hlookup
    simp at hlookup

/-- Retain the listed keys, then write every row. -/
theorem insertMany_filter {keep : K → V → Bool} (h : ∀ k v, keep k v ↔ k ∈ rows.map Prod.fst) :
    (t.filter keep).insertMany rows = (∅ : Table K V).insertMany rows := by
  refine ExtTreeMap.ext_getElem? fun k => ?_
  by_cases hk : k ∈ rows.map Prod.fst
  · exact insertMany_of_mem hk
  · rw [insertMany_of_not_mem hk, insertMany_of_not_mem hk, ExtTreeMap.getElem?_filter']
    have hnone : t[k]?.filter (keep k) = none := by
      refine Option.filter_eq_none_iff.mpr fun v hv => ?_
      exact fun hkeep => hk ((h k v).mp hkeep)
    rw [hnone]
    simp

theorem size_insert_of_not_mem (h : k ∉ t) : (t.insert k v).size = t.size + 1 := by
  rw [ExtTreeMap.size_insert, if_neg (mt ExtTreeMap.mem_iff_contains.mpr h)]

theorem size_insert_of_mem (h : k ∈ t) : (t.insert k v).size = t.size := by
  rw [ExtTreeMap.size_insert, if_pos (ExtTreeMap.mem_iff_contains.mp h)]

theorem mem_insert_iff {a : K} : a ∈ t.insert k v ↔ a = k ∨ a ∈ t := by
  rw [ExtTreeMap.mem_insert, Std.compare_eq_iff_eq, @eq_comm K k a]

theorem size_insertMany (h : (rows.map Prod.fst).Nodup) (hnew : ∀ k ∈ rows.map Prod.fst, k ∉ t) :
    (t.insertMany rows).size = t.size + rows.length := by
  induction rows generalizing t with
  | nil => rfl
  | cons row rows ih =>
    obtain ⟨hrow, hrows⟩ := List.nodup_cons.mp h
    have hrest : ∀ k ∈ rows.map Prod.fst, k ∉ t.insert row.1 row.2 := by
      intro k hk hmem
      rcases mem_insert_iff.mp hmem with rfl | hmem
      · exact hrow hk
      · exact hnew k (List.mem_cons_of_mem _ hk) hmem
    rw [ExtTreeMap.insertMany_cons, ih hrows hrest,
      size_insert_of_not_mem (hnew row.1 List.mem_cons_self), List.length_cons]
    omega

theorem size_insertMany_of_mem (h : ∀ k ∈ rows.map Prod.fst, k ∈ t) :
    (t.insertMany rows).size = t.size := by
  induction rows generalizing t with
  | nil => rfl
  | cons row rows ih =>
    have hrest : ∀ k ∈ rows.map Prod.fst, k ∈ t.insert row.1 row.2 :=
      fun k hk => mem_insert_iff.mpr (.inr (h k (List.mem_cons_of_mem _ hk)))
    rw [ExtTreeMap.insertMany_cons, ih hrest, size_insert_of_mem (h row.1 List.mem_cons_self)]

theorem size_ofList (h : (rows.map Prod.fst).Nodup) :
    ((∅ : Table K V).insertMany rows).size = rows.length := by
  rw [size_insertMany h fun k _ => by simp]
  simp

theorem nodup_keys_toList (t : Table K V) : (t.toList.map Prod.fst).Nodup := by
  refine List.pairwise_map.mpr (t.distinct_keys_toList.imp fun hne heq => hne ?_)
  rw [heq]
  exact ReflOrd.compare_self

theorem ofList_toList (t : Table K V) : (∅ : Table K V).insertMany t.toList = t := by
  refine ExtTreeMap.ext_getElem? fun k => Option.ext fun v => ?_
  rw [ofList_eq_some (nodup_keys_toList t)]
  exact ExtTreeMap.mem_toList_iff_getElem?_eq_some

/-- Ascending rows behind the last key are appended. -/
theorem toList_insertMany (hrows : rows.Pairwise fun a b => compare a.1 b.1 = .lt)
    (hnew : ∀ old ∈ t.toList, ∀ row ∈ rows, compare old.1 row.1 = .lt) :
    (t.insertMany rows).toList = t.toList ++ rows := by
  have hsorted : (t.toList ++ rows).Pairwise fun a b => compare a.1 b.1 = .lt :=
    List.pairwise_append.mpr ⟨t.ordered_keys_toList, hrows, hnew⟩
  have hkeys : (t.toList.map Prod.fst ++ rows.map Prod.fst).Nodup := by
    rw [← List.map_append]
    refine List.pairwise_map.mpr (hsorted.imp fun hlt heq => ?_)
    rw [heq, ReflOrd.compare_self] at hlt
    cases hlt
  have hnodup : (rows.map Prod.fst).Nodup := hkeys.of_append_right
  have hpairwise : (t.insertMany rows).toList.Pairwise fun a b => compare a.1 b.1 = .lt :=
    (t.insertMany rows).ordered_keys_toList
  refine List.Perm.eq_of_pairwise (fun a b _ _ hab hba => ?_) hpairwise hsorted ?_
  · rw [OrientedOrd.eq_swap, hab] at hba
    cases hba
  · refine (List.perm_ext_iff_of_nodup (List.Nodup.of_map _ (nodup_keys_toList _))
      (List.Nodup.of_map Prod.fst (by rwa [List.map_append]))).mpr fun ⟨key, value⟩ => ?_
    rw [ExtTreeMap.mem_toList_iff_getElem?_eq_some, List.mem_append,
      ExtTreeMap.mem_toList_iff_getElem?_eq_some]
    by_cases hkey : key ∈ rows.map Prod.fst
    · have hold : t[key]? ≠ some value := fun h => by
        have hmem := List.mem_map_of_mem (f := Prod.fst)
          (ExtTreeMap.mem_toList_iff_getElem?_eq_some.mpr h)
        exact (List.nodup_append'.mp hkeys).2.2 hmem hkey
      rw [or_iff_right hold, insertMany_of_mem (u := ∅) hkey, ofList_eq_some hnodup]
    · have hrow : (key, value) ∉ rows := fun h => hkey (List.mem_map_of_mem h)
      rw [or_iff_left hrow, insertMany_of_not_mem hkey]

/-- A list of distinct elements that covers another is as long only when it is covered too. -/
theorem length_eq_iff_subset {α : Type} {l r : List α} (hl : l.Nodup) (hr : r.Nodup)
    (hsub : l ⊆ r) : r.length = l.length ↔ r ⊆ l := by
  constructor
  · intro hlength
    exact ((hl.subperm hsub).perm_of_length_le hlength.le).symm.subset
  · intro hback
    exact Nat.le_antisymm (hr.subperm hback).length_le (hl.subperm hsub).length_le

/-! ## Rows that may fail -/

/-- Reading every row succeeds when each does. -/
theorem mapM_eq_some {α β : Type} {f : α → Option β} {l : List α} {r : List β} :
    l.mapM f = some r ↔ l.map f = r.map some := by
  induction l generalizing r with
  | nil => cases r <;> simp
  | cons a l ih =>
    rw [List.mapM_cons]
    cases r with
    | nil => simp [Option.bind_eq_some_iff]
    | cons b r => simp [Option.bind_eq_some_iff, ih]

theorem mapM_of_forall {α β : Type} {f : α → Option β} {g : α → β} {l : List α}
    (h : ∀ a ∈ l, f a = some (g a)) : l.mapM f = some (l.map g) := by
  rw [mapM_eq_some, List.map_map]
  exact List.map_congr_left h

theorem mapM_of_isSome {α β : Type} {f : α → Option β} {l : List α}
    (h : ∀ a ∈ l, (f a).isSome) : l.mapM f = some (l.filterMap f) := by
  induction l with
  | nil => rfl
  | cons a l ih =>
    obtain ⟨b, hb⟩ := Option.isSome_iff_exists.mp (h a List.mem_cons_self)
    simp [hb, ih fun c hc => h c (List.mem_cons_of_mem _ hc)]

theorem isSome_of_mapM {α β : Type} {f : α → Option β} {l : List α} {r : List β}
    (h : l.mapM f = some r) : ∀ a ∈ l, (f a).isSome := by
  intro a ha
  have hmem := List.mem_map_of_mem (f := f) ha
  rw [mapM_eq_some.mp h] at hmem
  obtain ⟨b, -, hb⟩ := List.mem_map.mp hmem
  rw [← hb]
  rfl

theorem filterMap_of_mapM {α β : Type} {f : α → Option β} {l : List α} {r : List β}
    (h : l.mapM f = some r) : l.filterMap f = r :=
  Option.some.inj ((mapM_of_isSome (isSome_of_mapM h)).symm.trans h)

theorem map_of_mapM {α β γ : Type} {f : α → Option β} {g : β → γ} {h : α → γ} {l : List α}
    {r : List β} (hread : l.mapM f = some r) (hsame : ∀ a b, f a = some b → g b = h a) :
    r.map g = l.map h := by
  rw [← filterMap_of_mapM hread, List.map_filterMap]
  refine List.filterMap_eq_map_iff_forall_eq_some.mpr fun a ha => ?_
  obtain ⟨b, hb⟩ := Option.isSome_iff_exists.mp (isSome_of_mapM hread a ha)
  rw [hb, Option.map_some, hsame a b hb]

/-- The order of rows with distinct keys does not matter. -/
theorem ofList_perm {r : List (K × V)} (hperm : rows.Perm r) (h : (rows.map Prod.fst).Nodup) :
    (∅ : Table K V).insertMany rows = (∅ : Table K V).insertMany r := by
  refine ExtTreeMap.ext_getElem? fun k => Option.ext fun v => ?_
  rw [ofList_eq_some h, ofList_eq_some ((hperm.map Prod.fst).nodup_iff.mp h), hperm.mem_iff]

end Table
