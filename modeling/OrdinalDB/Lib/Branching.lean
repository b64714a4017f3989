import Mathlib

/-!
# Depth-first unfoldings of a binary graph

A node of the graph has two children or none. `Unfolds` is what a depth-first
search without memory does: it calls itself on both children of a node, keeps
the path from the root, gives up on a node of the path and counts its levels
down.

* `Unfolds.count_eq`: how often a node is called is how often its parents are.
* `Unfolds.isTree_iff`: the part of the graph that was unfolded is a tree
  exactly when it has one leaf more than it has branches.
* `Unfolds.nodup_of_isTree`: on a tree no node is called twice.
-/

namespace Branching

variable {V : Type}

/-- The children of a node. -/
abbrev Graph (V : Type) := V → Option (V × V)

/-- The child on one side: `true` is left. -/
def child (graph : Graph V) (edge : V × Bool) : Option V :=
  (graph edge.1).map fun pair => if edge.2 then pair.1 else pair.2

/-- There is a path of children. -/
inductive Reaches (graph : Graph V) (root : V) : V → Prop
  | refl : Reaches graph root root
  | step {v w : V} {side : Bool} :
      Reaches graph root v → child graph (v, side) = some w → Reaches graph root w

/-- Searching from a node below a path makes these calls. -/
inductive Unfolds (graph : Graph V) : List V → Nat → V → List V → Prop
  | leaf {path : List V} {levels : Nat} {v : V} :
      v ∉ path → graph v = none → Unfolds graph path (levels + 1) v [v]
  | split {path left right : List V} {levels : Nat} {v l r : V} :
      v ∉ path → graph v = some (l, r) → Unfolds graph (v :: path) levels l left →
      Unfolds graph (v :: path) levels r right →
      Unfolds graph path (levels + 1) v (v :: (left ++ right))

/-- Every node but the root is the child of one node, through one side. -/
structure IsTree (graph : Graph V) (nodes : Finset V) (root : V) : Prop where
  parent : ∀ w ∈ nodes, w ≠ root → ∃! edge, child graph edge = some w
  root_free : ∀ edge, child graph edge ≠ some root
  reaches : ∀ w ∈ nodes, Reaches graph root w

variable {graph : Graph V} {path calls : List V} {levels : Nat} {v w l r : V} {side : Bool}

theorem child_of_split (h : graph v = some (l, r)) :
    child graph (v, side) = some (if side then l else r) := by
  rw [child, h]
  rfl

theorem child_eq_none (h : graph v = none) : child graph (v, side) = none := by
  rw [child, h]
  rfl

namespace Unfolds

theorem root_mem (h : Unfolds graph path levels v calls) : v ∈ calls := by
  cases h with
  | leaf _ _ => exact List.mem_cons_self
  | split _ _ _ _ => exact List.mem_cons_self

/-- A node of the path is not called. -/
theorem not_mem_path (h : Unfolds graph path levels v calls) (hw : w ∈ calls) : w ∉ path := by
  induction h with
  | leaf hfree _ =>
    obtain rfl := List.mem_singleton.mp hw
    exact hfree
  | split hfree _ _ _ ihl ihr =>
    rcases List.mem_cons.mp hw with rfl | hw
    · exact hfree
    · rcases List.mem_append.mp hw with hw | hw
      · exact List.not_mem_of_not_mem_cons (ihl hw)
      · exact List.not_mem_of_not_mem_cons (ihr hw)

/-- The calls are closed under children. -/
theorem child_mem (h : Unfolds graph path levels v calls) {u : V} (hu : u ∈ calls)
    (hchild : child graph (u, side) = some w) : w ∈ calls := by
  induction h with
  | leaf _ hleaf =>
    obtain rfl := List.mem_singleton.mp hu
    rw [child_eq_none hleaf] at hchild
    cases hchild
  | split _ hsplit hl hr ihl ihr =>
    rcases List.mem_cons.mp hu with rfl | hu
    · rw [child_of_split hsplit] at hchild
      obtain rfl := Option.some.inj hchild
      cases side with
      | true => exact List.mem_cons_of_mem _ (List.mem_append_left _ hl.root_mem)
      | false => exact List.mem_cons_of_mem _ (List.mem_append_right _ hr.root_mem)
    · rcases List.mem_append.mp hu with hu | hu
      · exact List.mem_cons_of_mem _ (List.mem_append_left _ (ihl hu))
      · exact List.mem_cons_of_mem _ (List.mem_append_right _ (ihr hu))

/-- A called node is the root or the child of a called node. -/
theorem parent_of_mem (h : Unfolds graph path levels v calls) (hw : w ∈ calls) :
    w = v ∨ ∃ u ∈ calls, ∃ side, child graph (u, side) = some w := by
  induction h with
  | leaf _ _ => exact .inl (List.mem_singleton.mp hw)
  | @split path left right levels v l r _ hsplit hl hr ihl ihr =>
    rcases List.mem_cons.mp hw with rfl | hw
    · exact .inl rfl
    · right
      rcases List.mem_append.mp hw with hw | hw
      · rcases ihl hw with rfl | ⟨u, hu, side, hchild⟩
        · exact ⟨v, List.mem_cons_self, true, child_of_split hsplit⟩
        · exact ⟨u, List.mem_cons_of_mem _ (List.mem_append_left _ hu), side, hchild⟩
      · rcases ihr hw with rfl | ⟨u, hu, side, hchild⟩
        · exact ⟨v, List.mem_cons_self, false, child_of_split hsplit⟩
        · exact ⟨u, List.mem_cons_of_mem _ (List.mem_append_right _ hu), side, hchild⟩

theorem reaches_of_root {root : V} (h : Unfolds graph path levels v calls)
    (hv : Reaches graph root v) (hw : w ∈ calls) : Reaches graph root w := by
  induction h with
  | leaf _ _ =>
    obtain rfl := List.mem_singleton.mp hw
    exact hv
  | split _ hsplit _ _ ihl ihr =>
    rcases List.mem_cons.mp hw with rfl | hw
    · exact hv
    · rcases List.mem_append.mp hw with hw | hw
      · exact ihl (.step hv (child_of_split hsplit : child graph (_, true) = _)) hw
      · exact ihr (.step hv (child_of_split hsplit : child graph (_, false) = _)) hw

/-- The root is no child of a called node: it is on the path of all of them. -/
theorem root_free (h : Unfolds graph path levels v calls) {u : V} (hu : u ∈ calls) :
    child graph (u, side) ≠ some v := by
  intro hchild
  cases h with
  | leaf _ hleaf =>
    obtain rfl := List.mem_singleton.mp hu
    rw [child_eq_none hleaf] at hchild
    cases hchild
  | @split _ left right _ _ l r _ hsplit hl hr =>
    have hleft : v ∉ left := fun hv => hl.not_mem_path hv List.mem_cons_self
    have hright : v ∉ right := fun hv => hr.not_mem_path hv List.mem_cons_self
    rcases List.mem_cons.mp hu with rfl | hu
    · rw [child_of_split hsplit] at hchild
      have hsame := Option.some.inj hchild
      cases side with
      | true => exact hleft (hsame ▸ hl.root_mem)
      | false => exact hright (hsame ▸ hr.root_mem)
    · rcases List.mem_append.mp hu with hu | hu
      · exact hleft (hl.child_mem hu hchild)
      · exact hright (hr.child_mem hu hchild)

variable [DecidableEq V]

/-- The number of sides on which a node is a child. -/
def refs (graph : Graph V) (w u : V) : Nat :=
  (if child graph (u, true) = some w then 1 else 0) +
    if child graph (u, false) = some w then 1 else 0

/-- Every call but the first comes from a call on a parent. -/
theorem count_eq (h : Unfolds graph path levels v calls) (w : V) :
    calls.count w = (if v = w then 1 else 0) + (calls.map (refs graph w)).sum := by
  induction h with
  | @leaf _ _ v _ hleaf =>
    have hrefs : refs graph w v = 0 := by simp [refs, child_eq_none hleaf]
    simp [List.count_singleton, hrefs]
  | @split _ left right _ v l r _ hsplit _ _ ihl ihr =>
    have hrefs : refs graph w v = (if l = w then 1 else 0) + if r = w then 1 else 0 := by
      simp [refs, child_of_split hsplit]
    rw [List.count_cons, List.count_append, ihl, ihr, List.map_cons, List.sum_cons,
      List.map_append, List.sum_append, hrefs]
    simp only [beq_iff_eq]
    ring

theorem root_count (h : Unfolds graph path levels v calls) :
    calls.count v = 1 := by
  have hrefs : ∀ u ∈ calls, refs graph v u = 0 := by
    intro u hu
    simp [refs, h.root_free hu]
  rw [h.count_eq, if_pos rfl, List.map_congr_left hrefs]
  simp

/-- A node with one parent is called as often as the parent. -/
theorem count_of_parent (h : Unfolds graph path levels v calls) {p : V}
    (hp : child graph (p, side) = some w)
    (hunique : ∀ edge, child graph edge = some w → edge = (p, side)) (hne : v ≠ w) :
    calls.count w = calls.count p := by
  have hrefs : ∀ u, refs graph w u = if u = p then 1 else 0 := by
    intro u
    have hside : ∀ other, child graph (u, other) = some w ↔ u = p ∧ other = side := by
      intro other
      constructor
      · intro hchild
        exact Prod.mk.inj (hunique _ hchild)
      · rintro ⟨rfl, rfl⟩
        exact hp
    simp only [refs, hside]
    cases side <;> simp
  have hsum : ∀ calls : List V, (calls.map (refs graph w)).sum = calls.count p := by
    intro calls
    induction calls with
    | nil => rfl
    | cons u calls ih =>
      rw [List.map_cons, List.sum_cons, ih, hrefs, List.count_cons, Nat.add_comm]
      simp
  rw [h.count_eq, if_neg hne, Nat.zero_add, hsum]

/-- On a tree no node is called twice. -/
theorem nodup_of_isTree {nodes : Finset V} (h : Unfolds graph path levels v calls)
    (hnodes : ∀ w, w ∈ calls → w ∈ nodes) (htree : IsTree graph nodes v) : calls.Nodup := by
  have hcount : ∀ w, Reaches graph v w → calls.count w = 1 := by
    intro w hreach
    induction hreach with
    | refl => exact h.root_count
    | @step u w side _ hchild ih =>
      have hmem : u ∈ calls := List.count_pos_iff.mp (by rw [ih]; exact Nat.one_pos)
      have hw : w ∈ calls := h.child_mem hmem hchild
      have hne : v ≠ w := fun heq => htree.root_free _ (heq ▸ hchild)
      obtain ⟨edge, hedge, hunique⟩ := htree.parent w (hnodes w hw) hne.symm
      have hparent : ∀ other, child graph other = some w → other = (u, side) :=
        fun other hother => (hunique other hother).trans (hunique _ hchild).symm
      rw [h.count_of_parent hchild hparent hne, ih]
  refine List.nodup_iff_count_le_one.mpr fun w => ?_
  by_cases hw : w ∈ calls
  · exact (hcount w (h.reaches_of_root .refl hw)).le
  · rw [List.count_eq_zero.mpr hw]
    exact Nat.zero_le 1

/-- What was unfolded is a tree exactly when the edges are as many as the nodes behind the
root. -/
theorem isTree_iff {nodes : Finset V} (h : Unfolds graph path levels v calls)
    (hnodes : ∀ w, w ∈ calls ↔ w ∈ nodes) (hgraph : ∀ u, (graph u).isSome → u ∈ nodes) :
    IsTree graph nodes v ↔ 2 * (nodes.filter fun u => (graph u).isSome).card + 1 = nodes.card := by
  let edges : Finset (V × Bool) := (nodes.filter fun u => (graph u).isSome) ×ˢ Finset.univ
  have hedges : ∀ edge w, child graph edge = some w → edge ∈ edges := by
    intro edge w hchild
    have hsome : (graph edge.1).isSome := by
      obtain ⟨pair, hpair, -⟩ := Option.map_eq_some_iff.mp hchild
      rw [hpair]
      rfl
    exact Finset.mem_product.mpr
      ⟨Finset.mem_filter.mpr ⟨hgraph _ hsome, hsome⟩, Finset.mem_univ _⟩
  have hcard : edges.card = 2 * (nodes.filter fun u => (graph u).isSome).card := by
    rw [Finset.card_product, Finset.card_univ, Fintype.card_bool, Nat.mul_comm]
  have hfree : ∀ edge, child graph edge ≠ some v := by
    intro edge hchild
    have hmem := (Finset.mem_filter.mp (Finset.mem_product.mp (hedges edge v hchild)).1).1
    exact h.root_free ((hnodes _).mpr hmem) hchild
  -- the children are the nodes behind the root
  have himage : edges.image (child graph) = (nodes.erase v).image some := by
    ext found
    simp only [Finset.mem_image, Finset.mem_erase]
    constructor
    · rintro ⟨edge, hedge, rfl⟩
      obtain ⟨hmem, hsome⟩ := Finset.mem_filter.mp (Finset.mem_product.mp hedge).1
      obtain ⟨⟨l, r⟩, hpair⟩ := Option.isSome_iff_exists.mp hsome
      have hchild : child graph edge = some (if edge.2 then l else r) := child_of_split hpair
      refine ⟨_, ⟨fun heq => hfree edge ?_, ?_⟩, hchild.symm⟩
      · rw [hchild, heq]
      · exact (hnodes _).mp (h.child_mem ((hnodes _).mpr hmem) hchild)
    · rintro ⟨w, ⟨hne, hw⟩, rfl⟩
      rcases h.parent_of_mem ((hnodes w).mpr hw) with rfl | ⟨u, -, side, hchild⟩
      · exact absurd rfl hne
      · exact ⟨(u, side), hedges _ _ hchild, hchild⟩
  have hroot : v ∈ nodes := (hnodes v).mp h.root_mem
  have hbehind : (edges.image (child graph)).card + 1 = nodes.card := by
    rw [himage, Finset.card_image_of_injective _ (Option.some_injective V)]
    exact Finset.card_erase_add_one hroot
  rw [← hcard, ← hbehind, Nat.add_right_cancel_iff, eq_comm, Finset.card_image_iff]
  constructor
  · intro htree edge hedge other hother hsame
    have hmem : child graph edge ∈ (nodes.erase v).image some :=
      himage ▸ Finset.mem_image_of_mem _ hedge
    obtain ⟨w, hw, hchild⟩ := Finset.mem_image.mp hmem
    obtain ⟨hne, hw⟩ := Finset.mem_erase.mp hw
    exact (htree.parent w hw hne).unique hchild.symm (hsame ▸ hchild.symm)
  · intro hinj
    refine ⟨fun w hw hne => ?_, hfree, fun w hw => ?_⟩
    · rcases h.parent_of_mem ((hnodes w).mpr hw) with rfl | ⟨u, -, side, hchild⟩
      · exact absurd rfl hne
      · exact ⟨(u, side), hchild, fun other hother =>
          hinj (hedges _ _ hother) (hedges _ _ hchild) (hother.trans hchild.symm)⟩
    · exact h.reaches_of_root .refl ((hnodes w).mpr hw)

end Unfolds

end Branching
