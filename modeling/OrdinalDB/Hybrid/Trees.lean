import OrdinalDB.Hybrid.RankedBatch
import OrdinalDB.Lib.Branching
import OrdinalDB.Lib.Outcome

/-!
# Ranking trees

`compile_tree`, `validate_reachable_tree` and `score_tree` of
`ordinaldb-hybrid/src/ltr_model.rs`. A tree is a list of nodes that refer to each other by
index, and comes from an untrusted model file.

* `compiled_reaches_leaf`: an accepted tree evaluates to a leaf within the depth limit.
* `compiled_isTree_iff`: validation remembers the path but not the nodes it has finished, so
  nodes may share a child. `shared_leaf` is accepted and calls the shared node twice.
-/

namespace OrdinalDB.Hybrid

open Float32Bits Branching Outcome

/-! ## Definitions -/

structure LtrTreeNode where
  splitFeature : Option UInt16
  threshold : Option F32
  defaultLeft : Bool
  left : Option UInt32
  right : Option UInt32
  leafValue : Option F32
deriving DecidableEq, Repr

structure LtrTree where
  nodes : List LtrTreeNode
deriving DecidableEq, Repr

structure LtrLoadOptions where
  maxModelBytes : Nat
  maxTrees : Nat
  maxNodesPerTree : Nat
  maxDepth : Nat
  maxFeatures : Nat
  allowLeakageFeaturesForResearch : Bool
deriving DecidableEq, Repr

/-- The errors of a model, by what their texts name. -/
inductive LtrError
  | noNodes (tree : Nat)
  | tooManyNodes (tree nodes limit : Nat)
  | leafNotFinite (tree node : Nat)
  | splitFeature (tree node feature count : Nat)
  | thresholdNotFinite (tree node : Nat)
  | childOutOfRange (tree node : Nat)
  | malformedNode (tree node : Nat)
  | exceedsDepth (tree limit : Nat)
  | cycle (tree node : Nat)
  | unreachable (tree node : Nat)
  | featureNotFinite (feature : Nat)
  | noLeaf
  /-- The program panics: an index is out of range. -/
  | outOfRange
deriving DecidableEq, Repr

inductive CompiledNode
  | leaf (value : F32)
  | split (feature : Nat) (threshold : F32) (left right : Nat)
deriving DecidableEq, Repr

structure CompiledTree where
  nodes : List CompiledNode
deriving DecidableEq, Repr

def compileNode (treeIdx nodeIdx : Nat) (node : LtrTreeNode) (nodeCount featureCount : Nat) :
    Except LtrError CompiledNode :=
  match node.leafValue, node.splitFeature, node.threshold, node.left, node.right with
  | some value, none, none, none, none =>
    if !value.isFinite then .error (.leafNotFinite treeIdx nodeIdx) else .ok (.leaf value)
  | none, some feature, some threshold, some left, some right =>
    if feature.toNat ≥ featureCount then
      .error (.splitFeature treeIdx nodeIdx feature.toNat featureCount)
    else if !threshold.isFinite then .error (.thresholdNotFinite treeIdx nodeIdx)
    else if left.toNat ≥ nodeCount ∨ right.toNat ≥ nodeCount then
      .error (.childOutOfRange treeIdx nodeIdx)
    else .ok (.split feature.toNat threshold left.toNat right.toNat)
  | _, _, _, _, _ => .error (.malformedNode treeIdx nodeIdx)

/-- The two bit vectors of the validation, and the nodes of its calls in order, which the
source does not keep. -/
structure Marks where
  visited : List Bool
  stack : List Bool
  calls : List Nat
deriving DecidableEq, Repr

def Marks.fresh (nodeCount : Nat) : Marks :=
  ⟨List.replicate nodeCount false, List.replicate nodeCount false, []⟩

/-- Mark a node on the way down. -/
def Marks.enter (marks : Marks) (nodeIdx : Nat) : Marks :=
  ⟨marks.visited.set nodeIdx true, marks.stack.set nodeIdx true, marks.calls ++ [nodeIdx]⟩

def Marks.leave (marks : Marks) (nodeIdx : Nat) : Marks :=
  { marks with stack := marks.stack.set nodeIdx false }

/-- The depth is counted down from the limit: at `0` the limit is exceeded. -/
def validateReachableTree (treeIdx maxDepth : Nat) (nodes : List CompiledNode) :
    Nat → Nat → Marks → Except LtrError Marks
  | 0, _, _ => .error (.exceedsDepth treeIdx maxDepth)
  | levels + 1, nodeIdx, marks =>
    match marks.stack[nodeIdx]?, nodes[nodeIdx]? with
    | some true, _ => .error (.cycle treeIdx nodeIdx)
    | some false, some (.leaf _) => .ok ((marks.enter nodeIdx).leave nodeIdx)
    | some false, some (.split _ _ left right) => do
      let marks ← validateReachableTree treeIdx maxDepth nodes levels left (marks.enter nodeIdx)
      let marks ← validateReachableTree treeIdx maxDepth nodes levels right marks
      return marks.leave nodeIdx
    | _, _ => .error .outOfRange

def compileTree (treeIdx : Nat) (tree : LtrTree) (featureCount : Nat) (options : LtrLoadOptions) :
    Except LtrError CompiledTree := do
  reject (tree.nodes = []) (.noNodes treeIdx)
  reject (tree.nodes.length > options.maxNodesPerTree)
    (.tooManyNodes treeIdx tree.nodes.length options.maxNodesPerTree)
  let compiled ← tree.nodes.zipIdx.mapM fun (node, nodeIdx) =>
    compileNode treeIdx nodeIdx node tree.nodes.length featureCount
  let marks ← validateReachableTree treeIdx options.maxDepth compiled options.maxDepth 0
    (.fresh compiled.length)
  match marks.visited.findIdx? fun item => !item with
  | some unreachable => .error (.unreachable treeIdx unreachable)
  | none => return ⟨compiled⟩

/-- The loop of `score_tree`, with the turns that are left. -/
def scoreFrom (nodes : List CompiledNode) (features : List F32) : Nat → Nat → Except LtrError F32
  | 0, _ => .error .noLeaf
  | turns + 1, nodeIdx =>
    match nodes[nodeIdx]? with
    | none => .error .outOfRange
    | some (.leaf value) => .ok value
    | some (.split feature threshold left right) =>
      match features[feature]? with
      | none => .error .outOfRange
      | some value =>
        if !value.isFinite then .error (.featureNotFinite feature)
        else scoreFrom nodes features turns (if value.lt threshold then left else right)

def scoreTree (tree : CompiledTree) (features : List F32) : Except LtrError F32 :=
  scoreFrom tree.nodes features (tree.nodes.length + 1) 0

/-! ## The graph of a node list -/

def CompiledNode.children : CompiledNode → Option (Nat × Nat)
  | leaf _ => none
  | split _ _ left right => some (left, right)

/-- The child references of a compiled list. -/
def references (nodes : List CompiledNode) : Graph Nat :=
  fun nodeIdx => nodes[nodeIdx]?.bind CompiledNode.children

variable {nodes : List CompiledNode} {treeIdx maxDepth levels nodeIdx featureCount : Nat}
  {marks marks' : Marks} {path : List Nat}

theorem references_leaf {value : F32} (h : nodes[nodeIdx]? = some (.leaf value)) :
    references nodes nodeIdx = none := by
  rw [references, h]
  rfl

theorem references_split {feature left right : Nat} {threshold : F32}
    (h : nodes[nodeIdx]? = some (.split feature threshold left right)) :
    references nodes nodeIdx = some (left, right) := by
  rw [references, h]
  rfl

theorem references_isSome (h : (references nodes nodeIdx).isSome) : nodeIdx < nodes.length := by
  obtain ⟨pair, hpair⟩ := Option.isSome_iff_exists.mp h
  obtain ⟨node, hnode, -⟩ := Option.bind_eq_some_iff.mp hpair
  exact (List.getElem?_eq_some_iff.mp hnode).1

/-! ## Validation -/

/-- The bits of some indices below a length. -/
def bits (length : Nat) (indices : List Nat) : List Bool :=
  (List.range length).map fun i => decide (i ∈ indices)

theorem bits_eq_some {length i : Nat} {indices : List Nat} {bit : Bool}
    (h : (bits length indices)[i]? = some bit) : i < length ∧ bit = decide (i ∈ indices) := by
  rw [bits, List.getElem?_map] at h
  obtain ⟨j, hj, rfl⟩ := Option.map_eq_some_iff.mp h
  obtain ⟨hlt, rfl⟩ := List.getElem?_eq_some_iff.mp hj
  rw [List.length_range] at hlt
  rw [List.getElem_range]
  exact ⟨hlt, rfl⟩

theorem bits_set {length i : Nat} {before after : List Nat} {bit : Bool}
    (hi : bit = decide (i ∈ after)) (h : ∀ j, j ≠ i → (j ∈ after ↔ j ∈ before)) :
    (bits length before).set i bit = bits length after := by
  refine List.ext_getElem (by simp [bits]) fun j hj hj' => ?_
  rw [List.getElem_set]
  split
  next heq =>
    subst heq
    simp [bits, hi]
  next hne => simp [bits, h j (Ne.symm hne)]

/-- The bit vectors say which nodes are on the path and which have been called. -/
structure Tracks (nodes : List CompiledNode) (marks : Marks) (path : List Nat) : Prop where
  stack : marks.stack = bits nodes.length path
  visited : marks.visited = bits nodes.length marks.calls

theorem tracks_fresh : Tracks nodes (.fresh nodes.length) [] := by
  have hnone : List.replicate nodes.length false = bits nodes.length [] := by
    refine List.ext_getElem (by simp [bits]) fun i hi hi' => ?_
    simp [bits]
  exact ⟨hnone, hnone⟩

theorem Tracks.enter (h : Tracks nodes marks path) :
    Tracks nodes (marks.enter nodeIdx) (nodeIdx :: path) := by
  constructor
  · show marks.stack.set nodeIdx true = _
    rw [h.stack]
    exact bits_set (by simp) fun j hj => by simp [hj]
  · show marks.visited.set nodeIdx true = bits nodes.length (marks.calls ++ [nodeIdx])
    rw [h.visited]
    exact bits_set (by simp) fun j hj => by simp [hj]

theorem Tracks.leave (h : Tracks nodes marks (nodeIdx :: path)) (hfree : nodeIdx ∉ path) :
    Tracks nodes (marks.leave nodeIdx) path := by
  constructor
  · show marks.stack.set nodeIdx false = _
    rw [h.stack]
    exact bits_set (by simp [hfree]) fun j hj => by simp [hj]
  · exact h.visited

/-- A validation that went through has unfolded the node. -/
theorem validateReachableTree_spec (htracks : Tracks nodes marks path)
    (h : validateReachableTree treeIdx maxDepth nodes levels nodeIdx marks = .ok marks') :
    ∃ calls, Unfolds (references nodes) path levels nodeIdx calls ∧
      (∀ i ∈ calls, i < nodes.length) ∧ marks'.calls = marks.calls ++ calls ∧
      Tracks nodes marks' path := by
  induction levels generalizing nodeIdx marks marks' path with
  | zero => cases h
  | succ levels ih =>
    rw [validateReachableTree] at h
    split at h
    next => cases h
    next value hstack hnode =>
      -- a leaf is entered and left
      obtain rfl := Except.ok.inj h
      have hfree : nodeIdx ∉ path := by
        rw [htracks.stack] at hstack
        simpa using (bits_eq_some hstack).2
      refine ⟨[nodeIdx], .leaf hfree (references_leaf hnode), ?_, rfl, htracks.enter.leave hfree⟩
      exact List.forall_mem_singleton.mpr (List.getElem?_eq_some_iff.mp hnode).1
    next feature threshold left right hstack hnode =>
      have hfree : nodeIdx ∉ path := by
        rw [htracks.stack] at hstack
        simpa using (bits_eq_some hstack).2
      obtain ⟨middle, hleft, h⟩ := bind_eq_ok.mp h
      obtain ⟨last, hright, h⟩ := bind_eq_ok.mp h
      obtain rfl := pure_eq_ok.mp h
      obtain ⟨leftCalls, hunfoldsLeft, hltLeft, hcallsLeft, htracksLeft⟩ := ih htracks.enter hleft
      obtain ⟨rightCalls, hunfoldsRight, hltRight, hcallsRight, htracksRight⟩ :=
        ih htracksLeft hright
      refine ⟨_, .split hfree (references_split hnode) hunfoldsLeft hunfoldsRight, ?_, ?_,
        htracksRight.leave hfree⟩
      · exact List.forall_mem_cons.mpr ⟨(List.getElem?_eq_some_iff.mp hnode).1,
          List.forall_mem_append.mpr ⟨hltLeft, hltRight⟩⟩
      · show last.calls = _
        rw [hcallsRight, hcallsLeft]
        simp [Marks.enter]
    next => cases h

/-! ## Compilation -/

/-- A node that was compiled stays in range. -/
structure InRange (nodeCount featureCount : Nat) (node : CompiledNode) : Prop where
  feature : ∀ feature threshold left right, node = .split feature threshold left right →
    feature < featureCount
  children : ∀ l r, node.children = some (l, r) → l < nodeCount ∧ r < nodeCount

theorem compileNode_spec {node : LtrTreeNode} {nodeCount : Nat} {compiled : CompiledNode}
    (h : compileNode treeIdx nodeIdx node nodeCount featureCount = .ok compiled) :
    InRange nodeCount featureCount compiled ∧
      (compiled.children.isSome ↔ node.leafValue = none) := by
  unfold compileNode at h
  split at h
  next value hvalue _ _ _ _ =>
    split at h
    next => cases h
    next =>
      obtain rfl := Except.ok.inj h
      exact ⟨⟨nofun, nofun⟩, by simp [CompiledNode.children, hvalue]⟩
  next feature threshold left right hvalue _ _ _ _ =>
    split at h
    next => cases h
    next hfeature =>
      split at h
      next => cases h
      next =>
        split at h
        next => cases h
        next hchildren =>
          obtain rfl := Except.ok.inj h
          obtain ⟨hleft, hright⟩ := not_or.mp hchildren
          refine ⟨⟨?_, ?_⟩, by simp [CompiledNode.children, hvalue]⟩
          · rintro _ _ _ _ heq
            cases heq
            exact not_le.mp hfeature
          · rintro _ _ heq
            cases heq
            exact ⟨not_le.mp hleft, not_le.mp hright⟩
  next => cases h

/-- What an accepted list has been checked for. -/
structure Compiled (nodes : List LtrTreeNode) (treeIdx featureCount maxDepth : Nat)
    (compiled : CompiledTree) : Prop where
  length : compiled.nodes.length = nodes.length
  node : ∀ {i : Nat} {node : CompiledNode}, compiled.nodes[i]? = some node →
    ∃ source : LtrTreeNode, nodes[i]? = some source ∧
      InRange nodes.length featureCount node ∧ (node.children.isSome ↔ source.leafValue = none)
  validated : ∃ marks, validateReachableTree treeIdx maxDepth compiled.nodes maxDepth 0
      (.fresh nodes.length) = .ok marks ∧
    Unfolds (references compiled.nodes) [] maxDepth 0 marks.calls ∧
    ∀ i, i ∈ marks.calls ↔ i < nodes.length

theorem compileTree_spec {tree : LtrTree} {options : LtrLoadOptions} {compiled : CompiledTree}
    (h : compileTree treeIdx tree featureCount options = .ok compiled) :
    Compiled tree.nodes treeIdx featureCount options.maxDepth compiled := by
  simp only [compileTree, bind_eq_ok, reject_eq_ok, exists_const] at h
  obtain ⟨-, -, nodes, hnodes, marks, hmarks, h⟩ := h
  split at h
  next => cases h
  next hvisited =>
    obtain rfl := pure_eq_ok.mp h
    have hlength : nodes.length = tree.nodes.length := by
      rw [length_of_mapM hnodes, List.length_zipIdx]
    have hnode : ∀ {i : Nat} {node : CompiledNode}, nodes[i]? = some node →
        ∃ source : LtrTreeNode, tree.nodes[i]? = some source ∧
          InRange tree.nodes.length featureCount node ∧
            (node.children.isSome ↔ source.leafValue = none) := by
      intro i node hi
      obtain ⟨⟨source, j⟩, hsource, hcompiled⟩ := getElem?_of_mapM hnodes hi
      rw [List.getElem?_zipIdx] at hsource
      obtain ⟨found, hfound, heq⟩ := Option.map_eq_some_iff.mp hsource
      cases heq
      exact ⟨_, hfound, compileNode_spec hcompiled⟩
    obtain ⟨calls, hunfolds, hlt, hcalls, htracks⟩ := validateReachableTree_spec tracks_fresh hmarks
    have hcalls : marks.calls = calls := hcalls
    subst hcalls
    refine ⟨hlength, hnode, marks, hlength ▸ hmarks, hunfolds, fun i => ?_⟩
    rw [← hlength]
    constructor
    · exact hlt i
    · intro hi
      rw [htracks.visited] at hvisited
      have hbit := List.findIdx?_eq_none_iff.mp hvisited (decide (i ∈ marks.calls))
        (List.mem_map_of_mem (List.mem_range.mpr hi))
      simpa using hbit

/-! ## Scoring -/

section Scoring

variable {features : List F32}

/-- The turns of the loop that are needed: what is left of the levels, or of the nodes that
are not on the path. -/
theorem scoreFrom_of_unfolds {calls : List Nat} {nodeCount : Nat}
    (hnodes : ∀ {i : Nat} {node : CompiledNode}, nodes[i]? = some node →
      i < nodeCount ∧ InRange nodeCount features.length node)
    (hall : ∀ i, i < nodeCount → i < nodes.length) (hfinite : ∀ value ∈ features, value.isFinite)
    (h : Unfolds (references nodes) path levels nodeIdx calls) (hidx : nodeIdx < nodeCount)
    (hpath : path.Nodup) (hlt : ∀ i ∈ path, i < nodeCount) :
    ∃ value, CompiledNode.leaf value ∈ nodes ∧
      ∀ turns, min levels (nodeCount - path.length) ≤ turns →
        scoreFrom nodes features turns nodeIdx = .ok value := by
  -- a path without repetition leaves room for a node that is not on it
  have hroom : ∀ {path : List Nat} {i : Nat}, path.Nodup → (∀ j ∈ path, j < nodeCount) →
      i ∉ path → i < nodeCount → path.length < nodeCount := by
    intro path i hnodup hbelow hfree hi
    have hcons : (i :: path).Nodup := List.nodup_cons.mpr ⟨hfree, hnodup⟩
    have hall : ∀ j ∈ i :: path, j < nodeCount := List.forall_mem_cons.mpr ⟨hi, hbelow⟩
    have hsub : (i :: path) ⊆ List.range nodeCount := fun j hj => List.mem_range.mpr (hall j hj)
    simpa using (hcons.subperm hsub).length_le
  induction h with
  | @leaf path levels v hfree hleaf =>
    obtain ⟨node, hnode⟩ : ∃ node, nodes[v]? = some node :=
      ⟨_, List.getElem?_eq_getElem (hall v hidx)⟩
    cases node with
    | split feature threshold left right =>
      rw [references_split hnode] at hleaf
      cases hleaf
    | leaf value =>
      refine ⟨value, List.mem_of_getElem? hnode, fun turns hturns => ?_⟩
      have hspace := hroom hpath hlt hfree hidx
      cases turns with
      | zero => omega
      | succ turns => rw [scoreFrom, hnode]
  | @split path _ _ levels v l r hfree hsplit _ _ ihl ihr =>
    obtain ⟨node, hnode⟩ : ∃ node, nodes[v]? = some node :=
      ⟨_, List.getElem?_eq_getElem (hall v hidx)⟩
    cases node with
    | leaf value =>
      rw [references_leaf hnode] at hsplit
      cases hsplit
    | split feature threshold left right =>
      rw [references_split hnode] at hsplit
      obtain ⟨rfl, rfl⟩ := Prod.mk.inj (Option.some.inj hsplit)
      have hrange := (hnodes hnode).2
      have hfeature : feature < features.length := hrange.feature _ _ _ _ rfl
      obtain ⟨hl, hr⟩ := hrange.children _ _ rfl
      have hnodup : (v :: path).Nodup := List.nodup_cons.mpr ⟨hfree, hpath⟩
      have hbelow : ∀ i ∈ v :: path, i < nodeCount := List.forall_mem_cons.mpr ⟨hidx, hlt⟩
      have hturn : ∀ turns, scoreFrom nodes features (turns + 1) v =
          scoreFrom nodes features turns
            (if features[feature].lt threshold then left else right) := by
        intro turns
        have hvalue : features[feature].isFinite = true := hfinite _ (List.getElem_mem hfeature)
        rw [scoreFrom, hnode]
        simp only [List.getElem?_eq_getElem hfeature, hvalue]
        rfl
      have hspace := hroom hpath hlt hfree hidx
      rw [List.length_cons] at ihl ihr
      cases hside : features[feature].lt threshold with
      | true =>
        obtain ⟨value, hleaf, hvalue⟩ := ihl hl hnodup hbelow
        refine ⟨value, hleaf, fun turns hturns => ?_⟩
        cases turns with
        | zero => omega
        | succ turns =>
          rw [hturn, hside, if_pos rfl]
          exact hvalue turns (by omega)
      | false =>
        obtain ⟨value, hleaf, hvalue⟩ := ihr hr hnodup hbelow
        refine ⟨value, hleaf, fun turns hturns => ?_⟩
        cases turns with
        | zero => omega
        | succ turns =>
          rw [hturn, hside, if_neg Bool.false_ne_true]
          exact hvalue turns (by omega)

/-- An accepted tree evaluates to the value of a leaf, and no later than in the turn that the
depth limit and the number of nodes allow. -/
theorem compiled_reaches_leaf {tree : LtrTree} {options : LtrLoadOptions} {compiled : CompiledTree}
    (h : compileTree treeIdx tree featureCount options = .ok compiled)
    (hfeatures : features.length = featureCount) (hfinite : ∀ value ∈ features, value.isFinite) :
    ∃ value, CompiledNode.leaf value ∈ compiled.nodes ∧
      scoreTree compiled features = .ok value ∧
      scoreFrom compiled.nodes features (min options.maxDepth tree.nodes.length) 0 = .ok value := by
  have hcompiled := compileTree_spec h
  obtain ⟨marks, -, hunfolds, hcalls⟩ := hcompiled.validated
  have hnodes : ∀ {i : Nat} {node : CompiledNode}, compiled.nodes[i]? = some node →
      i < tree.nodes.length ∧ InRange tree.nodes.length features.length node := by
    intro i node hi
    obtain ⟨source, hsource, hrange, -⟩ := hcompiled.node hi
    exact ⟨(List.getElem?_eq_some_iff.mp hsource).1, hfeatures ▸ hrange⟩
  obtain ⟨value, hleaf, hvalue⟩ := scoreFrom_of_unfolds hnodes
    (fun i hi => hcompiled.length ▸ hi) hfinite hunfolds ((hcalls 0).mp hunfolds.root_mem)
    List.nodup_nil (by simp)
  refine ⟨value, hleaf, hvalue _ ?_, hvalue _ le_rfl⟩
  rw [hcompiled.length]
  exact (min_le_right _ _).trans (Nat.le_succ _)

end Scoring

def leafNode (value : F32) : LtrTreeNode := ⟨none, none, false, none, none, some value⟩

def splitNode (feature : UInt16) (threshold : F32) (left right : UInt32) : LtrTreeNode :=
  ⟨some feature, some threshold, false, some left, some right, none⟩

def defaultOptions : LtrLoadOptions := ⟨64 * 1024 * 1024, 4096, 4096, 32, 256, false⟩

def stump : LtrTree := ⟨[splitNode 0 .one 1 2, leafNode .one, leafNode .zero]⟩

theorem stump_reaches_leaf :
    ∃ value, CompiledNode.leaf value ∈ [.split 0 .one 1 2, .leaf .one, .leaf .zero] ∧
      scoreTree ⟨[.split 0 .one 1 2, .leaf .one, .leaf .zero]⟩ [.zero] = .ok value ∧
      scoreFrom [.split 0 .one 1 2, .leaf .one, .leaf .zero] [.zero] (min 32 3) 0 = .ok value :=
  @compiled_reaches_leaf 0 1 [.zero] stump defaultOptions _ (by decide +kernel) rfl
    (by decide +kernel)

/-! ## Sharing -/

theorem card_filter_range {A : Type} (p : A → Bool) (l : List A) :
    ((Finset.range l.length).filter fun i => l[i]?.any p).card = l.countP p := by
  show ((List.range l.length).filter fun i => decide (l[i]?.any p = true)).length = _
  induction l with
  | nil => rfl
  | cons a l ih =>
    rw [List.length_cons, List.range_succ_eq_map, List.countP_cons, ← ih,
      ← List.countP_eq_length_filter, List.countP_cons, List.countP_map,
      ← List.countP_eq_length_filter]
    simp [Function.comp_def]

/-- The nodes of an accepted list are a tree, and no node is validated twice, exactly when the
list has one leaf more than it has splits. -/
theorem compiled_isTree_iff {tree : LtrTree} {options : LtrLoadOptions} {compiled : CompiledTree}
    (h : compileTree treeIdx tree featureCount options = .ok compiled) :
    (IsTree (references compiled.nodes) (Finset.range tree.nodes.length) 0 ∧
        ∃ marks, validateReachableTree treeIdx options.maxDepth compiled.nodes options.maxDepth 0
            (.fresh compiled.nodes.length) = .ok marks ∧
          marks.calls.Nodup ∧ marks.calls.length ≤ tree.nodes.length) ↔
      2 * tree.nodes.countP (fun node => node.leafValue.isNone) + 1 = tree.nodes.length := by
  have hcompiled := compileTree_spec h
  obtain ⟨marks, hmarks, hunfolds, hcalls⟩ := hcompiled.validated
  have hrange : ∀ i, i ∈ marks.calls ↔ i ∈ Finset.range tree.nodes.length :=
    fun i => (hcalls i).trans Finset.mem_range.symm
  have hsome : ∀ u, (references compiled.nodes u).isSome → u ∈ Finset.range tree.nodes.length :=
    fun u hu => Finset.mem_range.mpr (hcompiled.length ▸ references_isSome hu)
  have hsplits : ((Finset.range tree.nodes.length).filter
      fun u => (references compiled.nodes u).isSome).card =
        tree.nodes.countP fun node => node.leafValue.isNone := by
    rw [← card_filter_range]
    refine congrArg Finset.card (Finset.filter_congr fun i hi => ?_)
    have hlt : i < compiled.nodes.length := hcompiled.length ▸ Finset.mem_range.mp hi
    obtain ⟨source, hsource, -, hsplit⟩ := hcompiled.node (List.getElem?_eq_getElem hlt)
    rw [references, List.getElem?_eq_getElem hlt, hsource, Option.bind_some, hsplit]
    simp
  have htree := hunfolds.isTree_iff hrange hsome
  rw [hsplits, Finset.card_range] at htree
  rw [← htree]
  constructor
  · exact fun hclaim => hclaim.1
  · intro htree
    have hnodup := hunfolds.nodup_of_isTree (fun w hw => (hrange w).mp hw) htree
    refine ⟨htree, marks, hcompiled.length ▸ hmarks, hnodup, ?_⟩
    have hsub : marks.calls ⊆ List.range tree.nodes.length :=
      fun i hi => List.mem_range.mpr ((hcalls i).mp hi)
    simpa using (hnodup.subperm hsub).length_le

theorem stump_isTree :
    IsTree (references [.split 0 .one 1 2, .leaf .one, .leaf .zero]) (Finset.range 3) 0 :=
  ((@compiled_isTree_iff 0 1 stump defaultOptions ⟨_⟩ (by decide +kernel)).mpr
    (by decide +kernel)).1

/-- Both sides of the root lead to the same leaf. -/
def sharedLeaf : LtrTree := ⟨[splitNode 0 .one 1 1, leafNode .one]⟩

theorem shared_leaf :
    ∃ compiled marks, compileTree 0 sharedLeaf 1 defaultOptions = .ok compiled ∧
      validateReachableTree 0 defaultOptions.maxDepth compiled.nodes defaultOptions.maxDepth 0
        (.fresh compiled.nodes.length) = .ok marks ∧
      ¬(IsTree (references compiled.nodes) (Finset.range sharedLeaf.nodes.length) 0) ∧
      marks.calls = [0, 1, 1] ∧ ¬marks.calls.length ≤ sharedLeaf.nodes.length := by
  refine ⟨⟨[.split 0 .one 1 1, .leaf .one]⟩, ⟨[true, true], [false, false], [0, 1, 1]⟩,
    by decide +kernel, by decide +kernel, fun htree => ?_, rfl, by decide⟩
  obtain ⟨edge, -, hunique⟩ := htree.parent 1 (by decide) (by decide)
  have hboth : ((0, true) : Nat × Bool) = (0, false) :=
    (hunique (0, true) rfl).trans (hunique (0, false) rfl).symm
  cases hboth

end OrdinalDB.Hybrid
