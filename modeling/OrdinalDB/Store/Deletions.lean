import OrdinalDB.Store.Generations

/-!
# Deleting entries

What the two loops of a collection do to the entries of `vectors/`:
`deleteAll_returns` for the entries to reclaim and `recoverPaths_returns` for
the paths of interrupted deletions. Both fail exactly when one of their entries
is in the way.
-/

namespace OrdinalDB.Store

open Durable

variable {Text : Type} {root after : Root Text} {name other : String} {names : List String}

/-! ## Removed entries -/

theorem entry_remove : (root.remove name).entry other =
    if other = name then none else root.entry other :=
  Disk.node_remove root.disk name other

theorem entry_gut : (root.gut name).entry other =
    if other = name then (root.entry other).map fun
      | .dir _ => .dir none
      | node => node
    else root.entry other :=
  Disk.node_gut root.disk name other

theorem remove_of_missing (h : root.entry name = none) : root.remove name = root := by
  have hvectors : (root.disk.vectors.map fun entries => entries.erase name) = root.disk.vectors := by
    unfold Root.entry Disk.node at h
    cases hentries : root.disk.vectors with
    | none => rfl
    | some entries =>
      rw [hentries] at h
      refine congrArg some (Std.ExtTreeMap.ext_getElem? fun key => ?_)
      rw [Std.ExtTreeMap.getElem?_erase]
      split
      next heq => rw [← Std.LawfulEqOrd.eq_of_compare heq]; exact h.symm
      next => rfl
  have hdisk : root.disk.remove name = root.disk := by
    rw [Disk.remove, hvectors]
  cases root
  simp_all [Root.remove]

def Root.removeAll (root : Root Text) (names : List String) : Root Text :=
  names.foldl Root.remove root

theorem entry_removeAll : (root.removeAll names).entry other =
    if other ∈ names then none else root.entry other := by
  induction names generalizing root with
  | nil => simp [Root.removeAll]
  | cons name names ih =>
    have hstep : root.removeAll (name :: names) = (root.remove name).removeAll names := rfl
    rw [hstep, ih, entry_remove]
    by_cases hother : other = name <;> simp [hother]

@[simp]
theorem storeFile_removeAll : (root.removeAll names).storeFile = root.storeFile := by
  induction names generalizing root with
  | nil => rfl
  | cons name names ih => exact ih

@[simp]
theorem pins_removeAll : (root.removeAll names).pins = root.pins := by
  induction names generalizing root with
  | nil => rfl
  | cons name names ih => exact ih

/-! ## One deletion -/

/-- A gc run can delete the entry, or takes it for deleted. -/
def Root.Deletable (root : Root Text) (name : String) : Prop :=
  '\\' ∉ name.toList ∧
    match root.entry name with
    | some (.dir _) => True
    | some (.symlink _) => False
    | _ => parseGenerationDir name = none

theorem generationIdFromGcPath_isSome (h : EntryName name) :
    (generationIdFromGcPath (entryPath name)).isSome ↔ '\\' ∉ name.toList := by
  rw [← validateRelativePath_entryPath h, generationIdFromGcPath, entryOfPath_entryPath h]
  cases validateRelativePath (entryPath name) <;> simp [guard]

theorem removeEntry_returns : Returns (removeEntry name) root () after ↔ after = root.remove name :=
  (and_iff_right rfl).trans eq_comm

theorem deleteGenerationDir_returns (h : EntryName name) :
    Returns (deleteGenerationDir (entryPath name)) root () after ↔
      root.Deletable name ∧ after = root.remove name := by
  have hid := generationIdFromGcPath_isSome h
  simp only [deleteGenerationDir, returns_bind, returns_read, entryOfPath_entryPath h,
    Option.some_inj, Root.Deletable, ← hid, Option.isSome_iff_exists]
  constructor
  · rintro ⟨id, _, ⟨hsome, rfl⟩, _, _, ⟨rfl, rfl⟩, _, _, ⟨rfl, rfl⟩, hdelete⟩
    cases hentry : root.entry name with
    | none =>
      rw [hentry] at hdelete
      have hdebris : (parseGenerationDir name).isNone := by
        by_contra hcommitted
        simp [returns_read, hcommitted] at hdelete
      exact ⟨⟨⟨id, hsome⟩, by simpa using hdebris⟩, by rw [remove_of_missing hentry]; exact hdelete.2.symm⟩
    | some node =>
      rw [hentry] at hdelete
      cases node with
      | dir bundle => exact ⟨⟨⟨id, hsome⟩, trivial⟩, removeEntry_returns.mp hdelete⟩
      | symlink resolves => cases hdelete.1
      | file =>
        dsimp only at hdelete
        split at hdelete
        next hdebris => exact ⟨⟨⟨id, hsome⟩, by simpa using hdebris⟩, removeEntry_returns.mp hdelete⟩
        next => cases hdelete.1
  · rintro ⟨⟨⟨id, hsome⟩, hentry⟩, rfl⟩
    refine ⟨id, root, ⟨hsome, rfl⟩, name, root, ⟨rfl, rfl⟩, _, root, ⟨rfl, rfl⟩, ?_⟩
    rcases hnode : root.entry name with _ | _ | _ | _
    · rw [hnode] at hentry
      rw [remove_of_missing hnode]
      exact ⟨by simp [Prog.read, hentry], rfl⟩
    · exact removeEntry_returns.mpr rfl
    · rw [hnode] at hentry
      simp only [hentry, Option.isNone_none, if_true]
      exact removeEntry_returns.mpr rfl
    · rw [hnode] at hentry
      exact hentry.elim

/-! ## The loop over the doomed entries -/

theorem Root.Deletable.remove_iff (h : other ≠ name) :
    (root.remove name).Deletable other ↔ root.Deletable other := by
  simp only [Root.Deletable, entry_remove, if_neg h]

theorem deleteAll_returns (hnames : ∀ name ∈ names, EntryName name) (hnodup : names.Nodup) :
    Returns ((names.map entryPath).forM deleteGenerationDir) root () after ↔
      (∀ name ∈ names, root.Deletable name) ∧ after = root.removeAll names := by
  induction names generalizing root with
  | nil =>
    refine returns_pure.trans ?_
    simp [Root.removeAll, eq_comm]
  | cons name names ih =>
    obtain ⟨hname, hrest⟩ := List.forall_mem_cons.mp hnames
    obtain ⟨hnew, hnodup⟩ := List.nodup_cons.mp hnodup
    have hlater : (∀ other ∈ names, (root.remove name).Deletable other) ↔
        ∀ other ∈ names, root.Deletable other :=
      forall₂_congr fun other hother =>
        Root.Deletable.remove_iff fun heq => hnew (heq ▸ hother)
    refine returns_bind.trans ?_
    simp only [deleteGenerationDir_returns hname, List.forall_mem_cons]
    constructor
    · rintro ⟨_, _, ⟨hfirst, rfl⟩, hloop⟩
      obtain ⟨hall, rfl⟩ := (ih hrest hnodup).mp hloop
      exact ⟨⟨hfirst, hlater.mp hall⟩, rfl⟩
    · rintro ⟨⟨hfirst, hall⟩, rfl⟩
      exact ⟨(), _, ⟨hfirst, rfl⟩, (ih hrest hnodup).mpr ⟨hlater.mpr hall, rfl⟩⟩

/-! ## Interrupted deletions -/

/-- What a recovery finds at the path of an interrupted deletion is a directory or gone. -/
def Root.Recoverable (root : Root Text) (name : String) : Prop :=
  match root.entry name with
  | none => True
  | some (.dir _) => (root.pinState name).isSome
  | _ => False

/-- Whether a recovery leaves the entry gone. -/
def Root.gone (root : Root Text) (name : String) : Bool := root.pinState name ≠ some true

theorem recoverPath_returns (h : EntryName name) (hback : '\\' ∉ name.toList) {gone : Bool} :
    Returns (recoverPath (entryPath name)) root gone after ↔ root.Recoverable name ∧
      gone = root.gone name ∧ after = if root.gone name then root.remove name else root := by
  simp only [recoverPath, returns_bind, returns_read, entryOfPath_entryPath h, Option.some_inj,
    Root.Recoverable, Root.gone]
  constructor
  · rintro ⟨_, _, ⟨rfl, rfl⟩, _, _, ⟨rfl, rfl⟩, hrecover⟩
    cases hentry : root.entry name with
    | none =>
      rw [hentry] at hrecover
      obtain ⟨rfl, rfl⟩ := returns_pure.mp hrecover
      have hpin : root.pinState name = some false := by simp [Root.pinState, hentry]
      simp [hpin, remove_of_missing hentry]
    | some node =>
      rw [hentry] at hrecover
      cases node with
      | dir bundle =>
        obtain ⟨pinned, _, hread, hrest⟩ := returns_bind.mp hrecover
        obtain ⟨hpin, rfl⟩ := returns_read.mp hread
        rw [generationIsPinned_entryPath h] at hpin
        cases pinned with
        | true =>
          obtain ⟨rfl, rfl⟩ := returns_pure.mp hrest
          simp [hpin]
        | false =>
          obtain ⟨_, _, hdelete, hpure⟩ := returns_bind.mp hrest
          obtain ⟨rfl, rfl⟩ := returns_pure.mp hpure
          simp [hpin, ((deleteGenerationDir_returns h).mp hdelete).2]
      | symlink resolves => cases hrecover.1
      | file => cases hrecover.1
  · rintro ⟨hentry, rfl, rfl⟩
    refine ⟨name, root, ⟨rfl, rfl⟩, _, root, ⟨rfl, rfl⟩, ?_⟩
    rcases hnode : root.entry name with _ | _ | _ | _
    · have hpin : root.pinState name = some false := by simp [Root.pinState, hnode]
      rw [returns_pure]
      simp [hpin, remove_of_missing hnode]
    · rw [hnode] at hentry
      obtain ⟨pinned, hpin⟩ := Option.isSome_iff_exists.mp hentry
      refine returns_bind.mpr ⟨pinned, root,
        returns_read.mpr ⟨(generationIsPinned_entryPath h).trans hpin, rfl⟩, ?_⟩
      cases pinned with
      | true => exact returns_pure.mpr (by simp [hpin])
      | false =>
        have hdeletable : root.Deletable name := ⟨hback, by rw [hnode]; trivial⟩
        exact returns_bind.mpr ⟨(), root.remove name,
          (deleteGenerationDir_returns h).mpr ⟨hdeletable, rfl⟩, returns_pure.mpr (by simp [hpin])⟩
    · rw [hnode] at hentry
      exact hentry.elim
    · rw [hnode] at hentry
      exact hentry.elim

theorem recoverPaths_returns (hnames : ∀ name ∈ names, EntryName name ∧ '\\' ∉ name.toList)
    (hnodup : names.Nodup) {paths : List String} :
    Returns (recoverPaths (names.map entryPath)) root paths after ↔
      (∀ name ∈ names, root.Recoverable name) ∧ paths = (names.filter root.gone).map entryPath ∧
        after = root.removeAll (names.filter root.gone) := by
  induction names generalizing root paths with
  | nil =>
    rw [List.map_nil, recoverPaths, returns_pure]
    simp [Root.removeAll, eq_comm]
  | cons name names ih =>
    obtain ⟨⟨hname, hback⟩, hrest⟩ := List.forall_mem_cons.mp hnames
    obtain ⟨hnew, hnodup⟩ := List.nodup_cons.mp hnodup
    -- the other entries are as before
    have hother : ∀ other ∈ names, ∀ root' : Root Text,
        root' = (if root.gone name then root.remove name else root) →
        root'.entry other = root.entry other ∧ root'.pinState other = root.pinState other := by
      rintro other hmem _ rfl
      have hne : other ≠ name := fun heq => hnew (heq ▸ hmem)
      have hentry : (root.remove name).entry other = root.entry other := by
        rw [entry_remove, if_neg hne]
      split
      · exact ⟨hentry, pinState_of_entry hentry rfl⟩
      · exact ⟨rfl, rfl⟩
    have hlater : ∀ root' : Root Text,
        root' = (if root.gone name then root.remove name else root) →
        ((∀ other ∈ names, root'.Recoverable other) ↔ ∀ other ∈ names, root.Recoverable other) ∧
          names.filter root'.gone = names.filter root.gone := by
      refine fun root' hroot => ⟨forall₂_congr fun other hmem => ?_, List.filter_congr fun other hmem => ?_⟩
      · obtain ⟨hentry, hpin⟩ := hother other hmem root' hroot
        simp only [Root.Recoverable, hentry, hpin]
      · rw [Root.gone, Root.gone, (hother other hmem root' hroot).2]
    rw [List.map_cons, recoverPaths, returns_bind]
    simp only [returns_bind, returns_pure, recoverPath_returns hname hback, List.forall_mem_cons,
      List.filter_cons]
    constructor
    · rintro ⟨gone, root', ⟨hfirst, rfl, hroot⟩, others, _, hloop, rfl, rfl⟩
      obtain ⟨hall, rfl, rfl⟩ := (ih hrest hnodup).mp hloop
      obtain ⟨hiff, hsame⟩ := hlater root' hroot
      refine ⟨⟨hfirst, hiff.mp hall⟩, ?_, ?_⟩
      · rw [hsame]
        split <;> rfl
      · rw [hsame, hroot]
        split <;> rfl
    · rintro ⟨⟨hfirst, hall⟩, rfl, rfl⟩
      obtain ⟨hiff, hsame⟩ := hlater _ rfl
      refine ⟨_, _, ⟨hfirst, rfl, rfl⟩, (names.filter root.gone).map entryPath, _,
        (ih hrest hnodup).mpr ⟨hiff.mpr hall, by rw [hsame], ?_⟩, ?_, rfl⟩
      · rw [hsame]
        split <;> rfl
      · split <;> rfl

/-! ## What the loops keep -/

section Keeps

variable {inv before : Root Text → Prop} {path : String}

/-- A deletion keeps what emptying and removing its entry keeps. -/
theorem delete_keeps (hkeeps : ∀ name, entryOfPath path = some name → ∀ root, before root →
      inv (root.gut name) ∧ inv (root.remove name)) :
    Triple (fun root => before root ∧ inv root) (deleteGenerationDir path) (fun _ => inv) inv := by
  have hread : ∀ {α : Type} (f : Root Text → Option α), Triple (fun root => before root ∧ inv root)
      (Prog.read f) (fun _ root => before root ∧ inv root) inv :=
    fun f => .read (fun _ _ h _ => h) fun _ h => h.2
  have hend : ∀ f : Root Text → Option Unit, Triple (fun root => before root ∧ inv root)
      (Prog.read f) (fun _ => inv) inv := fun f => .read (fun _ _ h _ => h.2) fun _ h => h.2
  refine (hread _).bind fun _ => ?_
  refine Triple.seq (fun name root => (before root ∧ inv root) ∧ entryOfPath path = some name)
    (.read (fun _ _ h hname => ⟨h, hname⟩) fun _ h => h.2) fun name => .given fun hname => ?_
  have hremove : Triple (fun root => before root ∧ inv root) (removeEntry name) (fun _ => inv)
      inv := by
    refine ⟨fun root _ after h hreturns => ?_, fun root after h hcut => ?_⟩
    · rw [← hreturns.2]
      exact (hkeeps name hname root h.1).2
    · obtain ⟨hgut, hgone⟩ := hkeeps name hname root h.1
      rcases hcut with hpassed | rfl
      · rcases List.mem_pair.mp hpassed with rfl | rfl
        · exact h.2
        · exact hgut
      · exact hgone
  refine (hread _).bind fun node => ?_
  rcases node with _ | _ | _ | _
  · exact hend _
  · exact hremove
  · dsimp only
    split
    · exact hremove
    · exact hend _
  · exact hend _

variable (hkeeps : ∀ name, entryOfPath path = some name → ∀ root, inv root →
  generationIsPinned root path = some false → (root.entry name).isSome →
    inv (root.gut name) ∧ inv (root.remove name))

include hkeeps in
/-- A recovery deletes entries without a pin only. -/
theorem recoverPath_keeps : Triple inv (recoverPath path) (fun _ => inv) inv := by
  refine Triple.seq (fun name root => inv root ∧ entryOfPath path = some name)
    (.read (fun _ _ h hname => ⟨h, hname⟩) fun _ h => h) fun name => .given fun hname => ?_
  refine Triple.seq (fun node root => inv root ∧ root.entry name = node)
    (.read (fun _ _ h hnode => ⟨h, Option.some.inj hnode⟩) fun _ h => h) fun node => ?_
  rcases node with _ | _ | _ | _
  · exact .pure fun _ h => ⟨h.1, h.1⟩
  · refine Triple.seq (fun pinned root => (inv root ∧ (root.entry name).isSome) ∧
      generationIsPinned root path = some pinned)
      (.read (fun _ _ h hpinned => ⟨⟨h.1, Option.isSome_of_eq_some h.2⟩, hpinned⟩) fun _ h => h.1)
      fun pinned => ?_
    cases pinned with
    | true => exact .pure fun _ h => ⟨h.1.1, h.1.1⟩
    | false =>
      have hdelete : Triple (fun root => ((inv root ∧ (root.entry name).isSome) ∧
          generationIsPinned root path = some false) ∧ inv root) (deleteGenerationDir path)
          (fun _ => inv) inv := by
        refine delete_keeps fun other hother root h => ?_
        obtain rfl := Option.some.inj (hname.symm.trans hother)
        exact hkeeps name hname root h.1.1 h.2 h.1.2
      exact (hdelete.weaken (fun _ h => ⟨h, h.1.1⟩) (fun _ _ h => h) fun _ h => h).bind fun _ =>
        .pure fun _ h => ⟨h, h⟩
  · exact .read (fun _ _ h _ => h.1) fun _ h => h.1
  · exact .read (fun _ _ h _ => h.1) fun _ h => h.1

theorem recoverPaths_keeps {paths : List String} (hkeeps : ∀ path ∈ paths, ∀ name,
      entryOfPath path = some name → ∀ root, inv root →
        generationIsPinned root path = some false → (root.entry name).isSome →
          inv (root.gut name) ∧ inv (root.remove name)) :
    Triple inv (recoverPaths paths) (fun gone root => inv root ∧ gone ⊆ paths) inv := by
  induction paths with
  | nil => exact .pure fun _ h => ⟨⟨h, List.Subset.refl _⟩, h⟩
  | cons path rest ih =>
    obtain ⟨hfirst, hrest⟩ := List.forall_mem_cons.mp hkeeps
    refine (recoverPath_keeps hfirst).bind fun gone => (ih hrest).bind fun others =>
      .pure fun root h => ⟨⟨h.1, ?_⟩, h.1⟩
    split
    · exact List.cons_subset_cons _ h.2
    · exact List.Subset.trans h.2 (List.subset_cons_self _ _)

end Keeps

end OrdinalDB.Store
