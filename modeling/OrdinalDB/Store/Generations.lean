import OrdinalDB.Store.Collector
import OrdinalDB.Store.IndexPaths

/-!
# Sorting the generations out

What a scan of `vectors/` and the classification of its entries come to.
`Root.spares` lists the generations that no pin and no use keeps, the newest
first (`spares_descending`); a run retains the first ones and dooms the others
with the unpinned debris (`classifyGenerations_eq_some`).
-/

namespace OrdinalDB.Store

open Text

variable {Text : Type} {root : Root Text} {name : String}

/-! ## Paths of entries -/

theorem toList_entryPath (name : String) :
    (entryPath name).toList = vectorsDir.toList ++ '/' :: name.toList := by
  simp [entryPath, String.toList_append]

theorem entryPath_injective : Function.Injective entryPath := fun a b h => by
  have := congrArg String.toList h
  rw [toList_entryPath, toList_entryPath] at this
  exact String.toList_inj.mp (List.cons.inj (List.append_cancel_left this)).2

theorem splitOn_entryPath (h : EntryName name) :
    (entryPath name).toList.splitOn '/' = [vectorsDir.toList, name.toList] := by
  have hvectors : '/' ∉ vectorsDir.toList := by decide
  rw [toList_entryPath, List.splitOn_append_cons_self_of_not_mem hvectors,
    List.splitOn_eq_singleton h.2]

theorem EntryName.parts (h : EntryName name) :
    name.toList ≠ [] ∧ name.toList ≠ ['.'] ∧ name.toList ≠ ['.', '.'] := by
  simpa using h.1

theorem not_hasDot_entryPath (h : EntryName name) : ¬HasDot (entryPath name) := by
  have hvectors : ['.'] ≠ vectorsDir.toList := by decide
  unfold HasDot
  rw [splitOn_entryPath h, List.mem_pair, not_or]
  exact ⟨hvectors, h.parts.2.1.symm⟩

theorem nil_not_mem_entryPath (h : EntryName name) :
    [] ∉ (entryPath name).toList.splitOn '/' := by
  have hvectors : [] ≠ vectorsDir.toList := by decide
  rw [splitOn_entryPath h, List.mem_pair, not_or]
  exact ⟨hvectors, h.parts.1.symm⟩

theorem entryOfPath_entryPath (h : EntryName name) : entryOfPath (entryPath name) = some name := by
  have hvectors : componentOf vectorsDir.toList = .normal vectorsDir := by decide
  unfold entryOfPath
  rw [components_eq (nil_not_mem_entryPath h) (not_hasDot_entryPath h), splitOn_entryPath h,
    List.map_cons, List.map_cons, List.map_nil, hvectors, componentOf, if_neg h.parts.2.2]
  simp

theorem validateRelativePath_entryPath (h : EntryName name) :
    validateRelativePath (entryPath name) ↔ '\\' ∉ name.toList := by
  have hvectors : ['.', '.'] ≠ vectorsDir.toList ∧ '\\' ∉ vectorsDir.toList := by decide
  rw [validateRelativePath_iff (not_hasDot_entryPath h), toList_entryPath]
  have hparent : ['.', '.'] ∉ (entryPath name).toList.splitOn '/' := by
    rw [splitOn_entryPath h, List.mem_pair, not_or]
    exact ⟨hvectors.1, h.parts.2.2.symm⟩
  rw [toList_entryPath] at hparent
  have hnil := nil_not_mem_entryPath h
  rw [toList_entryPath] at hnil
  simp only [List.mem_append, List.mem_cons, hvectors.2, false_or]
  exact ⟨fun hvalid hmem => hvalid.2.2 (.inr hmem),
    fun hback => ⟨hnil, hparent, fun hmem => hmem.elim (by decide) hback⟩⟩

theorem entryPath_ne_indexDir (name : String) : entryPath name ≠ indexDir := fun h => by
  have hslash : '/' ∉ indexDir.toList := by decide
  refine hslash (h ▸ ?_)
  rw [toList_entryPath]
  exact List.mem_append_right _ List.mem_cons_self

/-- A committed generation is located under its plain path. -/
theorem locate_entryPath (h : EntryName name) (hback : '\\' ∉ name.toList)
    (hid : (parseGenerationDir name).isSome) : locate (entryPath name) = some (.vectors name) := by
  have hvectors : componentOf vectorsDir.toList = .normal vectorsDir := by decide
  unfold locate
  rw [if_neg (by simp [(validateRelativePath_entryPath h).mpr hback]),
    if_neg (entryPath_ne_indexDir name), components_eq (nil_not_mem_entryPath h)
      (not_hasDot_entryPath h), splitOn_entryPath h, List.map_cons, List.map_cons, List.map_nil,
    hvectors, componentOf, if_neg h.parts.2.2]
  simp [hid]

/-! ## Generation names -/

/-- The number of a generation; other entries have none. -/
def generationNumber (name : String) : Nat := (parseGenerationDir name).getD 0

theorem generationName (h : (parseGenerationDir name).isSome) :
    EntryName name ∧ '\\' ∉ name.toList := by
  obtain ⟨id, hid⟩ := Option.isSome_iff_exists.mp h
  obtain ⟨digits, hname, -, hascii, -⟩ := parseGenerationDir_eq_some.mp hid
  have hsuffix : '/' ∉ ".odb".toList ∧ '\\' ∉ ".odb".toList := by decide
  unfold EntryName
  rw [hname]
  simp only [List.mem_cons, List.mem_append, not_or]
  exact ⟨⟨⟨by simp, by simp, by simp, by simp⟩, by decide, slash_not_mem_digits hascii, hsuffix.1⟩,
    by decide, backslash_not_mem_digits hascii, hsuffix.2⟩

/-- A common end does not order texts of one length. -/
theorem lt_of_append_lt {a b tail : List Char} (hlength : a.length = b.length)
    (h : a ++ tail < b ++ tail) : a < b := by
  induction a generalizing b with
  | nil =>
    obtain rfl := List.length_eq_zero_iff.mp hlength.symm
    exact absurd h (List.lt_irrefl _)
  | cons c a ih =>
    cases b with
    | nil => cases hlength
    | cons d b =>
      rcases List.cons_lt_cons_iff.mp h with hlt | ⟨hsame, hrest⟩
      · exact List.cons_lt_cons_iff.mpr (.inl hlt)
      · exact List.cons_lt_cons_iff.mpr (.inr ⟨hsame, ih (Nat.succ.inj hlength) hrest⟩)

/-- Generations are ordered by their names as by their numbers. -/
theorem generationNumber_lt {other : String} (h : (parseGenerationDir name).isSome)
    (hother : (parseGenerationDir other).isSome) (hlt : name < other) :
    generationNumber name < generationNumber other := by
  obtain ⟨id, hid⟩ := Option.isSome_iff_exists.mp h
  obtain ⟨otherId, hotherId⟩ := Option.isSome_iff_exists.mp hother
  obtain ⟨digits, hname, hwidth, hascii, -, hnumber⟩ := parseGenerationDir_eq_some.mp hid
  obtain ⟨digits', hname', hwidth', hascii', -, hnumber'⟩ := parseGenerationDir_eq_some.mp hotherId
  rw [generationNumber, generationNumber, hid, hotherId, Option.getD_some, Option.getD_some,
    ← hnumber, ← hnumber']
  refine ofDigitChars_lt_of_lt hascii hascii' (hwidth.trans hwidth'.symm) ?_ 0
  rw [String.lt_iff_toList_lt, hname, hname'] at hlt
  have hrest := (List.cons_lt_cons_iff.mp hlt).resolve_left (fun h => absurd h (by decide))
  exact lt_of_append_lt (hwidth.trans hwidth'.symm) hrest.2

/-! ## Pins -/

/-- Whether an entry is pinned; an irregular pin is an error. -/
def Root.pinState (root : Root Text) (name : String) : Option Bool :=
  match root.entry name with
  | some (.dir _) =>
    match root.pins[name]? with
    | none => some false
    | some .regular => some true
    | some .irregular => none
  | _ => some false

theorem generationIsPinned_entryPath (h : EntryName name) :
    generationIsPinned root (entryPath name) = root.pinState name := by
  simp only [generationIsPinned, entryOfPath_entryPath h, Option.bind_some]
  rfl

theorem pinState_of_entry {other : Root Text} (hentry : other.entry name = root.entry name)
    (hpins : other.pins = root.pins) : other.pinState name = root.pinState name := by
  rw [Root.pinState, Root.pinState, hentry, hpins]

/-! ## Names -/

def Root.names (root : Root Text) : List String := root.disk.vectors.elim [] (·.keys)

theorem mem_names : name ∈ root.names ↔ (root.entry name).isSome := by
  unfold Root.names Root.entry Disk.node
  cases root.disk.vectors with
  | none => simp
  | some entries => exact Std.ExtTreeMap.mem_keys.trans Std.ExtTreeMap.mem_iff_isSome_getElem?

theorem entryName_of_mem (h : name ∈ root.names) : EntryName name :=
  Disk.named_iff.mp root.named name (mem_names.mp h)

theorem names_ascending (root : Root Text) : root.names.Pairwise (· < ·) := by
  unfold Root.names
  cases root.disk.vectors with
  | none => exact .nil
  | some entries => exact entries.ordered_keys.imp fun h => compare_lt_iff_lt.mp h

theorem names_nodup (root : Root Text) : root.names.Nodup :=
  (names_ascending root).imp fun h => h.ne

/-! ## Scanning -/

/-- What no writer leaves behind is not there: symlinks, and files named as generations. -/
def Root.Tidy (root : Root Text) : Prop :=
  ∀ name node, root.entry name = some node →
    node.isSymlink = false ∧ ((parseGenerationDir name).isSome → node.isDir)

/-- The committed generations that are not the active one. -/
def Root.idle (root : Root Text) (activeGenerationPath : Option String) : List String :=
  root.names.filter fun name =>
    (parseGenerationDir name).isSome && some (entryPath name) ≠ activeGenerationPath

def Root.debris (root : Root Text) : List String :=
  root.names.filter fun name => (parseGenerationDir name).isNone

theorem mem_idle {active : Option String} : name ∈ root.idle active ↔
    (root.entry name).isSome ∧ (parseGenerationDir name).isSome ∧
      some (entryPath name) ≠ active := by
  simp [Root.idle, mem_names]

theorem mem_debris : name ∈ root.debris ↔
    (root.entry name).isSome ∧ parseGenerationDir name = none := by
  simp [Root.debris, mem_names]

theorem generationDirectorySummary_eq_some {active : Option String}
    {summary : GenerationDirectorySummary} :
    generationDirectorySummary root.disk active = some summary ↔ root.Tidy ∧
      summary = ⟨(root.idle active).map entryPath, root.debris.map entryPath⟩ := by
  unfold generationDirectorySummary scanGenerationDirectory Root.Tidy Root.idle Root.debris
    Root.names Root.entry Disk.node
  cases root.disk.vectors with
  | none =>
    show some (GenerationDirectorySummary.mk [] []) = some summary ↔ _ ∧ summary = ⟨[], []⟩
    rw [Option.some_inj, eq_comm]
    exact (and_iff_right fun name node h => by cases h).symm
  | some entries =>
    have htidy : (∀ name node, (name, node) ∈ entries.toList →
          (!node.isSymlink && ((parseGenerationDir name).isNone || node.isDir)) = true) ↔
        ∀ name node, entries[name]? = some node →
          node.isSymlink = false ∧ ((parseGenerationDir name).isSome → node.isDir) := by
      simp only [Std.ExtTreeMap.mem_toList_iff_getElem?_eq_some, Bool.and_eq_true,
        Bool.not_eq_true', Bool.or_eq_true]
      refine forall_congr' fun name => forall₂_congr fun node _ => and_congr_right fun _ => ?_
      cases parseGenerationDir name <;> simp
    simp only [Option.bind_eq_bind, Option.bind_some, Option.elim_some, ← htidy]
    split
    next hall =>
      rw [List.all_eq_true, Prod.forall] at hall
      rw [List.partition_eq_filter_filter]
      simp only [Option.bind_some, Option.pure_def, Option.some.injEq, List.filter_map,
        List.filter_filter]
      rw [and_iff_right hall, eq_comm]
      have hfirst : ∀ name : String, ((fun path => decide (some path ≠ active)) ∘ entryPath) name =
          decide (some (entryPath name) ≠ active) := fun _ => rfl
      have hother : (Bool.not ∘ fun name : String => (parseGenerationDir name).isSome) =
          fun name => (parseGenerationDir name).isNone := by
        funext name
        simp
      simp only [hfirst, hother, Bool.and_comm]
    next hall =>
      rw [List.all_eq_true, Prod.forall] at hall
      exact iff_of_false nofun fun h => hall h.1

/-! ## Classes -/

/-- Every entry has a pin that can be read, or none. -/
def Root.PinsReadable (root : Root Text) (names : List String) : Prop :=
  ∀ name ∈ names, (root.pinState name).isSome

def Root.unpinned (root : Root Text) (names : List String) : List String :=
  names.filter fun name => root.pinState name = some false

def Root.pinned (root : Root Text) (names : List String) : List String :=
  names.filter fun name => root.pinState name = some true

theorem mem_unpinned {names : List String} :
    name ∈ root.unpinned names ↔ name ∈ names ∧ root.pinState name = some false := by
  simp [Root.unpinned]

theorem mem_pinned {names : List String} :
    name ∈ root.pinned names ↔ name ∈ names ∧ root.pinState name = some true := by
  simp [Root.pinned]

theorem isSome_bind_some {α β : Type} (o : Option α) (f : α → β) :
    (o.bind fun a => some (f a)).isSome = o.isSome := by
  cases o <;> rfl

theorem classifyRetained_isSome (budget : Nat) {names : List String}
    (hnames : ∀ name ∈ names, EntryName name) :
    (classifyRetained root budget (names.map entryPath)).isSome ↔ root.PinsReadable names := by
  induction names generalizing budget with
  | nil => exact iff_of_true rfl fun name h => nomatch h
  | cons name names ih =>
    obtain ⟨hname, hrest⟩ := List.forall_mem_cons.mp hnames
    have hcons : root.PinsReadable (name :: names) ↔
        (root.pinState name).isSome ∧ root.PinsReadable names := List.forall_mem_cons
    rw [hcons, ← @ih budget hrest, List.map_cons, classifyRetained, generationIsPinned_entryPath hname]
    cases hpin : root.pinState name with
    | none => simp
    | some pinned =>
      have hbudget := (@ih (budget - 1) hrest).trans (@ih budget hrest).symm
      cases pinned with
      | true => simp [isSome_bind_some]
      | false =>
        rcases Nat.eq_zero_or_pos budget with rfl | hpositive
        · simp [isSome_bind_some]
        · simp [hpositive, ← hbudget, isSome_bind_some]

/-- The budget goes to the first unpinned generations. -/
theorem classifyRetained_eq_some {budget : Nat} {names : List String}
    (hnames : ∀ name ∈ names, EntryName name) {classes : GenerationClasses}
    (h : classifyRetained root budget (names.map entryPath) = some classes) :
    classes.pinned = (root.pinned names).map entryPath ∧
      classes.reclaimable = ((root.unpinned names).drop budget).map entryPath ∧
      classes.retained.Perm
        ((root.pinned names ++ (root.unpinned names).take budget).map entryPath) := by
  induction names generalizing budget classes with
  | nil =>
    obtain rfl := Option.some.inj h
    simp [Root.pinned, Root.unpinned]
  | cons name names ih =>
    obtain ⟨hname, hrest⟩ := List.forall_mem_cons.mp hnames
    rw [List.map_cons, classifyRetained, generationIsPinned_entryPath hname] at h
    cases hpin : root.pinState name with
    | none => simp [hpin] at h
    | some pinned =>
      have hpinned : root.pinned (name :: names) =
          if pinned then name :: root.pinned names else root.pinned names := by
        cases pinned <;> simp [Root.pinned, hpin]
      have hunpinned : root.unpinned (name :: names) =
          if pinned then root.unpinned names else name :: root.unpinned names := by
        cases pinned <;> simp [Root.unpinned, hpin]
      rw [hpin] at h
      rw [hpinned, hunpinned]
      simp only [Option.bind_eq_bind, Option.bind_some] at h
      cases pinned with
      | true =>
        simp only [if_true, Option.bind_eq_some_iff, Option.pure_def, Option.some.injEq] at h ⊢
        obtain ⟨others, hothers, rfl⟩ := h
        obtain ⟨hfirst, hsecond, hthird⟩ := ih hrest hothers
        exact ⟨by rw [hfirst, List.map_cons], hsecond, hthird.cons _⟩
      | false =>
        simp only [Bool.false_eq_true, if_false] at h ⊢
        cases budget with
        | zero =>
          simp only [Nat.lt_irrefl, if_false, Option.bind_eq_some_iff, Option.pure_def,
            Option.some.injEq] at h
          obtain ⟨others, hothers, rfl⟩ := h
          obtain ⟨hfirst, hsecond, hthird⟩ := ih hrest hothers
          rw [List.drop_zero] at hsecond ⊢
          exact ⟨hfirst, by rw [hsecond, List.map_cons], hthird⟩
        | succ budget =>
          simp only [Nat.zero_lt_succ, if_true, Nat.add_sub_cancel, Option.bind_eq_some_iff,
            Option.pure_def, Option.some.injEq] at h
          obtain ⟨others, hothers, rfl⟩ := h
          obtain ⟨hfirst, hsecond, hthird⟩ := ih hrest hothers
          refine ⟨hfirst, hsecond, ?_⟩
          rw [List.take_succ_cons, List.map_append, List.map_cons]
          rw [List.map_append] at hthird
          exact (hthird.cons _).trans List.perm_middle.symm

theorem classifyPartial_isSome {names : List String} (hnames : ∀ name ∈ names, EntryName name) :
    (classifyPartial root (names.map entryPath)).isSome ↔ root.PinsReadable names := by
  induction names with
  | nil => exact iff_of_true rfl fun name h => nomatch h
  | cons name names ih =>
    obtain ⟨hname, hrest⟩ := List.forall_mem_cons.mp hnames
    have hcons : root.PinsReadable (name :: names) ↔
        (root.pinState name).isSome ∧ root.PinsReadable names := List.forall_mem_cons
    rw [hcons, ← ih hrest, List.map_cons, classifyPartial, generationIsPinned_entryPath hname]
    cases hpin : root.pinState name with
    | none => simp
    | some pinned =>
      cases classifyPartial root (names.map entryPath) <;> cases pinned <;> simp

theorem classifyPartial_eq_some {names : List String} (hnames : ∀ name ∈ names, EntryName name)
    {classes : GenerationClasses}
    (h : classifyPartial root (names.map entryPath) = some classes) :
    classes.pinned = (root.pinned names).map entryPath ∧
      classes.reclaimable = (root.unpinned names).map entryPath := by
  induction names generalizing classes with
  | nil =>
    obtain rfl := Option.some.inj h
    simp [Root.pinned, Root.unpinned]
  | cons name names ih =>
    obtain ⟨hname, hrest⟩ := List.forall_mem_cons.mp hnames
    rw [List.map_cons, classifyPartial, generationIsPinned_entryPath hname] at h
    simp only [Option.bind_eq_bind, Option.bind_eq_some_iff] at h
    obtain ⟨pinned, hpin, others, hothers, h⟩ := h
    obtain ⟨hfirst, hsecond⟩ := ih hrest hothers
    cases pinned with
    | true =>
      obtain rfl := Option.some.inj h
      simp [Root.pinned, Root.unpinned, hpin, hfirst, hsecond]
    | false =>
      obtain rfl := Option.some.inj h
      simp [Root.pinned, Root.unpinned, hpin, hfirst, hsecond]

/-! ## What a run keeps and dooms -/

/-- The idle generations without a pin, the newest first. -/
def Root.spares (root : Root Text) (activeGenerationPath : Option String) : List String :=
  root.unpinned (root.idle activeGenerationPath).reverse

/-- The entries that a run reclaims. -/
def Root.doomed (root : Root Text) (activeGenerationPath : Option String) (retain : Nat) :
    List String :=
  (root.spares activeGenerationPath).drop retain ++ root.unpinned root.debris

theorem mem_spares {active : Option String} : name ∈ root.spares active ↔
    name ∈ root.idle active ∧ root.pinState name = some false := by
  rw [Root.spares, mem_unpinned, List.mem_reverse]

theorem spares_descending (root : Root Text) (active : Option String) :
    (root.spares active).Pairwise fun newer older => generationNumber older < generationNumber newer := by
  refine List.Pairwise.filter _ (List.pairwise_reverse.mpr ?_)
  have hnames : (root.idle active).Pairwise (· < ·) := (names_ascending root).filter _
  exact hnames.imp_of_mem fun hleft hright hlt =>
    generationNumber_lt (mem_idle.mp hleft).2.1 (mem_idle.mp hright).2.1 hlt

theorem spares_nodup (root : Root Text) (active : Option String) : (root.spares active).Nodup :=
  (spares_descending root active).imp fun h heq => absurd (heq ▸ h) (Nat.lt_irrefl _)

theorem mem_doomed {active : Option String} {retain : Nat} : name ∈ root.doomed active retain ↔
    name ∈ (root.spares active).drop retain ∨
      name ∈ root.debris ∧ root.pinState name = some false := by
  rw [Root.doomed, List.mem_append, mem_unpinned]

theorem doomed_nodup (root : Root Text) (active : Option String) (retain : Nat) :
    (root.doomed active retain).Nodup := by
  refine List.nodup_append'.mpr ⟨(spares_nodup root active).sublist (List.drop_sublist ..),
    ((names_nodup root).filter _).filter _, fun name hspare hdebris => ?_⟩
  have hgeneration := (mem_idle.mp (mem_spares.mp (List.mem_of_mem_drop hspare)).1).2.1
  rw [(mem_debris.mp (mem_unpinned.mp hdebris).1).2] at hgeneration
  cases hgeneration

theorem doomed_present {active : Option String} {retain : Nat}
    (h : name ∈ root.doomed active retain) :
    (root.entry name).isSome ∧ root.pinState name = some false := by
  rcases mem_doomed.mp h with hspare | ⟨hdebris, hpin⟩
  · have := mem_spares.mp (List.mem_of_mem_drop hspare)
    exact ⟨(mem_idle.mp this.1).1, this.2⟩
  · exact ⟨(mem_debris.mp hdebris).1, hpin⟩

/-- What the classification of a root comes to. -/
structure Classified (root : Root Text) (active : Option String) (retain : Nat)
    (classes : GenerationClasses) : Prop where
  pinned : ∀ path, path ∈ classes.pinned ↔ ∃ name, path = entryPath name ∧
    (name ∈ root.idle active ∨ name ∈ root.debris) ∧ root.pinState name = some true
  retained : ∀ path, path ∈ classes.retained ↔ ∃ name, path = entryPath name ∧
    (name ∈ root.idle active ∧ root.pinState name = some true ∨
      name ∈ (root.spares active).take retain)
  reclaimable : classes.reclaimable.Perm ((root.doomed active retain).map entryPath)

theorem sortPaths_perm (paths : List String) : (sortPaths paths).Perm paths :=
  List.mergeSort_perm ..

theorem mem_sortPaths {path : String} {paths : List String} :
    path ∈ sortPaths paths ↔ path ∈ paths := (sortPaths_perm paths).mem_iff

section Classify

variable {active : Option String} {retain : Nat} {summary : GenerationDirectorySummary}
  (hsummary : summary = ⟨(root.idle active).map entryPath, root.debris.map entryPath⟩)

include hsummary

variable (retain) in
theorem classifyGenerations_isSome : (classifyGenerations root retain summary).isSome ↔
    root.PinsReadable (root.idle active) ∧ root.PinsReadable root.debris := by
  subst hsummary
  have hidle : ∀ name ∈ (root.idle active).reverse, EntryName name := fun name h =>
    entryName_of_mem (mem_names.mpr (mem_idle.mp (List.mem_reverse.mp h)).1)
  have hdebris : ∀ name ∈ root.debris, EntryName name := fun name h =>
    entryName_of_mem (mem_names.mpr (mem_debris.mp h).1)
  have hreverse : root.PinsReadable (root.idle active).reverse ↔
      root.PinsReadable (root.idle active) := by simp [Root.PinsReadable]
  rw [← hreverse, ← classifyRetained_isSome retain hidle,
    ← classifyPartial_isSome hdebris, classifyGenerations, List.map_reverse]
  cases classifyRetained root retain ((root.idle active).map entryPath).reverse <;>
    cases classifyPartial root (root.debris.map entryPath) <;> simp

theorem classifyGenerations_eq_some {classes : GenerationClasses}
    (h : classifyGenerations root retain summary = some classes) :
    Classified root active retain classes := by
  subst hsummary
  have hidle : ∀ name ∈ (root.idle active).reverse, EntryName name := fun name h =>
    entryName_of_mem (mem_names.mpr (mem_idle.mp (List.mem_reverse.mp h)).1)
  have hdebris : ∀ name ∈ root.debris, EntryName name := fun name h =>
    entryName_of_mem (mem_names.mpr (mem_debris.mp h).1)
  simp only [classifyGenerations, Option.bind_eq_bind, Option.bind_eq_some_iff, Option.pure_def,
    Option.some.injEq] at h
  obtain ⟨committed, hcommitted, others, hothers, rfl⟩ := h
  rw [← List.map_reverse] at hcommitted
  obtain ⟨hpinned, hreclaimable, hretained⟩ := classifyRetained_eq_some hidle hcommitted
  obtain ⟨hpinned', hreclaimable'⟩ := classifyPartial_eq_some hdebris hothers
  constructor
  · intro path
    rw [mem_sortPaths, hpinned, hpinned', ← List.map_append, List.mem_map]
    simp only [List.mem_append, mem_pinned, List.mem_reverse, ← or_and_right]
    exact exists_congr fun name => by rw [and_comm, @eq_comm _ path]
  · intro path
    rw [mem_sortPaths, hretained.mem_iff, List.mem_map]
    simp only [List.mem_append, mem_pinned, List.mem_reverse]
    exact exists_congr fun name => by rw [and_comm, @eq_comm _ path]; rfl
  · refine (sortPaths_perm _).trans ?_
    rw [hreclaimable, hreclaimable', ← List.map_append]
    exact .refl _

end Classify

end OrdinalDB.Store
