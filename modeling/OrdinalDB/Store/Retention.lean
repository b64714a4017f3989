import OrdinalDB.Store.Openability
import OrdinalDB.Store.Reached

/-!
# The report of a collection

`gc_truthful_iff`: the report of a collection is true and the retention is
honoured exactly when no generation that the retention keeps has been marked
for deletion by an earlier collection that was cut. The recovery deletes such a
generation although the classification retains it
(`retained_and_deleted`).

A second, smaller condition is about index paths with a `.` component: the
classification compares the active path as a text, so it may spend one of the
retained places on the generation in use.
-/

namespace OrdinalDB.Store

open Durable

variable {Text : Type} {codec : JsonCodec Text} {envs : Nat → Env} {root after : Root Text}
  {store : VerifiedAdapterStore Text} {retain : Nat} {report : AdapterGcReport} {name : String}

/-! ## What a report says -/

def Root.entryAt (root : Root Text) (path : String) : Option Node :=
  (entryOfPath path).bind root.entry

instance (store : VerifiedAdapterStore Text) (name : String) : Decidable (store.Uses name) :=
  inferInstanceAs (Decidable (_ = _))

/-- The unpinned generations that are not in use, the newest first. -/
def Root.others (root : Root Text) (store : VerifiedAdapterStore Text) : List String :=
  root.unpinned (root.names.filter fun name =>
    (parseGenerationDir name).isSome && !decide (store.Uses name)).reverse

/-- The report tells the truth, and the newest generations are left. -/
structure Truthful (root : Root Text) (store : VerifiedAdapterStore Text) (retain : Nat)
    (report : AdapterGcReport) (after : Root Text) : Prop where
  active : ∀ location, locate store.manifest.activeGenerationPath = some location →
    (after.disk.node location).isSome
  pinned : ∀ path ∈ report.pinnedGenerationPaths, (after.entryAt path).isSome
  retained : ∀ path ∈ report.retainedGenerationPaths, (after.entryAt path).isSome
  deleted : ∀ path ∈ report.deletedGenerationPaths, after.entryAt path = none
  disjoint : ∀ path ∈ report.retainedGenerationPaths, path ∉ report.deletedGenerationPaths
  remaining : ∀ name, (parseGenerationDir name).isSome → ¬store.Uses name →
    ((after.entry name).isSome ↔ (root.entry name).isSome ∧
      (root.pinState name = some true ∨ name ∈ (root.others store).take retain))

/-- No generation among the newest is marked for deletion, and a generation in use that has
another spelling than its plain path takes no place from them. -/
def Honoured (root : Root Text) (store : VerifiedAdapterStore Text) (retain : Nat) : Prop :=
  (∀ name ∈ (root.others store).take retain,
    root.states[entryPath name]? ≠ some generationStateDeleting) ∧
  ∀ name, store.Uses name → store.manifest.activeGenerationPath ≠ entryPath name →
    root.pinState name = some true ∨ (root.others store).length < retain

/-! ## The generation in use -/

theorem uses_generation (h : store.Uses name) : (parseGenerationDir name).isSome := by
  unfold VerifiedAdapterStore.Uses locate at h
  split at h
  next => cases h
  next =>
    split at h
    next => cases h
    next =>
      split at h
      next first second _ =>
        obtain ⟨⟨-, hgeneration⟩, hname⟩ := Option.ite_none_right_eq_some.mp h
        obtain rfl : second = name := Location.vectors.inj (Option.some.inj hname)
        exact hgeneration
      next => cases h

/-- A generation at the active path is in use. -/
theorem uses_of_path (hgeneration : (parseGenerationDir name).isSome)
    (hpath : some (entryPath name) = store.activeGenerationPath) : store.Uses name := by
  obtain ⟨hname, hback⟩ := generationName hgeneration
  obtain ⟨hsame, -⟩ := Option.filter_eq_some_iff.mp hpath.symm
  rw [VerifiedAdapterStore.Uses, Option.some.inj hsame]
  exact locate_entryPath hname hback hgeneration

theorem activeGenerationPath_of_uses (hopened : root.Opened codec store) (huses : store.Uses name) :
    store.activeGenerationPath = some store.manifest.activeGenerationPath := by
  rcases hopened.active with ⟨hnone, -⟩ | ⟨_, _, -, -, hpath⟩
  · cases hnone.symm.trans huses
  · exact hpath

theorem others_eq (root : Root Text) (store : VerifiedAdapterStore Text) :
    root.others store =
      (root.spares store.activeGenerationPath).filter fun name => !decide (store.Uses name) := by
  unfold Root.others Root.spares Root.idle Root.unpinned
  rw [← List.filter_reverse, ← List.filter_reverse, List.filter_filter, List.filter_filter,
    List.filter_filter]
  refine List.filter_congr fun name _ => ?_
  by_cases huses : store.Uses name
  · simp [huses]
  · cases hgeneration : parseGenerationDir name with
    | none => simp
    | some id =>
      have hpath : some (entryPath name) ≠ store.activeGenerationPath := fun hpath =>
        huses (uses_of_path (Option.isSome_of_eq_some hgeneration) hpath)
      simp [huses, hpath]

theorem mem_others : name ∈ root.others store ↔
    name ∈ root.spares store.activeGenerationPath ∧ ¬store.Uses name := by
  rw [others_eq]
  simp

/-- Unless the generation in use is spelled differently, the spare ones are the others. -/
theorem others_of_not_mem (h : ∀ name, store.Uses name →
    name ∉ root.spares store.activeGenerationPath) :
    root.others store = root.spares store.activeGenerationPath := by
  rw [others_eq]
  refine List.filter_eq_self.mpr fun name hname => ?_
  simpa using fun huses => h name huses hname

/-- A spare generation in use has another spelling, and no pin. -/
theorem spelled_of_mem (hopened : root.Opened codec store) (huses : store.Uses name)
    (hname : name ∈ root.spares store.activeGenerationPath) :
    store.manifest.activeGenerationPath ≠ entryPath name ∧ root.pinState name = some false := by
  obtain ⟨hidle, hpin⟩ := mem_spares.mp hname
  refine ⟨fun hpath => (mem_idle.mp hidle).2.2 ?_, hpin⟩
  rw [activeGenerationPath_of_uses hopened huses, hpath]

/-! ## Which generations stay -/

section Stay

variable (hledger : root.Ledger) (hopened : root.Opened codec store)
  (hclear : root.Clear store retain)

include hledger hopened

theorem mem_swept : name ∈ root.swept store.activeGenerationPath retain ↔
    (root.states[entryPath name]? = some generationStateDeleting ∧
      some (entryPath name) ≠ store.activeGenerationPath ∧ root.pinState name ≠ some true) ∨
      name ∈ root.doomed store.activeGenerationPath retain := by
  rw [Root.swept, List.mem_append, mem_recovered, hledger.mem_interrupted hopened.file, and_assoc]

/-- A pinned entry stays. -/
theorem pinned_stays (hpin : root.pinState name = some true) :
    name ∉ root.swept store.activeGenerationPath retain := by
  rw [mem_swept hledger hopened]
  rintro (⟨-, -, hother⟩ | hdoomed)
  · exact hother hpin
  · have := (doomed_present hdoomed).2
    rw [hpin] at this
    cases this

/-- A spare generation stays when it is among the first and not marked. -/
theorem spare_stays_iff (hname : name ∈ root.spares store.activeGenerationPath) :
    name ∉ root.swept store.activeGenerationPath retain ↔
      root.states[entryPath name]? ≠ some generationStateDeleting ∧
        name ∈ (root.spares store.activeGenerationPath).take retain := by
  obtain ⟨hidle, hpin⟩ := mem_spares.mp hname
  obtain ⟨-, hgeneration, hpath⟩ := mem_idle.mp hidle
  have hnodup := spares_nodup root store.activeGenerationPath
  have hdoomed : name ∈ root.doomed store.activeGenerationPath retain ↔
      name ∉ (root.spares store.activeGenerationPath).take retain := by
    have hdebris : name ∉ root.debris := fun h => by
      rw [(mem_debris.mp h).2] at hgeneration
      cases hgeneration
    rw [mem_doomed, or_iff_left fun h => hdebris h.1]
    have hsplit : name ∈ (root.spares store.activeGenerationPath).take retain ∨
        name ∈ (root.spares store.activeGenerationPath).drop retain := by
      rw [← List.mem_append, List.take_append_drop]
      exact hname
    exact ⟨fun hdrop htake => List.disjoint_take_drop hnodup (Nat.le_refl retain) htake hdrop,
      hsplit.resolve_left⟩
  rw [mem_swept hledger hopened, hdoomed, not_or, not_not]
  refine and_congr_left fun _ => ?_
  simp [hpath, hpin]

include hclear

omit hledger hopened in
/-- The generation in use stays. -/
theorem used_stays (huses : store.Uses name) :
    name ∉ root.swept store.activeGenerationPath retain := fun hmem =>
  (List.mem_append.mp hmem).elim (hclear.kept name huses).1 (hclear.kept name huses).2

/-- The generation in use is among the first when it counts as spare. -/
theorem used_spare (huses : store.Uses name)
    (hname : name ∈ root.spares store.activeGenerationPath) :
    name ∈ (root.spares store.activeGenerationPath).take retain :=
  ((spare_stays_iff hledger hopened hname).mp (used_stays hclear huses)).2

end Stay

/-- Under the second condition the classification keeps the newest of the others. -/
theorem take_others (hopened : root.Opened codec store) (hspelled : ∀ name, store.Uses name →
      store.manifest.activeGenerationPath ≠ entryPath name →
      root.pinState name = some true ∨ (root.others store).length < retain)
    (hname : name ∈ root.others store) :
    name ∈ (root.others store).take retain ↔
      name ∈ (root.spares store.activeGenerationPath).take retain := by
  by_cases hused : ∃ used, store.Uses used ∧ used ∈ root.spares store.activeGenerationPath
  · obtain ⟨used, huses, hspare⟩ := hused
    obtain ⟨hpath, hpin⟩ := spelled_of_mem hopened huses hspare
    have hfew := (hspelled used huses hpath).resolve_left (by simp [hpin])
    -- without the generation in use there is one spare generation less
    have hlength : (root.spares store.activeGenerationPath).length ≤
        (root.others store).length + 1 := by
      have hsub : root.spares store.activeGenerationPath ⊆ used :: root.others store := by
        intro other hother
        by_cases hotherUses : store.Uses other
        · have hsame : other = used :=
            Location.vectors.inj (Option.some.inj (hotherUses.symm.trans huses))
          exact hsame ▸ List.mem_cons_self
        · exact List.mem_cons_of_mem _ (mem_others.mpr ⟨hother, hotherUses⟩)
      exact ((spares_nodup root _).subperm hsub).length_le
    rw [List.take_of_length_le hfew.le, List.take_of_length_le (by omega)]
    exact iff_of_true hname (mem_others.mp hname).1
  · have hsame : root.others store = root.spares store.activeGenerationPath :=
      others_of_not_mem fun name huses hmem => hused ⟨name, huses, hmem⟩
    rw [hsame]

/-! ## The condition -/

theorem entryAt_entryPath (h : EntryName name) : root.entryAt (entryPath name) = root.entry name := by
  rw [Root.entryAt, entryOfPath_entryPath h, Option.bind_some]

/-- Entries stay or go as a whole. -/
theorem Collected.entry (h : Collected codec root store retain report after) :
    after.entry name =
      if name ∈ root.swept store.activeGenerationPath retain then none else root.entry name :=
  h.swept.choose_spec.entries name

section Report

variable (hledger : root.Ledger) (hopened : root.Opened codec store)
  (hclear : root.Clear store retain) (h : Collected codec root store retain report after)

include hledger hopened hclear h

theorem honoured_of_truthful (htrue : Truthful root store retain report after) :
    Honoured root store retain := by
  have hstays : ∀ name ∈ (root.others store).take retain,
      name ∉ root.swept store.activeGenerationPath retain := by
    intro name hname hswept
    obtain ⟨hspare, huses⟩ := mem_others.mp (List.mem_of_mem_take hname)
    obtain ⟨hpresent, hgeneration, -⟩ := mem_idle.mp (mem_spares.mp hspare).1
    have hthere := (htrue.remaining name hgeneration huses).mpr ⟨hpresent, .inr hname⟩
    rw [h.entry, if_pos hswept] at hthere
    cases hthere
  have hfirst : ∀ name ∈ (root.others store).take retain,
      root.states[entryPath name]? ≠ some generationStateDeleting ∧
        name ∈ (root.spares store.activeGenerationPath).take retain := fun name hname =>
    (spare_stays_iff hledger hopened (mem_others.mp (List.mem_of_mem_take hname)).1).mp
      (hstays name hname)
  refine ⟨fun name hname => (hfirst name hname).1, fun used huses hspelled => ?_⟩
  obtain ⟨bundle, hentry⟩ := hopened.uses huses
  have hidle : used ∈ root.idle store.activeGenerationPath := by
    refine mem_idle.mpr ⟨Option.isSome_of_eq_some hentry, uses_generation huses, ?_⟩
    rw [activeGenerationPath_of_uses hopened huses]
    exact fun hpath => hspelled (Option.some.inj hpath).symm
  obtain ⟨pinned, hpin⟩ := Option.isSome_iff_exists.mp (hclear.idlePins used hidle)
  cases pinned with
  | true => exact .inl hpin
  | false =>
    refine .inr (Nat.lt_of_not_le fun hmany => ?_)
    -- the generation in use has a place besides the newest of the others
    have hplace := used_spare hledger hopened hclear huses (mem_spares.mpr ⟨hidle, hpin⟩)
    have hnodup : (used :: (root.others store).take retain).Nodup := by
      refine List.nodup_cons.mpr ⟨fun hmem => ?_, ?_⟩
      · exact (mem_others.mp (List.mem_of_mem_take hmem)).2 huses
      · rw [others_eq]
        exact ((spares_nodup root _).filter _).sublist (List.take_sublist ..)
    have hsub : used :: (root.others store).take retain ⊆
        (root.spares store.activeGenerationPath).take retain :=
      List.cons_subset.mpr ⟨hplace, fun name hname => (hfirst name hname).2⟩
    have hlength := (hnodup.subperm hsub).length_le
    simp only [List.length_cons, List.length_take] at hlength
    omega

theorem truthful_of_honoured (hhonoured : Honoured root store retain) :
    Truthful root store retain report after := by
  obtain ⟨hmarked, hspelled⟩ := hhonoured
  have hother : ∀ name ∈ root.others store,
      (name ∈ (root.others store).take retain ↔
        name ∈ (root.spares store.activeGenerationPath).take retain) :=
    fun name hname => take_others hopened hspelled hname
  -- every spare generation among the first stays
  have hstays : ∀ name ∈ (root.spares store.activeGenerationPath).take retain,
      name ∉ root.swept store.activeGenerationPath retain := by
    intro name hname
    have hspare := List.mem_of_mem_take hname
    by_cases huses : store.Uses name
    · exact used_stays hclear huses
    · have hmem := mem_others.mpr ⟨hspare, huses⟩
      exact (spare_stays_iff hledger hopened hspare).mpr
        ⟨hmarked name ((hother name hmem).mpr hname), hname⟩
  have hpinned : ∀ name, root.pinState name = some true → (root.entry name).isSome →
      (after.entry name).isSome := by
    intro name hpin hpresent
    rw [h.entry, if_neg (pinned_stays hledger hopened hpin)]
    exact hpresent
  have hretained : ∀ path ∈ report.retainedGenerationPaths, (after.entryAt path).isSome := by
    intro path hpath
    obtain ⟨name, rfl, hname⟩ := (h.classified.retained path).mp hpath
    have hidle : name ∈ root.idle store.activeGenerationPath :=
      hname.elim (·.1) fun htake => (mem_spares.mp (List.mem_of_mem_take htake)).1
    have hpresent := (mem_idle.mp hidle).1
    rw [entryAt_entryPath (entryName_of_mem (mem_names.mpr hpresent))]
    rcases hname with ⟨-, hpin⟩ | htake
    · exact hpinned name hpin hpresent
    · rw [h.entry, if_neg (hstays name htake)]
      exact hpresent
  have hdeleted : ∀ path ∈ report.deletedGenerationPaths, after.entryAt path = none := by
    intro path hpath
    obtain ⟨name, hname, rfl⟩ := List.mem_map.mp ((h.deleted path).mp hpath)
    have hentry : EntryName name := (List.mem_append.mp hname).elim
      (fun hgone => (recovered_name hledger hopened hgone).1) doomed_name
    rw [entryAt_entryPath hentry, h.entry, if_pos hname]
  constructor
  case active =>
    intro location hlocation
    rcases hopened.active with ⟨hnone, -⟩ | ⟨location', bundle, hlocation', hnode, -⟩
    · cases hnone.symm.trans hlocation
    · obtain rfl := Option.some.inj (hlocation'.symm.trans hlocation)
      cases location' with
      | index =>
        have hindex := h.swept.choose_spec.index
        have hindex' : root.disk.index = some (.dir (some bundle)) := hnode
        show after.disk.index.isSome
        rw [hindex, hindex']
        rfl
      | vectors name =>
        show (after.entry name).isSome
        rw [h.entry, if_neg (used_stays hclear hlocation)]
        exact Option.isSome_of_eq_some hnode
  case pinned =>
    intro path hpath
    obtain ⟨name, rfl, hname, hpin⟩ := (h.classified.pinned path).mp hpath
    have hpresent : (root.entry name).isSome :=
      hname.elim (fun hidle => (mem_idle.mp hidle).1) fun hdebris => (mem_debris.mp hdebris).1
    rw [entryAt_entryPath (entryName_of_mem (mem_names.mpr hpresent))]
    exact hpinned name hpin hpresent
  case retained => exact hretained
  case deleted => exact hdeleted
  case disjoint =>
    intro path hkept hgone
    have hthere := hretained path hkept
    rw [hdeleted path hgone] at hthere
    cases hthere
  case remaining =>
    intro name hgeneration huses
    have hidle : (root.entry name).isSome → name ∈ root.idle store.activeGenerationPath :=
      fun hpresent => mem_idle.mpr ⟨hpresent, hgeneration, fun hpath =>
        huses (uses_of_path hgeneration hpath)⟩
    constructor
    · intro hthere
      rw [h.entry] at hthere
      split at hthere
      next => cases hthere
      next hstay =>
        refine ⟨hthere, ?_⟩
        obtain ⟨pinned, hpin⟩ := Option.isSome_iff_exists.mp (hclear.idlePins name (hidle hthere))
        cases pinned with
        | true => exact .inl hpin
        | false =>
          have hspare := mem_spares.mpr ⟨hidle hthere, hpin⟩
          exact .inr ((hother name (mem_others.mpr ⟨hspare, huses⟩)).mpr
            ((spare_stays_iff hledger hopened hspare).mp hstay).2)
    · rintro ⟨hpresent, hpin | htake⟩
      · exact hpinned name hpin hpresent
      · have hmem := List.mem_of_mem_take htake
        rw [h.entry, if_neg (hstays name ((hother name hmem).mp htake))]
        exact hpresent

end Report

/-- The report of a collection is true and the newest generations are left, exactly when none of
them is marked for deletion and the generation in use takes no place from them. -/
theorem gc_truthful_iff (hreached : Reached codec root) (hopened : root.Opened codec store)
    (hrun : Returns (gcAdapterGenerations codec envs retain false) root report after) :
    Truthful root store retain report after ↔ Honoured root store retain := by
  obtain ⟨store', hopened', hclear, hcollected⟩ := gc_collects hreached.ledger hrun
  obtain rfl : store' = store := hopened.unique hopened' rfl
  exact ⟨honoured_of_truthful hreached.ledger hopened hclear hcollected,
    truthful_of_honoured hreached.ledger hopened hclear hcollected⟩

/-! ## Collections that were cut -/

/-- Two generations, the second one in use. -/
def sampleRoot : Root Json.Value where
  disk := singleEnv.disk
  pins := ∅
  storeFile := (Machine.runCalls (answer .ofTrees) .missing twoSnapshots).2
  named := by decide +kernel

theorem sampleRoot_reached : Reached .ofTrees sampleRoot := by
  have hstart : Reached .ofTrees (⟨singleEnv.disk, ∅, .missing, by decide +kernel⟩ : Root Json.Value) :=
    .start ..
  have hfirst := hstart.save singleEnv
    (snapshotRequest none "vectors/g000000000001.odb").2 rfl
  exact hfirst.save singleEnv
    (snapshotRequest singleStore.revision "vectors/g000000000002.odb").2 rfl

def sampleGc (retain : Nat) : Prog (Root Json.Value) AdapterGcReport :=
  gcAdapterGenerations .ofTrees (fun _ => singleEnv) retain false

/-- Nothing is marked in the sample, and the generation in use has its plain path. -/
theorem sampleRoot_honoured {store : VerifiedAdapterStore Json.Value}
    (hopened : sampleRoot.Opened .ofTrees store) (retain : Nat) :
    Honoured sampleRoot store retain := by
  have hstates : sampleRoot.states.isEmpty := by decide +kernel
  have hpath : (openVerified .ofTrees sampleRoot.disk sampleRoot.storeFile none).map
      (·.manifest.activeGenerationPath) = some "vectors/g000000000002.odb" := by decide +kernel
  have hopen : openVerified .ofTrees sampleRoot.disk sampleRoot.storeFile none = some store :=
    hopened
  rw [hopen, Option.map_some, Option.some.injEq] at hpath
  refine ⟨fun name _ => ?_, fun name huses hspelled => absurd ?_ hspelled⟩
  · rw [Std.ExtTreeMap.isEmpty_iff.mp hstates]
    simp
  · have hlocate : locate "vectors/g000000000002.odb" = some (.vectors "g000000000002.odb") := by
      decide
    rw [VerifiedAdapterStore.Uses, hpath, hlocate] at huses
    obtain rfl := Location.vectors.inj (Option.some.inj huses)
    exact hpath

theorem gc_truthful_sample : ∃ store report after, sampleRoot.Opened .ofTrees store ∧
    Returns (sampleGc 1) sampleRoot report after ∧
    report.retainedGenerationPaths = ["vectors/g000000000001.odb"] ∧
    Truthful sampleRoot store 1 report after := by
  have hrun : (sampleGc 1 sampleRoot).answer.map (·.retainedGenerationPaths) =
      some ["vectors/g000000000001.odb"] := by decide +kernel
  obtain ⟨report, hreport, hretained⟩ := Option.map_eq_some_iff.mp hrun
  have hreturns : Returns (sampleGc 1) sampleRoot report (sampleGc 1 sampleRoot).final :=
    ⟨hreport, rfl⟩
  obtain ⟨store, hopened, -⟩ := gc_collects sampleRoot_reached.ledger hreturns
  exact ⟨store, report, _, hopened, hreturns, hretained,
    (gc_truthful_iff sampleRoot_reached hopened hreturns).mpr (sampleRoot_honoured hopened 1)⟩

/-- A collection that keeps nothing, cut before it deletes the first generation. -/
def interruptedRoot : Root Json.Value := (sampleGc 0 sampleRoot).passed.getD 2 sampleRoot

theorem sampleGc_passed : 2 < (sampleGc 0 sampleRoot).passed.length := by decide +kernel

theorem sampleGc_cut {n : Nat} (hn : n ≤ 2) :
    Cut (sampleGc 0) sampleRoot ((sampleGc 0 sampleRoot).passed.getD n sampleRoot) := by
  rw [List.getD_eq_getElem _ _ (hn.trans_lt sampleGc_passed)]
  exact .inl (List.getElem_mem _)

theorem interruptedRoot_cut : Cut (sampleGc 0) sampleRoot interruptedRoot := sampleGc_cut le_rfl

theorem interruptedRoot_reached : Reached .ofTrees interruptedRoot :=
  .collect (fun _ => singleEnv) 0 false sampleRoot_reached interruptedRoot_cut

/-- A collection with room for the first generation retains it, and deletes it. -/
theorem retained_and_deleted : ∃ store report after, Reached .ofTrees interruptedRoot ∧
    interruptedRoot.Opened .ofTrees store ∧ Returns (sampleGc 1) interruptedRoot report after ∧
    ¬Truthful interruptedRoot store 1 report after := by
  have hrun : (sampleGc 1 interruptedRoot).answer.any fun report =>
      "vectors/g000000000001.odb" ∈ report.retainedGenerationPaths &&
        "vectors/g000000000001.odb" ∈ report.deletedGenerationPaths := by decide +kernel
  obtain ⟨report, hreport, hpaths⟩ := (Option.any_eq_true _ _).mp hrun
  rw [Bool.and_eq_true, decide_eq_true_eq, decide_eq_true_eq] at hpaths
  have hreturns : Returns (sampleGc 1) interruptedRoot report (sampleGc 1 interruptedRoot).final :=
    ⟨hreport, rfl⟩
  obtain ⟨store, hopened, -⟩ := gc_collects interruptedRoot_reached.ledger hreturns
  exact ⟨store, report, _, interruptedRoot_reached, hopened, hreturns,
    fun htrue => htrue.disjoint _ hpaths.1 hpaths.2⟩

end OrdinalDB.Store
