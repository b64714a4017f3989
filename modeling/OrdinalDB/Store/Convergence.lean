import OrdinalDB.Store.Crashes
import OrdinalDB.Store.Retention

/-!
# Collecting again after a crash

`gc_converges_iff`: when a crash has cut a collection, the next one succeeds and
leaves what an uncut one would have left, exactly when nothing is in its way. A
generation that is marked for deletion and still there is in its way: it counts
among those to reclaim, but the recovery deletes it first
(`crash_before_deletion`).
-/

namespace OrdinalDB.Store

open Durable

variable {Text : Type} {codec : JsonCodec Text} {first second : Nat → Env}
  {root crashed : Root Text} {store store' : VerifiedAdapterStore Text} {retain : Nat}
  {active : Option String} {name : String}

/-! ## The property and its condition -/

/-- The second collection succeeds, no path stays marked for deletion but pinned and active ones,
and the same entries are left as by one collection without a crash. -/
def Converges (codec : JsonCodec Text) (first second : Nat → Env) (retain : Nat)
    (root crashed : Root Text) : Prop :=
  ∃ report after, Returns (gcAdapterGenerations codec second retain false) crashed report after ∧
    (∃ states, latestGcStatesByPath after.storeFile = some states ∧
      ∀ path, states[path]? = some generationStateDeleting →
        some path = report.activeGenerationPath ∨ generationIsPinned after path = some true) ∧
    ∃ whole left, Returns (gcAdapterGenerations codec first retain false) root whole left ∧
      ∀ name, (after.entry name).isSome ↔ (left.entry name).isSome

/-- Nothing is in the way of either collection, and no generation that was to be reclaimed counts
among the newest ones now unless it is marked. -/
structure Resumable (codec : JsonCodec Text) (root : Root Text) (store : VerifiedAdapterStore Text)
    (retain : Nat) (crashed : Root Text) (store' : VerifiedAdapterStore Text) : Prop where
  before : root.Clear store retain
  opened : crashed.Opened codec store'
  clear : crashed.Clear store' retain
  settled : ∀ name ∈ (root.spares store.activeGenerationPath).drop retain,
    name ∈ (crashed.spares store'.activeGenerationPath).take retain →
      crashed.states[entryPath name]? = some generationStateDeleting

/-! ## Classifying what is left -/

theorem mem_take_filter {α : Type} (keep : α → Bool) {items : List α} {count : Nat} {item : α}
    (h : item ∈ items.take count) (hkeep : keep item) :
    item ∈ (items.filter keep).take count := by
  induction items generalizing count with
  | nil => simp at h
  | cons head tail ih =>
    cases count with
    | zero => simp at h
    | succ count =>
      rw [List.take_succ_cons, List.mem_cons] at h
      cases h with
      | inl hhead =>
        subst hhead
        simp [hkeep]
      | inr htail =>
        rw [List.filter_cons]
        split
        next => exact List.mem_cons_of_mem _ (ih htail)
        next => exact List.take_subset_take_left _ (Nat.le_succ count) (ih htail)

/-- Entries that go do not change the order of the spare generations. -/
theorem spares_of_shrinks (h : Shrinks root crashed) : crashed.spares active =
    (root.spares active).filter fun name => (crashed.entry name).isSome := by
  have hmem : ∀ name, name ∈ crashed.spares active ↔
      name ∈ (root.spares active).filter fun name => (crashed.entry name).isSome := by
    intro name
    rw [List.mem_filter, mem_spares, mem_spares, mem_idle, mem_idle]
    constructor
    · rintro ⟨⟨hpresent, hgeneration, hpath⟩, hpin⟩
      obtain ⟨node, hnode⟩ := Option.isSome_iff_exists.mp hpresent
      obtain ⟨old, hold, -⟩ := h.entries name node hnode
      rw [h.pinState hpresent] at hpin
      exact ⟨⟨⟨Option.isSome_of_eq_some hold, hgeneration, hpath⟩, hpin⟩, hpresent⟩
    · rintro ⟨⟨⟨-, hgeneration, hpath⟩, hpin⟩, hpresent⟩
      exact ⟨⟨hpresent, hgeneration, hpath⟩, (h.pinState hpresent).trans hpin⟩
  have hperm := (List.perm_ext_iff_of_nodup (spares_nodup crashed active)
    ((spares_nodup root active).filter _)).mpr hmem
  exact hperm.eq_of_pairwise (fun a b _ _ hlt hgt => absurd hgt (Nat.lt_asymm hlt))
    (spares_descending crashed active) ((spares_descending root active).filter _)

theorem debris_of_shrinks (h : Shrinks root crashed) (hpresent : (crashed.entry name).isSome) :
    (name ∈ crashed.debris ∧ crashed.pinState name = some false ↔
      name ∈ root.debris ∧ root.pinState name = some false) := by
  obtain ⟨node, hnode⟩ := Option.isSome_iff_exists.mp hpresent
  obtain ⟨old, hold, -⟩ := h.entries name node hnode
  rw [mem_debris, mem_debris, h.pinState hpresent]
  simp [hpresent, Option.isSome_of_eq_some hold]

variable (retain) in
theorem spare_take_or_drop (h : name ∈ root.spares active) :
    name ∈ (root.spares active).take retain ∨ name ∈ (root.spares active).drop retain := by
  rw [← List.mem_append, List.take_append_drop]
  exact h

theorem not_mem_drop (h : name ∈ (root.spares active).take retain) :
    name ∉ (root.spares active).drop retain :=
  List.disjoint_take_drop (spares_nodup root active) (Nat.le_refl retain) h

/-! ## What two collections remove -/

section Sweep

variable (hmidway : Midway codec root store retain crashed)

include hmidway

theorem Midway.shrinks : Shrinks root crashed := by
  obtain ⟨_, _, htrail, -⟩ := hmidway
  exact htrail.shrinks

theorem Midway.ledger : crashed.Ledger := by
  obtain ⟨_, _, htrail, -⟩ := hmidway
  exact htrail.ledger

theorem Midway.others (hstays : name ∉ root.swept store.activeGenerationPath retain) :
    crashed.entry name = root.entry name := by
  obtain ⟨_, _, htrail, -⟩ := hmidway
  exact htrail.others name hstays

theorem Midway.activePath (hopened' : crashed.Opened codec store') :
    store'.activeGenerationPath = store.activeGenerationPath := by
  obtain ⟨_, _, htrail, -⟩ := hmidway
  rw [VerifiedAdapterStore.activeGenerationPath, htrail.same store' hopened', htrail.activePath]
  rfl

variable (hledger : root.Ledger) (hopened : root.Opened codec store)
  (hopened' : crashed.Opened codec store') (hpresent : (crashed.entry name).isSome)

include hledger hopened hopened' hpresent

/-- The second collection removes nothing else than the first one. -/
theorem Midway.sweeps_no_more
    (hstays : name ∉ root.swept store.activeGenerationPath retain) :
    name ∉ crashed.swept store'.activeGenerationPath retain := by
  have hshrinks := hmidway.shrinks
  have hpin := hshrinks.pinState hpresent
  have hdoomed : name ∉ root.doomed store.activeGenerationPath retain :=
    fun h => hstays (List.mem_append_right _ h)
  rw [mem_swept hmidway.ledger hopened', hmidway.activePath hopened']
  rintro (⟨hmarked, hpath, hunpinned⟩ | hagain)
  · obtain ⟨_, _, htrail, -⟩ := hmidway
    cases htrail.marked name hmarked with
    | inl hold =>
      exact hstays ((mem_swept hledger hopened).mpr (.inl ⟨hold, hpath, hpin ▸ hunpinned⟩))
    | inr hnew => exact hdoomed hnew
  · cases mem_doomed.mp hagain with
    | inl hspare =>
      rw [spares_of_shrinks hshrinks] at hspare
      have hold := (List.mem_filter.mp (List.mem_of_mem_drop hspare)).1
      cases spare_take_or_drop retain hold with
      | inl htake =>
        have htake' := mem_take_filter (fun name => (crashed.entry name).isSome) htake hpresent
        rw [← spares_of_shrinks hshrinks] at htake' hspare
        exact not_mem_drop htake' hspare
      | inr hdrop => exact hdoomed (mem_doomed.mpr (.inl hdrop))
    | inr hdebris =>
      exact hdoomed (mem_doomed.mpr (.inr ((debris_of_shrinks hshrinks hpresent).mp hdebris)))

/-- The second collection removes the rest of what the first one was to remove, unless a
generation has come back among the newest. -/
theorem Midway.sweeps_rest (hgoes : name ∈ root.swept store.activeGenerationPath retain) :
    name ∈ crashed.swept store'.activeGenerationPath retain ↔
      (name ∈ (root.spares store.activeGenerationPath).drop retain →
        name ∈ (crashed.spares store'.activeGenerationPath).take retain →
          crashed.states[entryPath name]? = some generationStateDeleting) := by
  have hshrinks := hmidway.shrinks
  have hpin := hshrinks.pinState hpresent
  have hpath := hmidway.activePath hopened'
  rw [mem_swept hmidway.ledger hopened', hpath]
  constructor
  · rintro (⟨hmarked, -, -⟩ | hdoomed) hdrop htake
    · exact hmarked
    · cases mem_doomed.mp hdoomed with
      | inl hdrop' => exact absurd hdrop' (not_mem_drop htake)
      | inr hdebris =>
        have hgeneration := (mem_idle.mp (mem_spares.mp (List.mem_of_mem_drop hdrop)).1).2.1
        rw [(mem_debris.mp hdebris.1).2] at hgeneration
        cases hgeneration
  · intro hsettled
    by_cases hdoomed : name ∈ root.doomed store.activeGenerationPath retain
    · have hpin' : crashed.pinState name = some false := hpin.trans (doomed_present hdoomed).2
      cases mem_doomed.mp hdoomed with
      | inl hdrop =>
        have hspare := List.mem_of_mem_drop hdrop
        have hspare' : name ∈ crashed.spares store.activeGenerationPath := by
          rw [spares_of_shrinks hshrinks]
          exact List.mem_filter.mpr ⟨hspare, hpresent⟩
        cases spare_take_or_drop retain hspare' with
        | inl htake =>
          exact .inl ⟨hsettled hdrop htake, (mem_idle.mp (mem_spares.mp hspare).1).2.2,
            by simp [hpin']⟩
        | inr hdrop' => exact .inr (mem_doomed.mpr (.inl hdrop'))
      | inr hdebris =>
        exact .inr (mem_doomed.mpr (.inr ((debris_of_shrinks hshrinks hpresent).mpr hdebris)))
    · -- an entry to recover is still there, so its mark is
      obtain ⟨hmarked, hother, hunpinned⟩ :=
        ((mem_swept hledger hopened).mp hgoes).resolve_right hdoomed
      obtain ⟨gone, _, htrail, hrecovered | hfile⟩ := hmidway
      · have hmem : name ∈ gone := by
          rw [hrecovered]
          exact mem_recovered.mpr
            ⟨(hledger.mem_interrupted hopened.file).mpr ⟨hmarked, hother⟩, hunpinned⟩
        rw [htrail.gone name hmem] at hpresent
        cases hpresent
      · rw [states_of_storeFile hfile, hpin]
        exact .inl ⟨hmarked, hother, hunpinned⟩

end Sweep

/-- After a crash the next collection converges exactly when nothing is in its way. -/
theorem gc_converges_iff (hledger : root.Ledger) (hopened : root.Opened codec store)
    (hcut : Cut (gcAdapterGenerations codec first retain false) root crashed) :
    Converges codec first second retain root crashed ↔
      ∃ store', Resumable codec root store retain crashed store' := by
  have hmidway := midway_of_cut hledger hopened hcut
  constructor
  · rintro ⟨report, after, hagain, -, whole, left, hwhole, hsame⟩
    obtain ⟨store₀, hopened₀, hbefore, hleft⟩ := gc_collects hledger hwhole
    obtain rfl : store₀ = store := hopened.unique hopened₀ rfl
    obtain ⟨store', hopened', hclear, hafter⟩ := gc_collects hmidway.ledger hagain
    refine ⟨store', hbefore, hopened', hclear, fun name hdrop htake => ?_⟩
    have hpresent := (mem_idle.mp (mem_spares.mp (List.mem_of_mem_take htake)).1).1
    have hgoes : name ∈ root.swept store₀.activeGenerationPath retain :=
      List.mem_append_right _ (mem_doomed.mpr (.inl hdrop))
    have hgone : name ∈ crashed.swept store'.activeGenerationPath retain := by
      by_contra hstays
      have hthere := hsame name
      rw [hafter.entry, hleft.entry, if_pos hgoes, if_neg hstays] at hthere
      cases hthere.mp hpresent
    exact (hmidway.sweeps_rest hledger hopened hopened' hpresent hgoes).mp hgone hdrop htake
  · rintro ⟨store', hbefore, hopened', hclear, hsettled⟩
    obtain ⟨report, after, hagain⟩ :=
      gc_succeeds second hmidway.ledger hopened' hclear
    obtain ⟨whole, left, hwhole⟩ := gc_succeeds first hledger hopened hbefore
    obtain ⟨store₀, hopened₀, -, hleft⟩ := gc_collects hledger hwhole
    obtain rfl : store = store₀ := (hopened.unique hopened₀ rfl).symm
    obtain ⟨store₁, hopened₁, -, hafter⟩ := gc_collects hmidway.ledger hagain
    obtain rfl : store' = store₁ := (hopened'.unique hopened₁ rfl).symm
    refine ⟨report, after, hagain, ?_, whole, left, hwhole, fun name => ?_⟩
    · obtain ⟨result, hswept⟩ := hafter.swept
      refine ⟨after.states, (hswept.ledger.read hswept.opened.file).1, fun path hmarked => ?_⟩
      obtain ⟨name, rfl, hname, -⟩ := hswept.ledger.path hswept.opened.file hmarked
      rw [hswept.states] at hmarked
      split at hmarked
      next => exact absurd (Option.some.inj hmarked) (by decide)
      next hmem =>
        rw [List.mem_map_of_injective entryPath_injective,
          mem_swept hmidway.ledger hopened'] at hmem
        rw [hafter.active, generationIsPinned_entryPath hname]
        by_contra hneither
        obtain ⟨hpath, hunpinned⟩ := not_or.mp hneither
        have hpin : after.pinState name = crashed.pinState name :=
          pinState_of_entry (by
            rw [hafter.entry, if_neg fun h => hmem ((mem_swept hmidway.ledger hopened').mp h)])
            hswept.pins
        exact hmem (.inl ⟨hmarked, hpath, hpin ▸ hunpinned⟩)
    · rw [hafter.entry, hleft.entry]
      by_cases hgoes : name ∈ root.swept store.activeGenerationPath retain
      · rw [if_pos hgoes]
        by_cases hpresent : (crashed.entry name).isSome
        · rw [if_pos ((hmidway.sweeps_rest hledger hopened hopened' hpresent hgoes).mpr
            (hsettled name))]
        · split <;> simp [hpresent]
      · rw [if_neg hgoes, ← hmidway.others hgoes]
        by_cases hpresent : (crashed.entry name).isSome
        · rw [if_neg (hmidway.sweeps_no_more hledger hopened hopened' hpresent hgoes)]
        · split <;> simp [hpresent]

/-! ## A crash before a deletion -/

theorem sampleRoot_opens : ∃ store, sampleRoot.Opened .ofTrees store := by
  have hopen : (openVerified .ofTrees sampleRoot.disk sampleRoot.storeFile none).isSome := by
    decide +kernel
  exact Option.isSome_iff_exists.mp hopen

/-- A crash behind the first record of a collection does not hinder the next one. -/
theorem gc_converges_sample : ∃ store crashed, sampleRoot.Opened .ofTrees store ∧
    Cut (sampleGc 0) sampleRoot crashed ∧ crashed.storeFile ≠ sampleRoot.storeFile ∧
    Converges .ofTrees (fun _ => singleEnv) (fun _ => singleEnv) 0 sampleRoot crashed := by
  let crashed := (sampleGc 0 sampleRoot).passed.getD 1 sampleRoot
  have hcut : Cut (sampleGc 0) sampleRoot crashed := sampleGc_cut one_le_two
  have hcount : crashed.storeFile.gcCount ≠ sampleRoot.storeFile.gcCount := by decide +kernel
  -- neither the whole collection nor the next one is hindered
  have hwhole : (sampleGc 0 sampleRoot).answer.isSome := by decide +kernel
  have hagain : (sampleGc 0 crashed).answer.isSome := by decide +kernel
  obtain ⟨_, hreturns⟩ := Option.isSome_iff_exists.mp hwhole
  obtain ⟨_, hreturns'⟩ := Option.isSome_iff_exists.mp hagain
  have hreached : Reached .ofTrees crashed :=
    .collect (fun _ => singleEnv) 0 false sampleRoot_reached hcut
  obtain ⟨store, hopened, hbefore, -⟩ := gc_collects sampleRoot_reached.ledger ⟨hreturns, rfl⟩
  obtain ⟨store', hopened', hclear, -⟩ := gc_collects hreached.ledger ⟨hreturns', rfl⟩
  exact ⟨store, crashed, hopened, hcut, fun h => hcount (congrArg StoreFile.gcCount h),
    (gc_converges_iff sampleRoot_reached.ledger hopened hcut).mpr
      ⟨store', hbefore, hopened', hclear, fun _ _ htake => by simp at htake⟩⟩

/-- The generation has been marked and is still there: the next collection fails. -/
theorem crash_before_deletion : ∃ store, Reached .ofTrees sampleRoot ∧
    sampleRoot.Opened .ofTrees store ∧ Cut (sampleGc 0) sampleRoot interruptedRoot ∧
    ¬Converges .ofTrees (fun _ => singleEnv) (fun _ => singleEnv) 0 sampleRoot interruptedRoot := by
  obtain ⟨store, hopened⟩ := sampleRoot_opens
  have hfails : (sampleGc 0 interruptedRoot).answer = none := by decide +kernel
  refine ⟨store, sampleRoot_reached, hopened, interruptedRoot_cut, ?_⟩
  rintro ⟨report, after, hagain, -⟩
  cases hfails.symm.trans hagain.1

end OrdinalDB.Store
