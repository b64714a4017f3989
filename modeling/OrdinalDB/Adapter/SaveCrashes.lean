import OrdinalDB.Adapter.Retries

/-!
# Saves that are cut

A fresh root does not survive the creation of its database without the commit
(`blank_after_crash`), and an empty store does not survive the directory of its
first generation; nor is a snapshot loaded that breaks a limit of the reader. A save
that stops anywhere else leaves the snapshot before or the new one, and can be made
again (`saves_survive`).
-/

namespace OrdinalDB.Adapter

open Json Text Store

variable {Text Path : Type}

/-! ## The root behind a save -/

section After

variable [DecidableEq Path] {json : JsonModule Text} {digest : Text → String}
  {around : Surroundings Text} {attempt : Attempt Text Path} {site : Site Text}
  {snapshot : Snapshot Text} {plan : SnapshotPlan} {tables : Tables Text} {counts : TableCounts}
  {expected : Option StoreRevision} {previous : Option (VerifiedAdapterStore Text)}

/-- The root that a save leaves which is not cut. -/
def Attempt.completed (json : JsonModule Text) (digest : Text → String)
    (attempt : Attempt Text Path) (site : Site Text) : Site Text :=
  { attempt.published site with storeFile := (attempt.run json digest site).2.2 }

namespace Ran

variable (h : Ran json digest attempt site plan tables counts snapshot expected previous)

include h

theorem previous_manifest : previous.map (·.manifest) = site.storeFile.rows.manifest :=
  storeFile_manifest h.prepared.current

theorem plan_counts : plan.manifest.tableCounts = counts := h.prepared.manifest_verified.2.2.2

/-- The keys of the next commit are not in use. -/
theorem fresh (hfresh : site.storeFile.Fresh) :
    (attempt.completed json digest site).storeFile.Fresh := by
  have hcounts := h.prepared.counts
  simp only [snapshotTableCounts, Option.bind_eq_bind, Option.bind_eq_some_iff, Option.pure_def,
    Option.some.injEq] at hcounts
  obtain ⟨_, -, _, -, hcounts⟩ := hcounts
  have hgc : plan.manifest.tableCounts.gcQueue =
      previousCount site.storeFile.rows.manifest (·.gcQueue) := by
    rw [h.plan_counts, ← hcounts, h.previous_manifest]
  have hfile : (attempt.completed json digest site).storeFile = .tables tables := h.file
  rw [hfile]
  refine ⟨plan.manifest, h.written.manifest, fun key hkey => ?_, fun key hkey => ?_⟩
  · rw [h.written.auditLog] at hkey
    rcases Table.mem_insert_iff.mp hkey with rfl | hold
    · exact le_rfl
    · exact (h.prepared.audit_fresh hfresh key hold).le
  · rw [h.written.gcQueue] at hkey
    rcases currentVerifiedStore_cases h.prepared.current with ⟨hmissing, -⟩ | ⟨_, _, _, -, hrows, -⟩
    · rw [hmissing] at hkey
      simp [StoreFile.rows, Tables.empty] at hkey
    · rw [hrows] at hfresh
      obtain ⟨manifest, hkeys⟩ := hfresh
      rw [hgc, hkeys.row]
      exact hkeys.gc key hkey

/-- A commit takes one from the room of each counter. -/
theorem room (hroom : site.Room 2) : (attempt.completed json digest site).Room 1 := by
  intro manifest hmanifest
  have hfile : (attempt.completed json digest site).storeFile = .tables tables := h.file
  rw [hfile] at hmanifest
  obtain rfl := Option.some.inj (h.written.manifest.symm.trans hmanifest)
  have hsequence := h.prepared.commitSequence
  have hcounts := h.prepared.counts
  simp only [snapshotTableCounts, Option.bind_eq_bind, Option.bind_eq_some_iff, Option.pure_def,
    Option.some.injEq] at hcounts
  obtain ⟨generations, hgenerations, audit, haudit, hcounts⟩ := hcounts
  have haudit := checkedAdd_eq_some haudit
  have hbound : generations ≤ previousCount (previous.map (·.manifest)) (·.generations) + 1 := by
    unfold snapshotGenerationCount at hgenerations
    dsimp only at hgenerations
    split at hgenerations
    next => exact (Option.some.inj hgenerations) ▸ Nat.le_succ _
    next => exact (checkedAdd_eq_some hgenerations).le
  rw [h.plan_counts, ← hcounts]
  dsimp only
  rw [h.previous_manifest] at hsequence hbound haudit
  cases hbefore : site.storeFile.rows.manifest with
  | none =>
    rw [hbefore] at hsequence hbound haudit
    rw [← Option.some.inj hsequence, haudit]
    refine ⟨by decide, lt_of_le_of_lt (Nat.add_le_add_right hbound 1) (by decide), by decide⟩
  | some before =>
    rw [hbefore] at hsequence hbound haudit
    obtain ⟨hroomSequence, hroomGenerations, hroomAudit⟩ := hroom before hbefore
    rw [checkedAdd_eq_some hsequence, haudit]
    exact ⟨hroomSequence, (Nat.add_le_add_right hbound 1).trans_lt hroomGenerations, hroomAudit⟩

/-- The rows of generations are those before and the new one. -/
theorem rows (hrows : ∀ id ∈ site.storeFile.rows.generations, id < site.nextGenerationId)
    (hindex : site.disk.index = none) (hnext : site.nextGenerationId < 10 ^ 12)
    (haccepted : Accepted json digest attempt site snapshot plan.parsed plan.generation) :
    ∀ id ∈ (attempt.completed json digest site).storeFile.rows.generations,
      id < (attempt.completed json digest site).nextGenerationId := by
  have hfile : (attempt.completed json digest site).storeFile = .tables tables := h.file
  have hgrown : site.nextGenerationId ≤ (attempt.completed json digest site).nextGenerationId :=
    (grows_published attempt hnext).nextGenerationId_le hindex
  obtain ⟨hlazy, hpath⟩ := haccepted.fields
  intro id hid
  rw [hfile] at hid
  have hwritten := h.written.generations
  unfold snapshotGenerations at hwritten
  cases hempty : attempt.store.isEmptyLazy with
  | true =>
    rw [if_pos (hlazy.trans hempty)] at hwritten
    have hsame : tables.generations = site.storeFile.rows.generations :=
      (Option.some.inj hwritten).symm
    exact (hrows id (hsame ▸ hid)).trans_le hgrown
  | false =>
    rw [hlazy, hempty, if_neg Bool.false_ne_true] at hwritten
    obtain ⟨next, hactivated, -, hothers, -⟩ := activateGeneration_eq_some plan.generation
      plan.manifest.commitSequence fun id record hrecord =>
        (previous_rows h.prepared.current hrecord).1
    obtain rfl := Option.some.inj (hactivated.symm.trans hwritten)
    by_cases hnew : id = plan.generation.id
    · -- the new generation is under its name in the directory
      have hplace : plan.parsed.indexPath = generationIndexPath site.nextGenerationId := by
        rw [hpath, WorkingCopy.indexPath, hempty, if_neg Bool.false_ne_true]
        rfl
      have hgeneration := (checkpoint_published hempty hnext (hlazy.trans hempty) hplace).symm.trans
        haccepted.checkpoint
      have hentry : (attempt.completed json digest site).entry site.nextName =
          some (.dir (some attempt.bundle)) := by
        change (attempt.published site).entry site.nextName = _
        rw [Attempt.published, hempty, if_neg Bool.false_ne_true, Site.entry_put, if_pos rfl]
      rw [hnew, ← Option.some.inj hgeneration]
      exact Site.lt_nextGenerationId (Option.isSome_of_eq_some hentry)
        (generationIdFromDirName_of_parse (Site.parse_nextName hnext))
    · obtain ⟨record, hrecord⟩ := Option.isSome_iff_exists.mp
        (Std.ExtTreeMap.mem_iff_isSome_getElem?.mp hid)
      have hold := (hothers id hnew).symm.trans hrecord
      obtain ⟨old, hold, -⟩ := Option.map_eq_some_iff.mp hold
      exact (hrows id (Std.ExtTreeMap.mem_iff_isSome_getElem?.mpr
        (Option.isSome_of_eq_some hold))).trans_le hgrown

end Ran

end After

/-! ## Any stage -/

section Stages

variable [DecidableEq Path] {json : JsonModule Text} {digest : Text → String}
  {around : Surroundings Text} {attempt again : Attempt Text Path} {site after : Site Text}
  {snapshot : Snapshot Text} {parsed : ParsedPayloads} {generation : GenerationCheckpoint}
  {stage : Stage} {plan : SnapshotPlan} {tables : Tables Text} {counts : TableCounts}
  {expected : Option StoreRevision} {previous : Option (VerifiedAdapterStore Text)}

/-- A new process loads what a save has written that is not cut. -/
theorem Ran.held (h : Ran json digest attempt site plan tables counts snapshot expected previous)
    (hcovered : Covered json digest around attempt site)
    (hkept : Kept json digest around attempt site) (hindex : site.disk.index = none) :
    ∃ store parsed generation,
      Held json around (attempt.completed json digest site) store parsed generation ∧
        attempt.store.payloads json digest attempt.base (attempt.call site) =
          some store.payloads := by
  have hnext : site.nextGenerationId < 10 ^ 12 :=
    (Nat.lt_succ_self _).trans hcovered.generations
  have hbare : attempt.store.isEmptyLazy = true → (attempt.published site).disk = site.disk := by
    intro hempty
    rw [Attempt.published, if_pos hempty]
  have hloads : ∀ bundle, (attempt.published site).disk.bundle
      (attempt.store.indexPath (attempt.call site)) = some bundle → around.loads bundle := by
    intro bundle hbundle
    cases hempty : attempt.store.isEmptyLazy with
    | true =>
      have hlocate : locate indexDir = some .index := by decide
      rw [hbare hempty, WorkingCopy.indexPath, if_pos hempty] at hbundle
      simp [Disk.bundle, hlocate, Disk.node, hindex] at hbundle
    | false =>
      have hplace : attempt.store.indexPath (attempt.call site) =
          generationIndexPath site.nextGenerationId := by
        rw [WorkingCopy.indexPath, hempty, if_neg Bool.false_ne_true]
        rfl
      rw [hplace, bundle_published hempty hnext] at hbundle
      exact Option.some.inj hbundle ▸ hcovered.loads
  have hempty : attempt.store.isEmptyLazy →
      (attempt.published site).disk.index = none ∧
        (attempt.published site).disk.vectors = none := by
    intro hempty
    rw [hbare hempty]
    exact ⟨hindex, hkept.noVectors hempty⟩
  obtain ⟨store, parsed, generation, -, hpayloads, hopens, hpath, hholds, hreads, -⟩ :=
    WorkingCopy.readable_of_returned hcovered.shaped h.returned hloads hkept.adapterSize
      hkept.sidecarSizes hempty
  refine ⟨store, parsed, generation, ⟨?_, hopens, hreads, fun hlazy => ?_⟩, hpayloads⟩
  · have hfile : (attempt.completed json digest site).storeFile = .tables tables := h.file
    rw [hfile]
    rfl
  · rw [hpath, WorkingCopy.indexPath, if_pos (hholds.emptyLazy.symm.trans hlazy)]

/-- The root that a completed save leaves is in order again. -/
theorem Ran.sound (h : Ran json digest attempt site plan tables counts snapshot expected previous)
    (hsound : Sound json around site) (hcovered : Covered json digest around attempt site)
    (hkept : Kept json digest around attempt site)
    (haccepted : Accepted json digest attempt site snapshot plan.parsed plan.generation) :
    Sound json around (attempt.completed json digest site) := by
  have hnext : site.nextGenerationId < 10 ^ 12 :=
    (Nat.lt_succ_self _).trans hcovered.generations
  obtain ⟨store, parsed, generation, hheld, -⟩ := h.held hcovered hkept hsound.index
  exact ⟨(grows_published attempt hnext).index.trans hsound.index, h.fresh hsound.fresh,
    h.rows hsound.rows hsound.index hnext haccepted, .inr ⟨store, parsed, generation, hheld⟩⟩

/-- A root is still in order when entries are added that an empty store does not see. -/
theorem Sound.grow (h : Sound json around site) (hgrows : Grows site after)
    (hempty : site.holdsEmpty = false) : Sound json around after where
  index := hgrows.index.trans h.index
  fresh := by
    rw [hgrows.file]
    exact h.fresh
  rows id hid := by
    rw [hgrows.file] at hid
    exact (h.rows id hid).trans_le (hgrows.nextGenerationId_le h.index)
  store := by
    rcases h.store with hmissing | ⟨store, parsed, generation, hheld⟩
    · exact .inl (hgrows.file.trans hmissing)
    · exact .inr ⟨store, parsed, generation,
        hheld.grow hgrows (hheld.emptyLazy.trans hempty)⟩

/-- The base of a process that has loaded the root is fresh. -/
theorem Sound.fresh_of_loads (h : Sound json around site)
    (hloads : attempt.Loads json around site) :
    requireFreshBaseGeneration json.codec .none (attempt.call site).dir attempt.base
      attempt.target := by
  unfold requireFreshBaseGeneration currentAdapterCommit
  rcases h.store with hmissing | ⟨store, parsed, generation, hheld⟩
  · simp [Attempt.call, hmissing, isMissing]
  · have hfile := hheld.file
    have hsome : isMissing site.storeFile = false := by rw [hfile]; rfl
    obtain ⟨loaded, hload, htoken⟩ := hheld.load
    have htokens := commitToken_eq hheld.opens hheld.reads.fits.path
    rcases hloads with hmissing | ⟨loaded', hload', hpath, hbase⟩
    · rw [hmissing] at hfile
      cases hfile
    · obtain rfl := Option.some.inj (hload.symm.trans hload')
      simp [Attempt.call, hsome, Contention.none, hheld.openVerified, htokens, hpath, hbase, htoken]

/-- A new process makes the save that has been cut. -/
theorem Sound.retry (h : Sound json around after)
    (haccepted : Accepted json digest attempt site snapshot parsed generation)
    (hconsistent : attempt.store.validateConsistency)
    (hnext : site.nextGenerationId < 10 ^ 12) (hnext' : after.nextGenerationId < 10 ^ 12)
    (hroom : after.Room 1)
    (hvectors : attempt.store.isEmptyLazy → after.disk.vectors = none ∨ after.disk = site.disk) :
    ∃ again : Attempt Text Path, again.store = attempt.store ∧ again.target = attempt.target ∧
      again.Loads json around after ∧ (again.run json digest after).1 = .returned := by
  obtain ⟨token, htoken⟩ : ∃ token : Option CommitToken, after.storeFile = .missing ∨
      ∃ loaded, AdapterStore.load json around after.disk after.storeFile none = some loaded ∧
        token = some (.redb loaded.baseCommitToken) := by
    rcases h.store with hmissing | ⟨store, parsed, generation, hheld⟩
    · exact ⟨none, .inl hmissing⟩
    · obtain ⟨loaded, hload, -⟩ := hheld.load
      exact ⟨_, .inr ⟨loaded, hload, rfl⟩⟩
  let again : Attempt Text Path := { attempt with
    base := ⟨some attempt.target, none, token, some "redb", false, attempt.name⟩
    adapterName := some attempt.name }
  have hloads : again.Loads json around after :=
    htoken.imp_right fun ⟨loaded, hload, hbase⟩ => ⟨loaded, hload, rfl, hbase⟩
  obtain ⟨parsed', generation', haccepted'⟩ :=
    @Accepted.elsewhere _ _ json digest attempt again site after snapshot parsed generation
      haccepted rfl rfl rfl hnext hnext' h.index hvectors
  obtain ⟨plan, tables, counts, expected, previous, -, -, hran⟩ :=
    @Sound.run _ _ _ json digest around again after _ _ _ h hconsistent haccepted' hnext' hroom
      (h.fresh_of_loads hloads)
  exact ⟨again, rfl, rfl, hloads, hran.returned⟩

theorem requireFresh_of_begins (h : attempt.begins json digest site) :
    requireFreshBaseGeneration json.codec .none (attempt.call site).dir attempt.base
      attempt.target :=
  (Bool.and_eq_true_iff.mp (Bool.and_eq_true_iff.mp h).1).2

/-- Before the commit entries have been added, and an empty store has not been hidden. -/
theorem leaves_cases (hindex : site.disk.index = none)
    (hcovered : Covered json digest around attempt site)
    (hspared : Spared json digest around attempt site stage) :
    (stage = .ended ∧ attempt.begins json digest site ∧
        attempt.leaves json digest site stage = attempt.completed json digest site) ∨
      attempt.leaves json digest site stage = site ∨
      Grows site (attempt.leaves json digest site stage) ∧ site.holdsEmpty = false ∧
        attempt.store.isEmptyLazy = false ∧
        (attempt.leaves json digest site stage).nextGenerationId ≤ site.nextGenerationId + 1 := by
  have hnext : site.nextGenerationId < 10 ^ 12 :=
    (Nat.lt_succ_self _).trans hcovered.generations
  have hunseen : attempt.begins json digest site → attempt.store.isEmptyLazy = false →
      stage ≠ .start → stage ≠ .ended → site.holdsEmpty = false :=
    fun hbegins hempty hstart hended => Bool.eq_false_iff.mpr fun hholds =>
      (hspared.grown hholds hempty (requireFresh_of_begins hbegins)).elim hstart hended
  have hpublished : attempt.begins json digest site → stage ≠ .start → stage ≠ .ended →
      attempt.published site = site ∨
      Grows site (attempt.published site) ∧ site.holdsEmpty = false ∧
        attempt.store.isEmptyLazy = false ∧
        (attempt.published site).nextGenerationId ≤ site.nextGenerationId + 1 := by
    intro hbegins hstart hended
    cases hempty : attempt.store.isEmptyLazy with
    | true => exact .inl (if_pos hempty)
    | false => exact .inr ⟨grows_published attempt hnext, hunseen hbegins hempty hstart hended, rfl,
        nextGenerationId_published attempt hnext hindex⟩
  cases stage with
  | start => exact .inr (.inl rfl)
  | directory =>
    simp only [Attempt.leaves]
    split
    next hgoes =>
      obtain ⟨hbegins, hnot⟩ := Bool.and_eq_true_iff.mp hgoes
      have hempty : attempt.store.isEmptyLazy = false := by simpa using hnot
      refine .inr (.inr ⟨grows_ensureVectors site, hunseen hbegins hempty (by simp) (by simp),
        hempty, ?_⟩)
      refine Site.nextGenerationId_le (Nat.succ_pos _) hindex fun name id hname hid => ?_
      rw [Site.entry_ensureVectors] at hname
      exact (Site.lt_nextGenerationId hname hid).trans (Nat.lt_succ_self _)
    next => exact .inr (.inl rfl)
  | temporary node =>
    simp only [Attempt.leaves]
    split
    next hgoes =>
      obtain ⟨hbegins, hnot⟩ := Bool.and_eq_true_iff.mp hgoes
      have hempty : attempt.store.isEmptyLazy = false := by simpa using hnot
      have hname := dirName_tempName attempt site
      refine .inr (.inr ⟨grows_put (.inl hname), hunseen hbegins hempty (by simp) (by simp),
        hempty, ?_⟩)
      refine Site.nextGenerationId_le (Nat.succ_pos _) hindex fun name id hthere hid => ?_
      rw [Site.entry_put, if_neg (by rintro rfl; cases hname.symm.trans hid)] at hthere
      exact (Site.lt_nextGenerationId hthere hid).trans (Nat.lt_succ_self _)
    next => exact .inr (.inl rfl)
  | renamed =>
    simp only [Attempt.leaves]
    split
    next hbegins => exact .inr (hpublished hbegins (by simp) (by simp))
    next => exact .inr (.inl rfl)
  | created =>
    -- the database is there already, so that creating it changes nothing
    have hfile : ({ attempt.published site with storeFile := site.storeFile.created } : Site Text) =
        attempt.published site := by
      have hsame : (attempt.published site).storeFile = site.storeFile :=
        (grows_published attempt hnext).file
      have hcreated : site.storeFile.created = site.storeFile := by
        cases hfile : site.storeFile with
        | missing => exact absurd rfl (hspared.committed hfile)
        | blank => rfl
        | tables rows => rfl
      rw [hcreated, ← hsame]
    simp only [Attempt.leaves, hfile]
    split
    next hprepares =>
      exact .inr (hpublished (Bool.and_eq_true_iff.mp hprepares).1 (by simp) (by simp))
    next =>
      split
      next hbegins => exact .inr (hpublished hbegins (by simp) (by simp))
      next => exact .inr (.inl rfl)
  | ended =>
    simp only [Attempt.leaves]
    split
    next hbegins => exact .inl ⟨trivial, hbegins, rfl⟩
    next => exact .inr (.inl rfl)

theorem Site.Room.mono {m n : Nat} (h : site.Room n) (hle : m ≤ n) : site.Room m := by
  intro manifest hmanifest
  obtain ⟨hsequence, hgenerations, haudit⟩ := h manifest hmanifest
  exact ⟨(Nat.add_le_add_left hle _).trans_lt hsequence,
    (Nat.add_le_add_left hle _).trans_lt hgenerations,
    (Nat.add_le_add_left hle _).trans_lt haudit⟩

/-- A save that is spared leaves a root in order, from which it can be made again. -/
theorem Sound.step (h : Sound json around site)
    (hcovered : Covered json digest around attempt site)
    (hspared : Spared json digest around attempt site stage) :
    Survives json digest around attempt site (attempt.leaves json digest site stage) ∧
      Sound json around (attempt.leaves json digest site stage) := by
  have hnext : site.nextGenerationId < 10 ^ 12 :=
    (Nat.lt_succ_self _).trans hcovered.generations
  have hroom : site.Room 1 := hcovered.room.mono (by decide)
  obtain ⟨snapshot, parsed, generation, haccepted⟩ := accepted_of_inputs hcovered.inputs
  rcases leaves_cases h.index hcovered hspared with ⟨hended, hbegins, heq⟩ | heq |
    ⟨hgrows, hempty, hnonempty, hnext'⟩
  · -- the commit has been made
    obtain ⟨plan, tables, counts, expected, previous, rfl, rfl, hran⟩ :=
      h.run hcovered.consistent haccepted hnext hroom (requireFresh_of_begins hbegins)
    have hkept := hspared.kept hended (requireFresh_of_begins hbegins)
    obtain ⟨store, parsed, generation, hheld, hpayloads⟩ := hran.held hcovered hkept h.index
    have hsound := hran.sound h hcovered hkept haccepted
    have hbound : (attempt.completed json digest site).nextGenerationId ≤
        site.nextGenerationId + 1 := nextGenerationId_published attempt hnext h.index
    rw [heq]
    refine ⟨⟨.inr ⟨store, hheld.openVerified, .inr hpayloads⟩, ?_⟩, hsound⟩
    refine hsound.retry haccepted hcovered.consistent hnext
      (hbound.trans_lt hcovered.generations) (hran.room hcovered.room) fun hempty => .inr ?_
    show (attempt.published site).disk = site.disk
    rw [Attempt.published, if_pos hempty]
  · rw [heq]
    refine ⟨⟨?_, h.retry haccepted hcovered.consistent hnext hnext hroom fun _ => .inr rfl⟩, h⟩
    rcases h.store with hmissing | ⟨store, _, _, hheld⟩
    · exact .inl ⟨hmissing, hmissing⟩
    · exact .inr ⟨store, hheld.openVerified, .inl hheld.openVerified⟩
  · have hsound := h.grow hgrows hempty
    refine ⟨⟨?_, ?_⟩, hsound⟩
    · rcases h.store with hmissing | ⟨store, _, _, hheld⟩
      · exact .inl ⟨hgrows.file.trans hmissing, hmissing⟩
      · exact .inr ⟨store, (hheld.grow hgrows (hheld.emptyLazy.trans hempty)).openVerified,
          .inl hheld.openVerified⟩
    · refine hsound.retry haccepted hcovered.consistent hnext
        (hnext'.trans_lt hcovered.generations) (fun manifest hmanifest => ?_) fun hlazy =>
          absurd (hlazy.symm.trans hnonempty) (by decide)
      rw [hgrows.file] at hmanifest
      exact hroom manifest hmanifest

theorem sound_of_survivable (h : @Survivable Text Path _ json digest around site) :
    Sound json around site := by
  induction h with
  | fresh =>
    refine ⟨rfl, trivial, fun id hid => ?_, .inl rfl⟩
    simp [StoreFile.rows, Tables.empty] at hid
  | save attempt stage h hcovered hspared ih => exact (ih.step hcovered hspared).2

/-! ## Where the root is lost -/

theorem Sound.begins (h : Sound json around site)
    (hcovered : Covered json digest around attempt site)
    (hfresh : requireFreshBaseGeneration json.codec .none (attempt.call site).dir attempt.base
      attempt.target) :
    attempt.begins json digest site ∧ attempt.prepares json digest site := by
  obtain ⟨snapshot, parsed, generation, haccepted⟩ := accepted_of_inputs hcovered.inputs
  have hbegins : attempt.begins json digest site := by
    simp [Attempt.begins, hcovered.consistent, hfresh, haccepted.taken]
  obtain ⟨plan, previous, counts, -, -, hprepared⟩ := h.prepared haccepted
    ((Nat.lt_succ_self _).trans hcovered.generations) (hcovered.room.mono (by decide)) rfl
  have hplan := prepareSnapshot_eq_some.mpr ⟨_, _, hprepared⟩
  refine ⟨hbegins, ?_⟩
  rw [Attempt.prepares, hbegins, h.expected hfresh, payloads_call haccepted.taken, Bool.true_and,
    Option.any_some, Option.any_some, hplan]
  rfl

/-- On a fresh root a database without tables is left. -/
theorem Sound.blank (h : Sound json around site)
    (hcovered : Covered json digest around attempt site) (hmissing : site.storeFile = .missing) :
    (attempt.leaves json digest site .created).storeFile = .blank := by
  have hprepares := (h.begins hcovered (h.fresh_of_loads (.inl hmissing))).2
  simp only [Attempt.leaves]
  rw [if_pos hprepares, hmissing]
  rfl

/-- Between its start and its end a save leaves a directory of generations. -/
theorem vectors_leaves (hbegins : attempt.begins json digest site)
    (hempty : attempt.store.isEmptyLazy = false) (hstart : stage ≠ .start)
    (hended : stage ≠ .ended) :
    (attempt.leaves json digest site stage).disk.vectors.isSome ∧
      (site.storeFile ≠ .missing →
        (attempt.leaves json digest site stage).storeFile = site.storeFile) := by
  have hpublished : (attempt.published site).disk.vectors.isSome ∧
      (attempt.published site).storeFile = site.storeFile := by
    rw [Attempt.published, hempty, if_neg Bool.false_ne_true]
    exact ⟨rfl, rfl⟩
  have hcreated : site.storeFile ≠ .missing → site.storeFile.created = site.storeFile := by
    intro hthere
    cases hfile : site.storeFile with
    | missing => exact absurd hfile hthere
    | blank => rfl
    | tables rows => rfl
  cases stage with
  | start => exact absurd rfl hstart
  | directory =>
    simp only [Attempt.leaves, hbegins, hempty]
    exact ⟨rfl, fun _ => rfl⟩
  | temporary node =>
    simp only [Attempt.leaves, hbegins, hempty]
    exact ⟨rfl, fun _ => rfl⟩
  | renamed =>
    simp only [Attempt.leaves, hbegins, if_true]
    exact ⟨hpublished.1, fun _ => hpublished.2⟩
  | created =>
    simp only [Attempt.leaves, hbegins, if_true]
    split
    next => exact ⟨hpublished.1, hcreated⟩
    next => exact ⟨hpublished.1, fun _ => hpublished.2⟩
  | ended => exact absurd rfl hended

omit [DecidableEq Path] in
/-- An empty store is not loaded from a root with a directory of generations. -/
theorem Sound.not_loads (h : Sound json around site) (hholds : site.holdsEmpty)
    (hfile : after.storeFile = site.storeFile) (hvectors : after.disk.vectors.isSome) :
    ¬again.Loads json around after := by
  rcases h.store with hmissing | ⟨store, parsed, generation, hheld⟩
  · rw [Site.holdsEmpty, hmissing] at hholds
    simp [StoreFile.rows, Tables.manifest, Tables.empty] at hholds
  rintro (hmissing | ⟨loaded, hload, -⟩)
  · have hrows := hheld.file
    rw [← hfile, hmissing] at hrows
    cases hrows
  · obtain ⟨store', hopen, -⟩ := Option.bind_eq_some_iff.mp hload
    obtain ⟨parsed', generation', hopens⟩ := opens_of_openVerified hopen
    obtain ⟨members, _, _, _, htree⟩ := sharedTree hopens.parses
    obtain ⟨hfits, -⟩ := of_load hopens hopen htree.loads hload
    have hmanifest := hopens.manifestPayloads
    simp only [verifyManifestPayloads, Bool.and_eq_true, decide_eq_true_eq] at hmanifest
    have hsame := hopens.manifest
    rw [hfile] at hsame
    rw [Site.holdsEmpty, hsame, Option.any_some] at hholds
    have hnone := (hfits.lazy (hmanifest.1.1.1.2.symm.trans hholds)).2
    rw [hnone] at hvectors
    cases hvectors

/-- What a new process loads behind the commit keeps to the limits of the reader. -/
theorem Sound.kept (h : Sound json around site)
    (hcovered : Covered json digest around attempt site)
    (hfresh : requireFreshBaseGeneration json.codec .none (attempt.call site).dir attempt.base
      attempt.target)
    (hloads : again.Loads json around (attempt.completed json digest site)) :
    Kept json digest around attempt site := by
  obtain ⟨snapshot, parsed, generation, haccepted⟩ := accepted_of_inputs hcovered.inputs
  obtain ⟨plan, tables, counts, expected, previous, rfl, rfl, hran⟩ :=
    h.run hcovered.consistent haccepted ((Nat.lt_succ_self _).trans hcovered.generations)
      (hcovered.room.mono (by decide)) hfresh
  have hfile : (attempt.completed json digest site).storeFile = .tables tables := hran.file
  obtain ⟨snapshot', _, _, _, _, _, verified, parsed, generation, hsnapshot, -, hopen, hpayloads,
    hopens, -, hholds⟩ := WorkingCopy.opens_of_returned hcovered.shaped hran.returned
  have htexts : attempt.store.payloads json digest attempt.base (attempt.call site) =
      some verified.payloads := by
    rw [payloads_call hsnapshot, hpayloads]
    rfl
  rcases hloads with hmissing | ⟨loaded, hload, -⟩
  · rw [hfile] at hmissing
    cases hmissing
  · obtain ⟨members, _, _, _, htree⟩ := sharedTree hopens.parses
    obtain ⟨hfits, -⟩ := of_load hopens hopen htree.loads hload
    refine ⟨fun texts h => ?_, fun texts h => ?_, fun hempty => ?_⟩
    · exact Option.some.inj (htexts.symm.trans h) ▸ hfits.adapterSize
    · exact Option.some.inj (htexts.symm.trans h) ▸ hfits.sidecarSizes
    · have hnone := (hfits.lazy (hholds.emptyLazy.trans hempty)).2
      change (attempt.published site).disk.vectors = none at hnone
      rwa [Attempt.published, if_pos hempty] at hnone

end Stages

/-! ## The first save -/

def freshSite : Site Raw := ⟨.missing, ⟨none, none⟩⟩

/-- The save of one record to a fresh root. -/
def firstAttempt : Attempt Raw String where
  store := WorkingCopy.oneRecordStore WorkingCopy.someText ∅
  base := WorkingCopy.freshBase
  target := "store"
  adapterName := none
  env := singleEnv
  bundle := ⟨2, 8, 1, "digest", 100⟩
  tempSuffix := "7-1"

theorem firstAttempt_covered :
    Covered exampleJson (fun _ => "") exampleAround firstAttempt freshSite where
  shaped := (WorkingCopy.session_oneRecordStore _ _).shaped
  consistent := by decide +kernel
  inputs := by decide +kernel
  loads := rfl
  room manifest hmanifest := by
    simp [freshSite, StoreFile.rows, Tables.manifest, Tables.empty] at hmanifest
  generations := by decide +kernel

end OrdinalDB.Adapter
