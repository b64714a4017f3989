import OrdinalDB.Lib.Machine
import OrdinalDB.Store.Commits
import OrdinalDB.Store.VerifiedRows

/-!
# The history of a store

Runs of calls, each with the expected revision and the surroundings that it
happens to have.

* `history_append_only`: the audit log and the gc queue are numbered without
  gaps, their rows stay, and the store keeps its identity.
* `commits_linked`: the calls that write and succeed form one chain of
  revisions. A gc record without updates is outside the chain
  (`empty_gc_unchecked`).
-/

namespace OrdinalDB.Store

open Machine Json

variable {Text : Type} {codec : JsonCodec Text}

/-- A call and what it finds. -/
abbrev Request (Text : Type) := Env × Call Text

abbrev Reply (Text : Type) := Option (VerifiedAdapterStore Text)

def answer (codec : JsonCodec Text) (storeFile : StoreFile Text) (request : Request Text) :
    Reply Text × StoreFile Text :=
  request.2.run codec request.1 storeFile

/-! ## Histories -/

/-- A store after `recorded` gc updates. -/
structure History (recorded : Nat) (storeFile : StoreFile Text) : Prop where
  file : storeFile = .missing ∨ storeFile = .tables storeFile.rows ∧ storeFile.manifest.isSome
  audit : ∀ key, key ∈ storeFile.rows.auditLog ↔ 1 ≤ key ∧ key ≤ storeFile.commitSequence
  gc : ∀ key, key ∈ storeFile.rows.gcQueue ↔ 1 ≤ key ∧ key ≤ recorded
  gcCount : storeFile.gcCount = recorded
  created : ∀ manifest, storeFile.manifest = some manifest → manifest.createdAtUnixMs.isSome
  active : ∀ (id : Nat) (record : GenerationRecord),
    storeFile.rows.generations[id]? = some record → record.state = generationStateActive →
      ∃ manifest, storeFile.manifest = some manifest ∧ id = manifest.activeGenerationId ∧
        record.path = some manifest.activeGenerationPath

/-- Rows stay, and so do the identity, the origin and the time of creation. -/
structure Extends (earlier later : StoreFile Text) : Prop where
  audit : ∀ (key : Nat) (row : Option AuditRow), earlier.rows.auditLog[key]? = some row →
    later.rows.auditLog[key]? = some row
  gc : ∀ (key : Nat) (row : Option GcRow), earlier.rows.gcQueue[key]? = some row →
    later.rows.gcQueue[key]? = some row
  identity : ∀ first, earlier.manifest = some first → ∃ last, later.manifest = some last ∧
    last.storeUuid = first.storeUuid ∧ last.origin = first.origin ∧
      last.createdAtUnixMs = first.createdAtUnixMs

theorem Extends.refl (storeFile : StoreFile Text) : Extends storeFile storeFile :=
  ⟨fun _ _ h => h, fun _ _ h => h, fun first h => ⟨first, h, rfl, rfl, rfl⟩⟩

theorem Extends.trans {first second third : StoreFile Text} (h : Extends first second)
    (hnext : Extends second third) : Extends first third where
  audit key row hrow := hnext.audit key row (h.audit key row hrow)
  gc key row hrow := hnext.gc key row (h.gc key row hrow)
  identity manifest hmanifest := by
    obtain ⟨between, hbetween, huuid, horigin, hcreated⟩ := h.identity manifest hmanifest
    obtain ⟨last, hlast, huuid', horigin', hcreated'⟩ := hnext.identity between hbetween
    exact ⟨last, hlast, huuid'.trans huuid, horigin'.trans horigin, hcreated'.trans hcreated⟩

/-- The gc updates that a call has recorded. -/
def countRecorded (recorded : Nat) (request : Request Text) (reply : Reply Text) : Nat :=
  if reply.isSome then recorded + request.2.updates.length else recorded

def recordedUpdates (log : List (Request Text × Reply Text)) : Nat := replay countRecorded 0 log

theorem history_missing : History 0 (.missing : StoreFile Text) where
  file := .inl rfl
  audit key := by
    simp [StoreFile.rows, StoreFile.commitSequence, StoreFile.manifest, Tables.manifest,
      Tables.empty]
    omega
  gc key := by
    simp [StoreFile.rows, Tables.empty]
    omega
  gcCount := by simp [StoreFile.gcCount, StoreFile.manifest, StoreFile.rows, Tables.manifest,
    Tables.empty]
  created manifest h := by
    simp [StoreFile.manifest, StoreFile.rows, Tables.manifest, Tables.empty] at h
  active id record h := by simp [StoreFile.rows, Tables.empty] at h

theorem History.fresh {recorded : Nat} {storeFile : StoreFile Text}
    (h : History recorded storeFile) : storeFile.Fresh := by
  rcases h.file with rfl | ⟨hfile, hmanifest⟩
  · trivial
  · obtain ⟨manifest, hmanifest⟩ := Option.isSome_iff_exists.mp hmanifest
    rw [hfile]
    refine ⟨manifest, hmanifest, fun key hkey => ?_, fun key hkey => ?_⟩
    · have := ((h.audit key).mp hkey).2
      simpa [StoreFile.commitSequence, hmanifest] using this
    · have := ((h.gc key).mp hkey).2
      rw [← h.gcCount] at this
      simpa [StoreFile.gcCount, hmanifest] using this

theorem Call.updates_of_not_writes {call : Call Text} (h : ¬call.Writes) : call.updates = [] := by
  cases call with
  | recordGenerationGc expected updates => exact of_not_not h
  | _ => exact absurd trivial h

/-- One commit extends the history. -/
theorem Commit.history {env : Env} {storeFile : StoreFile Text} {call : Call Text}
    {after : Tables Text} {manifest : Manifest} {recorded : Nat}
    (h : Commit codec env storeFile call after manifest) (hhistory : History recorded storeFile) :
    Extends storeFile (.tables after) ∧
      History (recorded + call.updates.length) (.tables after) := by
  have hmanifest : (StoreFile.tables after).manifest = some manifest := h.row
  have hsequence : (StoreFile.tables after).commitSequence = storeFile.commitSequence + 1 := by
    rw [StoreFile.commitSequence, hmanifest]
    exact h.sequence
  obtain ⟨row, haudit⟩ := h.auditLog
  have hgcKeys : ∀ key, key ∈ (gcRows env storeFile.gcCount call.updates).map Prod.fst ↔
      recorded + 1 ≤ key ∧ key ≤ recorded + call.updates.length := by
    intro key
    rw [keys_gcRows, List.mem_range'_1, hhistory.gcCount]
    omega
  constructor
  · constructor
    · intro key old hold
      have hkey := (hhistory.audit key).mp
        (Std.ExtTreeMap.mem_iff_isSome_getElem?.mpr (Option.isSome_of_eq_some hold))
      show after.auditLog[key]? = some old
      rw [haudit, Table.getElem?_insert_of_ne, hold]
      rw [h.sequence]
      omega
    · intro key old hold
      have hkey := (hhistory.gc key).mp
        (Std.ExtTreeMap.mem_iff_isSome_getElem?.mpr (Option.isSome_of_eq_some hold))
      show after.gcQueue[key]? = some old
      rw [h.gcQueue, Table.insertMany_of_not_mem, hold]
      rw [hgcKeys]
      omega
    · intro before hbefore
      obtain ⟨huuid, horigin, hcreated⟩ := h.identity before hbefore
      exact ⟨manifest, hmanifest, huuid, horigin, hcreated (hhistory.created before hbefore)⟩
  · constructor
    case file => exact .inr ⟨rfl, Option.isSome_of_eq_some hmanifest⟩
    case audit =>
      intro key
      show key ∈ after.auditLog ↔ _
      rw [haudit, Table.mem_insert_iff, hhistory.audit, hsequence, h.sequence]
      omega
    case gc =>
      intro key
      show key ∈ after.gcQueue ↔ _
      rw [h.gcQueue, Std.ExtTreeMap.mem_insertMany_list, List.contains_iff_mem, hgcKeys,
        hhistory.gc]
      omega
    case gcCount =>
      rw [StoreFile.gcCount, hmanifest, Option.elim_some, h.gcCount, hhistory.gcCount]
    case created =>
      intro last hlast
      obtain rfl := Option.some.inj (hmanifest.symm.trans hlast)
      exact h.created hhistory.created
    case active =>
      exact fun id record hrecord hstate =>
        ⟨manifest, hmanifest, h.active id record hrecord hstate⟩

/-- One call extends the history. -/
theorem History.answer {recorded : Nat} {storeFile : StoreFile Text}
    (h : History recorded storeFile) (request : Request Text) :
    Extends storeFile (answer codec storeFile request).2 ∧
      History (countRecorded recorded request (Store.answer codec storeFile request).1)
        (Store.answer codec storeFile request).2 := by
  unfold Store.answer
  rcases request.2.run_effect codec request.1 storeFile with
    ⟨hfile, hquiet⟩ | ⟨after, manifest, houtcome, hcommit⟩
  · have hcount : countRecorded recorded request (request.2.run codec request.1 storeFile).1 =
        recorded := by
      rcases hquiet with hnone | hwrites
      · simp [countRecorded, hnone]
      · simp [countRecorded, Call.updates_of_not_writes hwrites]
    rw [hfile, hcount]
    exact ⟨Extends.refl storeFile, h⟩
  · obtain ⟨hextends, hhistory⟩ := hcommit.history h
    have hcount : countRecorded recorded request (request.2.run codec request.1 storeFile).1 =
        recorded + request.2.updates.length := by
      unfold countRecorded
      split
      next => rfl
      next hnone =>
        -- only gc records have updates, and they open
        by_cases hupdates : request.2.updates = []
        · simp [hupdates]
        · rw [houtcome] at hnone
          exact absurd (hcommit.answers h.fresh hupdates) hnone
    rw [hcount, houtcome]
    exact ⟨hextends, hhistory⟩

/-- From an empty root: every call extends the history of the calls before it. -/
theorem history_append_only (codec : JsonCodec Text) (before after : List (Request Text)) :
    let earlier := runCalls (answer codec) .missing before
    let later := runCalls (answer codec) .missing (before ++ after)
    History (recordedUpdates later.1) later.2 ∧ Extends earlier.2 later.2 := by
  intro earlier later
  have hhistory : ∀ calls, History (recordedUpdates (runCalls (answer codec) .missing calls).1)
      (runCalls (answer codec) .missing calls).2 := fun calls =>
    @runCalls_simulates _ _ _ _ (answer codec) countRecorded (fun s n => History n s)
      (fun _ _ request h => (h.answer request).2) _ _ history_missing calls
  refine ⟨hhistory _, ?_⟩
  have hstep : ∀ (s : StoreFile Text) (request : Request Text),
      (∃ n, History n s) ∧ Extends earlier.2 s →
        (∃ n, History n (answer codec s request).2) ∧
          Extends earlier.2 (answer codec s request).2 := by
    rintro s request ⟨⟨n, hn⟩, hs⟩
    obtain ⟨hnext, hhistory⟩ := hn.answer request
    exact ⟨⟨_, hhistory⟩, hs.trans hnext⟩
  have hextends := runCalls_invariant hstep ⟨⟨_, hhistory before⟩, Extends.refl _⟩ after
  have hlater : later.2 = (runCalls (answer codec) earlier.2 after).2 := by
    simp only [later, earlier, runCalls_append]
  rw [hlater]
  exact hextends.2

/-! ## Chains of revisions -/

/-- The calls that have written and succeeded: the revision that each expected, and the one
that it has answered. -/
def commits (log : List (Request Text × Reply Text)) :
    List (Option StoreRevision × StoreRevision) :=
  log.filterMap fun (request, reply) =>
    if request.2.Writes then
      reply.map fun store => (request.2.expected, StoreRevision.fromManifest store.manifest)
    else none

/-- Each commit expects the revision before it, and counts one further. -/
def Linked : Option StoreRevision → List (Option StoreRevision × StoreRevision) → Prop
  | _, [] => True
  | current, (expected, produced) :: rest =>
    expected = current ∧ produced.commitSequence = current.elim 0 (·.commitSequence) + 1 ∧
      Linked (some produced) rest

/-- Revisions along a chain only grow. -/
theorem Linked.lt {current : Option StoreRevision}
    {chain : List (Option StoreRevision × StoreRevision)} (h : Linked current chain) :
    ∀ produced ∈ chain.map Prod.snd,
      current.elim 0 (·.commitSequence) < produced.commitSequence := by
  induction chain generalizing current with
  | nil => simp
  | cons link rest ih =>
    obtain ⟨-, hsequence, hrest⟩ := h
    intro produced hproduced
    rcases List.mem_cons.mp hproduced with rfl | hproduced
    · omega
    · have := ih hrest produced hproduced
      simp only [Option.elim_some] at this
      omega

/-- No revision recurs, the first included. -/
theorem Linked.nodup {current : Option StoreRevision}
    {chain : List (Option StoreRevision × StoreRevision)} (h : Linked current chain) :
    (current.toList ++ chain.map Prod.snd).Nodup := by
  induction chain generalizing current with
  | nil => cases current <;> simp
  | cons link rest ih =>
    have hlt := h.lt
    obtain ⟨-, -, hrest⟩ := h
    have hnodup := ih hrest
    cases current with
    | none => exact hnodup
    | some revision =>
      refine List.nodup_cons.mpr ⟨fun hmem => ?_, hnodup⟩
      exact Nat.lt_irrefl _ (hlt revision hmem)

/-- Once the store does not open any more, no call that writes succeeds. -/
theorem commits_of_closed {tables : Tables Text}
    (hclosed : ∀ disk allowedPrepared, openTables codec disk tables none allowedPrepared = none)
    (calls : List (Request Text)) :
    commits (runCalls (answer codec) (.tables tables) calls).1 = [] := by
  induction calls with
  | nil => rfl
  | cons request calls ih =>
    rcases request.2.run_effect codec request.1 (.tables tables) with
      ⟨hfile, hquiet⟩ | ⟨after, manifest, -, hcommit⟩
    · have hfile' : (answer codec (.tables tables) request).2 = .tables tables := hfile
      have hhead : (if request.2.Writes then
          (answer codec (.tables tables) request).1.map fun store =>
            (request.2.expected, StoreRevision.fromManifest store.manifest)
          else none) = none := by
        rcases hquiet with hnone | hwrites
        · rw [show (answer codec (.tables tables) request).1 = none from hnone]
          simp
        · exact if_neg hwrites
      unfold commits at ih ⊢
      simp only [runCalls, List.filterMap_cons, hhead, hfile', ih]
    · rcases hcommit.opened with hmissing | ⟨-, allowedPrepared, hopen⟩
      · cases hmissing
      · rw [show (StoreFile.tables tables).rows = tables from rfl, hclosed] at hopen
        cases hopen

/-- The calls that write and succeed are linked from the revision at the start. -/
theorem linked_commits (codec : JsonCodec Text) (storeFile : StoreFile Text)
    (calls : List (Request Text)) :
    Linked storeFile.revision (commits (runCalls (answer codec) storeFile calls).1) := by
  induction calls generalizing storeFile with
  | nil => trivial
  | cons request calls ih =>
    rcases request.2.run_effect codec request.1 storeFile with
      ⟨hfile, hquiet⟩ | ⟨after, manifest, houtcome, hcommit⟩
    · have hfile' : (answer codec storeFile request).2 = storeFile := hfile
      have hhead : (if request.2.Writes then
          (answer codec storeFile request).1.map fun store =>
            (request.2.expected, StoreRevision.fromManifest store.manifest)
          else none) = none := by
        rcases hquiet with hnone | hwrites
        · rw [show (answer codec storeFile request).1 = none from hnone]
          simp
        · exact if_neg hwrites
      have hrest := ih storeFile
      unfold commits at hrest ⊢
      simpa only [runCalls, List.filterMap_cons, hhead, hfile'] using hrest
    · have houtcome' : answer codec storeFile request = reopen codec request.1 after := houtcome
      have hrest := ih (.tables after)
      have hrevision : (StoreFile.tables after).revision =
          some (StoreRevision.fromManifest manifest) :=
        congrArg (Option.map StoreRevision.fromManifest) hcommit.row
      cases hopen : openTables codec request.1.disk after none none with
      | none =>
        have hclosed := commits_of_closed (hcommit.closed hopen) calls
        have hreply : (reopen codec request.1 after).1 = none := hopen
        unfold commits at hclosed ⊢
        simp only [runCalls, List.filterMap_cons, houtcome', hreply, Option.map_none, ite_self]
        rw [show (reopen codec request.1 after).2 = .tables after from rfl, hclosed]
        trivial
      | some store =>
        have hreply : (reopen codec request.1 after).1 = some store := hopen
        obtain ⟨_, _, hopens⟩ := openTables_eq_some.mp hopen
        obtain rfl := Option.some.inj (hcommit.row.symm.trans hopens.manifest)
        unfold commits at hrest ⊢
        simp only [runCalls, List.filterMap_cons, houtcome', hreply, hcommit.writes, if_true,
          Option.map_some]
        refine ⟨hcommit.revision.symm, ?_, ?_⟩
        · rw [StoreRevision.fromManifest, hcommit.sequence, StoreFile.commitSequence,
            StoreFile.revision]
          cases storeFile.manifest <;> rfl
        · rw [hrevision] at hrest
          exact hrest

/-- From any file: the calls that write and succeed are linked, no revision recurs, a stale call
that would write fails and leaves the file, and so does a gc record without updates. -/
theorem commits_linked (codec : JsonCodec Text) (storeFile : StoreFile Text)
    (calls : List (Request Text)) :
    let run := runCalls (answer codec) storeFile calls
    Linked storeFile.revision (commits run.1) ∧
      (storeFile.revision.toList ++ (commits run.1).map Prod.snd).Nodup ∧
      ∀ request : Request Text,
        (request.2.Writes → request.2.expected ≠ run.2.revision →
          answer codec run.2 request = (none, run.2)) ∧
        (¬request.2.Writes → (answer codec run.2 request).2 = run.2) := by
  intro run
  have hlinked := linked_commits codec storeFile calls
  refine ⟨hlinked, hlinked.nodup, fun request => ?_⟩
  rcases request.2.run_effect codec request.1 run.2 with
    ⟨hfile, hquiet⟩ | ⟨after, manifest, -, hcommit⟩
  · refine ⟨fun hwrites _ => Prod.ext ?_ hfile, fun _ => hfile⟩
    exact hquiet.resolve_right (not_not_intro hwrites)
  · exact ⟨fun _ hstale => absurd hcommit.revision.symm hstale,
      fun hquiet => absurd hcommit.writes hquiet⟩

/-- A gc record without updates succeeds under a revision that is not the current one, twice
without a new revision. -/
theorem empty_gc_unchecked :
    let request : Request Value := (singleEnv, .recordGenerationGc none [])
    let first := answer .ofTrees singleStore request
    request.2.expected ≠ singleStore.revision ∧ first.1.isSome ∧
      first.2.commitSequence = singleStore.commitSequence ∧
        (answer .ofTrees first.2 request).1.isSome := by
  decide +kernel

end OrdinalDB.Store
