import OrdinalDB.Lib.Machine
import OrdinalDB.Store.Disk

/-!
# A store that is shared

Collections (`gc_adapter_generations` of `ordinaldb-cli/src/main.rs`) and saves
(`AdapterStore.save` of `adapters/_common.py`) on one adapter root, step by step in any
interleaving; every participant may crash between two of its steps, and a crash gives the writer
lock back. A collection reads the active generation before it takes the lock.

`collections_keep_active`: the generation in use is never deleted as long as no recovery starts
when a generation that is marked for deletion has come into use since the collection opened the
store. `collection_deletes_active` is a run where it does.
-/

set_option linter.unusedSectionVars false

namespace OrdinalDB.SharedStore

open Store

/-! ## The root -/

inductive GcState
  | reclaimable
  | deleting
  | deleted
deriving DecidableEq, Repr

/-- What of a `StoreRevision` changes. A generation is given by its name in `vectors/`. -/
structure Revision where
  commitSequence : Nat
  active : Option String
deriving DecidableEq, Repr

/-- The committed tables; the events of the gc queue stand oldest first. -/
structure Tables where
  revision : Revision
  gcQueue : List (String × GcState)
deriving DecidableEq, Repr

structure Root where
  tables : Option Tables
  /-- The entries of `vectors/`. -/
  vectors : List String
  /-- There is an `index/` directory. -/
  legacyIndex : Bool
deriving DecidableEq, Repr

namespace Root

def active (root : Root) : Option String := root.tables.bind fun tables => tables.revision.active

def remove (root : Root) (name : String) : Root :=
  { root with vectors := root.vectors.filter (· ≠ name) }

/-- The directory of the generation in use is there. -/
def Live (root : Root) : Prop := ∀ name, root.active = some name → name ∈ root.vectors

/-- The generation in use has a generation's name. -/
def Named (root : Root) : Prop :=
  ∀ name, root.active = some name → (parseGenerationDir name).isSome

end Root

/-! ## Collections -/

def isGeneration (name : String) : Bool := (parseGenerationDir name).isSome

def sortNames (names : List String) : List String := names.insertionSort fun a b => a ≤ b

/-- The loop over the committed generations, newest first: those that are reclaimable. -/
def reclaimableFrom (pinned : List String) : Nat → List String → List String
  | _, [] => []
  | retainedBudget, name :: rest =>
    if name ∈ pinned then reclaimableFrom pinned retainedBudget rest
    else if 0 < retainedBudget then reclaimableFrom pinned (retainedBudget - 1) rest
    else name :: reclaimableFrom pinned retainedBudget rest

/-- `generation_directory_summary` and the classification after it. -/
def reclaimablePaths (root : Root) (active : Option String) (retain : Nat)
    (pinned : List String) : List String :=
  let retained := (sortNames root.vectors).filter fun name =>
    isGeneration name && some name ≠ active
  let debris := (sortNames root.vectors).filter fun name => !isGeneration name
  sortNames (reclaimableFrom pinned retain retained.reverse ++ debris.filter (· ∉ pinned))

/-- The last event of every path. -/
def latestGcState (gcQueue : List (String × GcState)) (name : String) : Option GcState :=
  (gcQueue.reverse.find? fun event => event.1 = name).map Prod.snd

/-- The last event of the generation in use. -/
def Root.activeGcState (root : Root) : Option GcState :=
  root.tables.bind fun tables => tables.revision.active.bind (latestGcState tables.gcQueue)

/-- The paths that a recovery goes through. -/
def interrupted (gcQueue : List (String × GcState)) (active : Option String) : List String :=
  sortNames ((gcQueue.map Prod.fst).dedup.filter fun name =>
    latestGcState gcQueue name = some .deleting && some name ≠ active)

/-- `record_generation_gc_with_existing_lock`: the root and the revision after it. -/
def recordGc (root : Root) (expected : Revision) (names : List String) (state : GcState) :
    Option (Root × Revision) := do
  let tables ← root.tables
  guard (tables.revision = expected)
  let revision := { expected with commitSequence := expected.commitSequence + 1 }
  pure ({ root with
    tables := some ⟨revision, tables.gcQueue ++ names.map fun name => (name, state)⟩ }, revision)

/-! ## Saves -/

/-- `_generation_index_path`, without `vectors/`. -/
def generationDirName (id : Nat) : String :=
  String.ofList ('g' :: (Nat.toDigits 10 id).leftpad 12 '0' ++ ".odb".toList)

/-- `_next_index_path`. -/
def nextGeneration (root : Root) : String :=
  generationDirName (root.vectors.foldl (fun largest name =>
    max largest ((generationIdFromDirName name).getD 0)) (if root.legacyIndex then 1 else 0) + 1)

/-- `_require_fresh_base_generation`. -/
def isFreshBase (root : Root) (base : Option Revision) : Bool :=
  root.tables.all fun tables => base = some tables.revision

/-- `active_generation_checkpoint`: the generation of a snapshot has a generation's name and is
there; a snapshot without one stands beside none. -/
def checkpoint (root : Root) : Option String → Bool
  | none => !root.legacyIndex && root.vectors.all fun name => !isGeneration name
  | some name => isGeneration name && decide (name ∈ root.vectors)

/-- The commit of a snapshot with this generation. -/
def commitSnapshot (root : Root) (base : Option Revision) (generation : Option String) :
    Option Root := do
  guard (checkpoint root generation)
  match root.tables with
  | none => pure { root with tables := some ⟨⟨1, generation⟩, []⟩ }
  | some tables =>
    guard (base = some tables.revision)
    pure { root with
      tables := some ⟨⟨tables.revision.commitSequence + 1, generation⟩, tables.gcQueue⟩ }

/-! ## Participants -/

/-- Where a participant is. The comments name the next step. -/
inductive Job
  | idle
  | gcStarted (retain : Nat) (dryRun : Bool)                   -- `open_verified_adapter_store`
  | gcOpened (retain : Nat) (dryRun : Bool) (store : Revision) -- the scan and the pins
  | gcScanned (store : Revision) (reclaimable : List String)   -- `acquire_writer_lock`
  | gcLocked (store : Revision) (reclaimable : List String)    -- `latest_gc_states_by_path`
  -- the next path of the recovery, or the record behind it
  | gcRecovering (store : Revision) (reclaimable todo gone : List String)
  | gcRecovered (store : Revision) (reclaimable deleted : List String) -- `reclaimable`
  | gcQueued (store : Revision) (reclaimable deleted : List String)    -- `deleting`
  -- the next directory, or the last record
  | gcDeleting (store : Revision) (todo deleted : List String)
  | saveStarted (base : Option Revision) (emptyLazy : Bool) (temp : String) -- the writer lock
  | saveLocked (base : Option Revision) (emptyLazy : Bool) (temp : String)  -- the next path
  | saveChosen (base : Option Revision) (name temp : String)  -- `index.write(temp_path)`
  | saveWritten (base : Option Revision) (name temp : String) -- `temp_path.rename(final_path)`
  | savePublished (base : Option Revision) (generation : Option String) -- the commit
  | unlocking                                                           -- the lock is dropped
deriving DecidableEq, Repr

/-- The participant has the writer lock. -/
def Job.holding : Job → Bool
  | idle | gcStarted .. | gcOpened .. | gcScanned .. | saveStarted .. => false
  | _ => true

/-- The next step of a job: the root and the job after it. An error drops the lock. `free` says
whether the writer lock can be taken. -/
def Job.next (free : Bool) (pinned : List String) (root : Root) : Job → Root × Job
  | .idle => (root, .idle)
  | .gcStarted retain dryRun =>
    match root.tables with
    | none => (root, .idle)
    | some tables => (root, .gcOpened retain dryRun tables.revision)
  | .gcOpened retain dryRun store =>
    if dryRun then (root, .idle)
    else (root, .gcScanned store (reclaimablePaths root store.active retain pinned))
  | .gcScanned store reclaimable =>
    (root, if free then .gcLocked store reclaimable else .idle)
  | .gcLocked store reclaimable =>
    match root.tables with
    | none => (root, .unlocking)
    | some tables =>
      (root, .gcRecovering store reclaimable (interrupted tables.gcQueue store.active) [])
  | .gcRecovering store reclaimable (name :: todo) gone =>
    if name ∉ root.vectors then (root, .gcRecovering store reclaimable todo (gone ++ [name]))
    else if name ∈ pinned then (root, .gcRecovering store reclaimable todo gone)
    else (root.remove name, .gcRecovering store reclaimable todo (gone ++ [name]))
  | .gcRecovering store reclaimable [] gone =>
    if gone = [] then (root, .gcRecovered store reclaimable gone)
    else
      match recordGc root store gone .deleted with
      | none => (root, .unlocking)
      | some (root, store) => (root, .gcRecovered store reclaimable gone)
  | .gcRecovered store reclaimable deleted =>
    if reclaimable = [] then (root, .unlocking)
    else
      match recordGc root store reclaimable .reclaimable with
      | none => (root, .unlocking)
      | some (root, store) => (root, .gcQueued store reclaimable deleted)
  | .gcQueued store reclaimable deleted =>
    match recordGc root store reclaimable .deleting with
    | none => (root, .unlocking)
    | some (root, store) => (root, .gcDeleting store reclaimable deleted)
  | .gcDeleting store (name :: todo) deleted =>
    -- a generation that is missing is an error, debris that is missing is not
    if name ∉ root.vectors ∧ isGeneration name then (root, .unlocking)
    else (root.remove name, .gcDeleting store todo (deleted ++ [name]))
  | .gcDeleting store [] deleted =>
    match recordGc root store deleted .deleted with
    | none => (root, .unlocking)
    | some (root, _) => (root, .unlocking)
  | .saveStarted base emptyLazy temp =>
    (root, if free then .saveLocked base emptyLazy temp else .idle)
  | .saveLocked base emptyLazy temp =>
    if isFreshBase root base = false then (root, .unlocking)
    else if emptyLazy then (root, .savePublished base none)
    else (root, .saveChosen base (nextGeneration root) temp)
  | .saveChosen base name temp =>
    if name ∈ root.vectors ∨ temp ∈ root.vectors then (root, .unlocking)
    else ({ root with vectors := temp :: root.vectors }, .saveWritten base name temp)
  | .saveWritten base name temp =>
    ({ root with vectors := name :: root.vectors.filter (· ≠ temp) },
      .savePublished base (some name))
  | .savePublished base generation =>
    match commitSnapshot root base generation with
    | none => (root, .unlocking)
    | some root => (root, .unlocking)
  | .unlocking => (root, .idle)

/-! ## The system -/

structure System (P : Type) where
  root : Root
  lock : Option P
  job : P → Job

inductive Label (P : Type)
  | collect (p : P) (retain : Nat) (dryRun : Bool)
  | save (p : P) (base : Option Revision) (emptyLazy : Bool) (temp : String)
  /-- The next step of a participant, which finds these pins. -/
  | advance (p : P) (pinned : List String)
  | crash (p : P)
deriving DecidableEq, Repr

section Model

variable {P : Type} [DecidableEq P]

namespace System

def setJob (s : System P) (p : P) (job : Job) : System P :=
  { s with job := Function.update s.job p job }

/-- The lock is given back if `p` has it. -/
def drop (s : System P) (p : P) : System P :=
  { s with lock := if s.lock = some p then none else s.lock }

/-- The lock follows the job of `p`. -/
def follow (s : System P) (p : P) (job : Job) : System P :=
  if job.holding then { s with lock := some p }.setJob p job else (s.drop p).setJob p job

end System

def next (s : System P) : Label P → Option (System P)
  | .collect p retain dryRun =>
    if s.job p = .idle then some (s.setJob p (.gcStarted retain dryRun)) else none
  | .save p base emptyLazy temp =>
    if s.job p = .idle then some (s.setJob p (.saveStarted base emptyLazy temp)) else none
  | .advance p pinned =>
    let (root, job) := (s.job p).next s.lock.isNone pinned s.root
    some ({ s with root }.follow p job)
  | .crash p => some ((s.drop p).setJob p .idle)

/-- Any interleaving of any collections, saves and crashes. -/
abbrev Run (s : System P) (trace : List (System P × Label P)) (t : System P) : Prop :=
  Machine.Run (fun s label t => next s label = some t) s trace t

/-- Nobody is at work on a root whose generation in use is there. -/
structure Initial (s : System P) : Prop where
  live : s.root.Live
  named : s.root.Named
  lock : s.lock = none
  idle : ∀ p, s.job p = .idle

end Model

/-! ## What a step does to the generation in use -/

section Steps

variable {root after : Root} {name : String} {pinned : List String} {free : Bool} {job : Job}

/-- A root whose generation in use is there, under a generation's name. -/
structure Root.Sound (root : Root) : Prop where
  live : root.Live
  named : root.Named

theorem Root.Sound.remove (h : root.Sound) (hname : root.active ≠ some name) :
    (root.remove name).Sound := by
  refine ⟨fun other hactive => ?_, h.named⟩
  have hne : other ≠ name := fun heq => hname (heq ▸ hactive)
  exact List.mem_filter.mpr ⟨h.live other hactive, by simpa using hne⟩

/-- Steps that keep the generation in use and the directories. -/
theorem Root.Sound.of_eq (h : root.Sound) (hactive : after.active = root.active)
    (hvectors : after.vectors = root.vectors) : after.Sound where
  live name hname := hvectors ▸ h.live name (hactive ▸ hname)
  named name hname := h.named name (hactive ▸ hname)

/-- A record goes through when the revision is the expected one, and then so is the generation in
use. -/
theorem recordGc_spec {expected revision : Revision} {names : List String} {state : GcState}
    (h : recordGc root expected names state = some (after, revision)) :
    after.vectors = root.vectors ∧ root.active = expected.active ∧
      after.active = expected.active ∧ revision.active = expected.active := by
  unfold recordGc at h
  obtain ⟨tables, htables, h⟩ := Option.bind_eq_some_iff.mp h
  obtain ⟨_, hrevision, h⟩ := Option.bind_eq_some_iff.mp h
  rw [Option.guard_eq_some'] at hrevision
  obtain ⟨rfl, rfl⟩ := Prod.mk.inj (Option.some.inj h)
  refine ⟨rfl, ?_, rfl, rfl⟩
  rw [Root.active, htables, ← hrevision]
  rfl

theorem commitSnapshot_spec {base : Option Revision} {generation : Option String}
    (h : commitSnapshot root base generation = some after) :
    after.active = generation ∧ after.vectors = root.vectors ∧ checkpoint root generation := by
  unfold commitSnapshot at h
  obtain ⟨_, hguard, h⟩ := Option.bind_eq_some_iff.mp h
  rw [Option.guard_eq_some'] at hguard
  split at h
  next =>
    obtain rfl := Option.some.inj h
    exact ⟨rfl, rfl, hguard⟩
  next =>
    obtain ⟨_, -, h⟩ := Option.bind_eq_some_iff.mp h
    obtain rfl := Option.some.inj h
    exact ⟨rfl, rfl, hguard⟩

theorem sound_of_commit {base : Option Revision} {generation : Option String}
    (h : commitSnapshot root base generation = some after) : after.Sound := by
  obtain ⟨hactive, hvectors, hcheckpoint⟩ := commitSnapshot_spec h
  have hboth : ∀ name, after.active = some name → isGeneration name ∧ name ∈ root.vectors := by
    intro name hname
    rw [← hactive, hname] at hcheckpoint
    simpa [checkpoint] using hcheckpoint
  exact ⟨fun name hname => hvectors ▸ (hboth name hname).2, fun name hname => (hboth name hname).1⟩

theorem mem_sortNames {names : List String} : name ∈ sortNames names ↔ name ∈ names :=
  List.mem_insertionSort _

theorem mem_reclaimableFrom {retain : Nat} {names : List String} :
    name ∈ reclaimableFrom pinned retain names → name ∈ names := by
  induction names generalizing retain with
  | nil => exact id
  | cons first rest ih =>
    intro h
    unfold reclaimableFrom at h
    split at h
    next => exact List.mem_cons_of_mem _ (ih h)
    next =>
      split at h
      next => exact List.mem_cons_of_mem _ (ih h)
      next => exact List.mem_cons.mpr ((List.mem_cons.mp h).imp_right ih)

/-- The scan does not list the generation that was in use when the store was opened. -/
theorem not_active_of_reclaimable {active : Option String} {retain : Nat}
    (hgeneration : ∀ name, active = some name → isGeneration name)
    (h : name ∈ reclaimablePaths root active retain pinned) : active ≠ some name := by
  rw [reclaimablePaths, mem_sortNames, List.mem_append] at h
  rcases h with hretained | hdebris
  · have hmem := List.mem_reverse.mp (mem_reclaimableFrom hretained)
    intro heq
    simp [heq] at hmem
  · intro heq
    have hname := hgeneration name heq
    simp [hname] at hdebris

/-- What a participant can rely on between its steps. -/
def Job.Inv (root : Root) : Job → Prop
  | .gcOpened _ _ store => ∀ name, store.active = some name → isGeneration name
  | .gcScanned store reclaimable | .gcLocked store reclaimable
  | .gcRecovered store reclaimable _ | .gcQueued store reclaimable _ =>
    ∀ name ∈ reclaimable, store.active ≠ some name
  | .gcRecovering store reclaimable todo _ =>
    (∀ name ∈ reclaimable, store.active ≠ some name) ∧ ∀ name ∈ todo, root.active ≠ some name
  | .gcDeleting store todo _ =>
    root.active = store.active ∧ ∀ name ∈ todo, store.active ≠ some name
  | .saveWritten _ _ temp => root.active ≠ some temp
  | _ => True

/-- Without the lock a participant changes nothing. -/
theorem next_root_of_free (h : job.holding = false) : (job.next free pinned root).1 = root := by
  cases job with
  | idle => rfl
  | gcStarted =>
    simp only [Job.next]
    split <;> rfl
  | gcOpened =>
    simp only [Job.next]
    split <;> rfl
  | gcScanned => rfl
  | saveStarted => rfl
  | _ => cases h

/-- Without the lock a participant relies on nothing that others change. -/
theorem inv_of_free (h : job.holding = false) (hinv : job.Inv root) : job.Inv after := by
  cases job <;> first | exact hinv | cases h

/-- A participant takes the lock when it is free. -/
theorem free_of_acquired (h : job.holding = false)
    (hnext : (job.next free pinned root).2.holding) : free := by
  cases job with
  | idle => cases hnext
  | gcStarted =>
    simp only [Job.next] at hnext
    split at hnext <;> cases hnext
  | gcOpened =>
    simp only [Job.next] at hnext
    split at hnext <;> cases hnext
  | gcScanned | saveStarted =>
    cases free with
    | true => rfl
    | false => cases hnext
  | _ => cases h

/-- The recovery does not take the generation in use for one whose deletion was cut: it is the one
that the collection read, or it is not marked. -/
def Job.Fresh (root : Root) : Job → Prop
  | .gcLocked store _ => root.active = store.active ∨ root.activeGcState ≠ some .deleting
  | _ => True

theorem mem_interrupted {gcQueue : List (String × GcState)} {active : Option String}
    (h : name ∈ interrupted gcQueue active) :
    latestGcState gcQueue name = some .deleting ∧ active ≠ some name := by
  rw [interrupted, mem_sortNames, List.mem_filter] at h
  have hboth := h.2
  rw [Bool.and_eq_true, decide_eq_true_eq, decide_eq_true_eq] at hboth
  exact ⟨hboth.1, fun heq => hboth.2 heq.symm⟩

/-- A record, and what the collection knows behind it. -/
theorem sound_record (hsound : root.Sound) {expected revision : Revision} {names : List String}
    {state : GcState} (h : recordGc root expected names state = some (after, revision)) :
    after.Sound ∧ after.active = revision.active ∧ revision.active = expected.active := by
  obtain ⟨hvectors, hbefore, hafter, hrevision⟩ := recordGc_spec h
  exact ⟨hsound.of_eq (hafter.trans hbefore.symm) hvectors, hafter.trans hrevision.symm, hrevision⟩

/-- One step of a participant. -/
theorem next_keeps (hsound : root.Sound) (hinv : job.Inv root) (hfresh : job.Fresh root) :
    (job.next free pinned root).1.Sound ∧
      (job.next free pinned root).2.Inv (job.next free pinned root).1 := by
  cases job with
  | idle => exact ⟨hsound, trivial⟩
  | gcStarted retain dryRun =>
    simp only [Job.next]
    split
    next => exact ⟨hsound, trivial⟩
    next tables htables =>
      refine ⟨hsound, fun name hname => hsound.named name ?_⟩
      rw [Root.active, htables]
      exact hname
  | gcOpened retain dryRun store =>
    simp only [Job.next]
    split
    next => exact ⟨hsound, trivial⟩
    next => exact ⟨hsound, fun name hname => not_active_of_reclaimable hinv hname⟩
  | gcScanned store reclaimable =>
    cases free with
    | true => exact ⟨hsound, hinv⟩
    | false => exact ⟨hsound, trivial⟩
  | gcLocked store reclaimable =>
    simp only [Job.next]
    split
    next => exact ⟨hsound, trivial⟩
    next tables htables =>
      refine ⟨hsound, hinv, fun name hname hactive => ?_⟩
      obtain ⟨hmarked, hother⟩ := mem_interrupted hname
      rcases hfresh with hsame | hunmarked
      · exact hother (hsame.symm.trans hactive)
      · rw [Root.active, htables] at hactive
        refine hunmarked ?_
        rw [Root.activeGcState, htables, Option.bind_some, show tables.revision.active = some name
          from hactive]
        exact hmarked
  | gcRecovering store reclaimable todo gone =>
    cases todo with
    | nil =>
      simp only [Job.next]
      split
      next => exact ⟨hsound, hinv.1⟩
      next =>
        split
        next => exact ⟨hsound, trivial⟩
        next after store' hrecord =>
          obtain ⟨hafter, -, hstore⟩ := sound_record hsound hrecord
          exact ⟨hafter, fun name hname => hstore ▸ hinv.1 name hname⟩
    | cons name todo =>
      obtain ⟨hname, htodo⟩ := List.forall_mem_cons.mp hinv.2
      simp only [Job.next]
      split
      next => exact ⟨hsound, hinv.1, htodo⟩
      next =>
        split
        next => exact ⟨hsound, hinv.1, htodo⟩
        next => exact ⟨hsound.remove hname, hinv.1, htodo⟩
  | gcRecovered store reclaimable deleted =>
    simp only [Job.next]
    split
    next => exact ⟨hsound, trivial⟩
    next =>
      split
      next => exact ⟨hsound, trivial⟩
      next after store' hrecord =>
        obtain ⟨hafter, -, hstore⟩ := sound_record hsound hrecord
        exact ⟨hafter, fun name hname => hstore ▸ hinv name hname⟩
  | gcQueued store reclaimable deleted =>
    simp only [Job.next]
    split
    next => exact ⟨hsound, trivial⟩
    next after store' hrecord =>
      -- the record has seen the revision that was read, so the generation in use is the one read
      obtain ⟨hafter, hactive, hstore⟩ := sound_record hsound hrecord
      exact ⟨hafter, hactive, fun name hname => hstore ▸ hinv name hname⟩
  | gcDeleting store todo deleted =>
    cases todo with
    | nil =>
      simp only [Job.next]
      split
      next => exact ⟨hsound, trivial⟩
      next after store' hrecord => exact ⟨(sound_record hsound hrecord).1, trivial⟩
    | cons name todo =>
      obtain ⟨hactive, hothers⟩ := hinv
      obtain ⟨hname, htodo⟩ := List.forall_mem_cons.mp hothers
      simp only [Job.next]
      split
      next => exact ⟨hsound, trivial⟩
      next => exact ⟨hsound.remove (hactive ▸ hname), hactive, htodo⟩
  | saveStarted base emptyLazy temp =>
    cases free with
    | true => exact ⟨hsound, trivial⟩
    | false => exact ⟨hsound, trivial⟩
  | saveLocked base emptyLazy temp =>
    simp only [Job.next]
    split
    next => exact ⟨hsound, trivial⟩
    next =>
      split
      next => exact ⟨hsound, trivial⟩
      next => exact ⟨hsound, trivial⟩
  | saveChosen base name temp =>
    simp only [Job.next]
    split
    next => exact ⟨hsound, trivial⟩
    next hnew =>
      -- the temporary directory is new, so it is not the generation in use
      refine ⟨⟨fun other hother => List.mem_cons_of_mem _ (hsound.live other hother),
        hsound.named⟩, fun hactive => ?_⟩
      exact hnew (.inr (hsound.live temp hactive))
  | saveWritten base name temp =>
    refine ⟨⟨fun other hother => List.mem_cons_of_mem _ ?_, hsound.named⟩, trivial⟩
    exact (hsound.remove hinv).live other hother
  | savePublished base generation =>
    simp only [Job.next]
    split
    next => exact ⟨hsound, trivial⟩
    next after hcommit => exact ⟨sound_of_commit hcommit, trivial⟩
  | unlocking => exact ⟨hsound, trivial⟩

end Steps

/-! ## Runs -/

section Runs

variable {P : Type} [DecidableEq P] {s t : System P} {p q : P} {job : Job}

@[simp] theorem setJob_job : (s.setJob p job).job q = if q = p then job else s.job q := by
  simp [System.setJob, Function.update_apply]

@[simp] theorem setJob_root : (s.setJob p job).root = s.root := rfl

@[simp] theorem setJob_lock : (s.setJob p job).lock = s.lock := rfl

@[simp] theorem follow_root : (s.follow p job).root = s.root := by
  unfold System.follow
  split <;> rfl

@[simp] theorem follow_job : (s.follow p job).job q = if q = p then job else s.job q := by
  unfold System.follow
  split <;> exact setJob_job

/-- The lock belongs to the participant that works under it, and every participant can rely on what
it has seen. -/
structure System.Inv (s : System P) : Prop where
  sound : s.root.Sound
  owner : ∀ p, (s.job p).holding → s.lock = some p
  jobs : ∀ p, (s.job p).Inv s.root

theorem Initial.inv (h : Initial s) : s.Inv where
  sound := ⟨h.live, h.named⟩
  owner p hp := by
    rw [h.idle p] at hp
    cases hp
  jobs p := by
    rw [h.idle p]
    trivial

/-- A new job that needs no lock. -/
theorem System.Inv.start (h : s.Inv) (hfree : job.holding = false)
    (hjob : job.Inv s.root) : (s.setJob p job).Inv where
  sound := h.sound
  owner q hq := by
    rw [setJob_job] at hq
    split at hq
    next => exact absurd hq (by simp [hfree])
    next => exact h.owner q hq
  jobs q := by
    rw [setJob_job]
    split
    next => exact hjob
    next => exact h.jobs q

theorem System.Inv.crash (h : s.Inv) : ((s.drop p).setJob p .idle).Inv where
  sound := h.sound
  owner q hq := by
    rw [setJob_job] at hq
    split at hq
    next => cases hq
    next hne =>
      have hlock := h.owner q hq
      show (if s.lock = some p then none else s.lock) = some q
      rw [hlock, if_neg fun heq => hne (Option.some.inj heq)]
  jobs q := by
    rw [setJob_job]
    split
    next => trivial
    next => exact h.jobs q

/-- At most the owner of the lock changes the root. -/
theorem System.Inv.advance (h : s.Inv) {pinned : List String} (hfresh : (s.job p).Fresh s.root)
    {root : Root} (hnext : (s.job p).next s.lock.isNone pinned s.root = (root, job)) :
    ({ s with root }.follow p job).Inv := by
  obtain ⟨hsound, hjob⟩ := @next_keeps s.root pinned s.lock.isNone _ h.sound (h.jobs p) hfresh
  rw [hnext] at hsound hjob
  refine ⟨by rwa [follow_root], fun q hq => ?_, fun q => ?_⟩
  · rw [follow_job] at hq
    unfold System.follow
    split at hq
    next heq =>
      rw [if_pos hq, heq]
      rfl
    next hne =>
      have hlock := h.owner q hq
      split
      next hholding =>
        -- two participants at once under the lock
        cases hbefore : (s.job p).holding with
        | true =>
          exact absurd (Option.some.inj ((h.owner p hbefore).symm.trans hlock)).symm hne
        | false =>
          have hfree := @free_of_acquired s.root pinned s.lock.isNone (s.job p) hbefore
            (by rw [hnext]; exact hholding)
          rw [hlock] at hfree
          cases hfree
      next =>
        show (if s.lock = some p then none else s.lock) = some q
        rw [hlock, if_neg fun heq => hne (Option.some.inj heq)]
  · rw [follow_job, follow_root]
    split
    next => exact hjob
    next hne =>
      show (s.job q).Inv root
      cases hbefore : (s.job p).holding with
      | false =>
        have hroot := @next_root_of_free s.root pinned s.lock.isNone _ hbefore
        rw [hnext] at hroot
        rw [show root = s.root from hroot]
        exact h.jobs q
      | true =>
        have hother : (s.job q).holding = false := by
          refine Bool.eq_false_iff.mpr fun hq => hne ?_
          exact Option.some.inj ((h.owner q hq).symm.trans (h.owner p hbefore))
        exact inv_of_free hother (h.jobs q)

/-- Every recovery that starts is fresh. -/
def FreshRecovery (s : System P) : Label P → Prop
  | .advance p _ => (s.job p).Fresh s.root
  | _ => True

instance (root : Root) : DecidablePred (Job.Fresh root)
  | .gcLocked _ _ => inferInstanceAs (Decidable (_ ∨ _))
  | .idle | .gcStarted .. | .gcOpened .. | .gcScanned .. | .gcRecovering .. | .gcRecovered ..
  | .gcQueued .. | .gcDeleting .. | .saveStarted .. | .saveLocked .. | .saveChosen ..
  | .saveWritten .. | .savePublished .. | .unlocking => inferInstanceAs (Decidable True)

instance (s : System P) : DecidablePred (FreshRecovery s)
  | .advance p _ => inferInstanceAs (Decidable ((s.job p).Fresh s.root))
  | .collect .. | .save .. | .crash .. => inferInstanceAs (Decidable True)

theorem System.Inv.next (h : s.Inv) {label : Label P} (hfresh : FreshRecovery s label)
    (hnext : SharedStore.next s label = some t) : t.Inv := by
  cases label with
  | collect p retain dryRun =>
    obtain ⟨-, hsome⟩ := Option.ite_none_right_eq_some.mp hnext
    obtain rfl := Option.some.inj hsome
    exact h.start rfl trivial
  | save p base emptyLazy temp =>
    obtain ⟨-, hsome⟩ := Option.ite_none_right_eq_some.mp hnext
    obtain rfl := Option.some.inj hsome
    exact h.start rfl trivial
  | advance p pinned =>
    obtain rfl := Option.some.inj hnext
    exact h.advance hfresh rfl
  | crash p =>
    obtain rfl := Option.some.inj hnext
    exact h.crash

/-- The generation in use is there in every state of a run whose recoveries are fresh. -/
theorem collections_keep_active {trace : List (System P × Label P)} (hs : Initial s)
    (h : Run s trace t) (hfresh : Machine.AllSteps FreshRecovery trace) :
    Machine.AllStates (fun s => s.root.Live) trace t := by
  have hinv : Machine.AllStates System.Inv trace t :=
    Machine.Run.invariant h hs.inv (fun _ _ _ hinv hfresh hnext => hinv.next hfresh hnext) hfresh
  exact ⟨fun entry hentry => (hinv.1 entry hentry).sound.live, hinv.2.sound.live⟩

end Runs

/-! ## A recovery after a cut collection -/

/-- The deletion of the second generation was cut. -/
def cutSystem : System Nat where
  root := ⟨some ⟨⟨3, some "g000000000001.odb"⟩, [("g000000000002.odb", .deleting)]⟩,
    ["g000000000001.odb", "g000000000002.odb"], false⟩
  lock := none
  job := fun _ => .idle

theorem initial_cutSystem : Initial cutSystem where
  live name hname := by
    obtain rfl := Option.some.inj hname
    decide
  named name hname := by
    obtain rfl := Option.some.inj hname
    decide +kernel
  lock := rfl
  idle _ := rfl

/-- A collection that recovers. -/
def recovery : List (Label Nat) := .collect 0 1 false :: List.replicate 7 (.advance 0 [])

theorem cut_recovery_keeps_active : ∃ trace t, Run cutSystem trace t ∧
    t.root.vectors = ["g000000000001.odb"] ∧
    Machine.AllStates (fun s => s.root.Live) trace t := by
  have hvectors : (Machine.exec (fun s label =>
      if FreshRecovery s label then next s label else none) cutSystem recovery).map
      (fun s => s.root.vectors) = some ["g000000000001.odb"] := by
    decide +kernel
  obtain ⟨t, hexec, hvectors⟩ := Option.map_eq_some_iff.mp hvectors
  obtain ⟨trace, hrun, hfresh⟩ := Machine.run_of_exec_where hexec
  exact ⟨trace, t, hrun, hvectors, collections_keep_active initial_cutSystem hrun hfresh⟩

/-! ## A generation that is used again -/

def emptySystem : System Nat := ⟨⟨none, [], false⟩, none, fun _ => .idle⟩

theorem initial_emptySystem : Initial emptySystem := ⟨nofun, nofun, rfl, fun _ => rfl⟩

/-- A save; the next one is cut before its commit; a collection marks and deletes what it left and
is cut before it says so. Another collection opens the store, and before it has the lock a save
publishes under the same name again. -/
def reuse : List (Label Nat) :=
  .save 0 none false ".first" :: List.replicate 6 (.advance 0 []) ++
  .save 1 (some ⟨1, "g000000000001.odb"⟩) false ".second" :: List.replicate 4 (.advance 1 []) ++
  .crash 1 :: .collect 2 0 false :: List.replicate 8 (.advance 2 []) ++
  .crash 2 :: .collect 3 0 false :: List.replicate 2 (.advance 3 []) ++
  .save 4 (some ⟨3, "g000000000001.odb"⟩) false ".third" :: List.replicate 6 (.advance 4 [])

/-- The recovery of the second collection deletes the generation in use. -/
theorem collection_deletes_active : ∃ trace t, Initial emptySystem ∧ Run emptySystem trace t ∧
    t.root.active = some "g000000000002.odb" ∧ t.root.vectors = ["g000000000001.odb"] ∧
    ¬Machine.AllStates (fun s => s.root.Live) trace t := by
  have hroot : (Machine.exec next emptySystem (reuse ++ List.replicate 3 (.advance 3 []))).map
      System.root = some ⟨some ⟨⟨4, some "g000000000002.odb"⟩, [("g000000000002.odb", .reclaimable),
        ("g000000000002.odb", .deleting)]⟩, ["g000000000001.odb"], false⟩ := by decide +kernel
  obtain ⟨t, hexec, hroot⟩ := Option.map_eq_some_iff.mp hroot
  obtain ⟨trace, hrun⟩ := Machine.run_of_exec hexec
  refine ⟨trace, t, initial_emptySystem, hrun, by rw [hroot]; rfl, by rw [hroot], fun hlive => ?_⟩
  have hmem := hlive.2 "g000000000002.odb" (by rw [hroot]; rfl)
  rw [hroot] at hmem
  exact absurd hmem (by decide)

end OrdinalDB.SharedStore
