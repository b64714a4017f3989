import OrdinalDB.Lib.Machine
import OrdinalDB.Bundle.Recovery
import OrdinalDB.Bundle.Writer
import OrdinalDB.Bundle.Load

/-!
# One writer and any number of loads

A call of `write_bundle` over an existing bundle, interleaved with loads of the
same path. No step fails on its own, so every error comes from another party.

The code takes no lock here. A load that finds the target missing cannot tell a
crash from the window between the two renames of a live writer, and its repair
makes the second rename fail; a load that goes on across the second rename reads
files of both bundles.

Results:
1. `readers_and_writer`: the call returns Ok, with the new bundle in place,
   exactly when no load repaired; repairs only happen between the two renames;
   a load that the second rename does not cross returns the old or the new
   bundle as a whole.
2. `readers_disturb_writer`: both exceptions happen.
-/

set_option linter.unusedSectionVars false

namespace OrdinalDB.Bundle.Readers

variable {F H S L : Type} [DecidableEq H] [DecidableEq S] [DecidableEq L]

structure State (F L : Type) where
  dir : Dir (Files F)
  clock : Nat
  writer : Writer (Files F)
  load : L → LoadPc F
  /-- A load has renamed a backup to the target. -/
  repaired : Bool
  /-- The load was reading when the writer renamed its directory to the target. -/
  crossed : L → Bool

inductive Label (L : Type)
  | write (io : Io)
  | load (l : L)

def start (dir : Dir (Files F)) (clock : Nat) (pid : UInt32) (content : Files F) : State F L :=
  ⟨dir, clock, .start content pid, fun _ => .inspect, false, fun _ => false⟩

section Model

variable (codec : Codec F H S) (kind : L → IndexKind) (target : Name) (modifiedNanos : Name → Nat)

/-- The step of a load that finds a backup to rename and no target. -/
def repairs (s : State F L) (l : L) : Bool :=
  match s.load l with
  | .recover backup => (s.dir.rename backup target).isSome
  | _ => false

def next (s : State F L) : Label L → Option (State F L)
  | .write io =>
    if !io.ok ∨ s.writer.isReturned ∨
        s.writer.readsClock ∧ ¬(s.clock < io.now ∧ io.now < u128Bound) then none
    else
      let (w, dir) := s.writer.next target s.dir io
      some { s with
        dir := dir
        clock := if s.writer.readsClock then io.now else s.clock
        writer := w
        crossed := fun l => s.crossed l || s.writer.publishes w && (s.load l).reading }
  | .load l =>
    let (pc, dir) := (s.load l).next codec (kind l) target modifiedNanos s.dir
    some { s with
      dir := dir
      load := Function.update s.load l pc
      repaired := s.repaired || repairs target s l }

/-- Runs of the writer and the loads from an existing bundle. -/
abbrev Run (s₀ : State F L) (trace : List (State F L × Label L)) (s : State F L) : Prop :=
  Machine.Run (fun s label t => next codec kind target modifiedNanos s label = some t) s₀ trace s

end Model

/-- A valid bundle is in place, its backups were made by the naming scheme, and the clock is past
every time stamp in the directory. -/
structure Ready (target : Name) (dir : Dir (Files F)) (clock : Nat) (old : Files F) : Prop where
  existing : dir.lookup target = some (.bundle old)
  wellNamed : WellNamed target clock dir
  temps : ∀ pid now, tempBundleName target pid now ∈ dir → now ≤ clock

/-- What the writer and the loads have come to. -/
structure Outcome (target : Name) (old new : Files F) (s : State F L) : Prop where
  writer : ∀ ok, s.writer.pc = .returned ok →
    (ok = true ↔ s.repaired = false) ∧
      s.dir.lookup target = some (.bundle (if ok then new else old))
  loads : ∀ l files, s.load l = .returned (some files) → s.crossed l = false →
    files = old ∨ files = new

/-- A repair comes between the two renames of the writer. -/
def RepairInWindow (target : Name) (s : State F L) (label : Label L) : Prop :=
  ∀ l, label = .load l → repairs target s l → s.writer.pc = .syncAside ∨ s.writer.pc = .publish

/-! ## The invariant -/

/-- The writer has moved the old bundle aside. -/
def late : Pc → Bool
  | .syncAside | .publish | .restore | .syncPublish | .remove | .removing | .returned _ => true
  | _ => false

/-- The writer has published. -/
def published : Pc → Bool
  | .syncPublish | .remove | .removing | .returned true => true
  | _ => false

/-- The bundle that the target names, when it names one. -/
def version (old : Files F) (w : Writer (Files F)) : Files F :=
  if published w.pc then w.content else old

def WriterAt (target : Name) (dir : Dir (Files F)) (clock : Nat) (old : Files F) (repaired : Bool)
    (w : Writer (Files F)) : Prop :=
  match w.pc with
  | .name =>
    dir.lookup target = some (.bundle old) ∧ repaired = false ∧
      ∀ pid now, tempBundleName target pid now ∈ dir → now ≤ clock
  | .clear =>
    dir.lookup target = some (.bundle old) ∧ repaired = false ∧ Scratch target w.temp ∧
      dir.lookup w.temp = none
  | .create | .syncTemp | .fill =>
    dir.lookup target = some (.bundle old) ∧ repaired = false ∧ Scratch target w.temp
  | .inspect | .probe =>
    dir.lookup target = some (.bundle old) ∧ repaired = false ∧ Scratch target w.temp ∧
      dir.lookup w.temp = some (.bundle w.content)
  | .moveAside =>
    dir.lookup target = some (.bundle old) ∧ repaired = false ∧ Scratch target w.temp ∧
      dir.lookup w.temp = some (.bundle w.content) ∧
      ∃ backup, w.backup = some backup ∧ ∃ now ≤ clock, BackupAt target backup now ∧
        ∀ other ∈ dir, ∀ stamp, BackupAt target other stamp → stamp < now
  | .syncAside | .publish =>
    Scratch target w.temp ∧ dir.lookup w.temp = some (.bundle w.content) ∧
      ∃ backup, w.backup = some backup ∧ (∃ now ≤ clock, BackupAt target backup now) ∧
        (repaired = true ∧ dir.lookup target = some (.bundle old) ∨
          repaired = false ∧ dir.lookup target = none ∧ Newest target dir backup old)
  | .restore | .returned false => repaired = true ∧ dir.lookup target = some (.bundle old)
  | .syncPublish | .remove | .removing =>
    repaired = false ∧ dir.lookup target = some (.bundle w.content) ∧
      ∀ backup, w.backup = some backup → ∃ now ≤ clock, BackupAt target backup now
  | .returned true => repaired = false ∧ dir.lookup target = some (.bundle w.content)
  | .clearing | .discard => False

/-- While the target is missing, a load that looks for a backup is on its way to the newest. -/
def LoadAt (target : Name) (dir : Dir (Files F)) (old : Files F) (w : Writer (Files F))
    (crossed : Bool) : LoadPc F → Prop
  | .inspect | .manifest | .returned none => True
  | .list => late w.pc
  | .stat todo found =>
    late w.pc ∧ (dir.lookup target = none →
      (∀ name ∈ dir, IsBackup target name → name ∈ todo ∨ name ∈ found) ∧
        ∀ name, name ∈ todo ∨ name ∈ found → name ∈ dir ∧ IsBackup target name)
  | .attempt candidates =>
    late w.pc ∧ (dir.lookup target = none →
      ∃ backup rest, candidates = backup :: rest ∧ Newest target dir backup old)
  | .recover backup => late w.pc ∧ (dir.lookup target = none → Newest target dir backup old)
  | .verify files _ | .loadRank files => crossed = false → files = version old w
  | .loadSign files rank =>
    crossed = false → files = version old w ∧ files .rank = some rank
  | .loadIds files rank sign =>
    crossed = false → files = version old w ∧ files .rank = some rank ∧ files .sign = sign
  | .returned (some files) => crossed = false → files = old ∨ files = w.content

structure Inv (target : Name) (old new : Files F) (s : State F L) : Prop where
  wellNamed : WellNamed target s.clock s.dir
  content : s.writer.content = new
  writer : WriterAt target s.dir s.clock old s.repaired s.writer
  load : ∀ l, LoadAt target s.dir old s.writer (s.crossed l) (s.load l)

variable {target name : Name} {dir dir' : Dir (Files F)} {clock : Nat} {old new files : Files F}
  {repaired crossed : Bool} {w w' : Writer (Files F)} {io : Io} {pc : LoadPc F}

/-- What is in place is the version that the writer has come to. -/
theorem WriterAt.version_of_lookup (h : WriterAt target dir clock old repaired w)
    {node : Node (Files F)} (hnode : dir.lookup target = some node) :
    node = .bundle (version old w) := by
  obtain ⟨content, pid, temp, backup, pc⟩ := w
  have hold (h : dir.lookup target = some (.bundle old)) : node = .bundle old :=
    Option.some.inj (hnode.symm.trans h)
  have hnew (h : dir.lookup target = some (.bundle content)) : node = .bundle content :=
    Option.some.inj (hnode.symm.trans h)
  cases pc with
  | name | clear | create | syncTemp | fill | inspect | probe | moveAside => exact hold h.1
  | clearing | discard => exact h.elim
  | syncAside | publish =>
    obtain ⟨-, -, -, -, -, ⟨-, h⟩ | ⟨-, h, -⟩⟩ := h
    · exact hold h
    · rw [h] at hnode; cases hnode
  | restore => exact hold h.2
  | syncPublish | remove | removing => exact hnew h.2.1
  | returned ok =>
    cases ok with
    | false => exact hold h.2
    | true => exact hnew h.2

/-- The target is missing only in the window. -/
theorem WriterAt.window (h : WriterAt target dir clock old repaired w)
    (hmissing : dir.lookup target = none) :
    (w.pc = .syncAside ∨ w.pc = .publish) ∧ repaired = false ∧
      ∃ backup, w.backup = some backup ∧ Newest target dir backup old := by
  obtain ⟨content, pid, temp, backup, pc⟩ := w
  have hfound {x : Files F} (h : dir.lookup target = some (.bundle x)) : False := by
    rw [hmissing] at h; cases h
  cases pc with
  | name | clear | create | syncTemp | fill | inspect | probe | moveAside => exact (hfound h.1).elim
  | clearing | discard => exact h.elim
  | syncAside =>
    obtain ⟨-, -, backup, hbackup, -, ⟨-, h⟩ | ⟨hrep, -, h⟩⟩ := h
    · exact (hfound h).elim
    · exact ⟨.inl rfl, hrep, backup, hbackup, h⟩
  | publish =>
    obtain ⟨-, -, backup, hbackup, -, ⟨-, h⟩ | ⟨hrep, -, h⟩⟩ := h
    · exact (hfound h).elim
    · exact ⟨.inr rfl, hrep, backup, hbackup, h⟩
  | restore => exact (hfound h.2).elim
  | syncPublish | remove | removing => exact (hfound h.2.1).elim
  | returned ok => cases ok <;> exact (hfound h.2).elim

/-! ## Steps of a load -/

section LoadSteps

theorem readFile_eq_version (h : WriterAt target dir clock old repaired w) {artifact : Artifact}
    {file : F} (hread : readFile target dir artifact = some file) :
    version old w artifact = some file := by
  unfold readFile at hread
  split at hread
  next files hlookup =>
    cases h.version_of_lookup hlookup
    exact hread
  next => cases hread

/-- A step of a load that is not a repair. -/
theorem LoadAt.next (codec : Codec F H S) (kind : IndexKind) (modifiedNanos : Name → Nat)
    (hwell : WellNamed target clock dir)
    (hw : WriterAt target dir clock old repaired w)
    (h : LoadAt target dir old w crossed pc)
    (hrepair : ∀ backup, pc = .recover backup → dir.rename backup target = none) :
    (pc.next codec kind target modifiedNanos dir).2 = dir ∧
      LoadAt target dir old w crossed (pc.next codec kind target modifiedNanos dir).1 := by
  cases pc with
  | inspect =>
    refine ⟨rfl, ?_⟩
    simp only [LoadPc.next]
    split
    next => trivial
    next => trivial
    next hmissing =>
      obtain ⟨hpc, -⟩ := hw.window hmissing
      rcases hpc with hpc | hpc <;> simp [LoadAt, hpc, late]
  | list =>
    refine ⟨rfl, h, fun hmissing => ⟨fun name hname hbackup => .inl ?_, fun name hname => ?_⟩⟩
    · exact mem_backups.mpr ⟨hname, hbackup⟩
    · rcases hname with hname | hname
      · exact mem_backups.mp hname
      · cases hname
  | stat todo found =>
    obtain ⟨hlate, hall⟩ := h
    cases todo with
    | nil =>
      refine ⟨rfl, hlate, fun hmissing => ?_⟩
      -- all backups have been read: the newest one is sorted to the front
      obtain ⟨hcover, hsound⟩ := hall hmissing
      obtain ⟨-, -, backup, -, hnewest⟩ := hw.window hmissing
      obtain ⟨now, hnow, -⟩ := id hnewest.newest
      have hbackup : backup ∈ dir := AList.lookup_isSome.mp (by rw [hnewest.lookup]; rfl)
      have hfound : backup ∈ found := (hcover backup hbackup hnow.isBackup).resolve_left (by simp)
      obtain ⟨rest, hrest⟩ := hnewest.head modifiedNanos hfound fun name hname => by
        obtain ⟨hdir, hname⟩ := hsound name (.inr hname)
        obtain ⟨stamp, -, hstamp⟩ := hwell.backupAt hdir hname
        exact ⟨hdir, stamp, hstamp⟩
      exact ⟨backup, rest, hrest, hnewest⟩
    | cons name todo =>
      refine ⟨rfl, ?_⟩
      simp only [LoadPc.next]
      split
      next => trivial
      next => trivial
      next hfile =>
        refine ⟨hlate, fun hmissing => ?_⟩
        obtain ⟨hcover, hsound⟩ := hall hmissing
        have hdir := (hwell name _ hfile (hsound name (.inl List.mem_cons_self)).2).1
        cases hdir
      next =>
        refine ⟨hlate, fun hmissing => ?_⟩
        obtain ⟨hcover, hsound⟩ := hall hmissing
        constructor
        · intro other hother hbackup
          have hcase := hcover other hother hbackup
          simp only [List.mem_cons, List.mem_append, List.not_mem_nil, or_false] at hcase ⊢
          tauto
        · intro other hother
          refine hsound other ?_
          simp only [List.mem_cons, List.mem_append, List.not_mem_nil, or_false] at hother ⊢
          tauto
  | attempt candidates =>
    obtain ⟨hlate, hhead⟩ := h
    cases candidates with
    | nil => exact ⟨rfl, trivial⟩
    | cons backup rest =>
      refine ⟨rfl, ?_⟩
      simp only [LoadPc.next]
      split
      next =>
        refine ⟨hlate, fun hmissing => ?_⟩
        obtain ⟨newest, others, heq, hnewest⟩ := hhead hmissing
        cases heq
        exact hnewest
      next hrejected =>
        refine ⟨hlate, fun hmissing => ?_⟩
        obtain ⟨newest, others, heq, hnewest⟩ := hhead hmissing
        cases heq
        rw [hnewest.lookup] at hrejected
        exact absurd rfl hrejected
  | recover backup =>
    simp only [LoadPc.next, hrepair backup rfl]
    exact ⟨trivial, trivial⟩
  | manifest =>
    refine ⟨rfl, ?_⟩
    simp only [LoadPc.next]
    split
    next files hlookup =>
      cases hw.version_of_lookup hlookup
      exact fun _ => rfl
    next => trivial
  | verify manifest todo =>
    cases todo with
    | nil => exact ⟨rfl, h⟩
    | cons artifact todo =>
      refine ⟨rfl, ?_⟩
      simp only [LoadPc.next]
      split
      next => exact h
      next =>
        split
        next => exact h
        next => trivial
  | loadRank manifest =>
    refine ⟨rfl, ?_⟩
    simp only [LoadPc.next]
    split
    next => trivial
    next rank hread =>
      split
      next => exact fun hsteady => ⟨h hsteady, (h hsteady) ▸ readFile_eq_version hw hread⟩
      next => trivial
  | loadSign manifest rank =>
    refine ⟨rfl, ?_⟩
    simp only [LoadPc.next]
    split
    next =>
      split
      next sign hread =>
        split
        next =>
          exact fun hsteady => ⟨(h hsteady).1, (h hsteady).2,
            (h hsteady).1 ▸ readFile_eq_version hw hread⟩
        next => trivial
      next => trivial
    next hnone =>
      split
      next => trivial
      next => exact fun hsteady => ⟨(h hsteady).1, (h hsteady).2, hnone⟩
  | loadIds manifest rank sign =>
    refine ⟨rfl, ?_⟩
    -- with the ids the files are a whole version, unless the load has crossed a publication
    have hwhole {ids : Option F} (hids : crossed = false → manifest .ids = ids) :
        crossed = false → collect rank sign ids = old ∨ collect rank sign ids = w.content := by
      intro hsteady
      obtain ⟨hversion, hrank, hsign⟩ := h hsteady
      have hfiles : collect rank sign ids = manifest := by
        funext artifact
        cases artifact with
        | rank => exact hrank.symm
        | sign => exact hsign.symm
        | ids => exact (hids hsteady).symm
      rw [hfiles, hversion]
      unfold version
      split
      next => exact .inr rfl
      next => exact .inl rfl
    simp only [LoadPc.next]
    split
    next hnone => exact hwhole fun _ => hnone
    next =>
      split
      next ids hread =>
        split
        next => exact hwhole fun hsteady => (h hsteady).1 ▸ readFile_eq_version hw hread
        next => trivial
      next => trivial
    next => trivial
  | returned result => exact ⟨rfl, h⟩

end LoadSteps

/-! ## Steps of the writer -/

/-- What a step of the writer means for the loads. -/
structure Advances (target : Name) (old : Files F) (dir dir' : Dir (Files F))
    (w w' : Writer (Files F)) : Prop where
  sameContent : w'.content = w.content
  staysLate : late w.pc → late w'.pc
  sameDir : late w.pc → dir'.lookup target = none → dir' = dir
  sameVersion : w.publishes w' = false → version old w' = version old w

/-- A load keeps its part when another party advances. -/
theorem LoadAt.advance (h : LoadAt target dir old w crossed pc)
    (hadv : Advances target old dir dir' w w') :
    LoadAt target dir' old w' (crossed || w.publishes w' && pc.reading) pc := by
  have hsteady (hreading : pc.reading)
      (hcrossed : (crossed || w.publishes w' && pc.reading) = false) :
      crossed = false ∧ version old w' = version old w := by
    simp only [hreading, Bool.and_true, Bool.or_eq_false_iff] at hcrossed
    exact ⟨hcrossed.1, hadv.sameVersion hcrossed.2⟩
  cases pc with
  | inspect | manifest => trivial
  | list => exact hadv.staysLate h
  | stat todo found =>
    refine ⟨hadv.staysLate h.1, fun hmissing => ?_⟩
    obtain rfl := hadv.sameDir h.1 hmissing
    exact h.2 hmissing
  | attempt candidates =>
    refine ⟨hadv.staysLate h.1, fun hmissing => ?_⟩
    obtain rfl := hadv.sameDir h.1 hmissing
    exact h.2 hmissing
  | recover backup =>
    refine ⟨hadv.staysLate h.1, fun hmissing => ?_⟩
    obtain rfl := hadv.sameDir h.1 hmissing
    exact h.2 hmissing
  | verify files todo =>
    intro hcrossed
    obtain ⟨hold, hversion⟩ := hsteady rfl hcrossed
    exact hversion ▸ h hold
  | loadRank files =>
    intro hcrossed
    obtain ⟨hold, hversion⟩ := hsteady rfl hcrossed
    exact hversion ▸ h hold
  | loadSign files rank =>
    intro hcrossed
    obtain ⟨hold, hversion⟩ := hsteady rfl hcrossed
    exact hversion ▸ h hold
  | loadIds files rank sign =>
    intro hcrossed
    obtain ⟨hold, hversion⟩ := hsteady rfl hcrossed
    exact hversion ▸ h hold
  | returned result =>
    cases result with
    | none => trivial
    | some files =>
      intro hcrossed
      simp only [LoadPc.reading, Bool.and_false, Bool.or_false] at hcrossed
      exact hadv.sameContent ▸ h hcrossed

/-- One case for each step of the writer, none of which fails on its own. -/
theorem WriterAt.next (hwell : WellNamed target clock dir)
    (hw : WriterAt target dir clock old repaired w) (hok : io.ok)
    (hclock : w.readsClock → clock < io.now ∧ io.now < u128Bound) :
    WellNamed target (if w.readsClock then io.now else clock) (w.next target dir io).2 ∧
      WriterAt target (w.next target dir io).2 (if w.readsClock then io.now else clock) old repaired
        (w.next target dir io).1 ∧
      Advances target old dir (w.next target dir io).2 w (w.next target dir io).1 := by
  obtain ⟨content, pid, temp, backup, pc⟩ := w
  cases pc with
  | name =>
    obtain ⟨htarget, hrepaired, htemps⟩ := hw
    obtain ⟨hnow, -⟩ := hclock rfl
    simp only [Writer.next, hok]
    -- the clock has moved on, so no directory has the new temporary name
    have hmissing : tempBundleName target pid.toNat io.now ∉ dir :=
      fun hmem => absurd (htemps _ _ hmem) (by omega)
    have hne : tempBundleName target pid.toNat io.now ≠ target := by
      intro heq
      refine hmissing (AList.lookup_isSome.mp ?_)
      rw [heq, htarget]
      rfl
    exact ⟨hwell.mono hnow.le,
      ⟨htarget, hrepaired, scratch_tempBundleName hne, AList.lookup_eq_none.mpr hmissing⟩,
      rfl, id, (absurd · Bool.false_ne_true), fun _ => rfl⟩
  | clear =>
    obtain ⟨htarget, hrepaired, hscratch, hmissing⟩ := hw
    simp only [Writer.next, hmissing]
    exact ⟨hwell, ⟨htarget, hrepaired, hscratch⟩, rfl, id, (absurd · Bool.false_ne_true), fun _ => rfl⟩
  | clearing => exact hw.elim
  | create =>
    obtain ⟨htarget, hrepaired, hscratch⟩ := hw
    simp only [Writer.next, hok]
    exact ⟨hwell.insert fun h => absurd h hscratch.2,
      ⟨(AList.lookup_insert_ne hscratch.1.symm).trans htarget, hrepaired, hscratch⟩,
      rfl, id, (absurd · Bool.false_ne_true), fun _ => rfl⟩
  | syncTemp =>
    simp only [Writer.next, hok]
    exact ⟨hwell, hw, rfl, id, (absurd · Bool.false_ne_true), fun _ => rfl⟩
  | fill =>
    obtain ⟨htarget, hrepaired, hscratch⟩ := hw
    simp only [Writer.next, hok]
    exact ⟨hwell.insert fun h => absurd h hscratch.2,
      ⟨(AList.lookup_insert_ne hscratch.1.symm).trans htarget, hrepaired, hscratch,
        AList.lookup_insert _⟩,
      rfl, id, (absurd · Bool.false_ne_true), fun _ => rfl⟩
  | discard => exact hw.elim
  | inspect =>
    simp only [Writer.next, hw.1, hok]
    exact ⟨hwell, hw, rfl, id, (absurd · Bool.false_ne_true), fun _ => rfl⟩
  | probe =>
    obtain ⟨htarget, hrepaired, hscratch, hfilled⟩ := hw
    obtain ⟨hnow, hbound⟩ := hclock rfl
    have hmem : target ∈ dir := AList.lookup_isSome.mp (by rw [htarget]; rfl)
    simp only [Writer.next, hmem, hok]
    refine ⟨hwell.mono hnow.le, ⟨htarget, hrepaired, hscratch, hfilled, _, rfl, io.now, le_rfl,
      backupAt_uniqueBackupBundleName hbound, fun other hother stamp hstamp =>
        (hwell.stamp_le hother hstamp).trans_lt hnow⟩,
      rfl, id, (absurd · Bool.false_ne_true), fun _ => rfl⟩
  | moveAside =>
    obtain ⟨htarget, hrepaired, hscratch, hfilled, name, rfl, now, hnow, hbackup, hlast⟩ := hw
    have hne : target ≠ name := (ne_target_of_isBackup hbackup.isBackup).symm
    -- the name of the backup is newer than every backup
    have hfree : dir.lookup name = none := AList.lookup_eq_none.mpr fun hmem =>
      absurd (hlast name hmem now hbackup) (lt_irrefl now)
    simp only [Writer.next, Option.bind_some, Dir.rename_of_lookup htarget hfree, hok]
    have htemp : temp ≠ name := fun h => hscratch.2 (h ▸ hbackup.isBackup)
    exact ⟨hwell.erase.insert fun _ => ⟨rfl, now, hnow, hbackup⟩,
      ⟨hscratch, (AList.lookup_insert_ne htemp).trans ((AList.lookup_erase_ne hscratch.1).trans hfilled),
        name, rfl, ⟨now, hnow, hbackup⟩,
        .inr ⟨hrepaired, (AList.lookup_insert_ne hne).trans (AList.lookup_erase _ _),
          .moveAside hbackup hlast⟩⟩,
      rfl, fun _ => rfl, (absurd · Bool.false_ne_true), fun _ => rfl⟩
  | syncAside =>
    simp only [Writer.next, hok]
    exact ⟨hwell, hw, rfl, id, fun _ _ => rfl, fun _ => rfl⟩
  | publish =>
    obtain ⟨hscratch, hfilled, name, rfl, hbackup, hwindow⟩ := hw
    -- a reader may have put the backup back: then the rename fails on the target
    rcases hwindow with ⟨hrepaired, htarget⟩ | ⟨hrepaired, htarget, hnewest⟩
    · simp only [Writer.next, Dir.rename_of_dest htarget]
      exact ⟨hwell, ⟨hrepaired, htarget⟩, rfl, id, fun _ _ => rfl, fun _ => rfl⟩
    · simp only [Writer.next, Dir.rename_of_lookup hfilled htarget, hok]
      have hplaced : AList.lookup target ((dir.erase temp).insert target (.bundle content)) =
          some (.bundle content) := AList.lookup_insert _
      refine ⟨hwell.erase.insert fun h => absurd h not_isBackup_target,
        ⟨hrepaired, hplaced, fun other hother => Option.some.inj hother ▸ hbackup⟩,
        rfl, id, fun _ h => ?_, fun h => absurd h.symm Bool.false_ne_true⟩
      exact absurd (hplaced.symm.trans h) (by simp)
  | restore =>
    obtain ⟨hrepaired, htarget⟩ := hw
    have hrename : (backup.bind fun name => dir.rename name target : Option (Dir (Files F))) = none := by
      cases backup with
      | none => rfl
      | some name => exact Dir.rename_of_dest htarget
    simp only [Writer.next, hrename]
    exact ⟨hwell, ⟨hrepaired, htarget⟩, rfl, id, fun _ _ => rfl, fun _ => rfl⟩
  | syncPublish =>
    simp only [Writer.next, hok]
    exact ⟨hwell, hw, rfl, id, fun _ _ => rfl, fun _ => rfl⟩
  | remove =>
    obtain ⟨hrepaired, htarget, hbackup⟩ := hw
    cases backup with
    | none => exact ⟨hwell, ⟨hrepaired, htarget⟩, rfl, id, fun _ _ => rfl, fun _ => rfl⟩
    | some name =>
      by_cases hpresent : name ∈ dir <;> simp only [Writer.next, hok, hpresent]
      case pos =>
        obtain ⟨now, hnow, hname⟩ := hbackup name rfl
        have hkept : AList.lookup target (dir.insert name (.torn io.verifies)) =
            some (.bundle content) :=
          (AList.lookup_insert_ne (ne_target_of_isBackup hname.isBackup).symm).trans htarget
        refine ⟨hwell.insert fun _ => ⟨rfl, now, hnow, hname⟩, ⟨hrepaired, hkept, hbackup⟩,
          rfl, id, fun _ h => ?_, fun _ => rfl⟩
        exact absurd (hkept.symm.trans h) (by simp)
      case neg => exact ⟨hwell, ⟨hrepaired, htarget⟩, rfl, id, fun _ _ => rfl, fun _ => rfl⟩
  | removing =>
    obtain ⟨hrepaired, htarget, hbackup⟩ := hw
    simp only [Writer.next, hok]
    cases backup with
    | none => exact ⟨hwell, ⟨hrepaired, htarget⟩, rfl, id, fun _ _ => rfl, fun _ => rfl⟩
    | some name =>
      obtain ⟨now, hnow, hname⟩ := hbackup name rfl
      have hkept : AList.lookup target (dir.erase name) = some (.bundle content) :=
        (AList.lookup_erase_ne (ne_target_of_isBackup hname.isBackup).symm).trans htarget
      refine ⟨hwell.erase, ⟨hrepaired, hkept⟩, rfl, id, fun _ h => ?_, fun _ => rfl⟩
      exact absurd (hkept.symm.trans h) (by simp)
  | returned ok => exact ⟨hwell, hw, rfl, id, fun _ _ => rfl, fun _ => rfl⟩

/-! ## A repair -/

/-- With the target back in place no backup is looked for any more. -/
theorem LoadAt.of_target (h : LoadAt target dir old w crossed pc) {node : Node (Files F)}
    (htarget : dir'.lookup target = some node) : LoadAt target dir' old w crossed pc := by
  have hpresent : dir'.lookup target ≠ none := by rw [htarget]; simp
  cases pc with
  | stat todo found => exact ⟨h.1, fun hmissing => absurd hmissing hpresent⟩
  | attempt candidates => exact ⟨h.1, fun hmissing => absurd hmissing hpresent⟩
  | recover backup => exact ⟨h.1, fun hmissing => absurd hmissing hpresent⟩
  | inspect | list | manifest | verify | loadRank | loadSign | loadIds => exact h
  | returned result => cases result <;> exact h

/-- The repair of a load puts the old bundle back under a writer in its window. -/
theorem WriterAt.repair {backup : Name} (hw : WriterAt target dir clock old repaired w)
    (hmissing : dir.lookup target = none) (hnewest : Newest target dir backup old) :
    WriterAt target ((dir.erase backup).insert target (.bundle old)) clock old true w := by
  obtain ⟨hpc, -⟩ := hw.window hmissing
  have hplaced : AList.lookup target ((dir.erase backup).insert target (.bundle old)) =
      some (.bundle old) := AList.lookup_insert _
  obtain ⟨now, hnow, -⟩ := hnewest.newest
  have hfilled (hscratch : Scratch target w.temp)
      (hfilled : dir.lookup w.temp = some (.bundle w.content)) :
      AList.lookup w.temp ((dir.erase backup).insert target (.bundle old)) =
        some (.bundle w.content) := by
    have hne : w.temp ≠ backup := fun h => hscratch.2 (h ▸ hnow.isBackup)
    exact (AList.lookup_insert_ne hscratch.1).trans ((AList.lookup_erase_ne hne).trans hfilled)
  obtain ⟨content, pid, temp, backup, pc⟩ := w
  rcases hpc with rfl | rfl
  all_goals
    obtain ⟨hscratch, htemp, name, hname, hstamp, -⟩ := hw
    exact ⟨hscratch, hfilled hscratch htemp, name, hname, hstamp, .inl ⟨rfl, hplaced⟩⟩

/-! ## Runs -/

variable {s t : State F L} {label : Label L} {codec : Codec F H S} {kind : L → IndexKind}
  {modifiedNanos : Name → Nat}

theorem Inv.start {pid : UInt32} (h : Ready target dir clock old) :
    Inv target old new (start dir clock pid new : State F L) where
  wellNamed := h.wellNamed
  content := rfl
  writer := ⟨h.existing, rfl, h.temps⟩
  load _ := trivial

theorem Inv.write (h : Inv target old new s)
    (hnext : next codec kind target modifiedNanos s (.write io) = some t) : Inv target old new t := by
  simp only [Readers.next] at hnext
  split at hnext
  next => cases hnext
  next henabled =>
    obtain rfl := Option.some.inj hnext
    simp only [not_or, Bool.not_eq_true, Bool.not_eq_false'] at henabled
    obtain ⟨hok, -, hclock⟩ := henabled
    obtain ⟨hwell, hwriter, hadv⟩ := h.writer.next h.wellNamed hok
      fun hreads => by by_contra hlate; exact hclock ⟨hreads, hlate⟩
    exact ⟨hwell, hadv.sameContent.trans h.content, hwriter, fun l => (h.load l).advance hadv⟩

theorem Inv.load_step {l : L} (h : Inv target old new s)
    (hnext : next codec kind target modifiedNanos s (.load l) = some t) : Inv target old new t := by
  simp only [Readers.next, Option.some.injEq] at hnext
  obtain rfl := hnext
  cases hrepairs : repairs target s l with
  | false =>
    have hnone : ∀ backup, s.load l = .recover backup → s.dir.rename backup target = none := by
      intro backup hpc
      simpa [repairs, hpc] using hrepairs
    obtain ⟨hdir, hload⟩ := (h.load l).next codec (kind l) modifiedNanos h.wellNamed h.writer hnone
    simp only [hdir, Bool.or_false]
    refine ⟨h.wellNamed, h.content, h.writer, fun other => ?_⟩
    by_cases hother : other = l
    · subst hother
      simpa using hload
    · simpa [hother] using h.load other
  | true =>
    unfold repairs at hrepairs
    split at hrepairs
    next backup hpc =>
      obtain ⟨dir', hrename⟩ := Option.isSome_iff_exists.mp hrepairs
      obtain ⟨node, hnode, hmissing, rfl⟩ := Dir.rename_eq_some hrename
      have hload := h.load l
      rw [hpc] at hload
      have hnewest := hload.2 hmissing
      cases Option.some.inj (hnode.symm.trans hnewest.lookup)
      have hplaced : AList.lookup target ((s.dir.erase backup).insert target (.bundle old)) =
          some (.bundle old) := AList.lookup_insert _
      simp only [hpc, LoadPc.next, hrename, Bool.or_true]
      refine ⟨h.wellNamed.erase.insert fun hbackup => absurd hbackup not_isBackup_target,
        h.content, h.writer.repair hmissing hnewest, fun other => ?_⟩
      by_cases hother : other = l
      · subst hother
        simp only [Function.update_self]
        trivial
      · simpa [hother] using (h.load other).of_target hplaced
    next => cases hrepairs

theorem Inv.next (h : Inv target old new s)
    (hnext : next codec kind target modifiedNanos s label = some t) : Inv target old new t := by
  cases label with
  | write io => exact h.write hnext
  | load l => exact h.load_step hnext

theorem Inv.repairInWindow (h : Inv target old new s) : RepairInWindow target s label := by
  rintro l - hrepairs
  unfold repairs at hrepairs
  split at hrepairs
  next backup hpc =>
    obtain ⟨dir', hrename⟩ := Option.isSome_iff_exists.mp hrepairs
    obtain ⟨node, -, hmissing, -⟩ := Dir.rename_eq_some hrename
    exact (h.writer.window hmissing).1
  next => cases hrepairs

theorem Inv.outcome (h : Inv target old new s) : Outcome target old new s where
  writer ok hpc := by
    have hwriter := h.writer
    unfold WriterAt at hwriter
    rw [hpc] at hwriter
    cases ok with
    | false => exact ⟨by simp [hwriter.1], hwriter.2⟩
    | true => exact ⟨by simp [hwriter.1], h.content ▸ hwriter.2⟩
  loads l files hpc hcrossed := by
    have hload := h.load l
    rw [hpc] at hload
    exact h.content ▸ hload hcrossed

/-- The writer's own steps bring it to its answer. -/
theorem write_progress (hclock : s.clock + 1 < u128Bound) (hpc : s.writer.isReturned = false) :
    ∃ t, next codec kind target modifiedNanos s (.write (.at (s.clock + 1))) = some t ∧
      t.writer.remaining < s.writer.remaining := by
  have henabled : ¬((!(Io.at (s.clock + 1)).ok) = true ∨ s.writer.isReturned = true ∨
      s.writer.readsClock = true ∧
        ¬(s.clock < (Io.at (s.clock + 1)).now ∧ (Io.at (s.clock + 1)).now < u128Bound)) := by
    simp [Io.at, hpc, hclock]
  simp only [Readers.next, if_neg henabled]
  exact ⟨_, rfl, Writer.remaining_next hpc _ _ _⟩

/-- The writer is undisturbed exactly when no load repairs, and a load that the publishing rename
does not cross is whole. -/
theorem readers_and_writer {pid : UInt32} {trace : List (State F L × Label L)}
    (hready : Ready target dir clock old)
    (hrun : Run codec kind target modifiedNanos (start dir clock pid new) trace s) :
    Machine.AllStates (Outcome target old new) trace s ∧
      Machine.AllSteps (RepairInWindow target) trace ∧
      (s.clock + 1 < u128Bound → s.writer.isReturned = false →
        ∃ t, next codec kind target modifiedNanos s (.write (.at (s.clock + 1))) = some t ∧
          t.writer.remaining < s.writer.remaining) := by
  have hinv : Machine.AllStates (Inv target old new) trace s :=
    hrun.invariant (Inv.start hready) (fun _ _ _ h _ hnext => h.next hnext) (Q := fun _ _ => True)
      fun _ _ => trivial
  exact ⟨⟨fun entry hentry => (hinv.1 entry hentry).outcome, hinv.2.outcome⟩,
    fun entry hentry => (hinv.1 entry hentry).repairInWindow, write_progress⟩

/-! ## Both exceptions happen -/

/-- Neither the writer nor a load sees the other. -/
structure Undisturbed (target : Name) (old new : Files F) (s : State F L) : Prop where
  writer : ∀ ok, s.writer.pc = .returned ok →
    ok = true ∧ s.dir.lookup target = some (.bundle new)
  loads : ∀ l files, s.load l = .returned (some files) → files = old ∨ files = new

/-- Files are numbers, and two bundles with a rank and a sign artifact have the same shape. -/
def sampleCodec : Codec Nat Nat Unit where
  digest := id
  shape _ := ()
  signCompatible _ := true
  signFits _ _ := true
  idsFit _ _ := true

def sampleFiles (rank sign : Nat) : Files Nat := collect rank (some sign) none

def sampleDir : Dir (Files Nat) := (∅ : Dir (Files Nat)).insert (.ofString "x") (.bundle (sampleFiles 1 10))

def sampleStart : State Nat Unit := start sampleDir 0 7 (sampleFiles 2 20)

theorem eq_of_mem_sampleDir (h : name ∈ sampleDir) : name = (.ofString "x") :=
  ((AList.mem_insert _).mp h).resolve_right (AList.notMem_empty name)

theorem sampleDir_ready : Ready (.ofString "x") sampleDir 0 (sampleFiles 1 10) where
  existing := rfl
  wellNamed name node h hbackup := by
    have hmem : name ∈ sampleDir := AList.lookup_isSome.mp (by rw [h]; rfl)
    exact absurd (eq_of_mem_sampleDir hmem) (ne_target_of_isBackup hbackup)
  temps pid now h := absurd (eq_of_mem_sampleDir h) (tempBundleName_ne_of_head (by decide))

def writes (first count : Nat) : List (Label Unit) :=
  (List.range' first count).map fun now => .write (.at now)

/-- The load finds the bundle moved aside and puts it back before the writer publishes. -/
def repairInWindow : List (Label Unit) :=
  writes 1 8 ++ List.replicate 6 (.load ()) ++ writes 9 3

/-- The writer publishes between the load of the rank artifact and the one of the sign. -/
def publishWhileReading : List (Label Unit) :=
  List.replicate 7 (.load ()) ++ writes 1 10 ++ List.replicate 2 (.load ())

abbrev sampleNext : State Nat Unit → Label Unit → Option (State Nat Unit) :=
  next sampleCodec (fun _ => .ordinal) (.ofString "x") fun _ => 0

abbrev SampleRun : List (State Nat Unit × Label Unit) → State Nat Unit → Prop :=
  Run sampleCodec (fun _ => .ordinal) (.ofString "x") (fun _ => 0) sampleStart

theorem repairInWindow_run : ∃ trace s, SampleRun trace s ∧
    Machine.exec sampleNext sampleStart repairInWindow = some s ∧
    s.writer.pc = .returned false ∧ s.dir.lookup (.ofString "x") = some (.bundle (sampleFiles 1 10)) := by
  have hexec : ∃ s, Machine.exec sampleNext sampleStart repairInWindow = some s ∧
      s.writer.pc = .returned false ∧ s.dir.lookup (.ofString "x") = some (.bundle (sampleFiles 1 10)) :=
    ⟨_, rfl, rfl, rfl⟩
  obtain ⟨s, hexec, hs⟩ := hexec
  obtain ⟨trace, hrun⟩ := Machine.run_of_exec hexec
  exact ⟨trace, s, hrun, hexec, hs⟩

theorem publishWhileReading_run : ∃ trace s, SampleRun trace s ∧
    Machine.exec sampleNext sampleStart publishWhileReading = some s ∧
    s.load () = .returned (some (sampleFiles 1 20)) := by
  have hexec : ∃ s, Machine.exec sampleNext sampleStart publishWhileReading = some s ∧
      s.load () = .returned (some (sampleFiles 1 20)) := ⟨_, rfl, rfl⟩
  obtain ⟨s, hexec, hs⟩ := hexec
  obtain ⟨trace, hrun⟩ := Machine.run_of_exec hexec
  exact ⟨trace, s, hrun, hexec, hs⟩

/-- A load makes the writer fail, and a load returns files of both bundles. -/
theorem readers_disturb_writer : Ready (.ofString "x") sampleDir 0 (sampleFiles 1 10) ∧
    (∃ trace s, SampleRun trace s ∧ s.writer.pc = .returned false ∧
      ¬Machine.AllStates (Undisturbed (.ofString "x") (sampleFiles 1 10) (sampleFiles 2 20)) trace s) ∧
    ∃ trace s, SampleRun trace s ∧ s.load () = .returned (some (sampleFiles 1 20)) ∧
      ¬Machine.AllStates (Undisturbed (.ofString "x") (sampleFiles 1 10) (sampleFiles 2 20)) trace s := by
  refine ⟨sampleDir_ready, ?_, ?_⟩
  · obtain ⟨trace, s, hrun, -, hpc, -⟩ := repairInWindow_run
    exact ⟨trace, s, hrun, hpc, fun hall => nomatch (hall.2.writer false hpc).1⟩
  · obtain ⟨trace, s, hrun, -, hload⟩ := publishWhileReading_run
    refine ⟨trace, s, hrun, hload, fun hall => ?_⟩
    rcases hall.2.loads () _ hload with h | h
    · have hsign := congrFun h .sign
      simp [sampleFiles, collect] at hsign
    · have hrank := congrFun h .rank
      simp [sampleFiles, collect] at hrank

theorem readers_and_writer_repair : ∃ trace s, SampleRun trace s ∧ s.repaired = true ∧
    Machine.AllSteps (RepairInWindow (.ofString "x")) trace := by
  obtain ⟨trace, s, hrun, -, hpc, -⟩ := repairInWindow_run
  obtain ⟨hall, hwindow, -⟩ := readers_and_writer sampleDir_ready hrun
  refine ⟨trace, s, hrun, ?_, hwindow⟩
  cases hrepaired : s.repaired with
  | true => rfl
  | false => cases (hall.2.writer false hpc).1.mpr hrepaired

end OrdinalDB.Bundle.Readers
