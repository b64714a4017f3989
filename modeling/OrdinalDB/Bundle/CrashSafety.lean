import OrdinalDB.Lib.Machine
import OrdinalDB.Bundle.Recovery
import OrdinalDB.Bundle.Writer

/-!
# Bundle publication under crashes

Sequences of `write_bundle` calls on one bundle path, each cut by a crash
anywhere, with loads between them. `published` records the content of the last
call that renamed its temporary directory to the target.

Results:
1. `loads_published`: in every run whose calls draw temporary names apart from
   the bundle's own name, a load that starts now returns the published content,
   and after a call that returned Ok it returns the content of that call.
2. `own_name_lost`: when a call draws the bundle's own name, a crash loses the
   bundle.
-/

namespace OrdinalDB.Bundle.Crashes

variable {C : Type}

structure State (C : Type) where
  dir : Dir C
  clock : Nat
  writer : Option (Writer C)
  published : Option C

def State.init : State C := ⟨∅, 0, none, none⟩

inductive Label (C : Type)
  | call (pid : UInt32) (content : C)
  | step (io : Io)
  | crash
  | load (modifiedNanos : Name → Nat)

/-- No call is in progress. -/
def State.idle (s : State C) : Bool :=
  s.writer.all fun w => w.isReturned

def next (target : Name) (s : State C) : Label C → Option (State C)
  | .call pid content => if s.idle then some { s with writer := some (.start content pid) } else none
  | .step io =>
    match s.writer with
    | none => none
    | some w =>
      if w.isReturned ∨ w.readsClock ∧ ¬(s.clock < io.now ∧ io.now < u128Bound) then none
      else
        let (w', dir') := w.next target s.dir io
        some {
          dir := dir'
          clock := if w.readsClock then io.now else s.clock
          writer := some w'
          published := if w.publishes w' then some w.content else s.published }
  | .crash => some { s with writer := none }
  | .load modifiedNanos =>
    if s.idle then some { s with dir := (loadBundle target modifiedNanos s.dir).2 } else none

abbrev Run (target : Name) (trace : List (State C × Label C)) (s : State C) : Prop :=
  Machine.Run (fun s label t => next target s label = some t) .init trace s

/-- A load that starts now, the call in progress being cut, returns the published content; after
a call that returned Ok that is the content of this call. -/
structure LoadsPublished (target : Name) (s : State C) : Prop where
  published : ∀ modified, (loadBundle target modified s.dir).1 = .ofPublished s.published
  returned : ∀ w, s.writer = some w → w.pc = .returned true →
    ∀ modified, (loadBundle target modified s.dir).1 = .content w.content

/-- The step does not draw the bundle's own name for the temporary directory. -/
def DrawsApart (target : Name) (s : State C) (label : Label C) : Prop :=
  ∀ io w, label = .step io → s.writer = some w → w.pc = .name →
    tempBundleName target w.pid.toNat io.now ≠ target

/-! ## The invariant -/

/-- What the call in progress has reached. -/
def WriterInv (target : Name) (dir : Dir C) (clock : Nat) (published : Option C) (w : Writer C) :
    Prop :=
  match w.pc with
  | .name | .returned false => True
  | .clear | .clearing | .create | .syncTemp | .fill | .discard => Scratch target w.temp
  | .inspect | .probe => Scratch target w.temp ∧ dir.lookup w.temp = some (.bundle w.content)
  | .moveAside =>
    Scratch target w.temp ∧ dir.lookup w.temp = some (.bundle w.content) ∧
      ∃ backup, w.backup = some backup ∧ ∃ now ≤ clock, BackupAt target backup now ∧
        ∀ other ∈ dir, ∀ stamp, BackupAt target other stamp → stamp < now
  | .syncAside | .publish =>
    Scratch target w.temp ∧ dir.lookup w.temp = some (.bundle w.content) ∧
      ∀ backup, w.backup = some backup → ∃ c, published = some c ∧ Newest target dir backup c
  | .restore => ∀ backup, w.backup = some backup → ∃ c, published = some c ∧ Newest target dir backup c
  | .syncPublish | .remove | .removing =>
    published = some w.content ∧ dir.lookup target = some (.bundle w.content) ∧
      ∀ backup, w.backup = some backup → ∃ now ≤ clock, BackupAt target backup now
  | .returned true => published = some w.content

/-- The invariant of a state whose call in progress is `w`. -/
structure CallInv (target : Name) (dir : Dir C) (clock : Nat) (published : Option C)
    (w : Writer C) : Prop where
  wellNamed : WellNamed target clock dir
  recoverable : Recoverable target dir published
  writer : WriterInv target dir clock published w

structure Inv (target : Name) (s : State C) : Prop where
  wellNamed : WellNamed target s.clock s.dir
  recoverable : Recoverable target s.dir s.published
  writer : ∀ w, s.writer = some w → WriterInv target s.dir s.clock s.published w

variable {target : Name} {dir dir' : Dir C} {clock : Nat} {published : Option C} {w : Writer C}
  {io : Io} {s t : State C} {label : Label C} {c : C}

namespace CallInv

theorem insert_temp (h : CallInv target dir clock published w) (hw : Scratch target w.temp)
    (node : Node C) :
    WellNamed target clock (dir.insert w.temp node) ∧
      Recoverable target (dir.insert w.temp node) published :=
  ⟨h.wellNamed.insert fun hbackup => absurd hbackup hw.2, h.recoverable.insert hw.1 hw.2⟩

theorem erase_temp (h : CallInv target dir clock published w) (hw : Scratch target w.temp) :
    WellNamed target clock (dir.erase w.temp) ∧ Recoverable target (dir.erase w.temp) published :=
  ⟨h.wellNamed.erase, h.recoverable.erase hw.1 hw.2⟩

theorem fail (hwell : WellNamed target clock dir) (hrec : Recoverable target dir published) :
    CallInv target dir clock published w.fail :=
  ⟨hwell, hrec, trivial⟩

end CallInv

/-- What a step of the call makes of the invariant. -/
def Preserves (target : Name) (dir : Dir C) (clock : Nat) (published : Option C) (w : Writer C)
    (io : Io) : Prop :=
  CallInv target (w.next target dir io).2 (if w.readsClock then io.now else clock)
    (if w.publishes (w.next target dir io).1 then some w.content else published)
    (w.next target dir io).1

/-- One case for each step of the call. -/
theorem CallInv.step (h : CallInv target dir clock published w)
    (hclock : w.readsClock → clock < io.now ∧ io.now < u128Bound)
    (hapart : w.pc = .name → tempBundleName target w.pid.toNat io.now ≠ target) :
    Preserves target dir clock published w io := by
  obtain ⟨hwell, hrec, hw⟩ := id h
  obtain ⟨content, pid, temp, backup, pc⟩ := w
  unfold Preserves
  cases pc with
  | name =>
    have hlater := hwell.mono (hclock rfl).1.le
    simp only [Writer.next, Writer.readsClock, Writer.publishes]
    split
    next => exact ⟨hlater, hrec, scratch_tempBundleName (hapart rfl)⟩
    next => exact ⟨hlater, hrec, trivial⟩
  | clear =>
    simp only [Writer.next, Writer.readsClock, Writer.publishes]
    split
    next => exact ⟨hwell, hrec, hw⟩
    next =>
      split
      next =>
        obtain ⟨hwell', hrec'⟩ := h.insert_temp hw (.torn io.verifies)
        exact ⟨hwell', hrec', hw⟩
      next => exact ⟨hwell, hrec, trivial⟩
  | clearing =>
    simp only [Writer.next, Writer.readsClock, Writer.publishes]
    split
    next => exact ⟨(h.erase_temp hw).1, (h.erase_temp hw).2, hw⟩
    next => exact ⟨hwell, hrec, trivial⟩
  | create =>
    simp only [Writer.next, Writer.readsClock, Writer.publishes]
    split
    next =>
      obtain ⟨hwell', hrec'⟩ := h.insert_temp hw (.torn io.verifies)
      exact ⟨hwell', hrec', hw⟩
    next => exact ⟨hwell, hrec, trivial⟩
  | syncTemp =>
    simp only [Writer.next, Writer.readsClock, Writer.publishes]
    split
    next => exact ⟨hwell, hrec, hw⟩
    next => exact ⟨hwell, hrec, trivial⟩
  | fill =>
    simp only [Writer.next, Writer.readsClock, Writer.publishes]
    split
    next =>
      obtain ⟨hwell', hrec'⟩ := h.insert_temp hw (.bundle content)
      exact ⟨hwell', hrec', hw, AList.lookup_insert _⟩
    next =>
      obtain ⟨hwell', hrec'⟩ := h.insert_temp hw (.torn io.verifies)
      exact ⟨hwell', hrec', hw⟩
  | discard =>
    simp only [Writer.next, Writer.readsClock, Writer.publishes]
    split
    next => exact ⟨(h.erase_temp hw).1, (h.erase_temp hw).2, trivial⟩
    next =>
      obtain ⟨hwell', hrec'⟩ := h.insert_temp hw (.torn io.verifies)
      exact ⟨hwell', hrec', trivial⟩
  | inspect =>
    cases hok : io.ok <;> rcases hnode : dir.lookup target with _ | _ | _ | _ | _ <;>
      simp only [Writer.next, hnode, hok]
    case true.none | true.some.bundle | true.some.torn => exact ⟨hwell, hrec, hw⟩
    case false.none | false.some.bundle | false.some.torn => exact ⟨hwell, hrec, trivial⟩
    all_goals exact ⟨hwell, hrec, hw.1⟩
  | probe =>
    obtain ⟨hnow, hbound⟩ := hclock rfl
    have hlater := hwell.mono hnow.le
    simp only [Writer.next, Writer.readsClock, Writer.publishes]
    split
    next =>
      split
      next =>
        exact ⟨hlater, hrec, hw.1, hw.2, _, rfl, io.now, le_rfl,
          backupAt_uniqueBackupBundleName hbound, fun other hother stamp hstamp =>
            (hwell.stamp_le hother hstamp).trans_lt hnow⟩
      next => exact ⟨hlater, hrec, trivial⟩
    next => exact ⟨hlater, hrec, hw.1, hw.2, fun _ hnone => absurd hnone.symm (Option.some_ne_none _)⟩
  | moveAside =>
    obtain ⟨hscratch, hfilled, name, rfl, now, hnow, hbackup, hlast⟩ := hw
    cases hok : io.ok <;> cases hrename : dir.rename target name <;>
      simp only [Writer.next, Option.bind_some, hrename, hok]
    case true.some dir' =>
      obtain ⟨node, hnode, hfree, rfl⟩ := Dir.rename_eq_some hrename
      obtain ⟨c, rfl, rfl⟩ := hrec.published_of_mem hnode
      -- the target goes and its version is now the newest backup
      have hnewest : Newest target ((dir.erase target).insert name (.bundle c)) name c :=
        .moveAside hbackup hlast
      refine ⟨hwell.erase.insert fun _ => ⟨rfl, now, hnow, hbackup⟩, ?_, hscratch, ?_, ?_⟩
      · refine .inr ⟨?_, name, hnewest⟩
        have hne : target ≠ name := (ne_target_of_isBackup hbackup.isBackup).symm
        exact (AList.lookup_insert_ne hne).trans (AList.lookup_erase _ _)
      · have hne : temp ≠ name := fun h => hscratch.2 (h ▸ hbackup.isBackup)
        exact (AList.lookup_insert_ne hne).trans ((AList.lookup_erase_ne hscratch.1).trans hfilled)
      · intro other hother
        cases hother
        exact ⟨c, rfl, hnewest⟩
    all_goals exact ⟨hwell, hrec, trivial⟩
  | syncAside =>
    simp only [Writer.next, Writer.readsClock, Writer.publishes]
    split
    next => exact ⟨hwell, hrec, hw⟩
    next => exact ⟨hwell, hrec, trivial⟩
  | publish =>
    obtain ⟨hscratch, hfilled, hbackup⟩ := hw
    cases hok : io.ok <;> cases hrename : dir.rename temp target <;>
      simp only [Writer.next, hrename, hok]
    case true.some dir' =>
      obtain ⟨node, hnode, hfree, rfl⟩ := Dir.rename_eq_some hrename
      cases Option.some.inj (hnode.symm.trans hfilled)
      -- the commit point: from here on the target is the new version
      have htarget : AList.lookup target ((dir.erase temp).insert target (.bundle content)) =
          some (.bundle content) := AList.lookup_insert _
      refine ⟨hwell.erase.insert fun h => absurd h not_isBackup_target, .inl htarget,
        rfl, htarget, ?_⟩
      intro name hname
      obtain ⟨c, -, hnewest⟩ := hbackup name hname
      obtain ⟨now, hnow, -⟩ := hnewest.newest
      exact (hwell name _ hnewest.lookup hnow.isBackup).2
    all_goals exact ⟨hwell, hrec, hbackup⟩
  | restore =>
    cases hok : io.ok <;>
      cases hrename : (backup.bind fun name => dir.rename name target : Option (Dir C)) <;>
      simp only [Writer.next, hrename, hok]
    case true.some dir' =>
      obtain ⟨name, hname, hrename⟩ := Option.bind_eq_some_iff.mp hrename
      obtain ⟨c, rfl, hnewest⟩ := hw name hname
      obtain ⟨node, hnode, hfree, rfl⟩ := Dir.rename_eq_some hrename
      cases Option.some.inj (hnode.symm.trans hnewest.lookup)
      exact ⟨hwell.erase.insert fun h => absurd h not_isBackup_target,
        .inl (AList.lookup_insert _), trivial⟩
    all_goals exact ⟨hwell, hrec, trivial⟩
  | syncPublish =>
    simp only [Writer.next, Writer.readsClock, Writer.publishes]
    split
    next => exact ⟨hwell, hrec, hw⟩
    next => exact ⟨hwell, hrec, trivial⟩
  | remove =>
    obtain ⟨rfl, htarget, hbackup⟩ := hw
    simp only [Writer.next, Writer.readsClock, Writer.publishes]
    split
    next => exact ⟨hwell, hrec, rfl⟩
    next name =>
      split
      next =>
        obtain ⟨now, hnow, hname⟩ := hbackup name rfl
        -- the removal of the backup may be cut half way, which leaves the target alone
        have hkept : AList.lookup target (dir.insert name (.torn io.verifies)) =
            some (.bundle content) := by
          rw [AList.lookup_insert_ne (ne_target_of_isBackup hname.isBackup).symm]
          exact htarget
        exact ⟨hwell.insert fun _ => ⟨rfl, now, hnow, hname⟩, .inl hkept, rfl, hkept, hbackup⟩
      next => exact ⟨hwell, hrec, rfl⟩
  | removing =>
    obtain ⟨rfl, htarget, hbackup⟩ := hw
    simp only [Writer.next, Writer.readsClock, Writer.publishes]
    split
    next name =>
      split
      next =>
        obtain ⟨now, hnow, hname⟩ := hbackup name rfl
        refine ⟨hwell.erase, .inl ?_, rfl⟩
        rw [AList.lookup_erase_ne (ne_target_of_isBackup hname.isBackup).symm]
        exact htarget
      next => exact ⟨hwell, hrec, rfl⟩
    next => exact ⟨hwell, hrec, rfl⟩
  | returned ok => exact ⟨hwell, hrec, hw⟩

/-! ## Runs -/

theorem Inv.init : Inv target (State.init : State C) where
  wellNamed name node h := by cases h
  recoverable := ⟨rfl, fun name h => absurd h (AList.notMem_empty name)⟩
  writer w h := by cases h

theorem Inv.next (h : Inv target s) (hapart : DrawsApart target s label)
    (hnext : next target s label = some t) : Inv target t := by
  cases label with
  | call pid content =>
    simp only [Crashes.next] at hnext
    split at hnext
    next =>
      obtain rfl := Option.some.inj hnext
      exact ⟨h.wellNamed, h.recoverable, fun w hw => by cases hw; trivial⟩
    next => cases hnext
  | step io =>
    simp only [Crashes.next] at hnext
    split at hnext
    next => cases hnext
    next w hw =>
      split at hnext
      next => cases hnext
      next hclock =>
        obtain rfl := Option.some.inj hnext
        have hcall : Preserves target s.dir s.clock s.published w io :=
          CallInv.step ⟨h.wellNamed, h.recoverable, h.writer w hw⟩
            (fun hreads => by by_contra hlate; exact hclock (.inr ⟨hreads, hlate⟩))
            (fun hpc => hapart io w rfl hw hpc)
        exact ⟨hcall.wellNamed, hcall.recoverable, fun w' hw' => by cases hw'; exact hcall.writer⟩
  | crash =>
    obtain rfl := Option.some.inj hnext
    exact ⟨h.wellNamed, h.recoverable, fun w hw => nomatch hw⟩
  | load modifiedNanos =>
    simp only [Crashes.next] at hnext
    split at hnext
    next hidle =>
      obtain rfl := Option.some.inj hnext
      obtain ⟨-, hwell, hrec⟩ := loadBundle_recoverable h.wellNamed h.recoverable modifiedNanos
      refine ⟨hwell, hrec, fun w hw => ?_⟩
      -- the call has returned, and then its part of the invariant does not look at the directory
      have hreturned : w.isReturned := by
        have hw : s.writer = some w := hw
        simpa [State.idle, hw] using hidle
      have hold := h.writer w hw
      obtain ⟨content, pid, temp, backup, pc⟩ := w
      cases pc with
      | returned ok => cases ok <;> exact hold
      | _ => cases hreturned
    next => cases hnext

theorem Inv.loadsPublished (h : Inv target s) : LoadsPublished target s where
  published modified := (loadBundle_recoverable h.wellNamed h.recoverable modified).1
  returned w hw hpc modified := by
    have hpublished : s.published = some w.content := by
      have hwriter := h.writer w hw
      unfold WriterInv at hwriter
      rw [hpc] at hwriter
      exact hwriter
    rw [(loadBundle_recoverable h.wellNamed h.recoverable modified).1, hpublished]
    rfl

/-- Loads are old-or-new after any crashes, as long as no call draws the bundle's own name. -/
theorem loads_published {trace : List (State C × Label C)} (hrun : Run target trace s)
    (hapart : Machine.AllSteps (DrawsApart target) trace) :
    Machine.AllStates (LoadsPublished target) trace s := by
  have hinv : Machine.AllStates (Inv target) trace s :=
    hrun.invariant Inv.init (fun _ _ _ h hlabel hnext => h.next hlabel hnext) hapart
  exact ⟨fun entry hentry => (hinv.1 entry hentry).loadsPublished, hinv.2.loadsPublished⟩

/-- A call at time 50 publishes; a second one is cut right after it moved the bundle aside. -/
def cutAside : List (Label Nat) :=
  .call 5 0 :: (List.range' 50 10).map (fun now => .step (.at now)) ++
    .call 5 1 :: (List.range' 60 8).map (fun now => .step (.at now)) ++ [.crash]

theorem loads_published_cutAside : ∃ trace s, Run (.ofString "x") trace s ∧
    Machine.exec (next (.ofString "x")) .init cutAside = some s ∧ s.dir.lookup (.ofString "x") = none ∧
    Machine.AllStates (LoadsPublished (.ofString "x")) trace s := by
  have hexec : ∃ s, Machine.exec (next (.ofString "x")) .init cutAside = some s ∧
      s.dir.lookup (.ofString "x") = none := ⟨_, rfl, rfl⟩
  obtain ⟨s, hexec, hmissing⟩ := hexec
  obtain ⟨trace, hrun⟩ := Machine.run_of_exec hexec
  exact ⟨trace, s, hrun, hexec, hmissing, loads_published hrun fun _ _ _ _ _ _ _ =>
    tempBundleName_ne_of_head (by decide)⟩

/-! ## A call that draws the bundle's own name -/

/-- A name with the scratch decoration: process 5, time 100. -/
def decorated : Name := .ofString ".x.tmp-5-100"

/-- One complete call at time 50, then a call of process 5 that draws its temporary name at
time 100, finds the published bundle there, removes it, and is cut. -/
def drawOwnName : List (Label Nat) :=
  .call 5 0 :: (List.range' 50 10).map (fun now => .step (.at now)) ++
    [.call 5 1, .step (.at 100), .step (.at 101), .step (.at 102), .crash]

theorem own_name_lost : ∃ trace s, Run decorated trace s ∧
    Machine.exec (next decorated) .init drawOwnName = some s ∧ s.published = some 0 ∧
    (loadBundle decorated (fun _ => 0) s.dir).1 = .missing ∧
    ¬Machine.AllStates (LoadsPublished decorated) trace s := by
  have hexec : ∃ s, Machine.exec (next decorated) .init drawOwnName = some s ∧
      s.published = some 0 ∧ (loadBundle decorated (fun _ => 0) s.dir).1 = .missing :=
    ⟨_, rfl, rfl, rfl⟩
  obtain ⟨s, hexec, hpublished, hload⟩ := hexec
  obtain ⟨trace, hrun⟩ := Machine.run_of_exec hexec
  refine ⟨trace, s, hrun, hexec, hpublished, hload, fun hall => ?_⟩
  have hfound := hall.2.published fun _ => 0
  rw [hload, hpublished] at hfound
  cases hfound

end OrdinalDB.Bundle.Crashes
