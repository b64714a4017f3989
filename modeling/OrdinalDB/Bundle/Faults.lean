import OrdinalDB.Bundle.Recovery
import OrdinalDB.Bundle.Writer

/-!
# A bundle write with one failing call

One `write_bundle` call, with no crash and no other party, in which some
filesystem calls fail. The previous bundle stays in place when the contents
cannot be written; most later failures leave the temporary directory behind,
and two of them leave another target (`failed_write_keeps_iff`).
-/

namespace OrdinalDB.Bundle

variable {C : Type}

namespace Writer

/-- The step makes a filesystem call (or a clock reading) that fails: because the environment says
so, or because of the entries that are there. -/
def callFails (target : Name) (w : Writer C) (dir : Dir C) (io : Io) : Bool :=
  match w.pc with
  | .name | .clearing | .create | .syncTemp | .fill | .discard | .inspect | .syncAside
  | .syncPublish | .removing => !io.ok
  | .clear => (dir.lookup w.temp).any fun node => !(io.ok && node.isDir)
  | .probe => target ∈ dir && !io.ok
  | .moveAside => !io.ok || (w.backup.bind fun backup => dir.rename target backup).isNone
  | .publish => !io.ok || (dir.rename w.temp target).isNone
  | .restore =>
    w.backup.any fun backup => !io.ok || (dir.rename backup target).isNone
  | .remove => w.backup.any fun backup => !io.ok || backup ∉ dir
  | .returned _ => false

end Writer

/-- A call in progress, with what has happened to it. -/
structure Attempt (C : Type) where
  writer : Writer C
  dir : Dir C
  /-- `create_dir_all(temp)` has succeeded. -/
  madeTemp : Bool
  /-- The calls that have failed. -/
  failed : List Pc

namespace Attempt

/-- One step, with the environment's answer for the call that is next. -/
def step (target : Name) (io : Pc → Io) (a : Attempt C) : Attempt C :=
  let pc := a.writer.pc
  let (w, dir) := a.writer.next target a.dir (io pc)
  { writer := w
    dir := dir
    madeTemp := a.madeTemp || pc = .create && (io pc).ok
    failed := if a.writer.callFails target a.dir (io pc) then a.failed ++ [pc] else a.failed }

def start (content : C) (pid : UInt32) (dir : Dir C) : Attempt C :=
  ⟨.start content pid, dir, false, []⟩

end Attempt

/-- `write_bundle`: every call is made once at most, so `io` answers by the call. -/
def writeBundle (target : Name) (io : Pc → Io) (content : C) (pid : UInt32) (dir : Dir C) :
    Attempt C :=
  (Attempt.step target io)^[15] (.start content pid dir)

/-- What an Err promises: the target holds what it held, and no temporary directory of the call is
left. -/
def KeepsPrevious (target : Name) (old : C) (a : Attempt C) : Prop :=
  a.writer.pc = .returned false →
    a.dir.lookup target = some (.bundle old) ∧ (a.madeTemp → a.writer.temp ∉ a.dir)

/-- The calls whose failure keeps the promise. `apart`: the temporary directory has not the
bundle's own name; `same`: the new content is the old one. -/
def KeptAt (apart same : Prop) : Pc → Prop
  | .name | .clear | .remove | .removing => True
  | .clearing | .create | .fill => apart
  | .syncPublish => same
  | _ => False

/-! ## One step -/

section Steps

variable {target temp : Name} {old : C} {w : Writer C} {dir : Dir C} {io : Io} {madeTemp : Bool}
  {p : Pc}

/-- What a call without a failure has reached. -/
def Clean (target temp : Name) (old : C) (w : Writer C) (dir : Dir C) (madeTemp : Bool) : Prop :=
  (w.pc ≠ .name → w.temp = temp) ∧
  match w.pc with
  | .name | .clear => dir.lookup target = some (.bundle old) ∧ madeTemp = false
  | .clearing =>
    madeTemp = false ∧ if temp = target then ∃ verifies, dir.lookup target = some (.torn verifies)
      else dir.lookup target = some (.bundle old)
  | .create =>
    madeTemp = false ∧ dir.lookup target = if temp = target then none else some (.bundle old)
  | .syncTemp | .fill =>
    madeTemp ∧ temp ∈ dir ∧ (temp ≠ target → dir.lookup target = some (.bundle old))
  | .inspect | .probe =>
    madeTemp ∧ dir.lookup temp = some (.bundle w.content) ∧
      (temp ≠ target → dir.lookup target = some (.bundle old))
  | .moveAside =>
    madeTemp ∧ dir.lookup temp = some (.bundle w.content) ∧
      (temp ≠ target → dir.lookup target = some (.bundle old)) ∧
      ∃ backup, w.backup = some backup ∧ backup ≠ temp
  | .syncAside | .publish =>
    madeTemp ∧ dir.lookup target = none ∧
      (temp ≠ target → dir.lookup temp = some (.bundle w.content)) ∧
      ∃ backup, w.backup = some backup ∧ backup ≠ temp
  | .syncPublish => dir.lookup target = some (.bundle w.content) ∧ temp ∉ dir
  | .remove | .removing | .returned true => True
  | .discard | .restore | .returned false => False

/-- What a call whose failure is `p` has reached. -/
def Judged (target temp : Name) (old : C) (p : Pc) (w : Writer C) (dir : Dir C) (madeTemp : Bool) :
    Prop :=
  match w.pc with
  | .discard =>
    p = .fill ∧ w.temp = temp ∧ (temp ≠ target → dir.lookup target = some (.bundle old))
  | .restore =>
    p = .publish ∧ madeTemp ∧ w.temp = temp ∧ (temp ≠ target → temp ∈ dir) ∧
      ∃ backup, w.backup = some backup ∧ backup ≠ temp
  | .returned false =>
    (dir.lookup target = some (.bundle old) ∧ (madeTemp → w.temp ∉ dir)) ↔
      KeptAt (temp ≠ target) (w.content = old) p
  | .returned true => KeptAt (temp ≠ target) (w.content = old) p
  | _ => False

theorem backup_ne_temp {pid now pid' now' : Nat} :
    uniqueBackupBundleName target pid now ≠ tempBundleName target pid' now' := by
  intro h
  exact tempBundleName_not_backup (h ▸ isBackup_uniqueBackupBundleName)

/-- A failure with the temporary directory left behind. -/
theorem judged_of_left (hp : KeptAt (temp ≠ target) (w.content = old) p = False)
    (hmade : madeTemp = true) (htemp : w.temp = temp) (hmem : temp ∈ dir) :
    Judged target temp old p w.fail dir madeTemp := by
  show (_ ∧ _) ↔ KeptAt (temp ≠ target) (w.content = old) p
  rw [hp, iff_false]
  rintro ⟨-, hgone⟩
  exact hgone hmade (htemp ▸ hmem)

variable (io) in
/-- The step of a call without a failure: it goes on, or its failure is judged. -/
theorem Clean.step (h : Clean target temp old w dir madeTemp) {pid' now' : Nat}
    (htemp : temp = tempBundleName target pid' now')
    (hname : w.pc = .name → tempBundleName target w.pid.toNat io.now = temp) :
    if w.callFails target dir io then
      Judged target temp old w.pc (w.next target dir io).1 (w.next target dir io).2
        (madeTemp || w.pc = .create && io.ok)
    else
      Clean target temp old (w.next target dir io).1 (w.next target dir io).2
        (madeTemp || w.pc = .create && io.ok) := by
  obtain ⟨content, pid, temp', backup, pc⟩ := w
  obtain ⟨now, ok, verifies⟩ := io
  obtain ⟨hsame, hstate⟩ := h
  cases pc with
  | name =>
    obtain ⟨hold, hmade⟩ := hstate
    cases ok with
    | false => simp [Writer.callFails, Writer.next, Writer.fail, Writer.goto, Judged, KeptAt, hold, hmade]
    | true => simp [Writer.callFails, Writer.next, Clean, hold, hmade, hname]
  | clear =>
    obtain rfl : temp' = temp := hsame (by simp)
    obtain ⟨hold, hmade⟩ := hstate
    -- the target may itself bear the temporary name: then the directory that is cleared is it
    cases hlookup : dir.lookup temp' with
    | none =>
      have hne : temp' ≠ target := by
        rintro rfl
        rw [hlookup] at hold
        cases hold
      simp [Writer.callFails, Writer.next, Writer.goto, Clean, hlookup, hmade, hne, hold]
    | some node =>
      cases hgoes : ok && node.isDir with
      | true =>
        have hboth := Bool.and_eq_true_iff.mp hgoes
        by_cases heq : temp' = target
        · simp [Writer.callFails, Writer.next, Writer.goto, Clean, hlookup, hboth, hmade, heq]
        · simp [Writer.callFails, Writer.next, Writer.goto, Clean, hlookup, hboth, hmade, heq,
            AList.lookup_insert_ne (Ne.symm heq), hold]
      | false =>
        have hstops : ¬(ok = true ∧ node.isDir = true) := by simpa using hgoes
        simp [Writer.callFails, Writer.next, Writer.fail, Writer.goto, Judged, KeptAt, hlookup,
          hstops, hold, hmade]
  | clearing =>
    obtain rfl : temp' = temp := hsame (by simp)
    obtain ⟨hmade, hold⟩ := hstate
    by_cases heq : temp' = target
    · obtain ⟨v, htorn⟩ := (if_pos heq).mp hold
      cases ok <;> simp [Writer.callFails, Writer.next, Writer.fail, Writer.goto, Judged, KeptAt,
        Clean, hmade, heq, htorn]
    · have hkept := (if_neg heq).mp hold
      cases ok <;> simp [Writer.callFails, Writer.next, Writer.fail, Writer.goto, Judged, KeptAt,
        Clean, hmade, heq, AList.lookup_erase_ne (Ne.symm heq), hkept]
  | create =>
    obtain rfl : temp' = temp := hsame (by simp)
    obtain ⟨hmade, hold⟩ := hstate
    by_cases heq : temp' = target
    · rw [if_pos heq] at hold
      cases ok <;> simp [Writer.callFails, Writer.next, Writer.fail, Writer.goto, Judged, KeptAt,
        Clean, hmade, heq, hold]
    · rw [if_neg heq] at hold
      cases ok <;> simp [Writer.callFails, Writer.next, Writer.fail, Writer.goto, Judged, KeptAt,
        Clean, hmade, heq, AList.lookup_insert_ne (Ne.symm heq), hold]
  | syncTemp =>
    obtain rfl : temp' = temp := hsame (by simp)
    obtain ⟨hmade, hmem, hold⟩ := hstate
    cases ok with
    | false => simpa [Writer.callFails, Writer.next] using judged_of_left rfl hmade rfl hmem
    | true => simpa [Writer.callFails, Writer.next, Writer.goto, Clean] using ⟨hmade, hmem, hold⟩
  | fill =>
    obtain rfl : temp' = temp := hsame (by simp)
    obtain ⟨hmade, hmem, hold⟩ := hstate
    -- a failed write leaves a torn directory, which the cleanup has still to remove
    have hother : ∀ node : Node C, temp' ≠ target →
        (dir.insert temp' node).lookup target = some (.bundle old) := fun node hne => by
      rw [AList.lookup_insert_ne (Ne.symm hne), hold hne]
    cases ok with
    | false =>
      simpa [Writer.callFails, Writer.next, Writer.goto, Judged] using hother (.torn verifies)
    | true =>
      simpa [Writer.callFails, Writer.next, Writer.goto, Clean, hmade] using
        hother (.bundle content)
  | inspect =>
    obtain rfl : temp' = temp := hsame (by simp)
    obtain ⟨hmade, htempNode, hold⟩ := hstate
    obtain ⟨c, htarget⟩ : ∃ c, dir.lookup target = some (.bundle c) := by
      by_cases heq : temp' = target
      · exact ⟨content, heq ▸ htempNode⟩
      · exact ⟨old, hold heq⟩
    cases ok with
    | false =>
      have hmem : temp' ∈ dir := AList.lookup_isSome.mp (by rw [htempNode]; rfl)
      simpa [Writer.callFails, Writer.next, htarget] using judged_of_left rfl hmade rfl hmem
    | true =>
      simpa [Writer.callFails, Writer.next, Writer.goto, Clean, htarget, hmade, htempNode] using hold
  | probe =>
    obtain rfl : temp' = temp := hsame (by simp)
    obtain ⟨hmade, htempNode, hold⟩ := hstate
    have hmem : temp' ∈ dir := AList.lookup_isSome.mp (by rw [htempNode]; rfl)
    have htarget : target ∈ dir := by
      by_cases heq : temp' = target
      · exact heq ▸ hmem
      · exact AList.lookup_isSome.mp (by rw [hold heq]; rfl)
    cases ok with
    | false =>
      simpa [Writer.callFails, Writer.next, htarget] using judged_of_left rfl hmade rfl hmem
    | true =>
      have hbackup : uniqueBackupBundleName target pid.toNat now ≠ temp' := htemp ▸ backup_ne_temp
      simpa [Writer.callFails, Writer.next, Clean, htarget, hmade, htempNode, hbackup] using hold
  | moveAside =>
    obtain rfl : temp' = temp := hsame (by simp)
    obtain ⟨hmade, htempNode, hold, b, rfl, hb⟩ := hstate
    have hmem : temp' ∈ dir := AList.lookup_isSome.mp (by rw [htempNode]; rfl)
    -- the first step that takes the target away: from here on it is the backup that is kept
    cases hrename : dir.rename target b with
    | none =>
      simpa [Writer.callFails, Writer.next, hrename] using judged_of_left rfl hmade rfl hmem
    | some dir' =>
      obtain ⟨node, htarget, hfree, rfl⟩ := Dir.rename_eq_some hrename
      cases ok with
      | false =>
        simpa [Writer.callFails, Writer.next, hrename] using judged_of_left rfl hmade rfl hmem
      | true =>
        have hne : target ≠ b := by
          rintro rfl
          rw [htarget] at hfree
          cases hfree
        have hgone : ((dir.erase target).insert b node).lookup target = none := by
          rw [AList.lookup_insert_ne hne, AList.lookup_erase]
        have hkept : temp' ≠ target →
            ((dir.erase target).insert b node).lookup temp' = some (.bundle content) := fun h => by
          rw [AList.lookup_insert_ne (Ne.symm hb), AList.lookup_erase_ne h, htempNode]
        simpa [Writer.callFails, Writer.next, Writer.goto, Clean, hrename, hmade, hgone, hb] using
          hkept
  | syncAside =>
    obtain rfl : temp' = temp := hsame (by simp)
    obtain ⟨hmade, hgone, hkept, b, rfl, hb⟩ := hstate
    cases ok with
    | false => simp [Writer.callFails, Writer.next, Writer.fail, Writer.goto, Judged, KeptAt, hgone]
    | true =>
      simpa [Writer.callFails, Writer.next, Writer.goto, Clean, hmade, hgone, hb] using hkept
  | publish =>
    obtain rfl : temp' = temp := hsame (by simp)
    obtain ⟨hmade, hgone, hkept, b, rfl, hb⟩ := hstate
    have hmem : temp' ≠ target → temp' ∈ dir := fun h =>
      AList.lookup_isSome.mp (by rw [hkept h]; rfl)
    -- a rename that fails here goes to `restore`, whose own failure would lose the target
    cases hrename : dir.rename temp' target with
    | none => simpa [Writer.callFails, Writer.next, Writer.goto, Judged, hrename, hmade, hb] using hmem
    | some dir' =>
      obtain ⟨node, hnode, -, rfl⟩ := Dir.rename_eq_some hrename
      cases ok with
      | false =>
        simpa [Writer.callFails, Writer.next, Writer.goto, Judged, hrename, hmade, hb] using hmem
      | true =>
        have hne : temp' ≠ target := by
          rintro rfl
          rw [hnode] at hgone
          cases hgone
        obtain rfl := Option.some.inj (hnode.symm.trans (hkept hne))
        simp [Writer.callFails, Writer.next, Writer.goto, Clean, hrename, hne]
  | syncPublish =>
    obtain rfl : temp' = temp := hsame (by simp)
    obtain ⟨htarget, hgone⟩ := hstate
    cases ok <;> simp [Writer.callFails, Writer.next, Writer.fail, Writer.goto, Judged, KeptAt,
      Clean, htarget, hgone]
  | remove =>
    obtain rfl : temp' = temp := hsame (by simp)
    cases backup with
    | none => simp [Writer.callFails, Writer.next, Writer.goto, Clean]
    | some b =>
      cases hgoes : ok && decide (b ∈ dir) with
      | true =>
        obtain ⟨rfl, hb⟩ := Bool.and_eq_true_iff.mp hgoes
        simp [Writer.callFails, Writer.next, Writer.goto, Clean, of_decide_eq_true hb]
      | false =>
        have hstops : ¬(ok = true ∧ b ∈ dir) := by simpa using hgoes
        have hfails : ok = false ∨ b ∉ dir := by
          cases ok with
          | false => exact .inl rfl
          | true => exact .inr fun hb => hstops ⟨rfl, hb⟩
        simp [Writer.callFails, Writer.next, Writer.goto, Judged, KeptAt, hstops, hfails]
  | removing =>
    obtain rfl : temp' = temp := hsame (by simp)
    cases ok <;> simp [Writer.callFails, Writer.next, Writer.goto, Judged, KeptAt, Clean]
  | discard => exact hstate.elim
  | restore => exact hstate.elim
  | returned done =>
    obtain rfl : temp' = temp := hsame (by simp)
    cases done with
    | false => exact hstate.elim
    | true => simp [Writer.callFails, Writer.next, Clean]

/-- The call whose failure is judged cleans up. -/
theorem Judged.step (h : Judged target temp old p w dir madeTemp)
    (hcall : w.callFails target dir io = false) :
    Judged target temp old p (w.next target dir io).1 (w.next target dir io).2
      (madeTemp || w.pc = .create && io.ok) := by
  obtain ⟨content, pid, temp', backup, pc⟩ := w
  obtain ⟨now, ok, verifies⟩ := io
  cases pc with
  | discard =>
    obtain ⟨rfl, rfl, hold⟩ := h
    obtain rfl : ok = true := by simpa [Writer.callFails] using hcall
    by_cases heq : temp' = target
    · simp [Writer.next, Writer.fail, Writer.goto, Judged, KeptAt, heq]
    · simp [Writer.next, Writer.fail, Writer.goto, Judged, KeptAt, heq,
        AList.lookup_erase_ne (Ne.symm heq), hold]
  | restore =>
    obtain ⟨rfl, hmade, rfl, hmem, b, rfl, hb⟩ := h
    cases hrename : dir.rename b target with
    | none => simp [Writer.callFails, hrename] at hcall
    | some dir' =>
      obtain rfl : ok = true := by simpa [Writer.callFails, hrename] using hcall
      obtain ⟨node, -, -, rfl⟩ := Dir.rename_eq_some hrename
      -- the temporary directory is still there, under whatever name it has
      have hleft : temp' ∈ (dir.erase b).insert target node := by
        by_cases heq : temp' = target
        · exact (AList.mem_insert _).mpr (.inl heq)
        · exact (AList.mem_insert _).mpr (.inr (AList.mem_erase.mpr ⟨Ne.symm hb, hmem heq⟩))
      simpa [Writer.next, hrename] using judged_of_left rfl hmade rfl hleft
  | returned done =>
    cases done with
    | false => simpa [Writer.next] using h
    | true => simpa [Writer.next] using h
  | _ => exact h.elim

end Steps

/-! ## Runs -/

section Runs

variable {target temp : Name} {io : Pc → Io} {old content : C} {pid : UInt32} {dir : Dir C}
  {a : Attempt C} {p : Pc}

/-- The invariant of a call. -/
structure Sound (target temp : Name) (old content : C) (pid : UInt32) (a : Attempt C) : Prop where
  content : a.writer.content = content
  pid : a.writer.pid = pid
  clean : a.failed = [] → Clean target temp old a.writer a.dir a.madeTemp
  judged : ∀ p, a.failed = [p] → Judged target temp old p a.writer a.dir a.madeTemp

theorem Writer.next_content (target : Name) (w : Writer C) (dir : Dir C) (io : Io) :
    (w.next target dir io).1.content = w.content ∧ (w.next target dir io).1.pid = w.pid := by
  obtain ⟨content, pid, temp, backup, pc⟩ := w
  cases pc <;> simp only [Writer.next] <;> (repeat' split) <;> simp [Writer.goto, Writer.fail]

theorem Sound.step (h : Sound target temp old content pid a)
    (htemp : temp = tempBundleName target pid.toNat (io .name).now) :
    Sound target temp old content pid (a.step target io) := by
  obtain ⟨hcontent, hpid⟩ := Writer.next_content target a.writer a.dir (io a.writer.pc)
  have hclean := fun hnone => (h.clean hnone).step (io a.writer.pc) htemp fun hpc => by
    rw [hpc, h.pid, htemp]
  cases hcall : a.writer.callFails target a.dir (io a.writer.pc) with
  | true =>
    simp only [hcall, if_true] at hclean
    have hfailed : (a.step target io).failed = a.failed ++ [a.writer.pc] := by
      simp [Attempt.step, hcall]
    refine ⟨hcontent.trans h.content, hpid.trans h.pid, fun hnone => ?_, fun p hone => ?_⟩
    · simp [hfailed] at hnone
    · rw [hfailed] at hone
      obtain ⟨hbefore, hpc⟩ := List.append_eq_singleton_iff.mp hone |>.resolve_right (by simp)
      exact List.singleton_injective hpc ▸ hclean hbefore
  | false =>
    simp only [hcall, Bool.false_eq_true, if_false] at hclean
    have hfailed : (a.step target io).failed = a.failed := by simp [Attempt.step, hcall]
    refine ⟨hcontent.trans h.content, hpid.trans h.pid, fun hnone => ?_, fun p hone => ?_⟩
    · exact hclean (hfailed ▸ hnone)
    · exact (h.judged p (hfailed ▸ hone)).step hcall

theorem Sound.start (hold : dir.lookup target = some (.bundle old)) :
    Sound target temp old content pid (.start content pid dir) :=
  ⟨rfl, rfl, fun _ => ⟨fun h => absurd rfl h, hold, rfl⟩, fun _ h => by cases h⟩

theorem Sound.run (hold : dir.lookup target = some (.bundle old)) (steps : Nat) :
    Sound target (tempBundleName target pid.toNat (io .name).now) old content pid
      ((Attempt.step target io)^[steps] (.start content pid dir)) := by
  induction steps with
  | zero => exact .start hold
  | succ steps ih =>
    rw [Function.iterate_succ_apply']
    exact ih.step rfl

/-- Every call returns. -/
theorem Attempt.isReturned_iterate (steps : Nat) (h : a.writer.remaining ≤ steps) :
    ((Attempt.step target io)^[steps] a).writer.isReturned := by
  induction steps generalizing a with
  | zero =>
    obtain ⟨⟨content, pid, temp, backup, pc⟩, dir, madeTemp, failed⟩ := a
    cases pc <;> simp_all [Writer.remaining, Writer.isReturned]
  | succ steps ih =>
    rw [Function.iterate_succ_apply]
    refine ih ?_
    cases hreturned : a.writer.isReturned with
    | false => exact Nat.le_of_lt_succ ((Writer.remaining_next hreturned target a.dir _).trans_le h)
    | true =>
      obtain ⟨⟨content, pid, temp, backup, pc⟩, dir, madeTemp, failed⟩ := a
      cases pc <;> simp_all [Writer.isReturned, Attempt.step, Writer.next, Writer.remaining]

theorem Sound.keepsPrevious_iff (h : Sound target temp old content pid a)
    (hreturned : a.writer.isReturned) (hfailed : a.failed = [p]) :
    KeepsPrevious target old a ↔ KeptAt (temp ≠ target) (content = old) p := by
  have hjudged := h.judged p hfailed
  unfold Judged at hjudged
  unfold Writer.isReturned at hreturned
  unfold KeepsPrevious
  rw [h.content] at hjudged
  cases hpc : a.writer.pc with
  | returned done =>
    rw [hpc] at hjudged
    cases done with
    | false => simpa using hjudged
    | true => simpa using hjudged
  | _ => rw [hpc] at hreturned; cases hreturned

/-- A call whose only failure is that of `p` keeps the previous bundle and leaves no temporary
directory exactly when `p` is one of the calls of `KeptAt`. -/
theorem failed_write_keeps_iff (hold : dir.lookup target = some (.bundle old))
    (hfailed : (writeBundle target io content pid dir).failed = [p]) :
    KeepsPrevious target old (writeBundle target io content pid dir) ↔
      KeptAt (tempBundleName target pid.toNat (io .name).now ≠ target) (content = old) p :=
  (Sound.run hold 15).keepsPrevious_iff (Attempt.isReturned_iterate 15 (Nat.le_refl _)) hfailed

end Runs

/-! ## A failed directory sync -/

/-- The clock reads 100, and the call `failing` fails. -/
def failOnly (failing : Pc) (pc : Pc) : Io := ⟨100, pc ≠ failing, false⟩

/-- A directory with the bundle `a.odb` alone. -/
def oneBundle : Dir String := AList.singleton (.ofString "a.odb") (.bundle "old")

/-- The write of a new content to it. -/
def overwrite (failing : Pc) : Attempt String :=
  writeBundle (.ofString "a.odb") (failOnly failing) "new" 7 oneBundle

theorem failed_write_keeps_fill : KeepsPrevious (.ofString "a.odb") "old" (overwrite .fill) :=
  (failed_write_keeps_iff (p := .fill) (by decide +kernel) (by decide +kernel)).mpr
    (tempBundleName_ne_of_head (by decide))

/-- The sync behind the backup rename: no target, and the temporary directory is left. -/
theorem failed_sync_loses_target :
    (overwrite .syncAside).failed = [.syncAside] ∧
      (overwrite .syncAside).dir.lookup (.ofString "a.odb") = none ∧
      ¬KeepsPrevious (.ofString "a.odb") "old" (overwrite .syncAside) := by
  have hfailed : (overwrite .syncAside).failed = [.syncAside] ∧
      (overwrite .syncAside).dir.lookup (.ofString "a.odb") = none ∧
      (overwrite .syncAside).writer.pc = .returned false := by decide +kernel
  refine ⟨hfailed.1, hfailed.2.1, fun hkeeps => ?_⟩
  have htarget := (hkeeps hfailed.2.2).1
  rw [hfailed.2.1] at htarget
  cases htarget

end OrdinalDB.Bundle
