import OrdinalDB.Bundle.Directory

/-!
# Writing a bundle

`write_bundle` and `replace_bundle` of `ordinaldb/src/io.rs`, one filesystem
step at a time, so that a crash or another party can come between any two.
-/

namespace OrdinalDB.Bundle

/-- What the environment decides about a step: the clock reading, whether the system call
succeeds, and whether a directory left half written or half removed verifies. -/
structure Io where
  now : Nat
  ok : Bool
  verifies : Bool
deriving DecidableEq, Repr

/-- A call that succeeds at time `now`. -/
def Io.at (now : Nat) : Io := ⟨now, true, false⟩

/-- The next call of `write_bundle`, or from `inspect` on of `replace_bundle`. -/
inductive Pc
  | name            -- `temp_bundle_path`
  | clear           -- `temp.exists()` and the start of its removal
  | clearing        -- the end of that removal
  | create          -- `create_dir_all(temp)`
  | syncTemp        -- `sync_parent_directory(temp)`
  | fill            -- `write_bundle_contents`, `verify_written_bundle`, `sync_bundle_tree`
  | discard         -- `remove_dir_all(temp)` before an error
  | inspect         -- `symlink_metadata(path)`
  | probe           -- `path.exists()`, `unique_backup_bundle_path`
  | moveAside       -- `rename_path(path, backup)`
  | syncAside       -- `sync_parent_directory(path)`
  | publish         -- `rename_path(temp, path)`
  | restore         -- `rename_path(backup, path)` after a failed publish
  | syncPublish     -- `sync_parent_directory(path)`
  | remove          -- the start of `remove_dir_all(backup)`
  | removing        -- the end of it
  | returned (ok : Bool)
deriving DecidableEq, Repr

structure Writer (C : Type) where
  content : C
  pid : UInt32
  temp : Name
  backup : Option Name
  pc : Pc
deriving DecidableEq, Repr

variable {C : Type}

namespace Writer

def start (content : C) (pid : UInt32) : Writer C := ⟨content, pid, [], none, .name⟩

/-- The call reads the clock in this step. -/
def readsClock (w : Writer C) : Bool :=
  w.pc = .name ∨ w.pc = .probe

def isReturned (w : Writer C) : Bool :=
  match w.pc with
  | .returned _ => true
  | _ => false

/-- The step from `w` to `w'` renamed the temporary directory to the target. -/
def publishes (w w' : Writer C) : Bool := w.pc = .publish ∧ w'.pc = .syncPublish

def goto (w : Writer C) (pc : Pc) : Writer C := { w with pc := pc }

def fail (w : Writer C) : Writer C := w.goto (.returned false)

/-- The steps that are left at most. -/
def remaining (w : Writer C) : Nat :=
  match w.pc with
  | .name => 15 | .clear => 14 | .clearing => 13 | .create => 12 | .syncTemp => 11 | .fill => 10
  | .inspect => 9 | .discard => 8 | .probe => 7 | .moveAside => 6 | .syncAside => 5
  | .publish => 4 | .restore => 3 | .syncPublish => 3 | .remove => 2 | .removing => 1
  | .returned _ => 0

/-- One step of the call on the parent directory. -/
def next (target : Name) (w : Writer C) (dir : Dir C) (io : Io) : Writer C × Dir C :=
  match w.pc with
  | .name =>
    if io.ok then
      ({ w with temp := tempBundleName target w.pid.toNat io.now, pc := .clear }, dir)
    else (w.fail, dir)
  | .clear =>
    match dir.lookup w.temp with
    | none => (w.goto .create, dir)
    | some node =>
      if io.ok ∧ node.isDir then (w.goto .clearing, dir.insert w.temp (.torn io.verifies))
      else (w.fail, dir)
  | .clearing => if io.ok then (w.goto .create, dir.erase w.temp) else (w.fail, dir)
  | .create =>
    if io.ok then (w.goto .syncTemp, dir.insert w.temp (.torn io.verifies)) else (w.fail, dir)
  | .syncTemp => if io.ok then (w.goto .fill, dir) else (w.fail, dir)
  | .fill =>
    if io.ok then (w.goto .inspect, dir.insert w.temp (.bundle w.content))
    else (w.goto .discard, dir.insert w.temp (.torn io.verifies))
  | .discard =>
    (w.fail, if io.ok then dir.erase w.temp else dir.insert w.temp (.torn io.verifies))
  | .inspect =>
    match dir.lookup target with
    | some .symlink | some .file => (w.goto .discard, dir)
    | _ => if io.ok then (w.goto .probe, dir) else (w.fail, dir)
  | .probe =>
    if target ∈ dir then
      if io.ok then
        ({ w with
            backup := some (uniqueBackupBundleName target w.pid.toNat io.now), pc := .moveAside },
          dir)
      else (w.fail, dir)
    else ({ w with backup := none, pc := .publish }, dir)
  | .moveAside =>
    match w.backup.bind fun backup => dir.rename target backup with
    | some dir' => if io.ok then (w.goto .syncAside, dir') else (w.fail, dir)
    | none => (w.fail, dir)
  | .syncAside => if io.ok then (w.goto .publish, dir) else (w.fail, dir)
  | .publish =>
    match dir.rename w.temp target with
    | some dir' => if io.ok then (w.goto .syncPublish, dir') else (w.goto .restore, dir)
    | none => (w.goto .restore, dir)
  | .restore =>
    match w.backup.bind fun backup => dir.rename backup target with
    | some dir' => (w.fail, if io.ok then dir' else dir)
    | none => (w.fail, dir)
  | .syncPublish => if io.ok then (w.goto .remove, dir) else (w.fail, dir)
  | .remove =>
    match w.backup with
    | none => (w.goto (.returned true), dir)
    | some backup =>
      if io.ok ∧ backup ∈ dir then (w.goto .removing, dir.insert backup (.torn io.verifies))
      else (w.goto (.returned true), dir)
  | .removing =>
    (w.goto (.returned true),
      match w.backup with
      | some backup => if io.ok then dir.erase backup else dir
      | none => dir)
  | .returned _ => (w, dir)

theorem remaining_next {w : Writer C} (h : w.isReturned = false) (target : Name) (dir : Dir C)
    (io : Io) : (w.next target dir io).1.remaining < w.remaining := by
  obtain ⟨content, pid, temp, backup, pc⟩ := w
  cases pc <;> simp only [next] <;> (repeat' split) <;> simp_all [remaining, goto, fail, isReturned]

end Writer

end OrdinalDB.Bundle
