import OrdinalDB.Lib.Machine
import OrdinalDB.Lib.Replacement

/-!
# Writing an index file

`atomic_write` of `ordinaldb-hybrid/src/sparse.rs` behind the check of `write_mmap`, with its
retries and the removal of its temporary files. Any number of calls write one path at once. The
environment decides which operation fails and with what error, and which nanoseconds a name gets.

* `Inv.step`, `writes_keep_target`: in every interleaving the target is the file of before, or the
  whole file of a call that has returned.
* `steps_le_fuel`, `next_isSome`: every call ends after a bounded number of its own steps.
-/

namespace OrdinalDB.Sparse.AtomicWrite

open Machine

open Replacement (Node Files)

/-! ## Calls -/

/-- The errors that the retries tell apart. -/
inductive IoError
  | permissionDenied
  | alreadyExists
  | other
deriving DecidableEq

inductive Pc
  | checking
  | preparing
  | creating (tries : Nat)
  | writing (temp : String)
  | syncing (temp : String)
  | replacing (temp : String)
  | removing (temp : String) (error : IoError)
  | returned
  | refused
  | failed (error : IoError)
deriving DecidableEq

def Pc.ended : Pc → Bool
  | .returned | .refused | .failed _ => true
  | _ => false

/-- The temporary file of a call. -/
def Pc.temp : Pc → Option String
  | .writing temp | .syncing temp | .replacing temp | .removing temp _ => some temp
  | _ => none

structure Writing where
  pc : Pc
  attempt : Nat

def atomicWriteAttempts : Nat := 10

def tempCreateAttempts : Nat := 16

/-- An error of `atomic_write_once`; `is_transient_access_denied` is tried again. -/
def Writing.fail (w : Writing) (error : IoError) : Writing :=
  if error = .permissionDenied ∧ w.attempt + 1 < atomicWriteAttempts then
    ⟨.preparing, w.attempt + 1⟩
  else ⟨.failed error, w.attempt⟩

/-- The name of the temporary file is taken. -/
def Writing.collide (w : Writing) (tries : Nat) : Writing :=
  if tries + 1 < tempCreateAttempts then ⟨.creating (tries + 1), w.attempt⟩
  else w.fail .alreadyExists

structure Call (T : Type) where
  pid : Nat
  content : T

variable {P T : Type}

/-- The files of the directory, the `TEMP_COUNTER` of every process, and the calls. -/
structure State (P T : Type) where
  files : Files String T
  nonce : Nat → Nat
  writing : P → Writing

inductive Io
  | succeeds (nanos : Nat)
  | fails (error : IoError)

/-- `temp_path`. -/
def tempName (name : String) (pid nanos nonce : Nat) : String :=
  "." ++ name ++ ".tmp-" ++ toString pid ++ "-" ++ toString nanos ++ "-" ++ toString nonce

section Step

variable [DecidableEq P]

def State.goto (s : State P T) (p : P) (w : Writing) : State P T :=
  { s with writing := Function.update s.writing p w }

def State.setFile (s : State P T) (name : String) (node : Option (Node T)) : State P T :=
  { s with files := Function.update s.files name node }

def State.draw (s : State P T) (pid : Nat) : State P T :=
  { s with nonce := Function.update s.nonce pid (s.nonce pid + 1) }

/-- The next operation of a call. -/
def next (name : String) (calls : P → Call T) (s : State P T) (label : P × Io) :
    Option (State P T) :=
  let p := label.1
  let w := s.writing p
  match w.pc, label.2 with
  -- `ensure_writable_regular_path`, which passes over an error of `symlink_metadata`
  | .checking, .succeeds _ =>
    match s.files name with
    | some .symlink | some .directory => some (s.goto p { w with pc := .refused })
    | _ => some (s.goto p { w with pc := .preparing })
  | .checking, .fails _ => some (s.goto p { w with pc := .preparing })
  | .preparing, .succeeds _ => some (s.goto p { w with pc := .creating 0 })
  | .preparing, .fails error => some (s.goto p (w.fail error))
  | .creating tries, .succeeds nanos =>
    let temp := tempName name (calls p).pid nanos (s.nonce (calls p).pid)
    let s := s.draw (calls p).pid
    match s.files temp with
    | none => some ((s.setFile temp (some .unfinished)).goto p { w with pc := .writing temp })
    | some _ => some (s.goto p (w.collide tries))
  | .creating tries, .fails .alreadyExists =>
    some ((s.draw (calls p).pid).goto p (w.collide tries))
  | .creating _, .fails error => some ((s.draw (calls p).pid).goto p (w.fail error))
  | .writing temp, .succeeds _ =>
    some ((s.setFile temp (some (.file (calls p).content))).goto p { w with pc := .syncing temp })
  | .syncing temp, .succeeds _ => some (s.goto p { w with pc := .replacing temp })
  | .replacing temp, .succeeds _ =>
    match s.files name with
    | some .directory => some (s.goto p { w with pc := .removing temp .other })
    | _ => some (((s.setFile temp none).setFile name (s.files temp)).goto p
        { w with pc := .returned })
  | .writing temp, .fails error | .syncing temp, .fails error | .replacing temp, .fails error =>
    some (s.goto p { w with pc := .removing temp error })
  | .removing temp error, .succeeds _ => some ((s.setFile temp none).goto p (w.fail error))
  | .removing _ error, .fails _ => some (s.goto p (w.fail error))
  | .returned, _ | .refused, _ | .failed _, _ => none

end Step

/-! ## What a step does -/

/-- The call has written its temporary file. -/
def Pc.Written (pc : Pc) (temp : String) : Prop :=
  pc = .syncing temp ∨ pc = .replacing temp

/-- At most so many steps are left before the attempt ends. -/
def Pc.rank : Pc → Nat
  | .checking => 23
  | .preparing => 22
  | .creating tries => 5 + (tempCreateAttempts - tries)
  | .writing _ => 4
  | .syncing _ => 3
  | .replacing _ => 2
  | .removing _ _ => 1
  | .returned | .refused | .failed _ => 0

/-- At most so many steps are left before the call ends. -/
def Writing.fuel (w : Writing) : Nat :=
  (atomicWriteAttempts - 1 - w.attempt) * 23 + w.pc.rank

def IsTemp (name other : String) : Prop :=
  ∃ pid nanos nonce, other = tempName name pid nanos nonce

section Calls

variable {w : Writing} {error : IoError} {tries : Nat} {pc : Pc} {temp name other : String}

theorem temp_fail : (w.fail error).pc.temp = none := by
  unfold Writing.fail
  split <;> rfl

theorem temp_collide : (w.collide tries).pc.temp = none := by
  unfold Writing.collide
  split
  · rfl
  · exact temp_fail

theorem fail_ne_returned : (w.fail error).pc ≠ .returned := by
  unfold Writing.fail
  split <;> exact Pc.noConfusion

theorem collide_ne_returned : (w.collide tries).pc ≠ .returned := by
  unfold Writing.collide
  split
  · exact Pc.noConfusion
  · exact fail_ne_returned

theorem Pc.Written.temp_eq (h : pc.Written temp) : pc.temp = some temp := by
  rcases h with rfl | rfl <;> rfl

theorem not_written (h : pc.temp = none) : ¬pc.Written temp := by
  intro hwritten
  rw [hwritten.temp_eq] at h
  cases h

theorem fuel_goto (h : pc.rank < w.pc.rank) : (⟨pc, w.attempt⟩ : Writing).fuel < w.fuel :=
  Nat.add_lt_add_left h _

/-- A failed attempt is followed by another one, of which there are finitely many. -/
theorem fuel_fail (h : 0 < w.pc.rank) : (w.fail error).fuel < w.fuel := by
  unfold Writing.fail
  split
  next hagain =>
    have hmore : w.attempt + 1 < 10 := hagain.2
    show (10 - 1 - (w.attempt + 1)) * 23 + 22 < (10 - 1 - w.attempt) * 23 + w.pc.rank
    omega
  next => exact Nat.add_lt_add_left h _

theorem fuel_collide (h : w.pc = .creating tries) : (w.collide tries).fuel < w.fuel := by
  have hrank : w.pc.rank = 5 + (16 - tries) := h ▸ rfl
  unfold Writing.collide
  split
  next hmore =>
    have hmore : tries + 1 < 16 := hmore
    refine fuel_goto ?_
    show 5 + (16 - (tries + 1)) < w.pc.rank
    omega
  next => exact fuel_fail (by omega)

theorem IsTemp.ne (h : IsTemp name other) : other ≠ name := by
  obtain ⟨pid, nanos, nonce, rfl⟩ := h
  intro heq
  have hlength := congrArg String.length heq
  simp only [tempName, String.length_append] at hlength
  have hdot : (".tmp-" : String).length = 5 := rfl
  omega

end Calls

section Moves

variable {name : String} {calls : P → Call T} {s t : State P T} {p : P} {io : Io}

/-- The call leaves its temporary file. -/
def Abandons (s : State P T) (label : P × Io) : Prop :=
  ∃ temp error cause, (s.writing label.1).pc = .removing temp error ∧ label.2 = .fails cause

/-- A step, by what it does to the files. -/
inductive Move (name : String) (calls : P → Call T) (s : State P T) (p : P) (io : Io) :
    Files String T → Writing → Prop
  | quiet (w : Writing) (temp : w.pc.temp = (s.writing p).pc.temp) (running : w.pc ≠ .returned)
      (written : ∀ temp, w.pc.Written temp → (s.writing p).pc.Written temp) :
      Move name calls s p io s.files w
  | abandon (w : Writing) (abandons : Abandons s (p, io)) (dropped : w.pc.temp = none)
      (running : w.pc ≠ .returned) : Move name calls s p io s.files w
  | create (temp : String) (w : Writing) (spelled : IsTemp name temp)
      (free : s.files temp = none) (pc : w.pc = .writing temp)
      (bare : (s.writing p).pc.temp = none) :
      Move name calls s p io (Function.update s.files temp (some .unfinished)) w
  | fill (temp : String) (w : Writing) (before : (s.writing p).pc = .writing temp)
      (pc : w.pc = .syncing temp) :
      Move name calls s p io
        (Function.update s.files temp (some (.file (calls p).content))) w
  | publish (temp : String) (w : Writing) (before : (s.writing p).pc = .replacing temp)
      (pc : w.pc = .returned) :
      Move name calls s p io
        (Function.update (Function.update s.files temp none) name (s.files temp)) w
  | remove (temp : String) (w : Writing) (before : (s.writing p).pc.temp = some temp)
      (dropped : w.pc.temp = none) (running : w.pc ≠ .returned) :
      Move name calls s p io (Function.update s.files temp none) w

/-- A step without a temporary file. -/
theorem Move.bare {w : Writing} (hbefore : (s.writing p).pc.temp = none) (hafter : w.pc.temp = none)
    (hrunning : w.pc ≠ .returned) : Move name calls s p io s.files w :=
  .quiet w (hafter.trans hbefore.symm) hrunning fun _ hwritten =>
    absurd hwritten (not_written hafter)

/-- A step after which the temporary file is to be removed. -/
theorem Move.turned {temp : String} {error : IoError} {attempt : Nat}
    (h : (s.writing p).pc.temp = some temp) :
    Move name calls s p io s.files ⟨.removing temp error, attempt⟩ :=
  .quiet _ h.symm Pc.noConfusion fun _ hwritten => by
    rcases hwritten with hwritten | hwritten <;> cases hwritten

theorem move_of_next [DecidableEq P] (h : next name calls s (p, io) = some t) :
    ∃ w, t.writing = Function.update s.writing p w ∧ w.fuel < (s.writing p).fuel ∧
      Move name calls s p io t.files w := by
  have hbare : ∀ {pc : Pc}, (s.writing p).pc = pc → pc.temp = none →
      (s.writing p).pc.temp = none := fun hpc hnone => hpc ▸ hnone
  cases hpc : (s.writing p).pc with
  | checking =>
    cases io with
    | succeeds nanos =>
      simp only [next, hpc] at h
      split at h <;> obtain rfl := Option.some.inj h <;>
        exact ⟨_, rfl, fuel_goto (by simp [hpc, Pc.rank]), .bare (hbare hpc rfl) rfl Pc.noConfusion⟩
    | fails error =>
      simp only [next, hpc, Option.some.injEq] at h
      obtain rfl := h
      exact ⟨_, rfl, fuel_goto (by simp [hpc, Pc.rank]), .bare (hbare hpc rfl) rfl Pc.noConfusion⟩
  | preparing =>
    cases io with
    | succeeds nanos =>
      simp only [next, hpc, Option.some.injEq] at h
      obtain rfl := h
      exact ⟨_, rfl, fuel_goto (by rw [hpc]; decide), .bare (hbare hpc rfl) rfl Pc.noConfusion⟩
    | fails error =>
      simp only [next, hpc, Option.some.injEq] at h
      obtain rfl := h
      exact ⟨_, rfl, fuel_fail (by rw [hpc, Pc.rank]; omega),
          .bare (hbare hpc rfl) temp_fail fail_ne_returned⟩
  | creating tries =>
    cases io with
    | succeeds nanos =>
      simp only [next, hpc] at h
      split at h
      next hfree =>
        obtain rfl := Option.some.inj h
        refine ⟨_, rfl, fuel_goto ?_, .create _ _ ⟨_, _, _, rfl⟩ hfree rfl (hbare hpc rfl)⟩
        rw [hpc]
        show 4 < 5 + (16 - tries)
        omega
      next =>
        obtain rfl := Option.some.inj h
        exact ⟨_, rfl, fuel_collide hpc,
          .bare (hbare hpc rfl) temp_collide collide_ne_returned⟩
    | fails error =>
      cases error with
      | alreadyExists =>
        simp only [next, hpc, Option.some.injEq] at h
        obtain rfl := h
        exact ⟨_, rfl, fuel_collide hpc,
          .bare (hbare hpc rfl) temp_collide collide_ne_returned⟩
      | permissionDenied | other =>
        simp only [next, hpc, Option.some.injEq] at h
        obtain rfl := h
        exact ⟨_, rfl, fuel_fail (by rw [hpc, Pc.rank]; omega),
          .bare (hbare hpc rfl) temp_fail fail_ne_returned⟩
  | writing temp =>
    cases io with
    | succeeds nanos =>
      simp only [next, hpc, Option.some.injEq] at h
      obtain rfl := h
      exact ⟨_, rfl, fuel_goto (by simp [hpc, Pc.rank]), .fill temp _ hpc rfl⟩
    | fails error =>
      simp only [next, hpc, Option.some.injEq] at h
      obtain rfl := h
      exact ⟨_, rfl, fuel_goto (by simp [hpc, Pc.rank]), .turned (by rw [hpc]; rfl)⟩
  | syncing temp =>
    cases io with
    | succeeds nanos =>
      simp only [next, hpc, Option.some.injEq] at h
      obtain rfl := h
      refine ⟨_, rfl, fuel_goto (by simp [hpc, Pc.rank]),
        .quiet _ (by rw [hpc]; rfl) Pc.noConfusion fun other hother => ?_⟩
      rcases hother with hother | hother
      · cases hother
      · obtain rfl := Pc.replacing.inj hother
        exact .inl hpc
    | fails error =>
      simp only [next, hpc, Option.some.injEq] at h
      obtain rfl := h
      exact ⟨_, rfl, fuel_goto (by simp [hpc, Pc.rank]), .turned (by rw [hpc]; rfl)⟩
  | replacing temp =>
    cases io with
    | succeeds nanos =>
      simp only [next, hpc] at h
      split at h
      next =>
        obtain rfl := Option.some.inj h
        exact ⟨_, rfl, fuel_goto (by simp [hpc, Pc.rank]), .turned (by rw [hpc]; rfl)⟩
      next =>
        obtain rfl := Option.some.inj h
        exact ⟨_, rfl, fuel_goto (by simp [hpc, Pc.rank]), .publish temp _ hpc rfl⟩
    | fails error =>
      simp only [next, hpc, Option.some.injEq] at h
      obtain rfl := h
      exact ⟨_, rfl, fuel_goto (by simp [hpc, Pc.rank]), .turned (by rw [hpc]; rfl)⟩
  | removing temp error =>
    cases io with
    | succeeds nanos =>
      simp only [next, hpc, Option.some.injEq] at h
      obtain rfl := h
      exact ⟨_, rfl, fuel_fail (by simp [hpc, Pc.rank]),
        .remove temp _ (by rw [hpc]; rfl) temp_fail fail_ne_returned⟩
    | fails cause =>
      simp only [next, hpc, Option.some.injEq] at h
      obtain rfl := h
      exact ⟨_, rfl, fuel_fail (by simp [hpc, Pc.rank]),
        .abandon _ ⟨temp, error, cause, hpc, rfl⟩ temp_fail fail_ne_returned⟩
  | returned | refused | failed error =>
    simp only [next, hpc] at h
    cases h

theorem next_of_ended [DecidableEq P] (h : (s.writing p).pc.ended) :
    next name calls s (p, io) = none := by
  cases hpc : (s.writing p).pc with
  | returned | refused | failed error => simp only [next, hpc]
  | checking | preparing | creating _ | writing _ | syncing _ | replacing _ | removing _ _ =>
    rw [hpc] at h
    cases h

/-- No call waits for another one. -/
theorem next_isSome [DecidableEq P] (h : ¬(s.writing p).pc.ended) :
    (next name calls s (p, io)).isSome := by
  cases hpc : (s.writing p).pc with
  | checking | creating _ | replacing _ =>
    cases io with
    | succeeds nanos =>
      simp only [next, hpc]
      split <;> rfl
    | fails error => cases error <;> simp only [next, hpc, Option.isSome_some]
  | preparing | writing _ | syncing _ | removing _ _ =>
    cases io <;> simp only [next, hpc, Option.isSome_some]
  | returned | refused | failed error =>
    rw [hpc] at h
    exact absurd rfl h

/-! ## The invariant -/

/-- Calls that write to one path; `before` are the files of before. -/
structure Inv (name : String) (calls : P → Call T) (before : Files String T) (s : State P T) :
    Prop where
  target : (∀ p, (s.writing p).pc ≠ .returned) ∧ s.files name = before name ∨
    ∃ p, (s.writing p).pc = .returned ∧ s.files name = some (.file (calls p).content)
  held : ∀ p temp, (s.writing p).pc.temp = some temp →
    IsTemp name temp ∧ before temp = none ∧ s.files temp ≠ none
  written : ∀ p temp, (s.writing p).pc.Written temp →
    s.files temp = some (.file (calls p).content)
  apart : ∀ p q temp, (s.writing p).pc.temp = some temp → (s.writing q).pc.temp = some temp → p = q
  others : ∀ other, other ≠ name → s.files other ≠ before other →
    before other = none ∧ IsTemp name other

variable {before files : Files String T} {w : Writing} {temp other : String}

theorem Inv.free (h : Inv name calls before s) (hne : temp ≠ name) (hfree : s.files temp = none) :
    before temp = none := by
  by_contra hbefore
  exact hbefore (h.others temp hne (by rwa [hfree, ne_comm])).1

/-- The temporary file of a call after a step is the one it had, or a new one. -/
theorem Move.temp_cases (h : Move name calls s p io files w) (htemp : w.pc.temp = some temp) :
    (s.writing p).pc.temp = some temp ∨ IsTemp name temp ∧ s.files temp = none := by
  cases h with
  | quiet _ hkept => exact .inl (hkept ▸ htemp)
  | abandon _ _ hdropped => exact absurd (hdropped.symm.trans htemp) (Option.some_ne_none _).symm
  | create created _ hspelled hfree hpc =>
    rw [hpc] at htemp
    obtain rfl := Option.some.inj htemp
    exact .inr ⟨hspelled, hfree⟩
  | fill filled _ hbefore hpc =>
    rw [hpc] at htemp
    obtain rfl := Option.some.inj htemp
    exact .inl (hbefore ▸ rfl)
  | publish _ _ _ hpc =>
    rw [hpc] at htemp
    cases htemp
  | remove _ _ _ hdropped =>
    exact absurd (hdropped.symm.trans htemp) (Option.some_ne_none _).symm

/-- A step changes the target, the temporary file of the call, or makes that. -/
theorem Move.changed (h : Move name calls s p io files w) (hchanged : files other ≠ s.files other) :
    other = name ∨ (s.writing p).pc.temp = some other ∨
      IsTemp name other ∧ s.files other = none ∧ w.pc.temp = some other := by
  cases h with
  | quiet | abandon => exact absurd rfl hchanged
  | create created _ hspelled hfree hpc =>
    obtain rfl : other = created := by
      by_contra hne
      exact hchanged (Function.update_of_ne hne ..)
    exact .inr (.inr ⟨hspelled, hfree, hpc ▸ rfl⟩)
  | fill filled _ hbefore =>
    obtain rfl : other = filled := by
      by_contra hne
      exact hchanged (Function.update_of_ne hne ..)
    exact .inr (.inl (hbefore ▸ rfl))
  | publish published _ hbefore =>
    by_cases hname : other = name
    · exact .inl hname
    · obtain rfl : other = published := by
        by_contra hne
        exact hchanged ((Function.update_of_ne hname ..).trans (Function.update_of_ne hne ..))
      exact .inr (.inl (hbefore ▸ rfl))
  | remove removed _ hbefore =>
    obtain rfl : other = removed := by
      by_contra hne
      exact hchanged (Function.update_of_ne hne ..)
    exact .inr (.inl hbefore)

/-- The target changes when a call returns, and then to the file of the call. -/
theorem Move.target (hinv : Inv name calls before s) (h : Move name calls s p io files w) :
    w.pc ≠ .returned ∧ files name = s.files name ∨
      w.pc = .returned ∧ files name = some (.file (calls p).content) := by
  have hname : ∀ temp node, IsTemp name temp →
      Function.update s.files temp node name = s.files name := fun temp node htemp =>
    Function.update_of_ne htemp.ne.symm ..
  cases h with
  | quiet _ _ hrunning => exact .inl ⟨hrunning, rfl⟩
  | abandon _ _ _ hrunning => exact .inl ⟨hrunning, rfl⟩
  | create created _ hspelled _ hpc =>
    refine .inl ⟨?_, hname _ _ hspelled⟩
    rw [hpc]
    exact Pc.noConfusion
  | fill filled _ hbefore hpc =>
    refine .inl ⟨?_, hname _ _ (hinv.held p filled (hbefore ▸ rfl)).1⟩
    rw [hpc]
    exact Pc.noConfusion
  | publish published _ hbefore hpc =>
    exact .inr ⟨hpc, (Function.update_self ..).trans (hinv.written p published (.inr hbefore))⟩
  | remove removed _ hbefore _ hrunning =>
    exact .inl ⟨hrunning, hname _ _ (hinv.held p removed hbefore).1⟩

/-- What a step leaves in the temporary file of its call. -/
theorem Move.own (hinv : Inv name calls before s) (h : Move name calls s p io files w)
    (htemp : w.pc.temp = some temp) :
    files temp ≠ none ∧ (w.pc.Written temp → files temp = some (.file (calls p).content)) := by
  cases h with
  | quiet _ hkept _ hwritten =>
    exact ⟨(hinv.held p temp (hkept ▸ htemp)).2.2, fun h => hinv.written p temp (hwritten temp h)⟩
  | abandon _ _ hdropped => exact absurd (hdropped.symm.trans htemp) (Option.some_ne_none _).symm
  | create created _ _ _ hpc =>
    rw [hpc] at htemp
    obtain rfl := Option.some.inj htemp
    rw [Function.update_self]
    refine ⟨Option.some_ne_none _, fun hwritten => ?_⟩
    rw [hpc] at hwritten
    rcases hwritten with hwritten | hwritten <;> cases hwritten
  | fill filled _ _ hpc =>
    rw [hpc] at htemp
    obtain rfl := Option.some.inj htemp
    rw [Function.update_self]
    exact ⟨Option.some_ne_none _, fun _ => rfl⟩
  | publish _ _ _ hpc =>
    rw [hpc] at htemp
    cases htemp
  | remove _ _ _ hdropped =>
    exact absurd (hdropped.symm.trans htemp) (Option.some_ne_none _).symm

/-- Unless the removal fails, a temporary file is kept or gone. -/
theorem Move.released (h : Move name calls s p io files w) (hno : ¬Abandons s (p, io))
    (hne : other ≠ name) (htemp : (s.writing p).pc.temp = some other) :
    w.pc.temp = some other ∨ files other = none := by
  cases h with
  | quiet _ hkept => exact .inl (hkept.trans htemp)
  | abandon _ habandons => exact absurd habandons hno
  | create _ _ _ _ _ hbare => exact absurd (hbare.symm.trans htemp) (Option.some_ne_none _).symm
  | fill filled _ hbefore hpc =>
    rw [hbefore] at htemp
    obtain rfl := Option.some.inj htemp
    exact .inl (hpc ▸ rfl)
  | publish published _ hbefore =>
    rw [hbefore] at htemp
    obtain rfl := Option.some.inj htemp
    exact .inr ((Function.update_of_ne hne ..).trans (Function.update_self ..))
  | remove removed _ hbefore =>
    obtain rfl := Option.some.inj (hbefore.symm.trans htemp)
    exact .inr (Function.update_self ..)

theorem Inv.step [DecidableEq P] (hinv : Inv name calls before s)
    (h : next name calls s (p, io) = some t) : Inv name calls before t := by
  obtain ⟨w, hwriting, -, hmove⟩ := move_of_next h
  have hself : t.writing p = w := by rw [hwriting, Function.update_self]
  have hother : ∀ q, q ≠ p → t.writing q = s.writing q := fun q hne => by
    rw [hwriting, Function.update_of_ne hne]
  have hrunning : (s.writing p).pc ≠ .returned := by
    intro hpc
    have hended : (s.writing p).pc.ended := hpc ▸ rfl
    rw [next_of_ended hended] at h
    cases h
  -- a step leaves the temporary files of the other calls alone
  have hkept : ∀ q temp, q ≠ p → (s.writing q).pc.temp = some temp →
      t.files temp = s.files temp := by
    intro q temp hne htemp
    by_contra hchanged
    rcases hmove.changed hchanged with rfl | hown | ⟨-, hfree, -⟩
    · exact (hinv.held q temp htemp).1.ne rfl
    · exact hne (hinv.apart q p temp htemp hown)
    · exact (hinv.held q temp htemp).2.2 hfree
  have hcross : ∀ q temp, q ≠ p → (s.writing q).pc.temp = some temp → w.pc.temp ≠ some temp := by
    intro q temp hne htemp hown
    rcases hmove.temp_cases hown with hown | ⟨-, hfree⟩
    · exact hne (hinv.apart q p temp htemp hown)
    · exact (hinv.held q temp htemp).2.2 hfree
  refine ⟨?_, fun q temp htemp => ?_, fun q temp hwritten => ?_, fun q r temp hq hr => ?_,
    fun other hne hchanged => ?_⟩
  · rcases hmove.target hinv with ⟨hpc, hname⟩ | ⟨hpc, hname⟩
    · rcases hinv.target with ⟨hnone, hbefore⟩ | ⟨q, hq, hcontent⟩
      · refine .inl ⟨fun q => ?_, hname.trans hbefore⟩
        rcases eq_or_ne q p with rfl | hne
        · rwa [hself]
        · rw [hother q hne]
          exact hnone q
      · refine .inr ⟨q, ?_, hname.trans hcontent⟩
        rwa [hother q fun heq => hrunning (heq ▸ hq)]
    · exact .inr ⟨p, by rwa [hself], hname⟩
  · rcases eq_or_ne q p with rfl | hne
    · rw [hself] at htemp
      have hnode := (hmove.own hinv htemp).1
      rcases hmove.temp_cases htemp with hold | ⟨hspelled, hfree⟩
      · exact ⟨(hinv.held q temp hold).1, (hinv.held q temp hold).2.1, hnode⟩
      · exact ⟨hspelled, hinv.free hspelled.ne hfree, hnode⟩
    · rw [hother q hne] at htemp
      rw [hkept q temp hne htemp]
      exact hinv.held q temp htemp
  · rcases eq_or_ne q p with rfl | hne
    · rw [hself] at hwritten
      exact (hmove.own hinv hwritten.temp_eq).2 hwritten
    · rw [hother q hne] at hwritten
      rw [hkept q temp hne hwritten.temp_eq]
      exact hinv.written q temp hwritten
  · rcases eq_or_ne q p with rfl | hqp
    · by_contra hne
      rw [hself] at hq
      rw [hother r (Ne.symm hne)] at hr
      exact hcross r temp (Ne.symm hne) hr hq
    · rw [hother q hqp] at hq
      rcases eq_or_ne r p with rfl | hrp
      · rw [hself] at hr
        exact absurd hr (hcross q temp hqp hq)
      · rw [hother r hrp] at hr
        exact hinv.apart q r temp hq hr
  · by_cases hsame : t.files other = s.files other
    · rw [hsame] at hchanged
      exact hinv.others other hne hchanged
    · rcases hmove.changed hsame with rfl | hown | ⟨hspelled, hfree, -⟩
      · exact absurd rfl hne
      · exact ⟨(hinv.held p other hown).2.1, (hinv.held p other hown).1⟩
      · exact ⟨hinv.free hne hfree, hspelled⟩

/-- Every file that is new beside the target belongs to a call. -/
def Tidy (name : String) (before : Files String T) (s : State P T) : Prop :=
  ∀ other, other ≠ name → s.files other ≠ before other →
    ∃ p, (s.writing p).pc.temp = some other

theorem Tidy.step [DecidableEq P] (hinv : Inv name calls before s) (htidy : Tidy name before s)
    (hno : ¬Abandons s (p, io)) (h : next name calls s (p, io) = some t) :
    Tidy name before t := by
  obtain ⟨w, hwriting, -, hmove⟩ := move_of_next h
  intro other hne hchanged
  have hmine : w.pc.temp = some other → ∃ q, (t.writing q).pc.temp = some other := fun hw =>
    ⟨p, by rwa [hwriting, Function.update_self]⟩
  have hheld : (∃ q, (s.writing q).pc.temp = some other) →
      ∃ q, (t.writing q).pc.temp = some other := by
    rintro ⟨q, hq⟩
    rcases eq_or_ne q p with rfl | hqp
    · rcases hmove.released hno hne hq with hkept | hgone
      · exact hmine hkept
      · exact absurd (hgone.trans (hinv.held q other hq).2.1.symm) hchanged
    · exact ⟨q, by rwa [hwriting, Function.update_of_ne hqp]⟩
  by_cases hsame : t.files other = s.files other
  · exact hheld (htidy other hne (hsame ▸ hchanged))
  · rcases hmove.changed hsame with rfl | hown | ⟨-, -, hnew⟩
    · exact absurd rfl hne
    · exact hheld ⟨p, hown⟩
    · exact hmine hnew

end Moves

/-! ## Runs -/

section Runs

variable [DecidableEq P] {name : String} {calls : P → Call T} {before : Files String T}
  {nonce : Nat → Nat} {s t : State P T} {trace : List (State P T × P × Io)}

def start (before : Files String T) (nonce : Nat → Nat) : State P T :=
  ⟨before, nonce, fun _ => ⟨.checking, 0⟩⟩

omit [DecidableEq P] in
theorem no_temp_start {p : P} {temp : String} :
    ((start before nonce).writing p).pc.temp ≠ some temp :=
  (Option.some_ne_none temp).symm

omit [DecidableEq P] in
theorem inv_start : Inv name calls before (start before nonce) where
  target := .inl ⟨fun _ => Pc.noConfusion, rfl⟩
  held := fun _ _ htemp => absurd htemp no_temp_start
  written := fun _ _ hwritten => absurd hwritten (not_written rfl)
  apart := fun _ _ _ htemp => absurd htemp no_temp_start
  others := fun _ _ hchanged => absurd rfl hchanged

theorem inv_of_run
    (hrun : Run (fun s label u => next name calls s label = some u) (start before nonce) trace t) :
    AllStates (Inv name calls before) trace t :=
  @Run.invariant _ _ _ _ _ _ _ (fun _ _ => True) hrun inv_start
    (fun _ _ _ hinv _ hstep => hinv.step hstep) fun _ _ => trivial

/-- The steps of one call. -/
def stepsOf (p : P) (trace : List (State P T × P × Io)) : Nat :=
  (trace.filter fun entry => entry.2.1 = p).length

theorem steps_le_fuel (hrun : Run (fun s label u => next name calls s label = some u) s trace t)
    (p : P) : stepsOf p trace + (t.writing p).fuel ≤ (s.writing p).fuel := by
  induction hrun with
  | refl => exact (Nat.zero_add _).le
  | @snoc trace middle last label _ hlast ih =>
    obtain ⟨q, io⟩ := label
    obtain ⟨w, hwriting, hfuel, -⟩ := move_of_next hlast
    rw [stepsOf, List.filter_append, List.length_append, hwriting]
    rcases eq_or_ne p q with rfl | hne
    · rw [Function.update_self, List.filter_cons_of_pos (by simp)]
      show stepsOf p trace + 1 + w.fuel ≤ _
      omega
    · rw [Function.update_of_ne hne, List.filter_cons_of_neg (by simpa using hne.symm)]
      exact ih

end Runs

/-- In every interleaving of calls for one path, whatever fails: the target is the file of before
until a call returns, and then the whole file of one that has; what else is new has the name of a
temporary file, and when all calls have ended nothing is, unless a removal has failed. No call waits
for another one, and each ends after at most 230 steps of its own. -/
theorem writes_keep_target [DecidableEq P] (name : String) (calls : P → Call T)
    (before : Files String T) (nonce : Nat → Nat) {trace : List (State P T × P × Io)}
    {t : State P T}
    (hrun : Run (fun s label u => next name calls s label = some u) (start before nonce) trace t) :
    AllStates (fun s =>
      ((∀ p, (s.writing p).pc ≠ .returned) ∧ s.files name = before name ∨
        ∃ p, (s.writing p).pc = .returned ∧ s.files name = some (.file (calls p).content)) ∧
      ∀ other, other ≠ name → s.files other ≠ before other →
        before other = none ∧ IsTemp name other) trace t ∧
    (AllSteps (fun s label => ¬Abandons s label) trace → (∀ p, (t.writing p).pc.ended) →
      ∀ other, other ≠ name → t.files other = before other) ∧
    ∀ p, stepsOf p trace ≤ 230 ∧
      ((t.writing p).pc.ended ∨ ∀ io, (next name calls t (p, io)).isSome) := by
  have hinv := inv_of_run hrun
  refine ⟨⟨fun entry hentry => ?_, hinv.2.target, hinv.2.others⟩,
    fun hremoved hended other hne => ?_, fun p => ⟨?_, ?_⟩⟩
  · exact ⟨(hinv.1 entry hentry).target, (hinv.1 entry hentry).others⟩
  · have htidy : AllStates (fun s => Inv name calls before s ∧ Tidy name before s) trace t := by
      refine hrun.invariant ⟨inv_start, fun _ _ hchanged => absurd rfl hchanged⟩ ?_ hremoved
      rintro s ⟨p, io⟩ u ⟨hinv, htidy⟩ hno hstep
      exact ⟨hinv.step hstep, htidy.step hinv hno hstep⟩
    by_contra hchanged
    obtain ⟨p, hp⟩ := htidy.2.2 other hne hchanged
    have hdone := hended p
    cases hpc : (t.writing p).pc with
    | returned | refused | failed error =>
      rw [hpc] at hp
      cases hp
    | checking | preparing | creating _ | writing _ | syncing _ | replacing _ | removing _ _ =>
      rw [hpc] at hdone
      cases hdone
  · have hfuel : stepsOf p trace + (t.writing p).fuel ≤ 230 := steps_le_fuel hrun p
    exact le_of_add_le_left hfuel
  · by_cases hended : (t.writing p).pc.ended
    · exact .inl hended
    · exact .inr fun io => next_isSome hended

/-! ## Two calls -/

def sampleCalls (first : Bool) : Call Nat :=
  if first then ⟨7, 1⟩ else ⟨8, 2⟩

/-- One call is denied and tries again while the other one writes. -/
def sampleLabels : List (Bool × Io) :=
  [(true, .succeeds 0), (false, .succeeds 0), (true, .succeeds 0), (false, .succeeds 0),
    (true, .succeeds 5), (false, .succeeds 5), (true, .succeeds 0), (false, .succeeds 0),
    (true, .succeeds 0), (false, .succeeds 0), (true, .fails .permissionDenied),
    (false, .succeeds 0), (true, .succeeds 0), (true, .succeeds 0), (true, .succeeds 6),
    (true, .succeeds 0), (true, .succeeds 0), (true, .succeeds 0)]

def sampleEnd : Option (State Bool Nat) :=
  exec (next "sparse.bm25" sampleCalls) (start (fun _ => none) fun _ => 0) sampleLabels

theorem sample_keeps_target : ∃ t, sampleEnd = some t ∧
    t.files "sparse.bm25" = some (.file 1) ∧
    ∀ p, (t.writing p).pc.ended ∨ ∀ io, (next "sparse.bm25" sampleCalls t (p, io)).isSome := by
  have hsome : sampleEnd.any fun t => t.files "sparse.bm25" = some (.file 1) := by decide +kernel
  cases ht : sampleEnd with
  | none =>
    rw [ht] at hsome
    cases hsome
  | some t =>
    rw [ht] at hsome
    obtain ⟨trace, hrun⟩ := run_of_exec ht
    have hkept := writes_keep_target "sparse.bm25" sampleCalls (fun _ => none) (fun _ => 0) hrun
    exact ⟨t, rfl, of_decide_eq_true hsome, fun p => (hkept.2.2 p).2⟩

end OrdinalDB.Sparse.AtomicWrite
