import OrdinalDB.Lib.Machine

/-!
# The adapter writer lock

`WriterLockGuard` of `ordinaldb-adapter-store/src/lib.rs` as a transition
system. An attempt is one call of `acquire` and, when it succeeds, the life of
its guard up to the end of `release`. The attempts of one process share the
registry of held paths; the operating system keeps one lock for the lock file.

The two lock semantics the source comments name differ only in who owns a lock:
the open file description, which belongs to one attempt, or the process.
Closing a file drops the lock its owner holds, so under `posix` a close drops
the lock of the whole process.
-/

set_option linter.unusedSectionVars false

namespace OrdinalDB.WriterLock

inductive LockSemantics
  | flock
  | posix
deriving DecidableEq, Repr

/-- Where an attempt is. The comments name the next call of the source. -/
inductive Pc
  | idle          -- checks on the path, then `reserve_writer_lock_registration`
  | reserved      -- `OpenOptions::open`
  | opened        -- `FileExt::try_lock`
  | locked        -- `set_len`, the stamp and the two syncs
  | failedOpen    -- error in `lock_and_stamp`: its `file` is dropped
  | failedClosed  -- `release_writer_lock_registration` in `acquire`
  | guard         -- the guard is live; `release` starts with `FileExt::unlock`
  | unlocked      -- `release_writer_lock_registration` in `release`
  | deregistered  -- end of the scope in `release`: `file` is dropped
  | done
deriving DecidableEq, Repr

namespace Pc

/-- The attempt holds the reservation of its process. -/
def registered : Pc → Bool
  | .reserved | .opened | .locked | .failedOpen | .failedClosed | .guard | .unlocked => true
  | _ => false

/-- The operating system has granted the lock to the attempt. -/
def holding : Pc → Bool
  | .locked | .guard => true
  | _ => false

theorem registered_of_holding {pc : Pc} (h : pc.holding) : pc.registered := by
  cases pc <;> first | rfl | cases h

end Pc

/-- The owner of an OS lock. -/
inductive Owner (P A : Type)
  | description (a : A)
  | process (p : P)
deriving DecidableEq, Repr

structure State (P A : Type) where
  registry : P → Bool
  osLock : Option (Owner P A)
  pc : A → Pc

variable {P A : Type}

def init : State P A := ⟨fun _ => false, none, fun _ => .idle⟩

variable (sem : LockSemantics) (proc : A → P)

/-- The owner of a lock that attempt `a` takes through its file. -/
def owner (a : A) : Owner P A :=
  match sem with
  | .flock => .description a
  | .posix => .process (proc a)

section Model

variable [DecidableEq P] [DecidableEq A]

namespace State

def setPc (s : State P A) (a : A) (pc : Pc) : State P A := { s with pc := Function.update s.pc a pc }

def setRegistry (s : State P A) (p : P) (held : Bool) : State P A :=
  { s with registry := Function.update s.registry p held }

/-- Unlock, or close the file: the lock goes if its owner is the one of `a`. -/
def dropLock (s : State P A) (a : A) : State P A :=
  { s with osLock := if s.osLock = some (owner sem proc a) then none else s.osLock }

variable {s : State P A} {a b : A} {p q : P} {pc : Pc} {held : Bool}

@[simp] theorem setPc_pc : (s.setPc a pc).pc b = if b = a then pc else s.pc b := by
  simp [setPc, Function.update_apply]

@[simp] theorem setPc_registry : (s.setPc a pc).registry = s.registry := rfl

@[simp] theorem setPc_osLock : (s.setPc a pc).osLock = s.osLock := rfl

@[simp] theorem setRegistry_registry :
    (s.setRegistry p held).registry q = if q = p then held else s.registry q := by
  simp [setRegistry, Function.update_apply]

@[simp] theorem setRegistry_pc : (s.setRegistry p held).pc = s.pc := rfl

@[simp] theorem setRegistry_osLock : (s.setRegistry p held).osLock = s.osLock := rfl

@[simp] theorem dropLock_pc : (s.dropLock sem proc a).pc = s.pc := rfl

@[simp] theorem dropLock_registry : (s.dropLock sem proc a).registry = s.registry := rfl

@[simp] theorem dropLock_osLock : (s.dropLock sem proc a).osLock =
    if s.osLock = some (owner sem proc a) then none else s.osLock := rfl

end State

/-- The next step of attempt `a`. `ok` is false when the operating-system call of the step
reports an error. -/
def next (s : State P A) (label : A × Bool) : Option (State P A) :=
  let (a, ok) := label
  match s.pc a with
  | .idle =>
    if ok ∧ s.registry (proc a) = false then
      some ((s.setRegistry (proc a) true).setPc a .reserved)
    else some (s.setPc a .done)
  | .reserved => some (s.setPc a (if ok then .opened else .failedClosed))
  | .opened =>
    if ok ∧ (s.osLock = none ∨ s.osLock = some (owner sem proc a)) then
      some ({ s with osLock := some (owner sem proc a) }.setPc a .locked)
    else some (s.setPc a .failedOpen)
  | .locked => some (s.setPc a (if ok then .guard else .failedOpen))
  | .failedOpen => some ((s.dropLock sem proc a).setPc a .failedClosed)
  | .failedClosed => some ((s.setRegistry (proc a) false).setPc a .done)
  | .guard => some ((if ok then s.dropLock sem proc a else s).setPc a .unlocked)
  | .unlocked => some ((s.setRegistry (proc a) false).setPc a .deregistered)
  | .deregistered => some ((s.dropLock sem proc a).setPc a .done)
  | .done => none

/-- Runs of any attempts, in any interleaving. -/
abbrev Run (trace : List (State P A × (A × Bool))) (s : State P A) : Prop :=
  Machine.Run (fun s label t => next sem proc s label = some t) init trace s

end Model

/-- At most one attempt holds the lock and every holder owns the OS lock. Guards are holders.
Asked of every state, it says that a failed acquire takes no lock from another holder. -/
structure Exclusive (s : State P A) : Prop where
  unique : ∀ a b, (s.pc a).holding → (s.pc b).holding → a = b
  owned : ∀ a, (s.pc a).holding → s.osLock = some (owner sem proc a)

/-- The condition on a step: the file of a released guard is not closed while another
attempt of the same process holds a lock that belongs to the process. -/
def CloseSafe (s : State P A) (label : A × Bool) : Prop :=
  s.pc label.1 = .deregistered →
    ∀ b, (s.pc b).holding → owner sem proc b ≠ owner sem proc label.1

/-! ## The invariant -/

/-- The registry of a process stands for at most one attempt of it, and a holder owns the
OS lock. -/
structure Inv (s : State P A) : Prop where
  reserved : ∀ a, (s.pc a).registered → s.registry (proc a) = true
  single : ∀ a b, (s.pc a).registered → (s.pc b).registered → proc a = proc b → a = b
  owned : ∀ a, (s.pc a).holding → s.osLock = some (owner sem proc a)

variable {sem : LockSemantics} {proc : A → P} {s t : State P A} {label : A × Bool} {a b : A}

namespace Inv

theorem init : Inv sem proc (init : State P A) where
  reserved a h := by cases h
  single a b h := by cases h
  owned a h := by cases h

theorem proc_eq_of_owner_eq (h : owner sem proc a = owner sem proc b) : proc a = proc b := by
  cases sem with
  | flock => exact congrArg proc (Owner.description.inj h)
  | posix => exact Owner.process.inj h

theorem exclusive (h : Inv sem proc s) : Exclusive sem proc s where
  unique a b ha hb := by
    have howner : owner sem proc a = owner sem proc b :=
      Option.some.inj ((h.owned a ha).symm.trans (h.owned b hb))
    exact h.single a b (Pc.registered_of_holding ha) (Pc.registered_of_holding hb)
      (proc_eq_of_owner_eq howner)
  owned := h.owned

/-- A registered attempt without the lock shares its owner with no holder. -/
theorem owner_ne (h : Inv sem proc s) (ha : (s.pc a).registered) (hfree : ¬(s.pc a).holding) :
    ∀ b, (s.pc b).holding → owner sem proc b ≠ owner sem proc a := by
  intro b hb howner
  have hab : b = a := h.single b a (Pc.registered_of_holding hb) ha (proc_eq_of_owner_eq howner)
  exact hfree (hab ▸ hb)

/-- No other attempt of the process is registered while `a` is. -/
theorem not_registered (h : Inv sem proc s) (ha : (s.pc a).registered) (hba : b ≠ a)
    (hproc : proc b = proc a) : ¬(s.pc b).registered :=
  fun hb => hba (h.single b a hb ha hproc)

variable [DecidableEq P] [DecidableEq A]

theorem setPc {pc : Pc} (h : Inv sem proc s) (hreg : pc.registered → (s.pc a).registered)
    (hhold : pc.holding → (s.pc a).holding) : Inv sem proc (s.setPc a pc) := by
  have hregistered : ∀ b, ((s.setPc a pc).pc b).registered → (s.pc b).registered := by
    intro b hb
    simp only [State.setPc_pc] at hb
    split at hb
    next hba => exact hba ▸ hreg hb
    next => exact hb
  refine ⟨fun b hb => h.reserved b (hregistered b hb),
    fun b c hb hc => h.single b c (hregistered b hb) (hregistered c hc), fun b hb => ?_⟩
  simp only [State.setPc_pc] at hb
  split at hb
  next hba => exact hba ▸ h.owned a (hhold hb)
  next => exact h.owned b hb

theorem reserve (h : Inv sem proc s) (hfree : s.registry (proc a) = false) :
    Inv sem proc ((s.setRegistry (proc a) true).setPc a .reserved) := by
  have hnone : ∀ b, (s.pc b).registered → proc b ≠ proc a := by
    intro b hb hproc
    have htrue := h.reserved b hb
    rw [hproc, hfree] at htrue
    cases htrue
  refine ⟨fun b hb => ?_, fun b c hb hc hproc => ?_, fun b hb => ?_⟩
  · by_cases hba : b = a
    · simp [hba]
    · have hb' : (s.pc b).registered := by simpa [hba] using hb
      simpa [hnone b hb'] using h.reserved b hb'
  · by_cases hba : b = a <;> by_cases hca : c = a
    · rw [hba, hca]
    · exact absurd (hba ▸ hproc.symm) (hnone c (by simpa [hca] using hc))
    · exact absurd (hca ▸ hproc) (hnone b (by simpa [hba] using hb))
    · exact h.single b c (by simpa [hba] using hb) (by simpa [hca] using hc) hproc
  · by_cases hba : b = a
    · simp [hba, Pc.holding] at hb
    · exact h.owned b (by simpa [hba] using hb)

/-- The process of the leaving attempt has no other registered attempt. -/
theorem deregister {pc : Pc} (h : Inv sem proc s) (ha : (s.pc a).registered)
    (hpc : pc.registered = false) : Inv sem proc ((s.setRegistry (proc a) false).setPc a pc) := by
  have hpc' : pc.holding = false := by
    cases hh : pc.holding with
    | false => rfl
    | true => rw [Pc.registered_of_holding hh] at hpc; cases hpc
  have hmoved : Inv sem proc (s.setPc a pc) := h.setPc (by simp [hpc]) (by simp [hpc'])
  refine ⟨fun b hb => ?_, hmoved.single, hmoved.owned⟩
  have hba : b ≠ a := by
    rintro rfl
    simp [hpc] at hb
  have hproc : proc b ≠ proc a :=
    fun hproc => h.not_registered ha hba hproc (by simpa [hba] using hb)
  simpa [hproc] using h.reserved b (by simpa [hba] using hb)

theorem grant (h : Inv sem proc s) (ha : (s.pc a).registered)
    (hlock : s.osLock = none ∨ s.osLock = some (owner sem proc a)) :
    Inv sem proc ({ s with osLock := some (owner sem proc a) }.setPc a .locked) := by
  have hregistered : ∀ b, ((s.setPc a .locked).pc b).registered → (s.pc b).registered := by
    intro b hb
    simp only [State.setPc_pc] at hb
    split at hb
    next hba => exact hba ▸ ha
    next => exact hb
  refine ⟨fun b hb => h.reserved b (hregistered b hb),
    fun b c hb hc => h.single b c (hregistered b hb) (hregistered c hc), fun b hb => ?_⟩
  by_cases hba : b = a
  · simp [hba]
  · have howned := h.owned b (by simpa [hba] using hb)
    rcases hlock with hnone | hsome
    · rw [hnone] at howned; cases howned
    · exact hsome.symm.trans howned

theorem dropLock (h : Inv sem proc s)
    (hother : ∀ b, (s.pc b).holding → owner sem proc b ≠ owner sem proc a) :
    Inv sem proc (s.dropLock sem proc a) := by
  refine ⟨h.reserved, h.single, fun b hb => ?_⟩
  have hkept : s.osLock ≠ some (owner sem proc a) :=
    fun hlock => hother b hb (Option.some.inj ((h.owned b hb).symm.trans hlock))
  simpa [hkept] using h.owned b hb

end Inv

/-! ## Steps -/

variable [DecidableEq P] [DecidableEq A]

/-- One case for each step of the source. -/
theorem Inv.next (h : Inv sem proc s) (hsafe : CloseSafe sem proc s label)
    (hnext : next sem proc s label = some t) : Inv sem proc t := by
  obtain ⟨a, ok⟩ := label
  cases hpc : s.pc a with
  | idle =>
    simp only [WriterLock.next, hpc] at hnext
    split at hnext <;> obtain rfl := Option.some.inj hnext
    next hfree => exact h.reserve hfree.2
    next => exact h.setPc (by simp [Pc.registered]) (by simp [Pc.holding])
  | reserved =>
    simp only [WriterLock.next, hpc] at hnext
    obtain rfl := Option.some.inj hnext
    exact h.setPc (by simp [hpc, Pc.registered]) (by cases ok <;> simp [Pc.holding])
  | opened =>
    simp only [WriterLock.next, hpc] at hnext
    split at hnext <;> obtain rfl := Option.some.inj hnext
    next hgrant => exact h.grant (by simp [hpc, Pc.registered]) hgrant.2
    next => exact h.setPc (by simp [hpc, Pc.registered]) (by simp [Pc.holding])
  | locked =>
    simp only [WriterLock.next, hpc] at hnext
    obtain rfl := Option.some.inj hnext
    exact h.setPc (by simp [hpc, Pc.registered]) (by simp [hpc, Pc.holding])
  | failedOpen =>
    simp only [WriterLock.next, hpc] at hnext
    obtain rfl := Option.some.inj hnext
    -- `a` is registered, so its close drops no lock but its own
    have hdrop : Inv sem proc (s.dropLock sem proc a) :=
      h.dropLock (h.owner_ne (by simp [hpc, Pc.registered]) (by simp [hpc, Pc.holding]))
    exact hdrop.setPc (by simp [hpc, Pc.registered]) (by simp [Pc.holding])
  | failedClosed =>
    simp only [WriterLock.next, hpc] at hnext
    obtain rfl := Option.some.inj hnext
    exact h.deregister (by simp [hpc, Pc.registered]) rfl
  | guard =>
    simp only [WriterLock.next, hpc] at hnext
    obtain rfl := Option.some.inj hnext
    have hmoved : Inv sem proc (s.setPc a .unlocked) :=
      h.setPc (by simp [hpc, Pc.registered]) (by simp [Pc.holding])
    cases ok with
    | false => exact hmoved
    | true =>
      exact hmoved.dropLock (hmoved.owner_ne (by simp [Pc.registered]) (by simp [Pc.holding]))
  | unlocked =>
    simp only [WriterLock.next, hpc] at hnext
    obtain rfl := Option.some.inj hnext
    exact h.deregister (by simp [hpc, Pc.registered]) rfl
  | deregistered =>
    simp only [WriterLock.next, hpc] at hnext
    obtain rfl := Option.some.inj hnext
    have hdrop : Inv sem proc (s.dropLock sem proc a) := h.dropLock (hsafe hpc)
    exact hdrop.setPc (by simp [Pc.registered]) (by simp [Pc.holding])
  | done =>
    simp only [WriterLock.next, hpc] at hnext
    cases hnext

/-- A close that is not safe takes the OS lock away from a live holder. -/
theorem not_exclusive_of_not_closeSafe (h : Inv sem proc s) (hbad : ¬CloseSafe sem proc s label)
    (hnext : next sem proc s label = some t) : ¬Exclusive sem proc t := by
  obtain ⟨a, ok⟩ := label
  simp only [CloseSafe, not_forall, not_not] at hbad
  obtain ⟨hpc, b, hb, howner⟩ := hbad
  simp only [WriterLock.next, hpc] at hnext
  obtain rfl := Option.some.inj hnext
  have hlock : s.osLock = some (owner sem proc a) := howner ▸ h.owned b hb
  have hba : b ≠ a := by
    rintro rfl
    simp [hpc, Pc.holding] at hb
  intro hexcl
  have howned := hexcl.owned b (by simpa [hba] using hb)
  simp [hlock] at howned

/-- Under `flock` a close never takes the lock of another attempt. -/
theorem closeSafe_flock : CloseSafe .flock proc s label := by
  intro hpc b hb howner
  have hba : b = label.1 := Owner.description.inj howner
  rw [hba, hpc] at hb
  cases hb

/-! ## Runs -/

variable {trace : List (State P A × (A × Bool))}

theorem exclusive_of_closeSafe (hrun : Run sem proc trace s)
    (hsafe : Machine.AllSteps (CloseSafe sem proc) trace) :
    Machine.AllStates (Exclusive sem proc) trace s := by
  have hinv : Machine.AllStates (Inv sem proc) trace s :=
    hrun.invariant Inv.init (fun _ _ _ h hclose hnext => h.next hclose hnext) hsafe
  exact ⟨fun entry hentry => (hinv.1 entry hentry).exclusive, hinv.2.exclusive⟩

/-- Locks owned by the open file description are exclusive in every run. -/
theorem exclusive_flock (hrun : Run .flock proc trace s) :
    Machine.AllStates (Exclusive .flock proc) trace s :=
  exclusive_of_closeSafe hrun fun _ _ => closeSafe_flock

/-- A run keeps the lock exclusive exactly when every close of a released guard's file is safe. -/
theorem exclusive_iff_closeSafe (hrun : Run sem proc trace s) :
    Machine.AllStates (Exclusive sem proc) trace s ↔
      Machine.AllSteps (CloseSafe sem proc) trace :=
  hrun.invariant_iff Inv.init (fun _ h => h.exclusive)
    (fun _ _ _ h hsafe hnext => h.next hsafe hnext)
    (fun _ _ _ h hbad hnext => not_exclusive_of_not_closeSafe h hbad hnext)

/-! ## The window of the posix semantics -/

/-- Attempts 0 and 1 belong to process 0, attempts 2 and 3 to process 1. Attempt 0 releases its
guard and pauses before its file closes; attempt 1 becomes a guard; the close drops its lock, and
attempt 2 of the other process is granted one. -/
def lateClose : List (Fin 4 × Bool) :=
  [(0, true), (0, true), (0, true), (0, true), (0, true), (0, true),
   (1, true), (1, true), (1, true), (1, true),
   (0, true),
   (2, true), (2, true), (2, true), (2, true)]

def processOf (a : Fin 4) : Fin 2 := ⟨a / 2, by omega⟩

theorem lateClose_run : ∃ trace s, Run .posix processOf trace s ∧
    Machine.exec (next .posix processOf) init lateClose = some s ∧
    s.pc 1 = .guard ∧ s.pc 2 = .guard := by
  have hexec : ∃ s, Machine.exec (next .posix processOf) init lateClose = some s ∧
      s.pc 1 = .guard ∧ s.pc 2 = .guard := ⟨_, rfl, rfl, rfl⟩
  obtain ⟨s, hexec, hguards⟩ := hexec
  obtain ⟨trace, hrun⟩ := Machine.run_of_exec hexec
  exact ⟨trace, s, hrun, hexec, hguards⟩

theorem not_exclusive_of_two_guards {a b : A} (hab : a ≠ b) (ha : s.pc a = .guard)
    (hb : s.pc b = .guard) : ¬Exclusive sem proc s :=
  fun h => hab (h.unique a b (by rw [ha]; rfl) (by rw [hb]; rfl))

/-- Two live guards at once. -/
theorem posix_two_guards : ∃ trace s, Run .posix processOf trace s ∧
    Machine.exec (next .posix processOf) init lateClose = some s ∧
    s.pc 1 = .guard ∧ s.pc 2 = .guard ∧
    ¬Machine.AllStates (Exclusive .posix processOf) trace s := by
  obtain ⟨trace, s, hrun, hexec, h1, h2⟩ := lateClose_run
  exact ⟨trace, s, hrun, hexec, h1, h2,
    fun h => not_exclusive_of_two_guards (by decide) h1 h2 h.2⟩

theorem lateClose_not_closeSafe : ∃ trace s, Run .posix processOf trace s ∧
    ¬Machine.AllSteps (CloseSafe .posix processOf) trace := by
  obtain ⟨trace, s, hrun, -, h1, h2⟩ := lateClose_run
  exact ⟨trace, s, hrun, fun hsafe =>
    not_exclusive_of_two_guards (by decide) h1 h2 ((exclusive_iff_closeSafe hrun).mpr hsafe).2⟩

end OrdinalDB.WriterLock
