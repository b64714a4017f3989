import Mathlib

/-!
# Runs

Two kinds of run and the rule that carries a fact along each.

* An object that answers calls: `runCalls` and its log. `runCalls_simulates`
  turns a one-call simulation into one for every sequence of calls, and
  `runCalls_invariant` does the same for an invariant.
* A labelled transition system: `Run step s trace t`, where the trace pairs
  every label with the state it was taken in. `Run.invariant` is the induction
  on it for an invariant kept by the steps that meet a condition, and
  `Run.invariant_iff` the exact form when every other step breaks the property.
  `exec` runs a partial step function on a list of labels, and
  `run_of_exec_where` one that asks a condition before every step.
-/

namespace Machine

/-! ## Objects that answer calls -/

section Calls

variable {σ α c r : Type}

/-- Answer the calls in order. The log pairs every call with its reply. -/
def runCalls (step : σ → c → r × σ) : σ → List c → List (c × r) × σ
  | s, [] => ([], s)
  | s, call :: calls =>
    let answer := step s call
    let rest := runCalls step answer.2 calls
    ((call, answer.1) :: rest.1, rest.2)

/-- An abstract state that follows the log of the calls. -/
def replay (apply : α → c → r → α) (a : α) (log : List (c × r)) : α :=
  log.foldl (fun a entry => apply a entry.1 entry.2) a

/-- A relation kept by every call relates the end of a run to the replay of its log. -/
theorem runCalls_simulates {step : σ → c → r × σ} {apply : α → c → r → α} {Rel : σ → α → Prop}
    (hstep : ∀ s a call, Rel s a → Rel (step s call).2 (apply a call (step s call).1))
    {s : σ} {a : α} (h : Rel s a) (calls : List c) :
    Rel (runCalls step s calls).2 (replay apply a (runCalls step s calls).1) := by
  induction calls generalizing s a with
  | nil => exact h
  | cons call calls ih => exact ih (hstep s a call h)

/-- A property kept by every call holds at the end of a run. -/
theorem runCalls_invariant {step : σ → c → r × σ} {Inv : σ → Prop}
    (hstep : ∀ s call, Inv s → Inv (step s call).2) {s : σ} (h : Inv s) (calls : List c) :
    Inv (runCalls step s calls).2 := by
  induction calls generalizing s with
  | nil => exact h
  | cons call calls ih => exact ih (hstep s call h)

theorem runCalls_append {step : σ → c → r × σ} {s : σ} (calls more : List c) :
    runCalls step s (calls ++ more) =
      ((runCalls step s calls).1 ++ (runCalls step (runCalls step s calls).2 more).1,
        (runCalls step (runCalls step s calls).2 more).2) := by
  induction calls generalizing s with
  | nil => rfl
  | cons call calls ih => simp [runCalls, ih]

end Calls

/-! ## Transition systems -/

section Transitions

variable {σ α : Type}

/-- A run from `s` to `t`. -/
inductive Run (step : σ → α → σ → Prop) (s : σ) : List (σ × α) → σ → Prop
  | refl : Run step s [] s
  | snoc {trace : List (σ × α)} {t u : σ} {a : α} :
      Run step s trace t → step t a u → Run step s (trace ++ [(t, a)]) u

/-- A property of every state a run visits. -/
def AllStates (P : σ → Prop) (trace : List (σ × α)) (t : σ) : Prop :=
  (∀ entry ∈ trace, P entry.1) ∧ P t

/-- A condition on every step of a run and the state it is taken in. -/
def AllSteps (Q : σ → α → Prop) (trace : List (σ × α)) : Prop :=
  ∀ entry ∈ trace, Q entry.1 entry.2

variable {step : σ → α → σ → Prop} {s t u : σ} {trace : List (σ × α)}

theorem AllStates.snoc {P : σ → Prop} {a : α} (h : AllStates P trace t) (hu : P u) :
    AllStates P (trace ++ [(t, a)]) u := by
  refine ⟨fun entry hentry => ?_, hu⟩
  rcases List.mem_append.mp hentry with hentry | hentry
  · exact h.1 entry hentry
  · obtain rfl := List.mem_singleton.mp hentry
    exact h.2

theorem AllStates.init {P : σ → Prop} {a : α} (h : AllStates P (trace ++ [(t, a)]) u) :
    AllStates P trace t :=
  ⟨fun entry hentry => h.1 entry (List.mem_append_left _ hentry),
    h.1 (t, a) (List.mem_append_right _ List.mem_cons_self)⟩

theorem AllSteps.init {Q : σ → α → Prop} {a : α} (h : AllSteps Q (trace ++ [(t, a)])) :
    AllSteps Q trace :=
  fun entry hentry => h entry (List.mem_append_left _ hentry)

theorem AllSteps.last {Q : σ → α → Prop} {a : α} (h : AllSteps Q (trace ++ [(t, a)])) : Q t a :=
  h (t, a) (List.mem_append_right _ List.mem_cons_self)

/-- An invariant kept by every step that meets `Q` holds along every run of such steps. -/
theorem Run.invariant {Inv : σ → Prop} {Q : σ → α → Prop} (h : Run step s trace t) (hs : Inv s)
    (hstep : ∀ t a u, Inv t → Q t a → step t a u → Inv u) (hQ : AllSteps Q trace) :
    AllStates Inv trace t := by
  induction h with
  | refl => exact ⟨by simp, hs⟩
  | snoc _ hlast ih =>
    have hprefix := ih hQ.init
    exact hprefix.snoc (hstep _ _ _ hprefix.2 hQ.last hlast)

/-- If every step that misses `Q` leaves `P`, then a run stays in `P` exactly when all its
steps meet `Q`. -/
theorem Run.invariant_iff {Inv P : σ → Prop} {Q : σ → α → Prop} (h : Run step s trace t)
    (hs : Inv s) (hP : ∀ t, Inv t → P t) (hstep : ∀ t a u, Inv t → Q t a → step t a u → Inv u)
    (hbreak : ∀ t a u, Inv t → ¬Q t a → step t a u → ¬P u) :
    AllStates P trace t ↔ AllSteps Q trace := by
  constructor
  · intro hall
    induction h with
    | refl => intro entry hentry; simp at hentry
    | snoc hrun hlast ih =>
      have hprefix := ih hall.init
      have hinv := hrun.invariant hs hstep hprefix
      intro entry hentry
      rcases List.mem_append.mp hentry with hentry | hentry
      · exact hprefix entry hentry
      · obtain rfl := List.mem_singleton.mp hentry
        by_contra hbad
        exact hbreak _ _ _ hinv.2 hbad hlast hall.2
  · intro hQ
    have hinv := h.invariant hs hstep hQ
    exact ⟨fun entry hentry => hP _ (hinv.1 entry hentry), hP _ hinv.2⟩

/-- Take the labels in order as far as the step function allows. -/
def exec (next : σ → α → Option σ) : σ → List α → Option σ
  | s, [] => some s
  | s, a :: labels => (next s a).bind fun s => exec next s labels

theorem Run.cons {a : α} (hfirst : step s a t) (h : Run step t trace u) :
    Run step s ((s, a) :: trace) u := by
  induction h with
  | refl => exact Run.snoc .refl hfirst
  | snoc _ hlast ih => exact Run.snoc ih hlast

/-- An execution is a run. -/
theorem run_of_exec {next : σ → α → Option σ} {labels : List α} (h : exec next s labels = some t) :
    ∃ trace, Run (fun s a t => next s a = some t) s trace t := by
  induction labels generalizing s with
  | nil =>
    obtain rfl := Option.some.inj h
    exact ⟨[], .refl⟩
  | cons a labels ih =>
    obtain ⟨next, hnext, hrest⟩ := Option.bind_eq_some_iff.mp h
    obtain ⟨trace, hrun⟩ := ih hrest
    exact ⟨_, hrun.cons hnext⟩

/-- An execution that asks `Q` before every step. -/
theorem run_of_exec_where {next : σ → α → Option σ} {Q : σ → α → Prop}
    [∀ s a, Decidable (Q s a)] {labels : List α}
    (h : exec (fun s a => if Q s a then next s a else none) s labels = some t) :
    ∃ trace, Run (fun s a t => next s a = some t) s trace t ∧ AllSteps Q trace := by
  induction labels generalizing s with
  | nil =>
    obtain rfl := Option.some.inj h
    exact ⟨[], .refl, nofun⟩
  | cons a labels ih =>
    obtain ⟨middle, hmiddle, hrest⟩ := Option.bind_eq_some_iff.mp h
    obtain ⟨hQ, hnext⟩ := Option.ite_none_right_eq_some.mp hmiddle
    obtain ⟨trace, hrun, hall⟩ := ih hrest
    exact ⟨_, hrun.cons hnext, List.forall_mem_cons.mpr ⟨hQ, hall⟩⟩

end Transitions

end Machine
