import Mathlib

/-!
# Conditions that are evaluated in order

Boolean combinations of atoms, as nested lists of conditions.

* `Formula.Holds`: what a formula says once every atom has a truth value.
* `Formula.evaluate`: the evaluation from the left, in which an atom may fail and the rest of a
  list is not looked at once the verdict is known.

`evaluate_sound`: a verdict is what the formula says, whatever the failing atoms are taken to
mean. `evaluate_of_known`: an evaluation fails only on an atom of the formula that fails.
-/

namespace Conditions

universe u

inductive Formula (A : Type u)
  | atom (a : A)
  | all (parts : List (Formula A))
  | any (parts : List (Formula A))
  | not (part : Formula A)

namespace Formula

variable {A : Type u}

/-! ## Meaning -/

mutual

/-- The formula is true under a reading of its atoms. -/
def Holds (reading : A → Prop) : Formula A → Prop
  | atom a => reading a
  | all parts => AllHold reading parts
  | any parts => AnyHolds reading parts
  | not part => ¬part.Holds reading

def AllHold (reading : A → Prop) : List (Formula A) → Prop
  | [] => True
  | part :: parts => part.Holds reading ∧ AllHold reading parts

def AnyHolds (reading : A → Prop) : List (Formula A) → Prop
  | [] => False
  | part :: parts => part.Holds reading ∨ AnyHolds reading parts

end

mutual

def atoms : Formula A → List A
  | atom a => [a]
  | all parts => atomsOf parts
  | any parts => atomsOf parts
  | not part => part.atoms

def atomsOf : List (Formula A) → List A
  | [] => []
  | part :: parts => part.atoms ++ atomsOf parts

end

/-! ## Evaluation -/

mutual

/-- Evaluation from the left; `none` is a failure. -/
def evaluate (known : A → Option Bool) : Formula A → Option Bool
  | atom a => known a
  | all parts => evaluateAll known parts
  | any parts => evaluateAny known parts
  | not part => (part.evaluate known).map (!·)

def evaluateAll (known : A → Option Bool) : List (Formula A) → Option Bool
  | [] => some true
  | part :: parts =>
    (part.evaluate known).bind fun verdict =>
      if verdict then evaluateAll known parts else some false

def evaluateAny (known : A → Option Bool) : List (Formula A) → Option Bool
  | [] => some false
  | part :: parts =>
    (part.evaluate known).bind fun verdict =>
      if verdict then some true else evaluateAny known parts

end

/-- A reading that agrees with every atom that does not fail. -/
def Agrees (known : A → Option Bool) (reading : A → Prop) : Prop :=
  ∀ a verdict, known a = some verdict → (reading a ↔ verdict = true)

variable {known : A → Option Bool} {reading : A → Prop}

mutual

theorem evaluate_sound (hagrees : Agrees known reading) :
    ∀ (formula : Formula A) {verdict : Bool}, formula.evaluate known = some verdict →
      (formula.Holds reading ↔ verdict = true)
  | atom a, verdict, h => hagrees a verdict h
  | all parts, _, h => evaluateAll_sound hagrees parts h
  | any parts, _, h => evaluateAny_sound hagrees parts h
  | not part, verdict, h => by
    obtain ⟨inner, hinner, rfl⟩ := Option.map_eq_some_iff.mp h
    rw [Holds, evaluate_sound hagrees part hinner]
    cases inner <;> simp

theorem evaluateAll_sound (hagrees : Agrees known reading) :
    ∀ (parts : List (Formula A)) {verdict : Bool}, evaluateAll known parts = some verdict →
      (AllHold reading parts ↔ verdict = true)
  | [], verdict, h => by
    obtain rfl := Option.some.inj h
    simp [AllHold]
  | part :: parts, verdict, h => by
    obtain ⟨first, hfirst, hrest⟩ := Option.bind_eq_some_iff.mp h
    rw [AllHold, evaluate_sound hagrees part hfirst]
    cases first with
    | true => simpa using evaluateAll_sound hagrees parts hrest
    | false =>
      obtain rfl := Option.some.inj hrest
      simp

theorem evaluateAny_sound (hagrees : Agrees known reading) :
    ∀ (parts : List (Formula A)) {verdict : Bool}, evaluateAny known parts = some verdict →
      (AnyHolds reading parts ↔ verdict = true)
  | [], verdict, h => by
    obtain rfl := Option.some.inj h
    simp [AnyHolds]
  | part :: parts, verdict, h => by
    obtain ⟨first, hfirst, hrest⟩ := Option.bind_eq_some_iff.mp h
    rw [AnyHolds, evaluate_sound hagrees part hfirst]
    cases first with
    | true =>
      obtain rfl := Option.some.inj hrest
      simp
    | false => simpa using evaluateAny_sound hagrees parts hrest

end

mutual

/-- An evaluation goes through when no atom fails. -/
theorem evaluate_of_known : ∀ (formula : Formula A), (∀ a ∈ formula.atoms, (known a).isSome) →
    (formula.evaluate known).isSome
  | atom a, h => h a List.mem_cons_self
  | all parts, h => evaluateAll_of_known parts h
  | any parts, h => evaluateAny_of_known parts h
  | not part, h => by
    rw [evaluate, Option.isSome_map]
    exact evaluate_of_known part h

theorem evaluateAll_of_known : ∀ (parts : List (Formula A)),
    (∀ a ∈ atomsOf parts, (known a).isSome) → (evaluateAll known parts).isSome
  | [], _ => rfl
  | part :: parts, h => by
    rw [atomsOf, List.forall_mem_append] at h
    obtain ⟨first, hfirst⟩ := Option.isSome_iff_exists.mp (evaluate_of_known part h.1)
    rw [evaluateAll, hfirst, Option.bind_some]
    cases first with
    | true => exact evaluateAll_of_known parts h.2
    | false => rfl

theorem evaluateAny_of_known : ∀ (parts : List (Formula A)),
    (∀ a ∈ atomsOf parts, (known a).isSome) → (evaluateAny known parts).isSome
  | [], _ => rfl
  | part :: parts, h => by
    rw [atomsOf, List.forall_mem_append] at h
    obtain ⟨first, hfirst⟩ := Option.isSome_iff_exists.mp (evaluate_of_known part h.1)
    rw [evaluateAny, hfirst, Option.bind_some]
    cases first with
    | true => rfl
    | false => exact evaluateAny_of_known parts h.2

end

/-- A failure is due to an atom of the formula. -/
theorem exists_of_evaluate_eq_none {formula : Formula A} (h : formula.evaluate known = none) :
    ∃ a ∈ formula.atoms, known a = none := by
  by_contra hall
  push Not at hall
  have hsome := evaluate_of_known formula fun a ha => Option.ne_none_iff_isSome.mp (hall a ha)
  rw [h] at hsome
  cases hsome

end Formula

end Conditions
