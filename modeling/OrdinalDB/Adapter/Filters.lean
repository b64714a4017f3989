import Mathlib

/-!
# Filters of the adapter store

`_filter_matches` and `_validate_portable_filter` of `adapters/_common.py`: a filter is a
mapping of metadata keys to scalars or a predicate. `filterMatches_spec`: a filter that returns
for a record says whether the record satisfies it.
-/

namespace OrdinalDB.Adapter

variable {C : Type}

/-! ## Values -/

/-- A metadata value, or the value of a filter. -/
inductive PyJson (C : Type)
  | none
  | bool (value : Bool)
  | int (value : Int)
  /-- A float by the number it stands for; `none` is not finite. -/
  | float (value : Option ℚ)
  | str (text : String)
  /-- A list or a dict. -/
  | container (content : C)

namespace PyJson

/-- `_is_json_scalar`. -/
def isScalar : PyJson C → Bool
  | none | bool _ | int _ | str _ => true
  | float value => value.isSome
  | container _ => false

/-- The number of an `int` or a `float`. -/
def number : PyJson C → Option ℚ
  | int value => some value
  | float value => value
  | _ => Option.none

/-- `_same_json_scalar_type`, on scalars. -/
def sameScalarType : PyJson C → PyJson C → Bool
  | none, none | bool _, bool _ | str _, str _ => true
  | int _, int _ | int _, float _ | float _, int _ | float _, float _ => true
  | _, _ => false

/-- `==` of two scalars of one type. -/
def equals : PyJson C → PyJson C → Bool
  | none, none => true
  | bool left, bool right => left = right
  | str left, str right => left = right
  | left, right => left.number.isSome && left.number = right.number

end PyJson

abbrev Metadata (C : Type) := Finmap fun _ : String => PyJson C

/-! ## Filters -/

/-- What a call of a predicate does. -/
inductive CallResult
  | returned (verdict : Bool)
  /-- A `TypeError` that looks like a wrong number of arguments. -/
  | arityError
  | raised
deriving DecidableEq, Repr

inductive Filter (C : Type)
  /-- A mapping, item by item; a key that is no string is `none`. -/
  | mapping (items : List (Option String × PyJson C))
  /-- A predicate of one argument. -/
  | ofMetadata (predicate : Metadata C → CallResult)
  /-- A predicate of two arguments. -/
  | ofRecord (predicate : String → Metadata C → CallResult)
  /-- A callable whose signature cannot be read. -/
  | unsigned (one : Metadata C → CallResult) (two : String → Metadata C → CallResult)
  /-- A callable that takes no such arguments, or no filter at all. -/
  | refused

/-- `_validate_portable_filter`; the dict that it returns holds the same items. -/
def validatePortableFilter (items : List (Option String × PyJson C)) :
    Option (List (String × PyJson C)) :=
  items.mapM fun (key, value) => do
    let key ← key
    guard (key ≠ "")
    guard value.isScalar
    pure (key, value)

def CallResult.verdict? : CallResult → Option Bool
  | returned verdict => some verdict
  | _ => none

/-- The loop of `_filter_matches`. -/
def itemsMatch (metadata : Metadata C) : List (String × PyJson C) → Option Bool
  | [] => some true
  | (key, expected) :: items =>
    match metadata.lookup key with
    | none => some false
    | some actual => do
      guard actual.isScalar
      guard (actual.sameScalarType expected)
      if actual.equals expected then itemsMatch metadata items else some false

namespace Filter

/-- The part of a call before the records are looked at. -/
def accepted : Filter C → Bool
  | mapping items => (validatePortableFilter items).isSome
  | _ => true

/-- `_filter_matches`; `none` is an error. -/
def filterMatches (filter : Filter C) (metadata : Metadata C) (document : String) : Option Bool :=
  match filter with
  | mapping items => (validatePortableFilter items).bind (itemsMatch metadata)
  | ofMetadata predicate => (predicate metadata).verdict?
  | ofRecord predicate => (predicate document metadata).verdict?
  | unsigned one two =>
    match one metadata with
    | .returned verdict => some verdict
    | .arityError => (two document metadata).verdict?
    | .raised => none
  | refused => none

/-- The record satisfies the filter. -/
def Satisfied (filter : Filter C) (document : String) (metadata : Metadata C) : Prop :=
  match filter with
  | mapping items => ∀ item ∈ items, ∃ key actual, item.1 = some key ∧
    metadata.lookup key = some actual ∧ actual.equals item.2
  | ofMetadata predicate => predicate metadata = .returned true
  | ofRecord predicate => predicate document metadata = .returned true
  | unsigned one two => one metadata = .returned true ∨
    one metadata = .arityError ∧ two document metadata = .returned true
  | refused => False

variable {filter : Filter C} {metadata : Metadata C} {document : String} {verdict : Bool}

theorem verdict_spec {result : CallResult} (h : result.verdict? = some verdict) :
    verdict = true ↔ result = .returned true := by
  cases result with
  | returned value =>
    obtain rfl := Option.some.inj h
    exact ⟨congrArg _, fun heq => by cases heq; rfl⟩
  | arityError => cases h
  | raised => cases h

theorem itemsMatch_spec {items : List (String × PyJson C)}
    (h : itemsMatch metadata items = some verdict) : verdict = true ↔
      ∀ item ∈ items, ∃ actual, metadata.lookup item.1 = some actual ∧ actual.equals item.2 := by
  induction items with
  | nil =>
    obtain rfl := Option.some.inj h
    simp
  | cons item items ih =>
    obtain ⟨key, expected⟩ := item
    rw [itemsMatch] at h
    rw [List.forall_mem_cons]
    split at h
    next hmissing =>
      obtain rfl := Option.some.inj h
      refine iff_of_false Bool.false_ne_true fun ⟨⟨actual, hactual, _⟩, _⟩ => ?_
      rw [hmissing] at hactual
      cases hactual
    next actual hactual =>
      simp only [Option.bind_eq_bind, Option.bind_eq_some_iff, Option.guard_eq_some',
        exists_const] at h
      obtain ⟨-, -, h⟩ := h
      split at h
      next hequal =>
        rw [ih h]
        exact ⟨fun hrest => ⟨⟨actual, hactual, hequal⟩, hrest⟩, And.right⟩
      next hdifferent =>
        obtain rfl := Option.some.inj h
        refine iff_of_false Bool.false_ne_true fun ⟨⟨other, hother, hequal⟩, _⟩ => ?_
        rw [hactual] at hother
        obtain rfl := Option.some.inj hother
        exact hdifferent hequal

theorem validatePortableFilter_eq {items : List (Option String × PyJson C)}
    {validated : List (String × PyJson C)} (h : validatePortableFilter items = some validated) :
    items = validated.map fun item => (some item.1, item.2) := by
  induction items generalizing validated with
  | nil =>
    obtain rfl := Option.some.inj h
    rfl
  | cons item items ih =>
    rw [validatePortableFilter, List.mapM_cons] at h
    obtain ⟨first, hfirst, h⟩ := Option.bind_eq_some_iff.mp h
    obtain ⟨rest, hrest, h⟩ := Option.bind_eq_some_iff.mp h
    obtain rfl := Option.some.inj h
    simp only [Option.bind_eq_bind, Option.bind_eq_some_iff, Option.guard_eq_some',
      Option.pure_def, Option.some.injEq, exists_const] at hfirst
    obtain ⟨key, hkey, -, -, rfl⟩ := hfirst
    rw [List.map_cons, ← ih hrest]
    exact congrArg (· :: items) (Prod.ext hkey rfl)

/-- The verdict of a filter that returns. -/
theorem filterMatches_spec (h : filter.filterMatches metadata document = some verdict) :
    verdict = true ↔ filter.Satisfied document metadata := by
  cases filter with
  | mapping items =>
    obtain ⟨validated, hvalidated, hmatch⟩ := Option.bind_eq_some_iff.mp h
    rw [itemsMatch_spec hmatch, Satisfied, validatePortableFilter_eq hvalidated,
      List.forall_mem_map]
    simp
  | ofMetadata predicate => exact verdict_spec h
  | ofRecord predicate => exact verdict_spec h
  | unsigned one two =>
    simp only [filterMatches] at h
    simp only [Satisfied]
    split at h
    next value hone =>
      obtain rfl := Option.some.inj h
      simp [hone]
    next hone => simp [hone, verdict_spec h]
    next => cases h
  | refused => cases h

end Filter

end OrdinalDB.Adapter
