import OrdinalDB.Adapter.Agno
import OrdinalDB.Lib.Conditions

/-!
# Filters of the LlamaIndex vector store

`_matches_llama_filters` of `llama_index.py`: conditions on nested metadata values, combined by
AND, OR and NOT to any depth and evaluated from the left. A condition or an operator that the
adapter does not know raises, but only where the evaluation reaches it.

`llama_filters_verdict`: a verdict is what the filters say, and an evaluation that raises has met a
part that raises.
-/

namespace OrdinalDB.Adapter.LlamaIndex

open Conditions

/-! ## Values -/

/-- What a metadata value holds in a list or a dict. -/
inductive PyTree
  | list (items : List (PyJson PyTree))
  | dict (entries : List (String × PyJson PyTree))

abbrev Value := PyJson PyTree

/-- The comparisons that the values do not decide: of containers, and of floats that are not
finite. -/
structure Comparisons where
  /-- `==`. -/
  equal : Value → Value → Bool
  /-- `is` or `==`, as `in` compares. -/
  same : Value → Value → Bool
  /-- An order operator with a float that is not finite. -/
  ordered : String → Value → Value → Bool

/-- `value.get(part)` down a path; `None` behind what is no dict. -/
def descend : Value → List String → Value
  | value, [] => value
  | .container (.dict entries), part :: parts =>
    descend ((entries.lookup part).getD .none) parts
  | _, _ :: _ => .none

/-- `path.split(".")`. -/
def pathParts (path : String) : List String := (path.toList.splitOn '.').map String.ofList

/-- `_nested_value`. -/
def nestedValue (metadata : Metadata PyTree) (path : String) : Value :=
  match pathParts path with
  | [] => .none
  | part :: parts => descend ((metadata.lookup part).getD .none) parts

/-! ## Operators -/

/-- `isinstance(value, Real)` without the `bool`s. -/
def isNumber : Value → Bool
  | .int _ | .float _ => true
  | _ => false

def ordered (operator : String) (left right : ℚ) : Bool :=
  if operator = ">" then right < left
  else if operator = ">=" then right ≤ left
  else if operator = "<" then left < right
  else left ≤ right

/-- `_compare_numeric`. -/
def compareNumeric (comparisons : Comparisons) (value expected : Value) (operator : String) :
    Bool :=
  if isNumber value && isNumber expected then
    match value.number, expected.number with
    | some left, some right => ordered operator left right
    | _, _ => comparisons.ordered operator value expected
  else false

/-- `value in container`, for an iterable that is no string; a list or a dict is no key. -/
def isIn (comparisons : Comparisons) (value : Value) : PyTree → Option Bool
  | .list items => some (items.any (Agno.pyEquals comparisons.same value))
  | .dict entries =>
    match value with
    | .container _ => none
    | .str text => some (entries.any fun entry => entry.1 = text)
    | _ => some false

/-- What an iteration yields. -/
def elements : PyTree → List Value
  | .list items => items
  | .dict entries => entries.map fun entry => .str entry.1

/-- `_contains`. -/
def contains (comparisons : Comparisons) (container value : Value) : Option Bool :=
  match container with
  | .container tree => isIn comparisons value tree
  | _ => some false

/-- `_has_any`. -/
def hasAny (comparisons : Comparisons) (actual expected : Value) : Option Bool :=
  match actual, expected with
  | .container tree, .container wanted =>
    (elements wanted).anyM fun value => isIn comparisons value tree
  | .container tree, value => isIn comparisons value tree
  | _, _ => some false

/-- `_has_all`. -/
def hasAll (comparisons : Comparisons) (actual expected : Value) : Option Bool :=
  match actual, expected with
  | .container tree, .container wanted =>
    (elements wanted).allM fun value => isIn comparisons value tree
  | .container tree, value => isIn comparisons value tree
  | _, _ => some false

/-! ## Filters -/

/-- A `MetadataFilter`, or nested `MetadataFilters`; conditions and operators as `_enum_value` reads
them. -/
inductive LlamaFilter
  | filter (key : Option String) (value : Value) (operator : String)
  | filters (condition : String) (items : List LlamaFilter)

/-- The part of `_matches_llama_filter_item` about a single filter; `none` is an error. -/
def matchesFilter (comparisons : Comparisons) (metadata : Metadata PyTree) (key : Option String)
    (expected : Value) (operator : String) : Option Bool := do
  let key ← key
  let actual := nestedValue metadata key
  if operator ∈ ["==", "eq"] then some (Agno.pyEquals comparisons.equal actual expected)
  else if operator ∈ ["!=", "ne"] then some (!Agno.pyEquals comparisons.equal actual expected)
  else if operator ∈ [">", ">=", "<", "<="] then
    some (compareNumeric comparisons actual expected operator)
  else if operator = "in" then contains comparisons expected actual
  else if operator ∈ ["nin", "not in"] then (contains comparisons expected actual).map (!·)
  else if operator = "any" then hasAny comparisons actual expected
  else if operator = "all" then hasAll comparisons actual expected
  else none

mutual

/-- `_matches_llama_filter_item`, with `_matches_llama_filters` for nested filters. -/
def matchesItem (comparisons : Comparisons) (metadata : Metadata PyTree) :
    LlamaFilter → Option Bool
  | .filter key value operator => matchesFilter comparisons metadata key value operator
  | .filters condition items =>
    if condition = "and" then matchesAll comparisons metadata items
    else if condition = "or" then matchesAny comparisons metadata items
    else if condition = "not" then matchesNot comparisons metadata items
    else none

/-- `all(… for item in items)`. -/
def matchesAll (comparisons : Comparisons) (metadata : Metadata PyTree) :
    List LlamaFilter → Option Bool
  | [] => some true
  | item :: items =>
    (matchesItem comparisons metadata item).bind fun verdict =>
      if verdict then matchesAll comparisons metadata items else some false

/-- `any(… for item in items)`. -/
def matchesAny (comparisons : Comparisons) (metadata : Metadata PyTree) :
    List LlamaFilter → Option Bool
  | [] => some false
  | item :: items =>
    (matchesItem comparisons metadata item).bind fun verdict =>
      if verdict then some true else matchesAny comparisons metadata items

/-- NOT takes exactly one condition. -/
def matchesNot (comparisons : Comparisons) (metadata : Metadata PyTree) :
    List LlamaFilter → Option Bool
  | [item] => (matchesItem comparisons metadata item).map (!·)
  | _ => none

end

/-- `MetadataFilters`. -/
structure LlamaFilters where
  condition : String
  items : List LlamaFilter

/-- `_matches_llama_filters`. -/
def matchesLlamaFilters (comparisons : Comparisons) (metadata : Metadata PyTree)
    (filters : LlamaFilters) : Option Bool :=
  matchesItem comparisons metadata (.filters filters.condition filters.items)

/-! ## What filters say -/

/-- A part that is evaluated by itself. -/
inductive LlamaPart
  | filter (key : Option String) (value : Value) (operator : String)
  /-- An unknown condition, or a NOT that has not exactly one condition. -/
  | refused

def LlamaPart.verdict (comparisons : Comparisons) (metadata : Metadata PyTree) :
    LlamaPart → Option Bool
  | filter key value operator => matchesFilter comparisons metadata key value operator
  | refused => none

mutual

/-- The filters as a formula over their parts. -/
def LlamaFilter.formula : LlamaFilter → Formula LlamaPart
  | .filter key value operator => .atom (.filter key value operator)
  | .filters condition items =>
    if condition = "and" then .all (formulas items)
    else if condition = "or" then .any (formulas items)
    else if condition = "not" then negation items
    else .atom .refused

def formulas : List LlamaFilter → List (Formula LlamaPart)
  | [] => []
  | item :: items => item.formula :: formulas items

def negation : List LlamaFilter → Formula LlamaPart
  | [item] => .not item.formula
  | _ => .atom .refused

end

def LlamaFilters.formula (filters : LlamaFilters) : Formula LlamaPart :=
  LlamaFilter.formula (.filters filters.condition filters.items)

/-- The filters hold of the metadata: what raises is taken as false, which no verdict depends
on. -/
def LlamaFilters.Hold (comparisons : Comparisons) (filters : LlamaFilters)
    (metadata : Metadata PyTree) : Prop :=
  filters.formula.Holds fun part => part.verdict comparisons metadata = some true

section Meaning

variable {comparisons : Comparisons} {metadata : Metadata PyTree}

mutual

theorem matchesItem_eq : ∀ item : LlamaFilter, matchesItem comparisons metadata item =
    item.formula.evaluate (LlamaPart.verdict comparisons metadata)
  | .filter key value operator => rfl
  | .filters condition items => by
    rw [matchesItem, LlamaFilter.formula]
    split_ifs
    · exact matchesAll_eq items
    · exact matchesAny_eq items
    · exact matchesNot_eq items
    · rfl

theorem matchesAll_eq : ∀ items : List LlamaFilter, matchesAll comparisons metadata items =
    Formula.evaluateAll (LlamaPart.verdict comparisons metadata) (formulas items)
  | [] => rfl
  | item :: items => by
    rw [matchesAll, formulas, Formula.evaluateAll, matchesItem_eq item, matchesAll_eq items]

theorem matchesAny_eq : ∀ items : List LlamaFilter, matchesAny comparisons metadata items =
    Formula.evaluateAny (LlamaPart.verdict comparisons metadata) (formulas items)
  | [] => rfl
  | item :: items => by
    rw [matchesAny, formulas, Formula.evaluateAny, matchesItem_eq item, matchesAny_eq items]

theorem matchesNot_eq : ∀ items : List LlamaFilter, matchesNot comparisons metadata items =
    (negation items).evaluate (LlamaPart.verdict comparisons metadata)
  | [] => rfl
  | [item] => by rw [matchesNot, negation, Formula.evaluate, matchesItem_eq item]
  | _ :: _ :: _ => rfl

end

theorem matchesLlamaFilters_eq (filters : LlamaFilters) :
    matchesLlamaFilters comparisons metadata filters =
      filters.formula.evaluate (LlamaPart.verdict comparisons metadata) :=
  matchesItem_eq _

theorem holds_of_verdict {filters : LlamaFilters} {verdict : Bool}
    (h : matchesLlamaFilters comparisons metadata filters = some verdict) :
    filters.Hold comparisons metadata ↔ verdict = true := by
  rw [matchesLlamaFilters_eq] at h
  refine Formula.evaluate_sound (fun part known hknown => ?_) _ h
  rw [hknown, Option.some_inj]

end Meaning

/-- A verdict is what the filters say, whatever the parts that raise are taken to mean. An
evaluation that raises has a part that raises, and without such a part there is a verdict. -/
theorem llama_filters_verdict (comparisons : Comparisons) (metadata : Metadata PyTree)
    (filters : LlamaFilters) :
    (∀ verdict, matchesLlamaFilters comparisons metadata filters = some verdict →
      ∀ reading : LlamaPart → Prop,
        Formula.Agrees (LlamaPart.verdict comparisons metadata) reading →
          (filters.formula.Holds reading ↔ verdict = true)) ∧
    (matchesLlamaFilters comparisons metadata filters = none →
      ∃ part ∈ filters.formula.atoms, part.verdict comparisons metadata = none) := by
  rw [matchesLlamaFilters_eq]
  exact ⟨fun verdict h reading hagrees => Formula.evaluate_sound hagrees _ h,
    Formula.exists_of_evaluate_eq_none⟩

/-- Comparisons under which nothing is equal. -/
def strict : Comparisons := ⟨fun _ _ => false, fun _ _ => false, fun _ _ _ => false⟩

/-- Published from 2020 on, and neither a draft nor without a tag. -/
def recentFinal : LlamaFilters where
  condition := "and"
  items := [.filter (some "year") (.int 2020) ">=",
    .filters "not" [.filter (some "tag") (.container (.list [.str "draft", .none])) "in"]]

/-- Metadata of a final version. -/
def finalVersion : Metadata PyTree :=
  ((∅ : Metadata PyTree).insert "year" (.int 2021)).insert "tag" (.str "final")

theorem recentFinal_verdict : recentFinal.Hold strict finalVersion ↔ true = true :=
  (llama_filters_verdict strict finalVersion recentFinal).1 true (by decide +kernel) _
    fun part known hknown => by rw [hknown, Option.some_inj]

end OrdinalDB.Adapter.LlamaIndex
