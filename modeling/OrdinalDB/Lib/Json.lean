import OrdinalDB.Lib.Table

/-!
# JSON values

Syntax trees of JSON, their equality, the nesting depth that readers limit, and
the reading of objects as maps.

`distinct` reads every object as an ordered map and rejects a repeated key. Its
results are the canonical trees, and it leaves them as they are
(`distinct_of_canonical`, `canonical_of_distinct`).
-/

namespace Json

/-- A number: a `u64`, the magnitude of a negative `i64`, or a finite `f64`. -/
inductive Number
  | posInt (n : UInt64)
  | negInt (magnitude : UInt64) (isNegative : 0 < magnitude ∧ magnitude ≤ 2 ^ 63)
  | float (bits : UInt64) (isFinite : bits >>> 52 &&& 0x7ff ≠ 0x7ff)
deriving DecidableEq, Repr

mutual

/-- A tree; readers differ in what they make of its numbers. -/
inductive Value (N : Type := Number)
  | null
  | bool (b : Bool)
  | number (n : N)
  | string (s : String)
  | array (items : Items N)
  | object (members : Members N)

inductive Items (N : Type := Number)
  | nil
  | cons (head : Value N) (tail : Items N)

inductive Members (N : Type := Number)
  | nil
  | cons (key : String) (value : Value N) (tail : Members N)

end

deriving instance DecidableEq, Repr for Value, Items, Members

/-! ## Equality -/

/-- Equality of numbers: floats are compared as `f64`, so the two zeros are equal. A float and an
integer are never equal. -/
def Number.equals : Number → Number → Bool
  | .float a _, .float b _ => a = b || a <<< 1 = 0 && b <<< 1 = 0
  | a, b => a = b

mutual

/-- Equality of trees, whose objects are sorted by key. -/
def Value.equals : Value → Value → Bool
  | .null, .null => true
  | .bool a, .bool b => a = b
  | .number a, .number b => a.equals b
  | .string a, .string b => a = b
  | .array a, .array b => a.equals b
  | .object a, .object b => a.equals b
  | _, _ => false

def Items.equals : Items → Items → Bool
  | .nil, .nil => true
  | .cons a as, .cons b bs => a.equals b && as.equals bs
  | _, _ => false

def Members.equals : Members → Members → Bool
  | .nil, .nil => true
  | .cons key a as, .cons key' b bs => key = key' && a.equals b && as.equals bs
  | _, _ => false

end

@[simp] theorem Number.equals_refl (n : Number) : n.equals n := by
  cases n <;> simp [Number.equals]

mutual

@[simp] theorem Value.equals_refl (value : Value) : value.equals value := by
  cases value with
  | null => rfl
  | bool | string => simp [Value.equals]
  | number n => exact n.equals_refl
  | array items => exact items.equals_refl
  | object members => exact members.equals_refl

@[simp] theorem Items.equals_refl (items : Items) : items.equals items := by
  cases items with
  | nil => rfl
  | cons head tail => simp [Items.equals, head.equals_refl, tail.equals_refl]

@[simp] theorem Members.equals_refl (members : Members) : members.equals members := by
  cases members with
  | nil => rfl
  | cons key value tail => simp [Members.equals, value.equals_refl, tail.equals_refl]

end

variable {N : Type}

/-! ## Depth -/

mutual

/-- The number of nested arrays and objects. -/
def Value.depth : Value N → Nat
  | .array items => items.depth + 1
  | .object members => members.depth + 1
  | _ => 0

def Items.depth : Items N → Nat
  | .nil => 0
  | .cons head tail => max head.depth tail.depth

def Members.depth : Members N → Nat
  | .nil => 0
  | .cons _ value tail => max value.depth tail.depth

end

/-! ## Objects as maps -/

def Members.ofList : List (String × Value N) → Members N
  | [] => .nil
  | (key, value) :: rest => .cons key value (ofList rest)

def Members.toList : Members N → List (String × Value N)
  | .nil => []
  | .cons key value tail => (key, value) :: tail.toList

/-- The object with the members of a map, in the order of their keys. -/
def Value.ofTable (members : Table String (Value N)) : Value N := .object (.ofList members.toList)

def Members.toTable (members : Members N) : Table String (Value N) :=
  (∅ : Table String (Value N)).insertMany members.toList

def Value.asObject : Value N → Option (Table String (Value N))
  | .object members => some members.toTable
  | _ => none

@[simp] theorem Members.toList_ofList (entries : List (String × Value N)) :
    (Members.ofList entries).toList = entries := by
  induction entries with
  | nil => rfl
  | cons entry rest ih => simp [Members.ofList, Members.toList, ih]

@[simp] theorem Value.asObject_ofTable (members : Table String (Value N)) :
    (Value.ofTable members).asObject = some members := by
  simp [Value.ofTable, Value.asObject, Members.toTable, Table.ofList_toList]

/-! ## Distinct keys -/

mutual

/-- Read every object as a map; a repeated key is an error. -/
def Value.distinct : Value N → Option (Value N)
  | .array items => items.distinct.map .array
  | .object members => members.distinct.map .ofTable
  | value => some value

def Items.distinct : Items N → Option (Items N)
  | .nil => some .nil
  | .cons head tail => do
    let head ← head.distinct
    let tail ← tail.distinct
    pure (.cons head tail)

def Members.distinct : Members N → Option (Table String (Value N))
  | .nil => some ∅
  | .cons key value tail => do
    let value ← value.distinct
    let tail ← tail.distinct
    if key ∈ tail then none else pure (tail.insert key value)

end

/-- A tree that reading leaves as it is. -/
def Value.Canonical (value : Value N) : Prop := value.distinct = some value

theorem Members.distinct_ofList {entries : List (String × Value N)}
    (hkeys : (entries.map Prod.fst).Nodup) (hvalues : ∀ entry ∈ entries, entry.2.Canonical) :
    ∃ members, (Members.ofList entries).distinct = some members ∧
      ∀ key value, members[key]? = some value ↔ (key, value) ∈ entries := by
  induction entries with
  | nil => exact ⟨∅, rfl, fun key value => by simp⟩
  | cons entry rest ih =>
    obtain ⟨key, value⟩ := entry
    obtain ⟨hnew, hrest⟩ := List.nodup_cons.mp hkeys
    obtain ⟨members, hmembers, hlookup⟩ :=
      ih hrest fun entry hentry => hvalues entry (List.mem_cons_of_mem _ hentry)
    have hvalue : value.distinct = some value := hvalues _ List.mem_cons_self
    have hfresh : key ∉ members := by
      intro hmem
      obtain ⟨other, hother⟩ := Option.isSome_iff_exists.mp
        (Std.ExtTreeMap.mem_iff_isSome_getElem?.mp hmem)
      exact hnew (List.mem_map.mpr ⟨(key, other), (hlookup key other).mp hother, rfl⟩)
    refine ⟨members.insert key value, by
      simp [Members.ofList, Members.distinct, hvalue, hmembers, hfresh], fun k v => ?_⟩
    by_cases hk : k = key
    · subst hk
      rw [Table.getElem?_insert_self, List.mem_cons]
      constructor
      · intro h
        exact .inl (by rw [Option.some.inj h])
      · rintro (h | h)
        · rw [(Prod.mk.inj h).2]
        · exact absurd (List.mem_map.mpr ⟨(k, v), h, rfl⟩) hnew
    · rw [Table.getElem?_insert_of_ne hk, hlookup, List.mem_cons]
      exact ⟨.inr, fun h => h.resolve_left fun heq => hk (Prod.mk.inj heq).1⟩

theorem Value.canonical_ofTable {members : Table String (Value N)}
    (h : ∀ (key : String) (value : Value N), members[key]? = some value → value.Canonical) :
    (Value.ofTable members).Canonical := by
  obtain ⟨read, hread, hlookup⟩ := Members.distinct_ofList (Table.nodup_keys_toList members)
    fun entry hentry => h entry.1 entry.2 (Std.ExtTreeMap.mem_toList_iff_getElem?_eq_some.mp hentry)
  have hsame : read = members := Std.ExtTreeMap.ext_getElem? fun key => Option.ext fun value =>
    (hlookup key value).trans Std.ExtTreeMap.mem_toList_iff_getElem?_eq_some
  simp [Value.Canonical, Value.ofTable, Value.distinct, hread, hsame]

mutual

theorem Value.canonical_of_distinct {value read : Value N} (h : value.distinct = some read) :
    read.Canonical := by
  cases value with
  | array items =>
    obtain ⟨items', hitems, rfl⟩ := Option.map_eq_some_iff.mp h
    simp [Value.Canonical, Value.distinct, Items.canonical_of_distinct hitems]
  | object members =>
    obtain ⟨members', hmembers, rfl⟩ := Option.map_eq_some_iff.mp h
    exact Value.canonical_ofTable (Members.canonical_of_distinct hmembers)
  | null | bool | number | string =>
    obtain rfl := Option.some.inj h
    rfl

theorem Items.canonical_of_distinct {items read : Items N} (h : items.distinct = some read) :
    read.distinct = some read := by
  cases items with
  | nil =>
    obtain rfl := Option.some.inj h
    rfl
  | cons head tail =>
    simp only [Items.distinct, Option.bind_eq_bind, Option.bind_eq_some_iff] at h
    obtain ⟨head', hhead, tail', htail, hread⟩ := h
    obtain rfl := Option.some.inj hread
    have hcanonical : head'.distinct = some head' := Value.canonical_of_distinct hhead
    simp [Items.distinct, hcanonical, Items.canonical_of_distinct htail]

theorem Members.canonical_of_distinct {members : Members N} {read : Table String (Value N)}
    (h : members.distinct = some read) (key : String) (value : Value N)
    (hvalue : read[key]? = some value) : value.Canonical := by
  cases members with
  | nil =>
    obtain rfl := Option.some.inj h
    simp at hvalue
  | cons name head tail =>
    simp only [Members.distinct, Option.bind_eq_bind, Option.bind_eq_some_iff] at h
    obtain ⟨head', hhead, tail', htail, hread⟩ := h
    split at hread
    next => cases hread
    next =>
      obtain rfl := Option.some.inj hread
      by_cases hkey : key = name
      · subst hkey
        rw [Table.getElem?_insert_self] at hvalue
        obtain rfl := Option.some.inj hvalue
        exact Value.canonical_of_distinct hhead
      · rw [Table.getElem?_insert_of_ne hkey] at hvalue
        exact Members.canonical_of_distinct htail key value hvalue

end

theorem Members.distinct_member {members : Members N} {read : Table String (Value N)}
    (h : members.distinct = some read) {key : String} {raw : Value N}
    (hraw : (key, raw) ∈ members.toList) : ∃ value, raw.distinct = some value := by
  cases members with
  | nil => simp [Members.toList] at hraw
  | cons name head tail =>
    simp only [Members.distinct, Option.bind_eq_bind, Option.bind_eq_some_iff] at h
    obtain ⟨head', hhead, tail', htail, -⟩ := h
    rcases List.mem_cons.mp hraw with heq | hraw
    · obtain ⟨rfl, rfl⟩ := Prod.mk.inj heq
      exact ⟨head', hhead⟩
    · exact Members.distinct_member htail hraw

/-- The members of an object that is read as a map: the keys are distinct, and the map holds
what each member is read as. -/
theorem Members.distinct_eq_some {members : Members N} {read : Table String (Value N)}
    (h : members.distinct = some read) :
    (members.toList.map Prod.fst).Nodup ∧ ∀ (key : String) (value : Value N),
      read[key]? = some value ↔ ∃ raw, (key, raw) ∈ members.toList ∧ raw.distinct = some value := by
  cases members with
  | nil =>
    obtain rfl := Option.some.inj h
    simp [Members.toList]
  | cons name head tail =>
    simp only [Members.distinct, Option.bind_eq_bind, Option.bind_eq_some_iff] at h
    obtain ⟨head', hhead, tail', htail, hread⟩ := h
    obtain ⟨hnodup, hlookup⟩ := Members.distinct_eq_some htail
    split at hread
    next => cases hread
    next hfresh =>
      obtain rfl := Option.some.inj hread
      have hmem : ∀ {key : String} {raw : Value N}, (key, raw) ∈ tail.toList → key ∈ tail' := by
        intro key raw hraw
        obtain ⟨value, hvalue⟩ := Members.distinct_member htail hraw
        exact Std.ExtTreeMap.mem_iff_isSome_getElem?.mpr
          (Option.isSome_of_eq_some ((hlookup key value).mpr ⟨raw, hraw, hvalue⟩))
      refine ⟨List.nodup_cons.mpr ⟨fun hname => ?_, hnodup⟩, fun key value => ?_⟩
      · obtain ⟨⟨_, raw⟩, hraw, rfl⟩ := List.mem_map.mp hname
        exact hfresh (hmem hraw)
      · simp only [Members.toList, List.mem_cons, Prod.mk.injEq]
        by_cases hkey : key = name
        · subst hkey
          rw [Table.getElem?_insert_self]
          constructor
          · intro hvalue
            exact ⟨head, .inl ⟨rfl, rfl⟩, by rw [hhead, hvalue]⟩
          · rintro ⟨raw, ⟨-, rfl⟩ | hraw, hvalue⟩
            · rw [← hhead, hvalue]
            · exact absurd (hmem hraw) hfresh
        · rw [Table.getElem?_insert_of_ne hkey, hlookup]
          simp [hkey]

/-- A canonical object is the object of its map, and its members are canonical. -/
theorem Value.Canonical.eq_ofTable {value : Value N} (h : value.Canonical)
    {members : Table String (Value N)} (hmembers : value.asObject = some members) :
    value = .ofTable members ∧
      ∀ (key : String) (member : Value N), members[key]? = some member → member.Canonical := by
  cases value with
  | object raw =>
    obtain ⟨read, hread, heq⟩ := Option.map_eq_some_iff.mp h
    rw [← heq, Value.asObject_ofTable] at hmembers
    obtain rfl := Option.some.inj hmembers
    exact ⟨heq.symm, Members.canonical_of_distinct hread⟩
  | null | bool | number | string | array => cases hmembers

/-! ## Depth of canonical trees -/

theorem Members.depth_ofList_le {entries : List (String × Value N)} {n : Nat} :
    (Members.ofList entries).depth ≤ n ↔ ∀ entry ∈ entries, entry.2.depth ≤ n := by
  induction entries with
  | nil => simp [Members.ofList, Members.depth]
  | cons entry rest ih => simp [Members.ofList, Members.depth, ih]

theorem Value.depth_ofTable_le {members : Table String (Value N)} {n : Nat} :
    (Value.ofTable members).depth ≤ n + 1 ↔
      ∀ (key : String) (value : Value N), members[key]? = some value → value.depth ≤ n := by
  simp only [Value.ofTable, Value.depth, Nat.add_le_add_iff_right, Members.depth_ofList_le]
  constructor
  · intro h key value hvalue
    exact h (key, value) (Std.ExtTreeMap.mem_toList_iff_getElem?_eq_some.mpr hvalue)
  · intro h entry hentry
    exact h entry.1 entry.2 (Std.ExtTreeMap.mem_toList_iff_getElem?_eq_some.mp hentry)

mutual

/-- Reading does not deepen a tree. -/
theorem Value.depth_distinct_le {value read : Value N} (h : value.distinct = some read) :
    read.depth ≤ value.depth := by
  cases value with
  | array items =>
    obtain ⟨items', hitems, rfl⟩ := Option.map_eq_some_iff.mp h
    exact Nat.add_le_add_right (Items.depth_distinct_le hitems) 1
  | object members =>
    obtain ⟨members', hmembers, rfl⟩ := Option.map_eq_some_iff.mp h
    exact Value.depth_ofTable_le.mpr (Members.depth_distinct_le hmembers)
  | null | bool | number | string =>
    obtain rfl := Option.some.inj h
    exact le_rfl

theorem Items.depth_distinct_le {items read : Items N} (h : items.distinct = some read) :
    read.depth ≤ items.depth := by
  cases items with
  | nil =>
    obtain rfl := Option.some.inj h
    exact le_rfl
  | cons head tail =>
    simp only [Items.distinct, Option.bind_eq_bind, Option.bind_eq_some_iff] at h
    obtain ⟨head', hhead, tail', htail, hread⟩ := h
    obtain rfl := Option.some.inj hread
    exact max_le_max (Value.depth_distinct_le hhead) (Items.depth_distinct_le htail)

theorem Members.depth_distinct_le {members : Members N} {read : Table String (Value N)}
    (h : members.distinct = some read) (key : String) (value : Value N)
    (hvalue : read[key]? = some value) : value.depth ≤ members.depth := by
  cases members with
  | nil =>
    obtain rfl := Option.some.inj h
    simp at hvalue
  | cons name head tail =>
    simp only [Members.distinct, Option.bind_eq_bind, Option.bind_eq_some_iff] at h
    obtain ⟨head', hhead, tail', htail, hread⟩ := h
    split at hread
    next => cases hread
    next =>
      obtain rfl := Option.some.inj hread
      by_cases hkey : key = name
      · subst hkey
        rw [Table.getElem?_insert_self] at hvalue
        obtain rfl := Option.some.inj hvalue
        exact (Value.depth_distinct_le hhead).trans (le_max_left _ _)
      · rw [Table.getElem?_insert_of_ne hkey] at hvalue
        exact (Members.depth_distinct_le htail key value hvalue).trans (le_max_right _ _)

end

/-! ## Other numbers -/

section Numbers

variable {M : Type}

mutual

/-- The tree with other numbers at the same places. -/
def Value.mapNumber (f : N → M) : Value N → Value M
  | .null => .null
  | .bool b => .bool b
  | .number n => .number (f n)
  | .string s => .string s
  | .array items => .array (items.mapNumber f)
  | .object members => .object (members.mapNumber f)

def Items.mapNumber (f : N → M) : Items N → Items M
  | .nil => .nil
  | .cons head tail => .cons (head.mapNumber f) (tail.mapNumber f)

def Members.mapNumber (f : N → M) : Members N → Members M
  | .nil => .nil
  | .cons key value tail => .cons key (value.mapNumber f) (tail.mapNumber f)

end

mutual

def Value.numbers : Value N → List N
  | .number n => [n]
  | .array items => items.numbers
  | .object members => members.numbers
  | _ => []

def Items.numbers : Items N → List N
  | .nil => []
  | .cons head tail => head.numbers ++ tail.numbers

def Members.numbers : Members N → List N
  | .nil => []
  | .cons _ value tail => value.numbers ++ tail.numbers

end

mutual

@[simp] theorem Value.mapNumber_mapNumber {P : Type} (f : N → M) (g : M → P) (value : Value N) :
    (value.mapNumber f).mapNumber g = value.mapNumber fun n => g (f n) := by
  cases value with
  | null | bool | number | string => rfl
  | array items => exact congrArg Value.array (Items.mapNumber_mapNumber f g items)
  | object members => exact congrArg Value.object (Members.mapNumber_mapNumber f g members)

@[simp] theorem Items.mapNumber_mapNumber {P : Type} (f : N → M) (g : M → P) (items : Items N) :
    (items.mapNumber f).mapNumber g = items.mapNumber fun n => g (f n) := by
  cases items with
  | nil => rfl
  | cons head tail =>
    simp only [Items.mapNumber, Value.mapNumber_mapNumber f g head,
      Items.mapNumber_mapNumber f g tail]

@[simp] theorem Members.mapNumber_mapNumber {P : Type} (f : N → M) (g : M → P)
    (members : Members N) :
    (members.mapNumber f).mapNumber g = members.mapNumber fun n => g (f n) := by
  cases members with
  | nil => rfl
  | cons key value tail =>
    simp only [Members.mapNumber, Value.mapNumber_mapNumber f g value,
      Members.mapNumber_mapNumber f g tail]

end

mutual

/-- Two maps of the numbers give the same tree when they agree on its numbers. -/
theorem Value.mapNumber_eq_iff {f g : N → M} (value : Value N) :
    value.mapNumber f = value.mapNumber g ↔ ∀ n ∈ value.numbers, f n = g n := by
  cases value with
  | null | bool | string => simp [Value.mapNumber, Value.numbers]
  | number n => simp [Value.mapNumber, Value.numbers]
  | array items => simpa [Value.mapNumber, Value.numbers] using Items.mapNumber_eq_iff items
  | object members => simpa [Value.mapNumber, Value.numbers] using Members.mapNumber_eq_iff members

theorem Items.mapNumber_eq_iff {f g : N → M} (items : Items N) :
    items.mapNumber f = items.mapNumber g ↔ ∀ n ∈ items.numbers, f n = g n := by
  cases items with
  | nil => simp [Items.mapNumber, Items.numbers]
  | cons head tail =>
    simp only [Items.mapNumber, Items.numbers, Items.cons.injEq, Value.mapNumber_eq_iff head,
      Items.mapNumber_eq_iff tail, List.forall_mem_append]

theorem Members.mapNumber_eq_iff {f g : N → M} (members : Members N) :
    members.mapNumber f = members.mapNumber g ↔ ∀ n ∈ members.numbers, f n = g n := by
  cases members with
  | nil => simp [Members.mapNumber, Members.numbers]
  | cons key value tail =>
    simp only [Members.mapNumber, Members.numbers, Members.cons.injEq, true_and,
      Value.mapNumber_eq_iff value, Members.mapNumber_eq_iff tail, List.forall_mem_append]

end

/-- The map of an object with other numbers. -/
def mapNumbers (f : N → M) (members : Table String (Value N)) : Table String (Value M) :=
  members.map fun _ value => value.mapNumber f

@[simp] theorem getElem?_mapNumbers (f : N → M) (members : Table String (Value N)) (key : String) :
    (mapNumbers f members)[key]? = members[key]?.map (·.mapNumber f) :=
  Std.ExtTreeMap.getElem?_map

@[simp] theorem mem_mapNumbers {f : N → M} {members : Table String (Value N)} {key : String} :
    key ∈ mapNumbers f members ↔ key ∈ members := Std.ExtTreeMap.mem_map

@[simp] theorem keys_mapNumbers (f : N → M) (members : Table String (Value N)) :
    (mapNumbers f members).keys = members.keys := Std.ExtTreeMap.keys_map

theorem mapNumbers_insert (f : N → M) (members : Table String (Value N)) (key : String)
    (value : Value N) : mapNumbers f (members.insert key value) =
      (mapNumbers f members).insert key (value.mapNumber f) := by
  refine Std.ExtTreeMap.ext_getElem? fun name => ?_
  by_cases hname : name = key
  · subst hname
    rw [getElem?_mapNumbers, Table.getElem?_insert_self, Table.getElem?_insert_self,
      Option.map_some]
  · rw [getElem?_mapNumbers, Table.getElem?_insert_of_ne hname, Table.getElem?_insert_of_ne hname,
      getElem?_mapNumbers]

theorem Members.mapNumber_ofList (f : N → M) (entries : List (String × Value N)) :
    (Members.ofList entries).mapNumber f =
      .ofList (entries.map fun entry => (entry.1, entry.2.mapNumber f)) := by
  induction entries with
  | nil => rfl
  | cons entry rest ih => simp only [Members.ofList, Members.mapNumber, List.map_cons, ih]

theorem Value.mapNumber_ofTable (f : N → M) (members : Table String (Value N)) :
    (Value.ofTable members).mapNumber f = .ofTable (mapNumbers f members) := by
  simp only [Value.ofTable, Value.mapNumber, Members.mapNumber_ofList, mapNumbers,
    Std.ExtTreeMap.toList_map]

theorem mapNumbers_eq_empty {f : N → M} {members : Table String (Value N)} :
    mapNumbers f members = ∅ ↔ members = ∅ := by
  simp only [Std.ExtTreeMap.eq_empty_iff_forall_not_mem, mem_mapNumbers]

theorem Value.ofTable_injective : Function.Injective (@Value.ofTable N) := fun _ _ h =>
  Option.some.inj (by rw [← Value.asObject_ofTable, h, Value.asObject_ofTable])

/-- A canonical tree is an object when it is one with other numbers. -/
theorem Value.Canonical.of_mapNumber {f : N → M} {value : Value N} (h : value.Canonical)
    {members : Table String (Value M)} (hmembers : value.mapNumber f = .ofTable members) :
    ∃ table, value = .ofTable table ∧ mapNumbers f table = members := by
  cases value with
  | object raw =>
    obtain ⟨heq, -⟩ := h.eq_ofTable (rfl : _ = some raw.toTable)
    refine ⟨raw.toTable, heq, Value.ofTable_injective ?_⟩
    rw [← Value.mapNumber_ofTable, ← heq, hmembers]
  | null | bool | number | string | array => cases hmembers

mutual

/-- What is read of a tree does not depend on its numbers. -/
theorem Value.distinct_mapNumber (f : N → M) (value : Value N) :
    (value.mapNumber f).distinct = value.distinct.map (·.mapNumber f) := by
  cases value with
  | null | bool | number | string => rfl
  | array items =>
    simp only [Value.mapNumber, Value.distinct, Items.distinct_mapNumber f items, Option.map_map]
    rfl
  | object members =>
    simp only [Value.mapNumber, Value.distinct, Members.distinct_mapNumber f members,
      Option.map_map]
    exact congrArg (members.distinct.map ·) (funext fun read =>
      (Value.mapNumber_ofTable f read).symm)

theorem Items.distinct_mapNumber (f : N → M) (items : Items N) :
    (items.mapNumber f).distinct = items.distinct.map (·.mapNumber f) := by
  cases items with
  | nil => rfl
  | cons head tail =>
    simp only [Items.mapNumber, Items.distinct, Value.distinct_mapNumber f head,
      Items.distinct_mapNumber f tail]
    cases head.distinct <;> cases tail.distinct <;> rfl

theorem Members.distinct_mapNumber (f : N → M) (members : Members N) :
    (members.mapNumber f).distinct = members.distinct.map (mapNumbers f) := by
  cases members with
  | nil => exact congrArg some (Std.ExtTreeMap.ext_getElem? fun key => by simp)
  | cons key value tail =>
    simp only [Members.mapNumber, Members.distinct, Value.distinct_mapNumber f value,
      Members.distinct_mapNumber f tail]
    cases value.distinct with
    | none => rfl
    | some value =>
      cases tail.distinct with
      | none => rfl
      | some tail =>
        by_cases hkey : key ∈ tail <;> simp [hkey, mapNumbers_insert]

end

theorem mem_numbers_ofTable {n : N} {members : Table String (Value N)} :
    n ∈ (Value.ofTable members).numbers ↔
      ∃ (key : String) (value : Value N), members[key]? = some value ∧ n ∈ value.numbers := by
  have hlist : ∀ entries : List (String × Value N),
      n ∈ (Members.ofList entries).numbers ↔ ∃ entry ∈ entries, n ∈ entry.2.numbers := by
    intro entries
    induction entries with
    | nil => simp [Members.ofList, Members.numbers]
    | cons entry rest ih => simp [Members.ofList, Members.numbers, ih]
  rw [Value.ofTable, Value.numbers, hlist]
  simp only [Prod.exists, Std.ExtTreeMap.mem_toList_iff_getElem?_eq_some]

mutual

/-- Reading neither adds nor loses numbers. -/
theorem Value.mem_numbers_distinct {n : N} {value read : Value N}
    (h : value.distinct = some read) : n ∈ read.numbers ↔ n ∈ value.numbers := by
  cases value with
  | array items =>
    obtain ⟨items', hitems, rfl⟩ := Option.map_eq_some_iff.mp h
    exact Items.mem_numbers_distinct hitems
  | object members =>
    obtain ⟨members', hmembers, rfl⟩ := Option.map_eq_some_iff.mp h
    exact mem_numbers_ofTable.trans (Members.mem_numbers_distinct hmembers)
  | null | bool | number | string =>
    obtain rfl := Option.some.inj h
    rfl

theorem Items.mem_numbers_distinct {n : N} {items read : Items N}
    (h : items.distinct = some read) : n ∈ read.numbers ↔ n ∈ items.numbers := by
  cases items with
  | nil =>
    obtain rfl := Option.some.inj h
    rfl
  | cons head tail =>
    simp only [Items.distinct, Option.bind_eq_bind, Option.bind_eq_some_iff] at h
    obtain ⟨head', hhead, tail', htail, hread⟩ := h
    obtain rfl := Option.some.inj hread
    simp only [Items.numbers, List.mem_append, Value.mem_numbers_distinct hhead,
      Items.mem_numbers_distinct htail]

theorem Members.mem_numbers_distinct {n : N} {members : Members N}
    {read : Table String (Value N)} (h : members.distinct = some read) :
    (∃ (key : String) (value : Value N), read[key]? = some value ∧ n ∈ value.numbers) ↔
      n ∈ members.numbers := by
  cases members with
  | nil =>
    obtain rfl := Option.some.inj h
    simp [Members.numbers]
  | cons name head tail =>
    simp only [Members.distinct, Option.bind_eq_bind, Option.bind_eq_some_iff] at h
    obtain ⟨head', hhead, tail', htail, hread⟩ := h
    split at hread
    next => cases hread
    next hfresh =>
      obtain rfl := Option.some.inj hread
      rw [Members.numbers, List.mem_append, ← Members.mem_numbers_distinct htail,
        ← Value.mem_numbers_distinct hhead]
      constructor
      · rintro ⟨key, value, hvalue, hn⟩
        by_cases hkey : key = name
        · subst hkey
          rw [Table.getElem?_insert_self] at hvalue
          exact .inl (Option.some.inj hvalue ▸ hn)
        · rw [Table.getElem?_insert_of_ne hkey] at hvalue
          exact .inr ⟨key, value, hvalue, hn⟩
      · rintro (hn | ⟨key, value, hvalue, hn⟩)
        · exact ⟨name, head', Table.getElem?_insert_self, hn⟩
        · refine ⟨key, value, ?_, hn⟩
          rw [Table.getElem?_insert_of_ne]
          · exact hvalue
          · rintro rfl
            exact hfresh (Std.ExtTreeMap.mem_iff_isSome_getElem?.mpr
              (Option.isSome_of_eq_some hvalue))

end

end Numbers

end Json
