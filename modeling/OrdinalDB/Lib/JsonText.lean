import Mathlib
import OrdinalDB.Lib.Json

/-!
# JSON texts

Trees whose numbers are still literals, reading them as values, and printing
values. A reader keeps integers that fit into a machine word and takes the
nearest double for every other number, so that a tree that is read and printed
keeps its shape and its strings, but not always its numbers:
`FloatText.Reprinted.nodeAt_iff`.

The conversion between decimals and doubles is a parameter, `FloatText`.
-/

namespace Json

/-! ## Literals -/

/-- A number as it is written: digits alone, or with a fraction or an exponent. -/
inductive Literal
  | int (negative : Bool) (magnitude : Nat)
  | decimal (negative : Bool) (mantissa : Nat) (exponent : Int)
deriving DecidableEq, Repr

/-- A magnitude with its sign. -/
def signed (negative : Bool) (magnitude : ℚ) : ℚ := if negative then -magnitude else magnitude

/-- The number that a literal denotes. -/
def Literal.value : Literal → ℚ
  | .int negative magnitude => signed negative magnitude
  | .decimal negative mantissa exponent => signed negative (mantissa * 10 ^ exponent)

/-- The doubles that JSON can hold. -/
abbrev Double := { bits : UInt64 // bits >>> 52 &&& 0x7ff ≠ 0x7ff }

/-- The number that a double denotes. -/
def Double.toRat (double : Double) : ℚ :=
  let exponent := (double.1 >>> 52 &&& 0x7ff).toNat
  let fraction := (double.1 &&& 0xfffffffffffff).toNat
  signed (double.1 >>> 63 = 1)
    (if exponent = 0 then fraction * 2 ^ (-1074 : Int)
    else (2 ^ 52 + fraction) * 2 ^ ((exponent : Int) - 1075))

theorem abs_signed (negative : Bool) {magnitude : ℚ} (h : 0 ≤ magnitude) :
    |signed negative magnitude| = magnitude := by
  cases negative <;> simp [signed, abs_of_nonneg h]

theorem significand_lt {fraction exponent : Nat} (hfraction : fraction < 2 ^ 52)
    (hexponent : exponent ≤ 2046) :
    (2 ^ 52 + (fraction : ℚ)) * 2 ^ ((exponent : Int) - 1075) < 2 ^ 1024 := by
  have hsum : (2 : ℚ) ^ 52 + fraction < 2 ^ (53 : Int) := by
    have hcast : (fraction : ℚ) < 2 ^ 52 := by exact_mod_cast hfraction
    calc (2 : ℚ) ^ 52 + fraction < 2 ^ 52 + 2 ^ 52 := by gcongr
      _ = 2 ^ (53 : Int) := by norm_num
  have hscale : (2 : ℚ) ^ ((exponent : Int) - 1075) ≤ 2 ^ (971 : Int) :=
    zpow_le_zpow_right₀ one_le_two (by omega)
  calc (2 ^ 52 + (fraction : ℚ)) * 2 ^ ((exponent : Int) - 1075)
      < 2 ^ (53 : Int) * 2 ^ ((exponent : Int) - 1075) := by gcongr
    _ ≤ 2 ^ (53 : Int) * 2 ^ (971 : Int) := by gcongr
    _ = 2 ^ (1024 : Int) := by rw [← zpow_add₀ two_ne_zero]; rfl
    _ = 2 ^ 1024 := zpow_natCast 2 1024

/-- The power of two that bounds the doubles. -/
def maxDoubleExponent : Nat := 1024

theorem Double.abs_toRat_lt (double : Double) :
    |Double.toRat double| < 2 ^ maxDoubleExponent := by
  obtain ⟨bits, hfinite⟩ := double
  have hexponent : (bits >>> 52 &&& 0x7ff).toNat ≤ 2046 := by
    have hlimit : (0x7ff : UInt64).toNat = 2047 := by decide +kernel
    have hle : (bits >>> 52 &&& 0x7ff).toNat ≤ 2047 := by
      rw [UInt64.toNat_and, hlimit]
      exact Nat.and_le_right
    refine Nat.le_of_lt_succ (lt_of_le_of_ne hle fun heq => hfinite ?_)
    rw [← UInt64.toNat_inj, heq, hlimit]
  have hfraction : (bits &&& 0xfffffffffffff).toNat < 2 ^ 52 := by
    have hlimit : (0xfffffffffffff : UInt64).toNat = 2 ^ 52 - 1 := by decide +kernel
    rw [UInt64.toNat_and, hlimit]
    exact Nat.lt_of_le_of_lt Nat.and_le_right (by norm_num)
  rw [Double.toRat, abs_signed _ (by positivity), maxDoubleExponent]
  split
  · have htiny : (2 : ℚ) ^ (-1074 : Int) ≤ 1 :=
      zpow_le_one_of_nonpos₀ one_le_two (by norm_num)
    calc ((bits &&& 0xfffffffffffff).toNat : ℚ) * 2 ^ (-1074 : Int)
        ≤ (bits &&& 0xfffffffffffff).toNat :=
          mul_le_of_le_one_right (Nat.cast_nonneg _) htiny
      _ < 2 ^ 52 := by exact_mod_cast hfraction
      _ < 2 ^ 1024 := pow_lt_pow_right₀ one_lt_two (by norm_num)
  · exact significand_lt hfraction hexponent

def Number.toRat : Number → ℚ
  | .posInt n => n.toNat
  | .negInt magnitude _ => -magnitude.toNat
  | .float bits isFinite => Double.toRat ⟨bits, isFinite⟩

/-- The conversion of literals to the nearest double, which may be out of range, and of doubles
to a decimal that is read back. -/
structure FloatText where
  parse : Literal → Option Double
  print : Double → Bool × Nat × Int
  parse_print : ∀ double, parse (.decimal (print double).1 (print double).2.1 (print double).2.2) =
    some double

theorem negative_fits {magnitude : Nat} (h : 0 < magnitude ∧ magnitude ≤ 2 ^ 63) :
    0 < magnitude.toUInt64 ∧ magnitude.toUInt64 ≤ 2 ^ 63 := by
  have hfits : magnitude < 2 ^ 64 := lt_of_le_of_lt h.2 (by norm_num)
  have hround : magnitude.toUInt64.toNat = magnitude := by simpa using hfits
  constructor
  · rw [UInt64.lt_iff_toNat_lt, hround]
    exact h.1
  · have hlimit : (2 ^ 63 : UInt64).toNat = 2 ^ 63 := by decide +kernel
    rw [UInt64.le_iff_toNat_le, hround, hlimit]
    exact h.2

namespace FloatText

variable (floats : FloatText)

def printDouble (double : Double) : Literal :=
  .decimal (floats.print double).1 (floats.print double).2.1 (floats.print double).2.2

def readDouble (literal : Literal) : Option Number :=
  (floats.parse literal).map fun double => .float double.1 double.2

/-- Integers are kept when they fit into 64 bits; `-0` and everything else is a double. -/
def read : Literal → Option Number
  | .int false magnitude =>
    if magnitude < 2 ^ 64 then some (.posInt magnitude.toUInt64)
    else floats.readDouble (.int false magnitude)
  | .int true magnitude =>
    if h : 0 < magnitude ∧ magnitude ≤ 2 ^ 63 then
      some (.negInt magnitude.toUInt64 (negative_fits h))
    else floats.readDouble (.int true magnitude)
  | .decimal negative mantissa exponent => floats.readDouble (.decimal negative mantissa exponent)

def printNumber : Number → Literal
  | .posInt n => .int false n.toNat
  | .negInt magnitude _ => .int true magnitude.toNat
  | .float bits isFinite => floats.printDouble ⟨bits, isFinite⟩

/-- A printed number is read back. -/
theorem read_printNumber (number : Number) :
    floats.read (floats.printNumber number) = some number := by
  cases number with
  | posInt n => simp [printNumber, read, n.toNat_lt]
  | negInt magnitude isNegative =>
    have hlimit : (2 ^ 63 : UInt64).toNat = 2 ^ 63 := by decide +kernel
    have hfits : 0 < magnitude.toNat ∧ magnitude.toNat ≤ 2 ^ 63 := by
      rw [← hlimit]
      exact ⟨UInt64.lt_iff_toNat_lt.mp isNegative.1, UInt64.le_iff_toNat_le.mp isNegative.2⟩
    rw [printNumber, read, dif_pos hfits]
    simp
  | float bits isFinite =>
    simp [printNumber, printDouble, read, readDouble, floats.parse_print]

/-- Reading and printing a literal gives the same number. -/
def Kept (literal : Literal) : Prop :=
  ∃ number, floats.read literal = some number ∧ (floats.printNumber number).value = literal.value

/-- An integer that fits into 64 bits. -/
def IsMachineInteger : Literal → Prop
  | .int false magnitude => magnitude < 2 ^ 64
  | .int true magnitude => 0 < magnitude ∧ magnitude ≤ 2 ^ 63
  | .decimal _ _ _ => False

/-- An integer that fits into 64 bits, or the number that its nearest double is printed as. -/
def Exact (literal : Literal) : Prop :=
  IsMachineInteger literal ∨
    ∃ double, floats.parse literal = some double ∧ (floats.printDouble double).value = literal.value

/-- A decimal, an integer that fits into 64 bits, or one that its nearest double is. -/
def Alike : Literal → Prop
  | .decimal _ _ _ => True
  | .int negative magnitude =>
    IsMachineInteger (.int negative magnitude) ∨
      ∃ double, floats.parse (.int negative magnitude) = some double ∧
        Double.toRat double = (Literal.int negative magnitude).value

theorem read_of_not_isMachineInteger {literal : Literal} (h : ¬IsMachineInteger literal) :
    floats.read literal = floats.readDouble literal := by
  cases literal with
  | decimal negative mantissa exponent => rfl
  | int negative magnitude =>
    cases negative with
    | false => exact if_neg h
    | true => exact dif_neg h

/-- Integers of 64 bits are read exactly. -/
theorem toRat_read {literal : Literal} (h : IsMachineInteger literal) :
    ∃ number, floats.read literal = some number ∧ number.toRat = literal.value := by
  cases literal with
  | decimal negative mantissa exponent => exact h.elim
  | int negative magnitude =>
    cases negative with
    | false =>
      have hfits : magnitude < 2 ^ 64 := h
      have hround : magnitude.toUInt64.toNat = magnitude := by simpa using hfits
      refine ⟨.posInt magnitude.toUInt64, if_pos hfits, ?_⟩
      rw [Number.toRat, hround]
      rfl
    | true =>
      have hnegative : 0 < magnitude ∧ magnitude ≤ 2 ^ 63 := h
      have hfits : magnitude < 2 ^ 64 := lt_of_le_of_lt hnegative.2 (by norm_num)
      have hround : magnitude.toUInt64.toNat = magnitude := by simpa using hfits
      refine ⟨.negInt magnitude.toUInt64 (negative_fits hnegative), dif_pos hnegative, ?_⟩
      rw [Number.toRat, hround]
      rfl

theorem kept_of_isMachineInteger {literal : Literal} (h : IsMachineInteger literal) :
    floats.Kept literal := by
  cases literal with
  | decimal negative mantissa exponent => exact h.elim
  | int negative magnitude =>
    cases negative with
    | false =>
      have hfits : magnitude < 2 ^ 64 := h
      refine ⟨.posInt magnitude.toUInt64, if_pos hfits, ?_⟩
      have hround : magnitude.toUInt64.toNat = magnitude := by simpa using hfits
      rw [printNumber, hround]
    | true =>
      have hnegative : 0 < magnitude ∧ magnitude ≤ 2 ^ 63 := h
      have hfits : magnitude < 2 ^ 64 := lt_of_le_of_lt hnegative.2 (by norm_num)
      refine ⟨.negInt magnitude.toUInt64 (negative_fits hnegative), dif_pos hnegative, ?_⟩
      have hround : magnitude.toUInt64.toNat = magnitude := by simpa using hfits
      rw [printNumber, hround]

theorem kept_iff {literal : Literal} : floats.Kept literal ↔ floats.Exact literal := by
  by_cases hinteger : IsMachineInteger literal
  · exact ⟨fun _ => .inl hinteger, fun _ => floats.kept_of_isMachineInteger hinteger⟩
  · unfold Kept
    rw [floats.read_of_not_isMachineInteger hinteger]
    constructor
    · rintro ⟨number, hnumber, hvalue⟩
      obtain ⟨double, hdouble, rfl⟩ := Option.map_eq_some_iff.mp hnumber
      exact .inr ⟨double, hdouble, hvalue⟩
    · rintro (h | ⟨double, hdouble, hvalue⟩)
      · exact absurd h hinteger
      · exact ⟨_, Option.map_eq_some_iff.mpr ⟨double, hdouble, rfl⟩, hvalue⟩

end FloatText

/-! ## Trees with literals -/

mutual

inductive Raw
  | null
  | bool (b : Bool)
  | number (literal : Literal)
  | string (s : String)
  | array (items : RawItems)
  | object (members : RawMembers)

inductive RawItems
  | nil
  | cons (head : Raw) (tail : RawItems)

inductive RawMembers
  | nil
  | cons (key : String) (value : Raw) (tail : RawMembers)

end

deriving instance DecidableEq, Repr for Raw, RawItems, RawMembers

def RawItems.toList : RawItems → List Raw
  | .nil => []
  | .cons head tail => head :: tail.toList

def RawMembers.toList : RawMembers → List (String × Raw)
  | .nil => []
  | .cons key value tail => (key, value) :: tail.toList

section Trees

variable {N : Type}

mutual

/-- The value of a tree, when every number is read. -/
def Raw.toValue (read : Literal → Option N) : Raw → Option (Value N)
  | .null => some .null
  | .bool b => some (.bool b)
  | .number literal => (read literal).map .number
  | .string s => some (.string s)
  | .array items => (items.toItems read).map .array
  | .object members => (members.toMembers read).map .object

def RawItems.toItems (read : Literal → Option N) : RawItems → Option (Items N)
  | .nil => some .nil
  | .cons head tail => do
    let head ← head.toValue read
    let tail ← tail.toItems read
    pure (.cons head tail)

def RawMembers.toMembers (read : Literal → Option N) : RawMembers → Option (Members N)
  | .nil => some .nil
  | .cons key value tail => do
    let value ← value.toValue read
    let tail ← tail.toMembers read
    pure (.cons key value tail)

end

mutual

def Value.toRaw (print : N → Literal) : Value N → Raw
  | .null => .null
  | .bool b => .bool b
  | .number n => .number (print n)
  | .string s => .string s
  | .array items => .array (items.toRaw print)
  | .object members => .object (members.toRaw print)

def Items.toRaw (print : N → Literal) : Items N → RawItems
  | .nil => .nil
  | .cons head tail => .cons (head.toRaw print) (tail.toRaw print)

def Members.toRaw (print : N → Literal) : Members N → RawMembers
  | .nil => .nil
  | .cons key value tail => .cons key (value.toRaw print) (tail.toRaw print)

end

variable {read : Literal → Option N} {print : N → Literal}

mutual

/-- A printed value is read back when its numbers are. -/
theorem Value.toValue_toRaw {value : Value N}
    (h : ∀ n ∈ value.numbers, read (print n) = some n) :
    (value.toRaw print).toValue read = some value := by
  cases value with
  | null | bool | string => rfl
  | number n => rw [Value.toRaw, Raw.toValue, h n (List.mem_singleton.mpr rfl), Option.map_some]
  | array items => rw [Value.toRaw, Raw.toValue, Items.toItems_toRaw h, Option.map_some]
  | object members => rw [Value.toRaw, Raw.toValue, Members.toMembers_toRaw h, Option.map_some]

theorem Items.toItems_toRaw {items : Items N} (h : ∀ n ∈ items.numbers, read (print n) = some n) :
    (items.toRaw print).toItems read = some items := by
  cases items with
  | nil => rfl
  | cons head tail =>
    obtain ⟨hhead, htail⟩ := List.forall_mem_append.mp h
    simp [Items.toRaw, RawItems.toItems, Value.toValue_toRaw hhead, Items.toItems_toRaw htail]

theorem Members.toMembers_toRaw {members : Members N}
    (h : ∀ n ∈ members.numbers, read (print n) = some n) :
    (members.toRaw print).toMembers read = some members := by
  cases members with
  | nil => rfl
  | cons key value tail =>
    obtain ⟨hvalue, htail⟩ := List.forall_mem_append.mp h
    simp [Members.toRaw, RawMembers.toMembers, Value.toValue_toRaw hvalue,
      Members.toMembers_toRaw htail]

end

end Trees

namespace FloatText

variable (floats : FloatText)

abbrev toValue (raw : Raw) : Option Value := raw.toValue floats.read

abbrev ofValue (value : Value) : Raw := value.toRaw floats.printNumber

/-- A printed value is read back. -/
theorem toValue_ofValue (value : Value) : floats.toValue (floats.ofValue value) = some value :=
  Value.toValue_toRaw fun n _ => floats.read_printNumber n

end FloatText

/-! ## Places -/

/-- One level down: a member of an object or an item of an array. -/
inductive Step
  | key (name : String)
  | index (i : Nat)
deriving DecidableEq, Repr

def Raw.child : Raw → Step → Option Raw
  | .object members, .key name => members.toList.lookup name
  | .array items, .index i => items.toList[i]?
  | _, _ => none

def Raw.find (raw : Raw) : List Step → Option Raw
  | [] => some raw
  | step :: path => (raw.child step).bind fun child => child.find path

/-- What a node is by itself. -/
inductive Node
  | null
  | bool (b : Bool)
  | number (value : ℚ)
  | string (s : String)
  | array
  | object
deriving DecidableEq

def Raw.node : Raw → Node
  | .null => .null
  | .bool b => .bool b
  | .number literal => .number literal.value
  | .string s => .string s
  | .array _ => .array
  | .object _ => .object

/-- The node at a place; numbers are compared as numbers, and the order of members is lost. -/
def Raw.nodeAt (raw : Raw) (path : List Step) : Option Node := (raw.find path).map Raw.node

mutual

/-- The numbers of a tree. -/
def Raw.literals : Raw → List Literal
  | .number literal => [literal]
  | .array items => items.literals
  | .object members => members.literals
  | _ => []

def RawItems.literals : RawItems → List Literal
  | .nil => []
  | .cons head tail => head.literals ++ tail.literals

def RawMembers.literals : RawMembers → List Literal
  | .nil => []
  | .cons _ value tail => value.literals ++ tail.literals

end

theorem RawItems.literals_subset {items : RawItems} {item : Raw} (h : item ∈ items.toList) :
    item.literals ⊆ items.literals := by
  cases items with
  | nil => cases h
  | cons head tail =>
    rcases List.mem_cons.mp h with rfl | h
    · exact List.subset_append_left _ _
    · exact List.subset_append_of_subset_right _ (RawItems.literals_subset h)

theorem RawMembers.literals_subset {members : RawMembers} {member : String × Raw}
    (h : member ∈ members.toList) : member.2.literals ⊆ members.literals := by
  cases members with
  | nil => cases h
  | cons key value tail =>
    rcases List.mem_cons.mp h with rfl | h
    · exact List.subset_append_left _ _
    · exact List.subset_append_of_subset_right _ (RawMembers.literals_subset h)

theorem Raw.literals_child {raw child : Raw} {step : Step} (h : raw.child step = some child) :
    child.literals ⊆ raw.literals := by
  cases raw with
  | object members =>
    cases step with
    | key name =>
      obtain ⟨before, after, hmembers, -⟩ := List.lookup_eq_some_iff.mp h
      have hmem : (name, child) ∈ members.toList := hmembers ▸ by simp
      exact RawMembers.literals_subset hmem
    | index i => cases h
  | array items =>
    cases step with
    | key name => cases h
    | index i => exact RawItems.literals_subset (List.mem_of_getElem? h)
  | null | bool | number | string => cases h

/-- Every number at some place is one of the numbers of the tree. -/
theorem Raw.mem_literals {raw : Raw} {path : List Step} {literal : Literal}
    (h : raw.find path = some (.number literal)) : literal ∈ raw.literals := by
  induction path generalizing raw with
  | nil =>
    obtain rfl := Option.some.inj h
    exact List.mem_singleton.mpr rfl
  | cons step path ih =>
    obtain ⟨child, hchild, hrest⟩ := Option.bind_eq_some_iff.mp h
    exact literals_child hchild (ih hrest)

/-! ## Two readers -/

section Readers

variable {N M : Type} {read : Literal → Option N} {read' : Literal → Option M}

mutual

/-- Two values that are read of one tree differ only in their numbers, which come in pairs from
the literals of the tree. -/
theorem Raw.toValue_both {raw : Raw} {value : Value N} {value' : Value M}
    (h : raw.toValue read = some value) (h' : raw.toValue read' = some value') :
    ∃ both : Value (N × M), both.mapNumber Prod.fst = value ∧ both.mapNumber Prod.snd = value' ∧
      ∀ n, n ∈ both.numbers ↔
        ∃ literal ∈ raw.literals, read literal = some n.1 ∧ read' literal = some n.2 := by
  cases raw with
  | null | bool | string =>
    obtain rfl := Option.some.inj h
    obtain rfl := Option.some.inj h'
    first
    | exact ⟨.null, rfl, rfl, by simp [Value.numbers, Raw.literals]⟩
    | exact ⟨.bool _, rfl, rfl, by simp [Value.numbers, Raw.literals]⟩
    | exact ⟨.string _, rfl, rfl, by simp [Value.numbers, Raw.literals]⟩
  | number literal =>
    obtain ⟨n, hn, rfl⟩ := Option.map_eq_some_iff.mp h
    obtain ⟨n', hn', rfl⟩ := Option.map_eq_some_iff.mp h'
    refine ⟨.number (n, n'), rfl, rfl, fun pair => ?_⟩
    simp [Value.numbers, Raw.literals, hn, hn', Prod.ext_iff, eq_comm]
  | array items =>
    obtain ⟨read, hread, rfl⟩ := Option.map_eq_some_iff.mp h
    obtain ⟨read', hread', rfl⟩ := Option.map_eq_some_iff.mp h'
    obtain ⟨both, rfl, rfl, hnumbers⟩ := RawItems.toItems_both hread hread'
    exact ⟨.array both, rfl, rfl, hnumbers⟩
  | object members =>
    obtain ⟨read, hread, rfl⟩ := Option.map_eq_some_iff.mp h
    obtain ⟨read', hread', rfl⟩ := Option.map_eq_some_iff.mp h'
    obtain ⟨both, rfl, rfl, hnumbers⟩ := RawMembers.toMembers_both hread hread'
    exact ⟨.object both, rfl, rfl, hnumbers⟩

theorem RawItems.toItems_both {items : RawItems} {values : Items N} {values' : Items M}
    (h : items.toItems read = some values) (h' : items.toItems read' = some values') :
    ∃ both : Items (N × M), both.mapNumber Prod.fst = values ∧
      both.mapNumber Prod.snd = values' ∧ ∀ n, n ∈ both.numbers ↔
        ∃ literal ∈ items.literals, read literal = some n.1 ∧ read' literal = some n.2 := by
  cases items with
  | nil =>
    obtain rfl := Option.some.inj h
    obtain rfl := Option.some.inj h'
    exact ⟨.nil, rfl, rfl, by simp [Items.numbers, RawItems.literals]⟩
  | cons head tail =>
    simp only [RawItems.toItems, Option.bind_eq_bind, Option.bind_eq_some_iff, Option.pure_def,
      Option.some.injEq] at h h'
    obtain ⟨value, hvalue, rest, hrest, rfl⟩ := h
    obtain ⟨value', hvalue', rest', hrest', rfl⟩ := h'
    obtain ⟨first, rfl, rfl, hfirst⟩ := Raw.toValue_both hvalue hvalue'
    obtain ⟨others, rfl, rfl, hothers⟩ := RawItems.toItems_both hrest hrest'
    refine ⟨.cons first others, rfl, rfl, fun n => ?_⟩
    simp only [Items.numbers, RawItems.literals, List.mem_append, hfirst, hothers, or_and_right,
      exists_or]

theorem RawMembers.toMembers_both {members : RawMembers} {values : Members N}
    {values' : Members M} (h : members.toMembers read = some values)
    (h' : members.toMembers read' = some values') :
    ∃ both : Members (N × M), both.mapNumber Prod.fst = values ∧
      both.mapNumber Prod.snd = values' ∧ ∀ n, n ∈ both.numbers ↔
        ∃ literal ∈ members.literals, read literal = some n.1 ∧ read' literal = some n.2 := by
  cases members with
  | nil =>
    obtain rfl := Option.some.inj h
    obtain rfl := Option.some.inj h'
    exact ⟨.nil, rfl, rfl, by simp [Members.numbers, RawMembers.literals]⟩
  | cons key value tail =>
    simp only [RawMembers.toMembers, Option.bind_eq_bind, Option.bind_eq_some_iff,
      Option.pure_def, Option.some.injEq] at h h'
    obtain ⟨value, hvalue, rest, hrest, rfl⟩ := h
    obtain ⟨value', hvalue', rest', hrest', rfl⟩ := h'
    obtain ⟨first, rfl, rfl, hfirst⟩ := Raw.toValue_both hvalue hvalue'
    obtain ⟨others, rfl, rfl, hothers⟩ := RawMembers.toMembers_both hrest hrest'
    refine ⟨.cons key first others, rfl, rfl, fun n => ?_⟩
    simp only [Members.numbers, RawMembers.literals, List.mem_append, hfirst, hothers,
      or_and_right, exists_or]

end

mutual

/-- A tree is read when all its numbers are. -/
theorem Raw.isSome_toValue {raw : Raw} :
    (raw.toValue read).isSome ↔ ∀ literal ∈ raw.literals, (read literal).isSome := by
  cases raw with
  | null | bool | string => simp [Raw.toValue, Raw.literals]
  | number literal => simp [Raw.toValue, Raw.literals]
  | array items => rw [Raw.toValue, Option.isSome_map, RawItems.isSome_toItems, Raw.literals]
  | object members =>
    rw [Raw.toValue, Option.isSome_map, RawMembers.isSome_toMembers, Raw.literals]

theorem RawItems.isSome_toItems {items : RawItems} :
    (items.toItems read).isSome ↔ ∀ literal ∈ items.literals, (read literal).isSome := by
  cases items with
  | nil => simp [RawItems.toItems, RawItems.literals]
  | cons head tail =>
    rw [RawItems.literals, List.forall_mem_append, ← Raw.isSome_toValue,
      ← RawItems.isSome_toItems]
    cases hhead : head.toValue read <;> cases htail : tail.toItems read <;>
      simp [RawItems.toItems, hhead, htail]

theorem RawMembers.isSome_toMembers {members : RawMembers} :
    (members.toMembers read).isSome ↔ ∀ literal ∈ members.literals, (read literal).isSome := by
  cases members with
  | nil => simp [RawMembers.toMembers, RawMembers.literals]
  | cons key value tail =>
    rw [RawMembers.literals, List.forall_mem_append, ← Raw.isSome_toValue,
      ← RawMembers.isSome_toMembers]
    cases hvalue : value.toValue read <;> cases htail : tail.toMembers read <;>
      simp [RawMembers.toMembers, hvalue, htail]

end

end Readers

/-! ## Reading and printing -/

theorem lookup_eq_some_iff_mem {V : Type} {entries : List (String × V)}
    (h : (entries.map Prod.fst).Nodup) {key : String} {value : V} :
    entries.lookup key = some value ↔ (key, value) ∈ entries := by
  induction entries with
  | nil => simp
  | cons entry rest ih =>
    obtain ⟨name, head⟩ := entry
    obtain ⟨hnew, hrest⟩ := List.nodup_cons.mp h
    rw [List.lookup_cons]
    by_cases hkey : key = name
    · subst hkey
      simp only [beq_self_eq_true, Option.some.injEq, List.mem_cons, Prod.mk.injEq, true_and]
      constructor
      · intro heq
        exact .inl heq.symm
      · rintro (heq | hmem)
        · exact heq.symm
        · exact absurd (List.mem_map.mpr ⟨_, hmem, rfl⟩) hnew
    · rw [beq_eq_false_iff_ne.mpr hkey]
      simp [ih hrest, hkey]

theorem lookup_toList {V : Type} (table : Table String V) (key : String) :
    table.toList.lookup key = table[key]? :=
  Option.ext fun _ => (lookup_eq_some_iff_mem (Table.nodup_keys_toList table)).trans
    Std.ExtTreeMap.mem_toList_iff_getElem?_eq_some

namespace FloatText

variable (floats : FloatText)

/-- The value that a tree is read as. -/
def Reads (raw : Raw) (value : Value) : Prop :=
  (floats.toValue raw).bind Value.distinct = some value

/-- What reading a tree and printing the value leaves. -/
def Reprinted (raw printed : Raw) : Prop :=
  ∃ value, floats.Reads raw value ∧ printed = floats.ofValue value

theorem lookup_toRaw (entries : List (String × Value)) (key : String) :
    ((Members.ofList entries).toRaw floats.printNumber).toList.lookup key =
      (entries.lookup key).map floats.ofValue := by
  induction entries with
  | nil => rfl
  | cons entry rest ih =>
    obtain ⟨name, head⟩ := entry
    simp only [Members.ofList, Members.toRaw, RawMembers.toList, List.lookup_cons, ih]
    cases key == name <;> rfl

/-- The members of an object, read and printed. -/
theorem member_reprinted {members : RawMembers} {read : Members} {table : Table String Value}
    (hread : members.toMembers floats.read = some read) (htable : read.distinct = some table)
    (key : String) :
    Option.Rel floats.Reprinted (members.toList.lookup key) (table[key]?.map floats.ofValue) := by
  cases members with
  | nil =>
    obtain rfl := Option.some.inj hread
    obtain rfl := Option.some.inj htable
    exact .none
  | cons name head tail =>
    simp only [RawMembers.toMembers, Option.bind_eq_bind, Option.bind_eq_some_iff] at hread
    obtain ⟨head', hhead, tail', htail, hread⟩ := hread
    obtain rfl := Option.some.inj hread
    simp only [Members.distinct, Option.bind_eq_bind, Option.bind_eq_some_iff] at htable
    obtain ⟨value, hvalue, rest, hrest, htable⟩ := htable
    split at htable
    next => cases htable
    next =>
      obtain rfl := Option.some.inj htable
      rw [RawMembers.toList, List.lookup_cons]
      by_cases hkey : key = name
      · subst hkey
        have hreads : floats.Reads head value := by
          rw [Reads, toValue, hhead, Option.bind_some, hvalue]
        rw [beq_self_eq_true, Table.getElem?_insert_self]
        exact .some ⟨value, hreads, rfl⟩
      · rw [beq_eq_false_iff_ne.mpr hkey, Table.getElem?_insert_of_ne hkey]
        exact member_reprinted htail hrest key

/-- The items of an array, read and printed. -/
theorem item_reprinted {items : RawItems} {read values : Items}
    (hread : items.toItems floats.read = some read) (hvalues : read.distinct = some values)
    (i : Nat) : Option.Rel floats.Reprinted items.toList[i]?
      (values.toRaw floats.printNumber).toList[i]? := by
  cases items with
  | nil =>
    obtain rfl := Option.some.inj hread
    obtain rfl := Option.some.inj hvalues
    exact .none
  | cons head tail =>
    simp only [RawItems.toItems, Option.bind_eq_bind, Option.bind_eq_some_iff] at hread
    obtain ⟨head', hhead, tail', htail, hread⟩ := hread
    obtain rfl := Option.some.inj hread
    simp only [Items.distinct, Option.bind_eq_bind, Option.bind_eq_some_iff] at hvalues
    obtain ⟨value, hvalue, rest, hrest, hvalues⟩ := hvalues
    obtain rfl := Option.some.inj hvalues
    cases i with
    | zero =>
      have hreads : floats.Reads head value := by
        rw [Reads, toValue, hhead, Option.bind_some, hvalue]
      exact .some ⟨value, hreads, rfl⟩
    | succ i => exact item_reprinted htail hrest i

variable {floats}

theorem Reprinted.child {raw printed : Raw} (h : floats.Reprinted raw printed) (step : Step) :
    Option.Rel floats.Reprinted (raw.child step) (printed.child step) := by
  obtain ⟨value, hreads, rfl⟩ := h
  obtain ⟨read, hread, hvalue⟩ := Option.bind_eq_some_iff.mp hreads
  cases raw with
  | object members =>
    obtain ⟨read, hmembers, rfl⟩ := Option.map_eq_some_iff.mp hread
    obtain ⟨table, htable, rfl⟩ := Option.map_eq_some_iff.mp hvalue
    cases step with
    | key name =>
      have hmember := floats.member_reprinted hmembers htable name
      rwa [← lookup_toList, ← lookup_toRaw] at hmember
    | index i => exact .none
  | array items =>
    obtain ⟨read, hitems, rfl⟩ := Option.map_eq_some_iff.mp hread
    obtain ⟨values, hvalues, rfl⟩ := Option.map_eq_some_iff.mp hvalue
    cases step with
    | key name => exact .none
    | index i => exact floats.item_reprinted hitems hvalues i
  | number literal =>
    obtain ⟨number, -, rfl⟩ := Option.map_eq_some_iff.mp hread
    obtain rfl := Option.some.inj hvalue
    exact .none
  | null | bool | string =>
    obtain rfl := Option.some.inj hread
    obtain rfl := Option.some.inj hvalue
    exact .none

/-- Every place of a printed tree is printed from the same place of the tree that was read. -/
theorem Reprinted.find {raw printed : Raw} (h : floats.Reprinted raw printed) (path : List Step) :
    Option.Rel floats.Reprinted (raw.find path) (printed.find path) := by
  induction path generalizing raw printed with
  | nil => exact .some h
  | cons step path ih =>
    have hchild := h.child step
    unfold Raw.find
    cases hraw : raw.child step with
    | none =>
      rw [hraw] at hchild
      cases hprinted : printed.child step with
      | none => exact .none
      | some below =>
        rw [hprinted] at hchild
        nomatch hchild
    | some below =>
      rw [hraw] at hchild
      cases hprinted : printed.child step with
      | none =>
        rw [hprinted] at hchild
        nomatch hchild
      | some printed' =>
        rw [hprinted] at hchild
        cases hchild with
        | some hbelow => exact ih hbelow

/-- A node keeps what it is, unless it is a number that reading and printing changes. -/
theorem Reprinted.node_iff {raw printed : Raw} (h : floats.Reprinted raw printed) :
    raw.node = printed.node ↔ ∀ literal, raw = .number literal → floats.Exact literal := by
  obtain ⟨value, hreads, rfl⟩ := h
  obtain ⟨read, hread, hvalue⟩ := Option.bind_eq_some_iff.mp hreads
  cases raw with
  | number literal =>
    obtain ⟨number, hnumber, rfl⟩ := Option.map_eq_some_iff.mp hread
    obtain rfl := Option.some.inj hvalue
    constructor
    · intro hnode literal' hliteral
      obtain rfl := Raw.number.inj hliteral
      exact floats.kept_iff.mp ⟨number, hnumber, (Node.number.inj hnode).symm⟩
    · intro hexact
      obtain ⟨number', hnumber', hsame⟩ := floats.kept_iff.mpr (hexact literal rfl)
      obtain rfl := Option.some.inj (hnumber.symm.trans hnumber')
      exact congrArg Node.number hsame.symm
  | object members =>
    obtain ⟨read, -, rfl⟩ := Option.map_eq_some_iff.mp hread
    obtain ⟨table, -, rfl⟩ := Option.map_eq_some_iff.mp hvalue
    exact ⟨fun _ _ hliteral => (nomatch hliteral), fun _ => rfl⟩
  | array items =>
    obtain ⟨read, -, rfl⟩ := Option.map_eq_some_iff.mp hread
    obtain ⟨values, -, rfl⟩ := Option.map_eq_some_iff.mp hvalue
    exact ⟨fun _ _ hliteral => (nomatch hliteral), fun _ => rfl⟩
  | null | bool | string =>
    obtain rfl := Option.some.inj hread
    obtain rfl := Option.some.inj hvalue
    exact ⟨fun _ _ hliteral => (nomatch hliteral), fun _ => rfl⟩

/-- The same place holds the same node, unless the literal there is changed. -/
theorem Reprinted.nodeAt_iff {raw printed : Raw} (h : floats.Reprinted raw printed)
    (path : List Step) : raw.nodeAt path = printed.nodeAt path ↔
      ∀ literal, raw.find path = some (.number literal) → floats.Exact literal := by
  have hfind := h.find path
  unfold Raw.nodeAt
  generalize raw.find path = below at hfind
  generalize printed.find path = printed' at hfind
  cases hfind with
  | none => exact ⟨fun _ _ hliteral => (nomatch hliteral), fun _ => rfl⟩
  | some hbelow =>
    rw [Option.map_some, Option.map_some, Option.some.injEq, hbelow.node_iff]
    exact forall_congr' fun literal => by rw [Option.some.injEq]

end FloatText

end Json
