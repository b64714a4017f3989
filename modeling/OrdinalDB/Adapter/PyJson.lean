import OrdinalDB.Store.JsonTexts

/-!
# Python values as JSON

`_json_dumps` of `adapters/_common.py` on the values that a metadata dict may hold, and the
numbers that `json.loads` makes of a text. `asLoaded` is the tree of a value that `json.loads`
can return. A dict that is written comes back equal exactly when it is `plain`: it has string
keys and no tuples, and no string spells a character as two surrogates (`asLoaded_of_plain`,
`plain_of_asLoaded`).
-/

namespace OrdinalDB.Adapter

open Json Store

/-! ## Numbers -/

/-- The longest run of digits that Python converts to an `int`, or writes of one. -/
def maxStrDigits : Nat := 4300

/-- A number of Python: an `int` of any size or a finite `float`. -/
inductive PyNumber
  | int (n : Int)
  | float (double : Double)
deriving DecidableEq, Repr

namespace PyNumber

variable (floats : FloatText)

def toRat : PyNumber → ℚ
  | .int n => n
  | .float double => double.toRat

/-- What `json.loads` makes of a number. -/
def read : Literal → Option PyNumber
  | .int negative magnitude =>
    if magnitude < 10 ^ maxStrDigits then
      some (.int (if negative then -magnitude else magnitude))
    else none
  | .decimal negative mantissa exponent =>
    (floats.parse (.decimal negative mantissa exponent)).map .float

/-- What `json.dumps` makes of a number that is not too long. -/
def print : PyNumber → Literal
  | .int n => .int (decide (n < 0)) n.natAbs
  | .float double => floats.printDouble double

def isShort : PyNumber → Bool
  | .int n => n.natAbs < 10 ^ maxStrDigits
  | .float _ => true

variable {floats}

/-- A number that is written is read back. -/
theorem read_print {n : PyNumber} (h : n.isShort) : read floats (n.print floats) = some n := by
  cases n with
  | int n =>
    have hshort : n.natAbs < 10 ^ maxStrDigits := by simpa [isShort] using h
    rw [print, read, if_pos hshort]
    by_cases hnegative : n < 0
    · rw [if_pos (decide_eq_true hnegative), Int.ofNat_natAbs_of_nonpos hnegative.le, neg_neg]
    · rw [if_neg (by simpa using hnegative), Int.natAbs_of_nonneg (not_lt.mp hnegative)]
  | float double =>
    rw [print, FloatText.printDouble, read, floats.parse_print, Option.map_some]

theorem toRat_int (negative : Bool) (magnitude : Nat) :
    (int (if negative then -magnitude else magnitude)).toRat =
      (Literal.int negative magnitude).value := by
  cases negative <;> simp [toRat, Literal.value, signed]

/-- Rust and Python find the same number exactly in the alike literals. -/
theorem toRat_eq_iff {literal : Literal} {number : Number} {n : PyNumber}
    (hnumber : floats.read literal = some number) (hn : read floats literal = some n) :
    number.toRat = n.toRat ↔ floats.Alike literal := by
  cases literal with
  | decimal negative mantissa exponent =>
    obtain ⟨double, hdouble, rfl⟩ := Option.map_eq_some_iff.mp hnumber
    obtain ⟨double', hdouble', rfl⟩ := Option.map_eq_some_iff.mp hn
    obtain rfl := Option.some.inj (hdouble.symm.trans hdouble')
    exact ⟨fun _ => trivial, fun _ => rfl⟩
  | int negative magnitude =>
    rw [read, Option.ite_none_right_eq_some, Option.some.injEq] at hn
    obtain ⟨-, rfl⟩ := hn
    rw [toRat_int]
    by_cases hinteger : FloatText.IsMachineInteger (.int negative magnitude)
    · obtain ⟨number', hnumber', hexact⟩ := floats.toRat_read hinteger
      obtain rfl := Option.some.inj (hnumber.symm.trans hnumber')
      exact ⟨fun _ => .inl hinteger, fun _ => hexact⟩
    · rw [floats.read_of_not_isMachineInteger hinteger] at hnumber
      obtain ⟨double, hdouble, rfl⟩ := Option.map_eq_some_iff.mp hnumber
      constructor
      · intro hexact
        exact .inr ⟨double, hdouble, hexact⟩
      · rintro (hmachine | ⟨double', hdouble', hexact⟩)
        · exact absurd hmachine hinteger
        · obtain rfl := Option.some.inj (hdouble.symm.trans hdouble')
          exact hexact

/-- An alike literal is short enough for Python. -/
theorem isSome_read {literal : Literal} (halike : floats.Alike literal)
    (hrust : (floats.read literal).isSome) : (read floats literal).isSome := by
  cases literal with
  | decimal negative mantissa exponent =>
    rwa [FloatText.read, FloatText.readDouble, Option.isSome_map, ← Option.isSome_map] at hrust
  | int negative magnitude =>
    have hlimit : ∀ k ≤ maxStrDigits, k ≠ 0 → 2 ^ k < 10 ^ maxStrDigits := fun k hk hpositive =>
      (Nat.pow_lt_pow_left (by norm_num) hpositive).trans_le
        (Nat.pow_le_pow_right (by norm_num) hk)
    have hwords : ∀ k ≤ maxDoubleExponent, 2 ^ k ≤ 2 ^ maxDoubleExponent := fun k hk =>
      pow_le_pow_right₀ one_le_two hk
    have hsmall : magnitude < 2 ^ maxDoubleExponent := by
      rcases halike with hmachine | ⟨double, -, hexact⟩
      · cases negative with
        | false =>
          have hfits : magnitude < 2 ^ 64 := hmachine
          exact hfits.trans_le (hwords 64 (by decide))
        | true =>
          have hfits : 0 < magnitude ∧ magnitude ≤ 2 ^ 63 := hmachine
          exact lt_of_le_of_lt hfits.2 ((Nat.pow_lt_pow_right one_lt_two (by norm_num)).trans_le
            (hwords 64 (by decide)))
      · have hbound := Double.abs_toRat_lt double
        rw [hexact, Literal.value, abs_signed _ (Nat.cast_nonneg _)] at hbound
        refine Nat.cast_lt.mp (?_ : (magnitude : ℚ) < (2 ^ maxDoubleExponent : Nat))
        rwa [Nat.cast_pow, Nat.cast_ofNat]
    simp only [read, if_pos (hsmall.trans (hlimit maxDoubleExponent (by decide) (by decide))), Option.isSome_some]

end PyNumber

/-! ## Strings -/

/-- A `str`: code points, which may be surrogates. -/
abbrev PyStr := List (Fin 0x110000)

namespace PyStr

def isHigh (c : Fin 0x110000) : Bool := 0xd800 ≤ c.val && c.val < 0xdc00

def isLow (c : Fin 0x110000) : Bool := 0xdc00 ≤ c.val && c.val < 0xe000

/-- A code point that is not a surrogate. -/
def char? (c : Fin 0x110000) : Option Char :=
  if h : c.val.isValidChar then some (.ofNatAux c h) else none

def combine (high low : Fin 0x110000) : Char :=
  .ofNat (0x10000 + (high.val - 0xd800) * 0x400 + (low.val - 0xdc00))

/-- Every character is escaped in UTF-16, so that a reader joins two surrogates that follow each
other. One that is left over is an error of `serde_json`. -/
def joined : PyStr → Option (List Char)
  | [] => some []
  | [c] => (char? c).map ([·])
  | c :: d :: rest =>
    if isHigh c && isLow d then (joined rest).map (combine c d :: ·)
    else do
      let head ← char? c
      let tail ← joined (d :: rest)
      pure (head :: tail)

/-- The string that a reader finds in what `json.dumps` writes. -/
def jsonText (text : PyStr) : Option String := (joined text).map .ofList

/-- The text of a `str` without surrogates, as every `str` is that `json.loads` returns. -/
def toText (text : PyStr) : Option String := (text.mapM char?).map .ofList

def ofChar (c : Char) : Fin 0x110000 :=
  ⟨c.toNat, c.valid.elim (fun h => h.trans (by decide)) fun h => h.2⟩

def ofText (text : String) : PyStr := text.toList.map ofChar

/-- Two code points of the text spell one character. -/
def hasPair : PyStr → Bool
  | c :: d :: rest => isHigh c && isLow d || hasPair (d :: rest)
  | _ => false

theorem char?_eq_none_of_isHigh {c : Fin 0x110000} (h : isHigh c) : char? c = none := by
  unfold isHigh at h
  refine dif_neg fun hvalid => ?_
  simp only [Nat.isValidChar, Bool.and_eq_true, decide_eq_true_eq] at h hvalid
  omega

/-- Without a pair nothing is joined. -/
theorem joined_eq {text : PyStr} (h : text.hasPair = false) : joined text = text.mapM char? := by
  fun_induction joined text with
  | case1 => rfl
  | case2 c => cases hc : char? c <;> simp [hc]
  | case3 c d rest hpair ih => simp [hasPair, hpair] at h
  | case4 c d rest hpair ih =>
    rw [hasPair, Bool.or_eq_false_iff] at h
    rw [ih h.2]
    exact List.mapM_cons.symm

theorem toText_of_jsonText {text : PyStr} {s : String} (h : text.hasPair = false)
    (htext : text.jsonText = some s) : text.toText = some s := by
  rwa [toText, ← joined_eq h]

theorem hasPair_of_toText {text : PyStr} {s : String} (h : text.toText = some s) :
    text.hasPair = false := by
  obtain ⟨chars, hchars, -⟩ := Option.map_eq_some_iff.mp h
  clear h
  induction text generalizing chars with
  | nil => rfl
  | cons c rest ih =>
    obtain ⟨head, hhead, hrest⟩ := Option.bind_eq_some_iff.mp (List.mapM_cons.symm.trans hchars)
    obtain ⟨tail, htail, -⟩ := Option.bind_eq_some_iff.mp hrest
    have hhigh : isHigh c = false := by
      by_contra hhigh
      rw [char?_eq_none_of_isHigh (Bool.eq_true_of_not_eq_false hhigh)] at hhead
      cases hhead
    cases rest with
    | nil => rfl
    | cons d rest => rw [hasPair, hhigh, Bool.false_and, Bool.false_or, ih tail htail]

theorem char?_eq_some {c : Fin 0x110000} {char : Char} :
    char? c = some char ↔ c = ofChar char := by
  unfold char?
  split
  next hvalid =>
    rw [Option.some.injEq]
    constructor
    · rintro rfl
      rfl
    · rintro rfl
      rfl
  next hvalid =>
    constructor
    · intro h
      cases h
    · rintro rfl
      exact absurd char.valid hvalid

/-- A `str` without surrogates is that of its text. -/
theorem toText_eq_some {text : PyStr} {s : String} : text.toText = some s ↔ text = ofText s := by
  have hchars : ∀ chars : List Char, text.mapM char? = some chars ↔ text = chars.map ofChar := by
    intro chars
    induction text generalizing chars with
    | nil => cases chars <;> simp
    | cons c rest ih =>
      cases chars with
      | nil => simp [List.mapM_cons, Option.bind_eq_some_iff]
      | cons head tail =>
        simp [List.mapM_cons, Option.bind_eq_some_iff, char?_eq_some, ih]
  rw [toText, Option.map_eq_some_iff, ofText]
  constructor
  · rintro ⟨chars, hread, rfl⟩
    rw [String.toList_ofList]
    exact (hchars chars).mp hread
  · intro heq
    exact ⟨s.toList, (hchars _).mpr heq, String.ofList_toList⟩

end PyStr

/-! ## Values -/

inductive DictKey
  | str (text : PyStr)
  /-- A number or a boolean, with the text that JSON has for it. -/
  | number (text : String)
  | none
  | other
deriving DecidableEq, Repr

mutual

inductive PyObject
  | none
  | bool (b : Bool)
  | number (n : PyNumber)
  | str (text : PyStr)
  | list (items : PyObjects)
  | tuple (items : PyObjects)
  | dict (items : PyDict)
  /-- A value that JSON does not have: a set, an infinite float. -/
  | other

inductive PyObjects
  | nil
  | cons (head : PyObject) (tail : PyObjects)

inductive PyDict
  | nil
  | cons (key : DictKey) (value : PyObject) (tail : PyDict)

end

instance : EmptyCollection PyDict := ⟨.nil⟩

def PyDict.keys : PyDict → List DictKey
  | .nil => []
  | .cons key _ tail => key :: tail.keys

/-! ## Writing -/

def DictKey.isStr : DictKey → Bool
  | .str _ => true
  | _ => false

def DictKey.isNumber : DictKey → Bool
  | .number _ => true
  | _ => false

/-- `sort_keys` compares strings with strings and numbers with numbers. -/
def sortable (keys : List DictKey) : Bool :=
  keys.length ≤ 1 || keys.all DictKey.isStr || keys.all DictKey.isNumber

/-- The member name that JSON has for a key. -/
def DictKey.dumps : DictKey → Option String
  | .str text => text.jsonText
  | .number text => some text
  | .none => some "null"
  | .other => .none

mutual

/-- The tree that a reader finds in the text that `_json_dumps` writes; its members are in the
order of their names. An error of the reader, as two members of one name are, is an error here. -/
def PyObject.dumps : PyObject → Option (Value PyNumber)
  | .none => some .null
  | .bool b => some (.bool b)
  | .number n => if n.isShort then some (.number n) else .none
  | .str text => text.jsonText.map .string
  | .list items => items.dumps.map .array
  | .tuple items => items.dumps.map .array
  | .dict items => if sortable items.keys then items.dumps.map .ofTable else .none
  | .other => .none

def PyObjects.dumps : PyObjects → Option (Items PyNumber)
  | .nil => some .nil
  | .cons head tail => do
    let head ← head.dumps
    let tail ← tail.dumps
    pure (.cons head tail)

def PyDict.dumps : PyDict → Option (Table String (Value PyNumber))
  | .nil => some ∅
  | .cons key value tail => do
    let key ← key.dumps
    let value ← value.dumps
    let tail ← tail.dumps
    if key ∈ tail then .none else pure (tail.insert key value)

end

/-! ## Reading back -/

mutual

/-- The tree of a value that `json.loads` can return; a dict is the map of its members. -/
def PyObject.asLoaded : PyObject → Option (Value PyNumber)
  | .none => some .null
  | .bool b => some (.bool b)
  | .number n => some (.number n)
  | .str text => text.toText.map .string
  | .list items => items.asLoaded.map .array
  | .tuple _ => .none
  | .dict items => items.asLoaded.map .ofTable
  | .other => .none

def PyObjects.asLoaded : PyObjects → Option (Items PyNumber)
  | .nil => some .nil
  | .cons head tail => do
    let head ← head.asLoaded
    let tail ← tail.asLoaded
    pure (.cons head tail)

def PyDict.asLoaded : PyDict → Option (Table String (Value PyNumber))
  | .nil => some ∅
  | .cons (.str key) value tail => do
    let key ← key.toText
    let value ← value.asLoaded
    let tail ← tail.asLoaded
    if key ∈ tail then .none else pure (tail.insert key value)
  | .cons _ _ _ => .none

end

def DictKey.plain : DictKey → Bool
  | .str text => !text.hasPair
  | _ => false

mutual

/-- All keys are strings, there are no tuples, and no string has a pair of surrogates. -/
def PyObject.plain : PyObject → Bool
  | .str text => !text.hasPair
  | .list items => items.plain
  | .tuple _ => false
  | .dict items => items.plain
  | .other => false
  | _ => true

def PyObjects.plain : PyObjects → Bool
  | .nil => true
  | .cons head tail => head.plain && tail.plain

def PyDict.plain : PyDict → Bool
  | .nil => true
  | .cons key value tail => key.plain && value.plain && tail.plain

end

mutual

/-- What is written of a plain value is what is read of it. -/
theorem PyObject.asLoaded_of_plain {x : PyObject} {value : Value PyNumber} (hplain : x.plain)
    (h : x.dumps = some value) : x.asLoaded = some value := by
  cases x with
  | none => exact h
  | bool b => exact h
  | number n =>
    obtain ⟨-, hvalue⟩ := Option.ite_none_right_eq_some.mp h
    exact hvalue
  | str text =>
    obtain ⟨s, hs, rfl⟩ := Option.map_eq_some_iff.mp h
    have hpair : text.hasPair = false := by simpa [PyObject.plain] using hplain
    rw [PyObject.asLoaded, PyStr.toText_of_jsonText hpair hs, Option.map_some]
  | list items =>
    obtain ⟨written, hitems, rfl⟩ := Option.map_eq_some_iff.mp h
    exact Option.map_eq_some_iff.mpr ⟨written, items.asLoaded_of_plain hplain hitems, rfl⟩
  | tuple items => cases hplain
  | dict items =>
    obtain ⟨-, hdumps⟩ := Option.ite_none_right_eq_some.mp h
    obtain ⟨written, hitems, rfl⟩ := Option.map_eq_some_iff.mp hdumps
    exact Option.map_eq_some_iff.mpr ⟨written, items.asLoaded_of_plain hplain hitems, rfl⟩
  | other => cases hplain

theorem PyObjects.asLoaded_of_plain (x : PyObjects) {items : Items PyNumber} (hplain : x.plain)
    (h : x.dumps = some items) : x.asLoaded = some items := by
  cases x with
  | nil => exact h
  | cons head tail =>
    obtain ⟨hhead, htail⟩ := Bool.and_eq_true_iff.mp hplain
    simp only [PyObjects.dumps, Option.bind_eq_bind, Option.bind_eq_some_iff, Option.pure_def,
      Option.some.injEq] at h
    obtain ⟨value, hvalue, rest, hrest, rfl⟩ := h
    simp only [PyObjects.asLoaded, PyObject.asLoaded_of_plain hhead hvalue,
      tail.asLoaded_of_plain htail hrest, Option.bind_eq_bind, Option.bind_some, Option.pure_def]

theorem PyDict.asLoaded_of_plain (x : PyDict)
    {members : Table String (Value PyNumber)} (hplain : x.plain)
    (h : x.dumps = some members) : x.asLoaded = some members := by
  cases x with
  | nil => exact h
  | cons key value tail =>
    obtain ⟨hhead, htail⟩ := Bool.and_eq_true_iff.mp hplain
    obtain ⟨hkey, hvalue⟩ := Bool.and_eq_true_iff.mp hhead
    simp only [PyDict.dumps, Option.bind_eq_bind, Option.bind_eq_some_iff] at h
    obtain ⟨name, hname, written, hwritten, rest, hrest, h⟩ := h
    cases key with
    | str text =>
      have hpair : text.hasPair = false := by simpa [DictKey.plain] using hkey
      simp only [PyDict.asLoaded, PyStr.toText_of_jsonText hpair hname, PyObject.asLoaded_of_plain hvalue hwritten,
        tail.asLoaded_of_plain htail hrest, Option.bind_eq_bind, Option.bind_some]
      exact h
    | number | none | other => cases hkey

end

mutual

theorem PyObject.plain_of_asLoaded {x : PyObject} {value : Value PyNumber} (h : x.asLoaded = some value) :
    x.plain := by
  cases x with
  | none => rfl
  | bool b => rfl
  | number n => rfl
  | str text =>
    obtain ⟨s, hs, -⟩ := Option.map_eq_some_iff.mp h
    simp [PyObject.plain, PyStr.hasPair_of_toText hs]
  | list items =>
    obtain ⟨read, hitems, -⟩ := Option.map_eq_some_iff.mp h
    exact items.plain_of_asLoaded hitems
  | tuple items => cases h
  | dict items =>
    obtain ⟨read, hitems, -⟩ := Option.map_eq_some_iff.mp h
    exact items.plain_of_asLoaded hitems
  | other => cases h

theorem PyObjects.plain_of_asLoaded (x : PyObjects) {items : Items PyNumber} (h : x.asLoaded = some items) :
    x.plain := by
  cases x with
  | nil => rfl
  | cons head tail =>
    simp only [PyObjects.asLoaded, Option.bind_eq_bind, Option.bind_eq_some_iff] at h
    obtain ⟨value, hvalue, rest, hrest, -⟩ := h
    exact Bool.and_eq_true_iff.mpr
      ⟨PyObject.plain_of_asLoaded hvalue, tail.plain_of_asLoaded hrest⟩

theorem PyDict.plain_of_asLoaded (x : PyDict)
    {members : Table String (Value PyNumber)} (h : x.asLoaded = some members) :
    x.plain := by
  cases x with
  | nil => rfl
  | cons key value tail =>
    cases key with
    | str text =>
      simp only [PyDict.asLoaded, Option.bind_eq_bind, Option.bind_eq_some_iff] at h
      obtain ⟨name, hname, read, hread, rest, hrest, -⟩ := h
      simp [PyDict.plain, DictKey.plain, PyStr.hasPair_of_toText hname,
        PyObject.plain_of_asLoaded hread, tail.plain_of_asLoaded hrest]
    | number text => cases h
    | none => cases h
    | other => cases h

end

mutual

/-- The trees that are written have sorted and distinct members. -/
theorem PyObject.canonical_dumps {x : PyObject} {value : Value PyNumber} (h : x.dumps = some value) :
    value.Canonical := by
  cases x with
  | none => obtain rfl := Option.some.inj h; rfl
  | bool b => obtain rfl := Option.some.inj h; rfl
  | number n =>
    obtain ⟨-, hvalue⟩ := Option.ite_none_right_eq_some.mp h
    obtain rfl := Option.some.inj hvalue
    rfl
  | str text =>
    obtain ⟨s, -, rfl⟩ := Option.map_eq_some_iff.mp h
    rfl
  | list items =>
    obtain ⟨written, hitems, rfl⟩ := Option.map_eq_some_iff.mp h
    exact congrArg (Option.map Value.array) (items.distinct_dumps hitems)
  | tuple items =>
    obtain ⟨written, hitems, rfl⟩ := Option.map_eq_some_iff.mp h
    exact congrArg (Option.map Value.array) (items.distinct_dumps hitems)
  | dict items =>
    obtain ⟨-, hdumps⟩ := Option.ite_none_right_eq_some.mp h
    obtain ⟨written, hitems, rfl⟩ := Option.map_eq_some_iff.mp hdumps
    exact Value.canonical_ofTable fun key value => items.canonical_dumps hitems key value
  | other => cases h

theorem PyObjects.distinct_dumps (x : PyObjects) {items : Items PyNumber} (h : x.dumps = some items) :
    items.distinct = some items := by
  cases x with
  | nil => obtain rfl := Option.some.inj h; rfl
  | cons head tail =>
    simp only [PyObjects.dumps, Option.bind_eq_bind, Option.bind_eq_some_iff, Option.pure_def,
      Option.some.injEq] at h
    obtain ⟨value, hvalue, rest, hrest, rfl⟩ := h
    have hhead : value.distinct = some value := PyObject.canonical_dumps hvalue
    simp only [Items.distinct, hhead, tail.distinct_dumps hrest, Option.bind_eq_bind,
      Option.bind_some, Option.pure_def]

theorem PyDict.canonical_dumps (x : PyDict)
    {members : Table String (Value PyNumber)} (h : x.dumps = some members)
    (key : String) (value : Value PyNumber) (hvalue : members[key]? = some value) : value.Canonical := by
  cases x with
  | nil =>
    obtain rfl := Option.some.inj h
    simp at hvalue
  | cons name head tail =>
    simp only [PyDict.dumps, Option.bind_eq_bind, Option.bind_eq_some_iff] at h
    obtain ⟨text, -, written, hwritten, rest, hrest, h⟩ := h
    split at h
    next => cases h
    next =>
      obtain rfl := Option.some.inj h
      by_cases hsame : key = text
      · subst hsame
        rw [Table.getElem?_insert_self] at hvalue
        exact Option.some.inj hvalue ▸ PyObject.canonical_dumps hwritten
      · rw [Table.getElem?_insert_of_ne hsame] at hvalue
        exact tail.canonical_dumps hrest key value hvalue

end

mutual

/-- The numbers that are written are short. -/
theorem PyObject.numbers_dumps {x : PyObject} {value : Value PyNumber}
    (h : x.dumps = some value) : ∀ n ∈ value.numbers, n.isShort := by
  cases x with
  | none => obtain rfl := Option.some.inj h; simp [Value.numbers]
  | bool b => obtain rfl := Option.some.inj h; simp [Value.numbers]
  | number n =>
    obtain ⟨hshort, hvalue⟩ := Option.ite_none_right_eq_some.mp h
    obtain rfl := Option.some.inj hvalue
    simpa [Value.numbers] using hshort
  | str text =>
    obtain ⟨s, -, rfl⟩ := Option.map_eq_some_iff.mp h
    simp [Value.numbers]
  | list items =>
    obtain ⟨written, hitems, rfl⟩ := Option.map_eq_some_iff.mp h
    exact items.numbers_dumps hitems
  | tuple items =>
    obtain ⟨written, hitems, rfl⟩ := Option.map_eq_some_iff.mp h
    exact items.numbers_dumps hitems
  | dict items =>
    obtain ⟨-, hdumps⟩ := Option.ite_none_right_eq_some.mp h
    obtain ⟨written, hitems, rfl⟩ := Option.map_eq_some_iff.mp hdumps
    intro n hn
    obtain ⟨key, value, hvalue, hn⟩ := mem_numbers_ofTable.mp hn
    exact items.numbers_dumps hitems key value hvalue n hn
  | other => cases h

theorem PyObjects.numbers_dumps (x : PyObjects) {items : Items PyNumber}
    (h : x.dumps = some items) : ∀ n ∈ items.numbers, n.isShort := by
  cases x with
  | nil => obtain rfl := Option.some.inj h; simp [Items.numbers]
  | cons head tail =>
    simp only [PyObjects.dumps, Option.bind_eq_bind, Option.bind_eq_some_iff, Option.pure_def,
      Option.some.injEq] at h
    obtain ⟨value, hvalue, rest, hrest, rfl⟩ := h
    exact List.forall_mem_append.mpr
      ⟨PyObject.numbers_dumps hvalue, tail.numbers_dumps hrest⟩

theorem PyDict.numbers_dumps (x : PyDict) {members : Table String (Value PyNumber)}
    (h : x.dumps = some members) (key : String) (value : Value PyNumber)
    (hvalue : members[key]? = some value) : ∀ n ∈ value.numbers, n.isShort := by
  cases x with
  | nil =>
    obtain rfl := Option.some.inj h
    simp at hvalue
  | cons name head tail =>
    simp only [PyDict.dumps, Option.bind_eq_bind, Option.bind_eq_some_iff] at h
    obtain ⟨text, -, written, hwritten, rest, hrest, h⟩ := h
    split at h
    next => cases h
    next =>
      obtain rfl := Option.some.inj h
      by_cases hsame : key = text
      · subst hsame
        rw [Table.getElem?_insert_self] at hvalue
        exact Option.some.inj hvalue ▸ PyObject.numbers_dumps hwritten
      · rw [Table.getElem?_insert_of_ne hsame] at hvalue
        exact tail.numbers_dumps hrest key value hvalue

end

end OrdinalDB.Adapter
