import OrdinalDB.Adapter.PyJson
import OrdinalDB.Store.Snapshots
import OrdinalDB.Store.VerifiedRows

/-!
# The id map in Python

`_parse_id_map` and `_slot_map_from_u64_to_slot` of `adapters/_common.py` next
to the Rust parser of the same text. The two readers agree, and lose no entry,
exactly when the keys of `u64_to_slot` are `PlainKeys` (`idMap_agrees_iff`):
Rust takes a leading `+`, which Python refuses, Python refuses to convert more
than 4300 digits, and both collapse spellings that differ in leading zeros.
-/

namespace OrdinalDB.Adapter

open Json Text Store

variable {Text N : Type}

/-! ## Python values -/

/-- `json.loads` with the hook that refuses repeated keys, on a top-level object. Where it is used
both readers ask for a `u64` in place of every number, so that the numbers of `serde_json` do. -/
def loadsObject (codec : JsonCodec Text) (text : Text) : Option Members := do
  let raw ← codec.read text
  guard raw.distinct.isSome
  match raw with
  | .object members => some members
  | _ => none

/-- A member of a dict. -/
def getItem (members : Members N) (key : String) : Option (Value N) :=
  (members.toList.find? (·.1 = key)).map Prod.snd

def requireExactKeys (members : Members N) (expected : List String) : Bool :=
  members.toList.all (·.1 ∈ expected) && expected.all fun key => (getItem members key).isSome

def requireMapping : Value N → Option (Members N)
  | .object members => some members
  | _ => none

def requireU64Key (key : String) : Option Nat := do
  guard (key ≠ "")
  let digits ← key.toList.mapM decimalValue
  guard (digits.length ≤ maxStrDigits)
  (some (digits.foldl (fun value digit => 10 * value + digit) 0)).filter (· < u64Bound)

/-! ## The id map -/

structure IdMap where
  stringToU64 : Table String Nat
  u64ToSlot : Table Nat Nat
  nextU64Id : Nat

/-- A dict from the items of another one; a later item wins. -/
def dictItems {K V : Type} [Ord K] [Std.TransOrd K] (item : String → Value N → Option (K × V))
    (members : Members N) : Option (Table K V) :=
  (members.toList.mapM fun (key, value) => item key value).map
    fun rows => (∅ : Table K V).insertMany rows

def slotItem (key : String) (value : Value) : Option (Nat × Nat) := do
  let u64 ← requireU64Key key
  let slot ← asU64 value
  pure (u64, slot)

/-- Integers beyond `u64` are floats of the tree, which `asU64` refuses. -/
def parseIdMap (payload : Members) : Option IdMap := do
  guard (requireExactKeys payload ["schema_version", "next_u64_id", "string_to_u64", "u64_to_slot"])
  guard (getItem payload "schema_version" = some (.string "ordinaldb.adapter.id_map.v1"))
  pure {
    stringToU64 := ← ((getItem payload "string_to_u64").bind requireMapping).bind
      (dictItems (withStringId asU64))
    u64ToSlot := ← ((getItem payload "u64_to_slot").bind requireMapping).bind (dictItems slotItem)
    nextU64Id := ← (getItem payload "next_u64_id").bind asU64 }

/-- One turn of the loop over the items. -/
def placeSlot (slots : List (Option Nat)) (item : Nat × Nat) : Option (List (Option Nat)) :=
  if slots[item.2]? = some none then some (slots.set item.2 (some item.1)) else none

def slotMapFromU64ToSlot (mapping : Table Nat Nat) (indexLen : Nat) : Option (List Nat) := do
  let slots ← mapping.toList.foldlM placeSlot (List.replicate indexLen none)
  slots.mapM id

/-! ## Reading keys -/

/-- The keys of `u64_to_slot`. -/
def slotKeys (codec : JsonCodec Text) (idMapJson : Text) : List String :=
  (((parseJsonObject codec idMapJson).bind Value.asObject).bind
    (requiredObject · "u64_to_slot")).elim [] (·.keys)

/-- No key has a sign or too many digits, and no two differ only in leading zeros. -/
def PlainKeys (keys : List String) : Prop :=
  (∀ key ∈ keys, key.toList.head? ≠ some '+' ∧ key.toList.length ≤ maxStrDigits) ∧
    (keys.map fun key => stripZeros key.toList).Nodup

theorem decimalValue_plus : decimalValue '+' = none := by decide

/-- Python reads a run of ASCII digits as Rust does, up to its limit. -/
theorem requireU64Key_digits {key : String} {n : Nat}
    (h : parseDecimal u64Bound key.toList = some n) :
    requireU64Key key = if key.toList.length ≤ maxStrDigits then some n else none := by
  unfold parseDecimal at h
  split at h
  next => cases h
  next hdigits =>
    simp only [not_or, not_not, List.all_eq_true] at hdigits
    obtain ⟨hne, hascii⟩ := hdigits
    split at h
    next hbound =>
      obtain rfl := Option.some.inj h
      have hvalues : key.toList.mapM decimalValue =
          some (key.toList.map fun c => c.toNat - '0'.toNat) :=
        Table.mapM_of_forall fun c hc => decimalValue_digit (hascii c hc)
      have hkey : key ≠ "" := by
        rintro rfl
        exact hne rfl
      have hfold : (key.toList.map fun c => c.toNat - '0'.toNat).foldl
          (fun value digit => 10 * value + digit) 0 = Nat.ofDigitChars 10 key.toList 0 := by
        rw [List.foldl_map, Nat.ofDigitChars_eq_foldl]
      by_cases hlength : key.toList.length ≤ maxStrDigits <;>
        simp only [requireU64Key, hkey, hvalues, hfold, hbound, hlength, List.length_map, guard,
          ne_eq, not_false_eq_true, if_true, if_false, Option.bind_eq_bind, Option.bind_some,
          Option.pure_def, Option.failure_eq_none, Option.bind_none, Option.filter_some,
          decide_true]
    next => cases h

/-- What Rust reads as an id, Python reads as the same one unless the key has a sign or too many
digits. -/
theorem requireU64Key_of_parseU64 {key : String} {n : Nat} (h : parseU64 key = some n) :
    requireU64Key key =
      if key.toList.head? ≠ some '+' ∧ key.toList.length ≤ maxStrDigits then some n else none := by
  unfold parseU64 at h
  split at h
  next digits htext =>
    have hdigits : key.toList.mapM decimalValue = none := by
      rw [htext, List.mapM_cons, decimalValue_plus]
      rfl
    unfold requireU64Key
    rw [hdigits]
    simp [htext, guard]
  next hsign =>
    have hhead : key.toList.head? ≠ some '+' := by
      intro hhead
      obtain ⟨rest, hrest⟩ := List.head?_eq_some_iff.mp hhead
      exact hsign rest hrest
    rw [requireU64Key_digits h]
    simp [hhead]

/-! ## The same members -/

theorem getItem_eq_some {members : Members N} {object : Object N}
    (h : members.distinct = some object) {key : String} {raw : Value N} :
    getItem members key = some raw ↔ (key, raw) ∈ members.toList := by
  have hnodup := (Members.distinct_eq_some h).1
  unfold getItem
  constructor
  · intro hget
    obtain ⟨entry, hentry, rfl⟩ := Option.map_eq_some_iff.mp hget
    have hkey : entry.1 = key := by simpa using List.find?_some hentry
    exact hkey ▸ List.mem_of_find?_eq_some hentry
  · intro hraw
    cases hfound : members.toList.find? (·.1 = key) with
    | none =>
      have := List.find?_eq_none.mp hfound _ hraw
      simp at this
    | some entry =>
      have hkey : entry.1 = key := by simpa using List.find?_some hfound
      have hentry := List.mem_of_find?_eq_some hfound
      have := List.inj_on_of_nodup_map hnodup hentry hraw hkey
      rw [this]
      rfl

/-- A member of the map is what the member of the dict is read as. -/
theorem getElem?_eq_some {members : Members N} {object : Object N}
    (h : members.distinct = some object) {key : String} {value : Value N}
    (hvalue : object[key]? = some value) :
    ∃ raw, getItem members key = some raw ∧ raw.distinct = some value := by
  obtain ⟨raw, hraw, hread⟩ := ((Members.distinct_eq_some h).2 key value).mp hvalue
  exact ⟨raw, (getItem_eq_some h).mpr hraw, hread⟩

theorem mem_iff_getItem {members : Members N} {object : Object N}
    (h : members.distinct = some object) {key : String} :
    key ∈ object ↔ key ∈ members.toList.map Prod.fst := by
  rw [List.mem_map]
  constructor
  · intro hkey
    obtain ⟨value, hvalue⟩ := Option.isSome_iff_exists.mp
      (Std.ExtTreeMap.mem_iff_isSome_getElem?.mp hkey)
    obtain ⟨raw, hraw, -⟩ := ((Members.distinct_eq_some h).2 key value).mp hvalue
    exact ⟨(key, raw), hraw, rfl⟩
  · rintro ⟨⟨_, raw⟩, hraw, rfl⟩
    obtain ⟨value, hvalue⟩ := Members.distinct_member h hraw
    exact Std.ExtTreeMap.mem_iff_isSome_getElem?.mpr (Option.isSome_of_eq_some
      (((Members.distinct_eq_some h).2 _ value).mpr ⟨raw, hraw, hvalue⟩))

theorem requireExactKeys_of_object {members : Members N} {object : Object N}
    (h : members.distinct = some object) {expected : List String}
    (hkeys : Store.requireExactKeys object expected) : requireExactKeys members expected := by
  rw [requireExactKeys_iff] at hkeys
  simp only [requireExactKeys, Bool.and_eq_true, List.all_eq_true, decide_eq_true_eq]
  constructor
  · intro entry hentry
    exact (hkeys entry.1).mp ((mem_iff_getItem h).mpr (List.mem_map_of_mem hentry))
  · intro key hkey
    obtain ⟨⟨_, raw⟩, hraw, rfl⟩ := List.mem_map.mp
      ((mem_iff_getItem h).mp ((hkeys key).mpr hkey))
    rw [(getItem_eq_some h).mpr hraw]
    rfl

/-- Reading as a map leaves scalars alone. -/
theorem asU64_distinct {raw value : Value} (h : raw.distinct = some value) :
    asU64 raw = asU64 value := by
  cases raw with
  | array items =>
    obtain ⟨_, -, rfl⟩ := Option.map_eq_some_iff.mp h
    rfl
  | object members =>
    obtain ⟨_, -, rfl⟩ := Option.map_eq_some_iff.mp h
    rfl
  | null | bool | number | string =>
    obtain rfl := Option.some.inj h
    rfl

theorem string_distinct {raw : Value N} {s : String} (h : raw.distinct = some (.string s)) :
    raw = .string s := by
  cases raw with
  | array items =>
    obtain ⟨_, -, heq⟩ := Option.map_eq_some_iff.mp h
    cases heq
  | object members =>
    obtain ⟨_, -, heq⟩ := Option.map_eq_some_iff.mp h
    cases heq
  | null | bool | number | string => exact Option.some.inj h

theorem requireMapping_distinct {raw value : Value N} {object : Object N}
    (h : raw.distinct = some value) (hobject : value.asObject = some object) :
    ∃ members, requireMapping raw = some members ∧ members.distinct = some object := by
  cases raw with
  | object members =>
    obtain ⟨read, hread, rfl⟩ := Option.map_eq_some_iff.mp h
    rw [Value.asObject_ofTable] at hobject
    obtain rfl := Option.some.inj hobject
    exact ⟨members, rfl, hread⟩
  | array items =>
    obtain ⟨_, -, rfl⟩ := Option.map_eq_some_iff.mp h
    cases hobject
  | null | bool | number | string =>
    obtain rfl := Option.some.inj h
    cases hobject

/-- The members of a dict are the rows of the map, in another order. -/
theorem perm_toList {members : Members N} {object : Object N}
    (h : members.distinct = some object) :
    (members.toList.map fun entry => (entry.1, entry.2.distinct.getD .null)).Perm
      object.toList := by
  obtain ⟨hnodup, hlookup⟩ := Members.distinct_eq_some h
  have hkeys : ((members.toList.map fun entry =>
      (entry.1, entry.2.distinct.getD .null)).map Prod.fst).Nodup := by
    rw [List.map_map]
    exact hnodup
  refine (List.perm_ext_iff_of_nodup hkeys.of_map (Table.nodup_keys_toList object).of_map).mpr ?_
  rintro ⟨key, value⟩
  rw [Std.ExtTreeMap.mem_toList_iff_getElem?_eq_some, hlookup, List.mem_map]
  constructor
  · rintro ⟨⟨_, raw⟩, hraw, heq⟩
    obtain ⟨rfl, rfl⟩ := Prod.mk.inj heq
    obtain ⟨value, hvalue⟩ := Members.distinct_member h hraw
    exact ⟨raw, hraw, by rw [hvalue]; rfl⟩
  · rintro ⟨raw, hraw, hvalue⟩
    exact ⟨(key, raw), hraw, by rw [hvalue]; rfl⟩

/-- A dict comprehension builds the table that Rust builds, when the items are the same and
their keys distinct. -/
theorem dictItems_eq {K V : Type} [Ord K] [Std.TransOrd K] [Std.LawfulEqOrd K]
    {members : Members N} {object : Object N} {item entry : String → Value N → Option (K × V)}
    (h : members.distinct = some object)
    (hitem : ∀ key raw value, (key, raw) ∈ members.toList → raw.distinct = some value →
      item key raw = entry key value)
    {rows : List (K × V)} (hrows : object.toList.mapM (fun row => entry row.1 row.2) = some rows)
    (hnodup : (rows.map Prod.fst).Nodup) :
    dictItems item members = some ((∅ : Table K V).insertMany rows) := by
  let canonical := members.toList.map fun entry => (entry.1, entry.2.distinct.getD .null)
  have hperm : canonical.Perm object.toList := perm_toList h
  have hsome : ∀ row ∈ canonical, (entry row.1 row.2).isSome := fun row hrow =>
    Table.isSome_of_mapM hrows row (hperm.mem_iff.mp hrow)
  have hsame : members.toList.map (fun row => item row.1 row.2) =
      canonical.map fun row => entry row.1 row.2 := by
    rw [List.map_map]
    refine List.map_congr_left fun row hrow => ?_
    obtain ⟨value, hvalue⟩ := Members.distinct_member h hrow
    rw [hitem row.1 row.2 value hrow hvalue]
    simp [hvalue]
  have hread : members.toList.mapM (fun row => item row.1 row.2) =
      some (canonical.filterMap fun row => entry row.1 row.2) := by
    rw [Table.mapM_eq_some, hsame, ← Table.mapM_eq_some]
    exact Table.mapM_of_isSome hsome
  have hfilter : (canonical.filterMap fun row => entry row.1 row.2).Perm rows := by
    rw [← Table.filterMap_of_mapM hrows]
    exact hperm.filterMap _
  show (members.toList.mapM fun row => item row.1 row.2).map _ = _
  rw [hread, Option.map_some,
    Table.ofList_perm hfilter ((hfilter.map Prod.fst).nodup_iff.mpr hnodup)]

/-! ## Slots -/

/-- Placing items with distinct slots fills these slots and no other. -/
theorem foldlM_placeSlot {items : List (Nat × Nat)} (slots : List (Option Nat))
    (hnodup : (items.map Prod.snd).Nodup) (hfree : ∀ item ∈ items, slots[item.2]? = some none) :
    ∃ filled, items.foldlM placeSlot slots = some filled ∧ filled.length = slots.length ∧
      (∀ item ∈ items, filled[item.2]? = some (some item.1)) ∧
      ∀ slot, slot ∉ items.map Prod.snd → filled[slot]? = slots[slot]? := by
  induction items generalizing slots with
  | nil => exact ⟨slots, rfl, rfl, fun item hitem => (nomatch hitem), fun _ _ => rfl⟩
  | cons item items ih =>
    obtain ⟨hnew, hrest⟩ := List.nodup_cons.mp hnodup
    have hslot := hfree item List.mem_cons_self
    have hbound : item.2 < slots.length := (List.getElem?_eq_some_iff.mp hslot).1
    obtain ⟨filled, hfilled, hlength, hitems, hothers⟩ :=
      ih (slots.set item.2 (some item.1)) hrest fun other hother => by
        have hne : item.2 ≠ other.2 := fun h => hnew (h ▸ List.mem_map_of_mem hother)
        rw [List.getElem?_set_ne hne]
        exact hfree other (List.mem_cons_of_mem _ hother)
    refine ⟨filled, ?_, by rw [hlength, List.length_set], fun other hother => ?_,
      fun slot hslot' => ?_⟩
    · rw [List.foldlM_cons, placeSlot, if_pos hslot]
      exact hfilled
    · rcases List.mem_cons.mp hother with rfl | hother
      · rw [hothers other.2 hnew, List.getElem?_set_self hbound]
      · exact hitems other hother
    · obtain ⟨hne, hslot'⟩ := not_or.mp (mt List.mem_cons.mpr hslot')
      rw [hothers slot hslot', List.getElem?_set_ne (Ne.symm hne)]

/-- A bijection onto the rows of the index is turned around. -/
theorem slotMap_eq_some {mapping : Table Nat Nat} {indexLen : Nat}
    (hnodup : (mapping.toList.map Prod.snd).Nodup)
    (hbound : ∀ item ∈ mapping.toList, item.2 < indexLen) (hsize : mapping.size = indexLen) :
    ∃ slots, slotMapFromU64ToSlot mapping indexLen = some slots ∧ slots.length = indexLen ∧
      ∀ item ∈ mapping.toList, slots[item.2]? = some item.1 := by
  obtain ⟨filled, hfilled, hlength, hitems, -⟩ :=
    foldlM_placeSlot (List.replicate indexLen none) hnodup fun item hitem => by
      simp [hbound item hitem]
  rw [List.length_replicate] at hlength
  have hcover : List.range indexLen ⊆ mapping.toList.map Prod.snd := by
    refine (Table.length_eq_iff_subset hnodup List.nodup_range fun slot hslot => ?_).mp ?_
    · obtain ⟨item, hitem, rfl⟩ := List.mem_map.mp hslot
      exact List.mem_range.mpr (hbound item hitem)
    · rw [List.length_range, List.length_map, Std.ExtTreeMap.length_toList, hsize]
  have hsome : ∀ slot ∈ filled, (id slot).isSome := by
    intro slot hslot
    obtain ⟨i, hi, rfl⟩ := List.mem_iff_getElem.mp hslot
    obtain ⟨item, hitem, rfl⟩ := List.mem_map.mp (hcover (List.mem_range.mpr (hlength ▸ hi)))
    have := hitems item hitem
    rw [List.getElem?_eq_getElem hi] at this
    rw [Option.some.inj this]
    rfl
  have hread := Table.mapM_of_isSome hsome
  have hsame := Table.mapM_eq_some.mp hread
  rw [List.map_id] at hsame
  refine ⟨filled.filterMap id, ?_, ?_, fun item hitem => ?_⟩
  · unfold slotMapFromU64ToSlot
    rw [hfilled]
    exact hread
  · rw [← hlength, hsame, List.length_map, ← hsame]
  · have hplaced := hitems item hitem
    rw [hsame, List.getElem?_map] at hplaced
    obtain ⟨u64, hu64, heq⟩ := Option.map_eq_some_iff.mp hplaced
    rw [hu64, Option.some.inj heq]

/-! ## Agreement -/

/-- Python reads the maps that Rust has read, its index finds every slot, and no two keys of
`u64_to_slot` are one id. -/
def Agrees (codec : JsonCodec Text) (idMapJson : Text) (parsed : ParsedPayloads) (indexLen : Nat) :
    Prop :=
  ∃ members idMap slots, loadsObject codec idMapJson = some members ∧
    parseIdMap members = some idMap ∧
    slotMapFromU64ToSlot idMap.u64ToSlot indexLen = some slots ∧
    idMap.stringToU64 = parsed.stringToU64 ∧ idMap.u64ToSlot = parsed.u64ToSlot ∧
    ∀ a ∈ slotKeys codec idMapJson, ∀ b ∈ slotKeys codec idMapJson,
      parseU64 a = parseU64 b → a = b

theorem parseU64_plain {key : String} {n : Nat} (h : parseU64 key = some n)
    (hsign : key.toList.head? ≠ some '+') :
    (∀ c ∈ key.toList, c.isDigit) ∧ Nat.ofDigitChars 10 key.toList 0 = n := by
  unfold parseU64 at h
  split at h
  next digits htext => exact absurd (by rw [htext]; rfl) hsign
  next =>
    unfold parseDecimal at h
    split at h
    next => cases h
    next hdigits =>
      simp only [not_or, not_not, List.all_eq_true] at hdigits
      split at h
      next => exact ⟨hdigits.2, Option.some.inj h⟩
      next => cases h

/-- The ids of the keys are distinct when the keys differ in more than leading zeros. -/
theorem parseU64_injOn {keys : List String} (hparse : ∀ key ∈ keys, (parseU64 key).isSome)
    (h : PlainKeys keys) {a b : String} (ha : a ∈ keys) (hb : b ∈ keys)
    (heq : parseU64 a = parseU64 b) : a = b := by
  obtain ⟨n, hn⟩ := Option.isSome_iff_exists.mp (hparse a ha)
  obtain ⟨hdigitsA, hvalueA⟩ := parseU64_plain hn (h.1 a ha).1
  obtain ⟨hdigitsB, hvalueB⟩ := parseU64_plain (heq ▸ hn) (h.1 b hb).1
  exact List.inj_on_of_nodup_map h.2 ha hb
    ((stripZeros_eq_iff hdigitsA hdigitsB).mpr (hvalueA.trans hvalueB.symm))

theorem withStringId_key {V : Type} {read : Value N → Option V} {key : String} {value : Value N}
    {row : String × V} (h : withStringId read key value = some row) : row.1 = key := by
  unfold withStringId at h
  split at h
  next => cases h
  next =>
    obtain ⟨_, -, rfl⟩ := Option.map_eq_some_iff.mp h
    rfl

/-- Rust's reading of one member of `u64_to_slot`. -/
def slotEntry (key : String) (value : Value) : Option (Nat × Nat) := do
  let id ← parseU64 key
  let slot ← asU64 value
  pure (id, slot)

theorem slotEntry_eq_some {key : String} {value : Value} {row : Nat × Nat}
    (h : slotEntry key value = some row) :
    parseU64 key = some row.1 ∧ asU64 value = some row.2 := by
  simp only [slotEntry, Option.bind_eq_bind, Option.bind_eq_some_iff, Option.pure_def,
    Option.some.injEq] at h
  obtain ⟨id, hid, slot, hslot, rfl⟩ := h
  exact ⟨hid, hslot⟩

/-- A member of the id map that is an object for Rust is a dict with the same members. -/
theorem mapping_of_requiredObject {members : Members N} {object inner : Object N}
    (h : members.distinct = some object) {field : String}
    (hinner : requiredObject object field = some inner) :
    ∃ dict, (getItem members field).bind requireMapping = some dict ∧
      dict.distinct = some inner := by
  obtain ⟨value, hvalue, hobject⟩ := Option.bind_eq_some_iff.mp hinner
  obtain ⟨raw, hraw, hread⟩ := getElem?_eq_some h hvalue
  obtain ⟨dict, hdict, hdistinct⟩ := requireMapping_distinct hread hobject
  exact ⟨dict, by rw [hraw]; exact hdict, hdistinct⟩

/-- What the two readers make of one text: everything but the slots is the same, and the members
of `u64_to_slot` are left to their own readings. -/
structure SharedTree (codec : JsonCodec Text) (idMapJson : Text) (parsed : ParsedPayloads)
    (members slotsDict : Members) (slots : Object) (slotRows : List (Nat × Nat)) : Prop where
  loads : loadsObject codec idMapJson = some members
  python : parseIdMap members = (dictItems slotItem slotsDict).map fun u64ToSlot =>
    { stringToU64 := parsed.stringToU64, u64ToSlot, nextU64Id := parsed.nextU64Id }
  mapping : (getItem members "u64_to_slot").bind requireMapping = some slotsDict
  distinct : slotsDict.distinct = some slots
  keys : slotKeys codec idMapJson = slots.keys
  rows : slots.toList.mapM (fun row => slotEntry row.1 row.2) = some slotRows
  table : (∅ : Table Nat Nat).insertMany slotRows = parsed.u64ToSlot

theorem sharedTree {codec : JsonCodec Text} {payloads : LegacyPayloads Text}
    {parsed : ParsedPayloads} (h : ParsedPayloads.parse codec payloads = some parsed) :
    ∃ members slotsDict slots slotRows,
      SharedTree codec payloads.idMapJson parsed members slotsDict slots slotRows := by
  obtain ⟨_, idMap, _, _, -, hidMap, -, -, hobjects⟩ := ParsedPayloads.parse_eq_some.mp h
  obtain ⟨hkeys, hschema, hstrings, hslots, hnext⟩ := ParsedPayloads.parseObjects_idMap hobjects
  obtain ⟨strings, hstringsObject, hstrings⟩ := Option.bind_eq_some_iff.mp hstrings
  obtain ⟨slots, hslotsObject, hslots⟩ := Option.bind_eq_some_iff.mp hslots
  obtain ⟨root, hroot, hrootObject⟩ := Option.bind_eq_some_iff.mp hidMap
  obtain ⟨raw, hraw, hread⟩ := Option.bind_eq_some_iff.mp (parseJsonObject_eq_some.mp hroot).1
  obtain ⟨members, hmembers, hdistinct⟩ := requireMapping_distinct hread hrootObject
  obtain ⟨stringsDict, hstringsDict, hstringsDistinct⟩ :=
    mapping_of_requiredObject hdistinct hstringsObject
  obtain ⟨slotsDict, hslotsDict, hslotsDistinct⟩ :=
    mapping_of_requiredObject hdistinct hslotsObject
  obtain ⟨stringRows, hstringRows, hstringTable⟩ := Option.map_eq_some_iff.mp hstrings
  obtain ⟨slotRows, hslotRows, hslotTable⟩ := Option.map_eq_some_iff.mp hslots
  have hloads : loadsObject codec payloads.idMapJson = some members := by
    have hsome : raw.distinct.isSome := Option.isSome_of_eq_some hread
    cases raw <;> cases hmembers
    simp [loadsObject, hraw, hsome]
  have hpythonStrings : dictItems (withStringId asU64) stringsDict =
      some parsed.stringToU64 := by
    have hstringRows : strings.toList.mapM (fun row => withStringId asU64 row.1 row.2) =
      some stringRows := hstringRows
    have hrowKeys : stringRows.map Prod.fst = strings.toList.map Prod.fst :=
      Table.map_of_mapM hstringRows fun row out hout => withStringId_key hout
    rw [← hstringTable]
    refine dictItems_eq hstringsDistinct (fun key raw value _ hvalue => ?_) hstringRows ?_
    · simp only [withStringId, asU64_distinct hvalue]
    · rw [hrowKeys]
      exact Table.nodup_keys_toList strings
  have hpythonSchema : getItem members "schema_version" =
      some (.string "ordinaldb.adapter.id_map.v1") := by
    obtain ⟨value, hvalue, hstring⟩ := Option.bind_eq_some_iff.mp hschema
    obtain ⟨rawField, hfield, hfieldRead⟩ := getElem?_eq_some hdistinct hvalue
    cases value <;> cases hstring
    rw [hfield, string_distinct hfieldRead]
  have hpythonNext : (getItem members "next_u64_id").bind asU64 = some parsed.nextU64Id := by
    obtain ⟨value, hvalue, hnumber⟩ := Option.bind_eq_some_iff.mp hnext
    obtain ⟨rawField, hfield, hfieldRead⟩ := getElem?_eq_some hdistinct hvalue
    rw [hfield, Option.bind_some, asU64_distinct hfieldRead, hnumber]
  refine ⟨members, slotsDict, slots, slotRows, hloads, ?_, hslotsDict, hslotsDistinct, ?_,
    hslotRows, hslotTable⟩
  · simp only [parseIdMap, requireExactKeys_of_object hdistinct hkeys, hpythonSchema,
      hstringsDict, hslotsDict, hpythonStrings, hpythonNext, Option.bind_some]
    cases dictItems slotItem slotsDict <;> rfl
  · simp [slotKeys, hidMap, hslotsObject]

theorem SharedTree.parse_isSome {codec : JsonCodec Text} {idMapJson : Text}
    {parsed : ParsedPayloads} {members slotsDict : Members} {slots : Object}
    {slotRows : List (Nat × Nat)}
    (h : SharedTree codec idMapJson parsed members slotsDict slots slotRows) :
    ∀ key ∈ slots.keys, (parseU64 key).isSome := by
  intro key hkey
  rw [← Std.ExtTreeMap.map_fst_toList_eq_keys] at hkey
  obtain ⟨row, hrow, rfl⟩ := List.mem_map.mp hkey
  obtain ⟨out, hout⟩ := Option.isSome_iff_exists.mp (Table.isSome_of_mapM h.rows row hrow)
  rw [(slotEntry_eq_some hout).1]
  rfl

/-- With plain keys Python reads the slots that Rust reads. -/
theorem SharedTree.dictItems_slots {codec : JsonCodec Text} {idMapJson : Text}
    {parsed : ParsedPayloads} {members slotsDict : Members} {slots : Object}
    {slotRows : List (Nat × Nat)}
    (h : SharedTree codec idMapJson parsed members slotsDict slots slotRows)
    (hplain : PlainKeys slots.keys) : dictItems slotItem slotsDict = some parsed.u64ToSlot := by
  rw [← h.table]
  refine dictItems_eq h.distinct (fun key raw value hmem hvalue => ?_) h.rows ?_
  · have hkey : key ∈ slots.keys := Std.ExtTreeMap.mem_keys.mpr
      ((mem_iff_getItem h.distinct).mpr (List.mem_map_of_mem (f := Prod.fst) hmem))
    obtain ⟨n, hn⟩ := Option.isSome_iff_exists.mp (h.parse_isSome key hkey)
    have hread := requireU64Key_of_parseU64 hn
    rw [if_pos (hplain.1 key hkey)] at hread
    simp only [slotItem, slotEntry, hread, hn, asU64_distinct hvalue]
  · have hids : slotRows.map (fun row => some row.1) =
        slots.toList.map fun row => parseU64 row.1 :=
      Table.map_of_mapM h.rows fun row out hout => (slotEntry_eq_some hout).1.symm
    refine List.Nodup.of_map some ?_
    rw [List.map_map]
    refine (show (slotRows.map (some ∘ Prod.fst)).Nodup from ?_)
    rw [show slotRows.map (some ∘ Prod.fst) = (slots.toList.map Prod.fst).map parseU64 by
      rw [List.map_map]; exact hids, Std.ExtTreeMap.map_fst_toList_eq_keys]
    exact Std.ExtTreeMap.nodup_keys.map_on fun a ha b hb heq =>
      parseU64_injOn h.parse_isSome hplain ha hb heq

/-- The readers of an accepted id map agree exactly when the keys of its slots are plain. -/
theorem idMap_agrees_iff {codec : JsonCodec Text} {env : Env} {storeFile : StoreFile Text}
    {expected : Option StoreRevision} {payloads : LegacyPayloads Text} {origin : StoreOrigin}
    {plan : SnapshotPlan}
    (h : prepareSnapshot codec env storeFile expected payloads origin = some plan) :
    Agrees codec payloads.idMapJson plan.parsed plan.generation.vectorCount ↔
      PlainKeys (slotKeys codec payloads.idMapJson) := by
  obtain ⟨_, _, hprepared⟩ := prepareSnapshot_eq_some.mp h
  obtain ⟨members, slotsDict, slots, slotRows, htree⟩ := sharedTree hprepared.parses
  unfold Agrees
  rw [htree.keys]
  constructor
  · rintro ⟨members', idMap, _, hloads, hpython, -, -, -, hinjective⟩
    obtain rfl := Option.some.inj (htree.loads.symm.trans hloads)
    rw [htree.python] at hpython
    obtain ⟨u64ToSlot, hitems, -⟩ := Option.map_eq_some_iff.mp hpython
    obtain ⟨rows, hrows, -⟩ := Option.map_eq_some_iff.mp hitems
    have hplain : ∀ key ∈ slots.keys,
        key.toList.head? ≠ some '+' ∧ key.toList.length ≤ maxStrDigits := by
      intro key hkey
      obtain ⟨entry, hentry, rfl⟩ := List.mem_map.mp
        ((mem_iff_getItem htree.distinct).mp (Std.ExtTreeMap.mem_keys.mp hkey))
      obtain ⟨n, hn⟩ := Option.isSome_iff_exists.mp (htree.parse_isSome entry.1 hkey)
      obtain ⟨out, hout⟩ := Option.isSome_iff_exists.mp (Table.isSome_of_mapM hrows entry hentry)
      obtain ⟨u64, hu64, -⟩ := Option.bind_eq_some_iff.mp hout
      rw [requireU64Key_of_parseU64 hn] at hu64
      exact (Option.ite_none_right_eq_some.mp hu64).1
    refine ⟨hplain, Std.ExtTreeMap.nodup_keys.map_on fun a ha b hb heq => ?_⟩
    obtain ⟨m, hm⟩ := Option.isSome_iff_exists.mp (htree.parse_isSome a ha)
    obtain ⟨n, hn⟩ := Option.isSome_iff_exists.mp (htree.parse_isSome b hb)
    obtain ⟨hdigitsA, hvalueA⟩ := parseU64_plain hm (hplain a ha).1
    obtain ⟨hdigitsB, hvalueB⟩ := parseU64_plain hn (hplain b hb).1
    have hvalue := (stripZeros_eq_iff hdigitsA hdigitsB).mp heq
    exact hinjective a ha b hb (by rw [hm, hn, ← hvalueA, ← hvalueB, hvalue])
  · intro hplain
    have hitems := htree.dictItems_slots hplain
    have hvalid := ParsedPayloads.parse_validMaps hprepared.parses
    have hslots : ∃ slots, slotMapFromU64ToSlot plan.parsed.u64ToSlot
        plan.generation.vectorCount = some slots := by
      have hgeneration := hprepared.validated
      have hfits : (∀ item ∈ plan.parsed.u64ToSlot.toList, item.2 < plan.generation.vectorCount) ∧
          plan.parsed.u64ToSlot.size = plan.generation.vectorCount := by
        cases hlazy : plan.parsed.emptyLazy with
        | true =>
          obtain ⟨-, -, -, -, hcount⟩ := checkpoint_lazy hprepared.checkpoint hlazy
          simp only [ParsedPayloads.validateAgainstGeneration, hlazy, if_true, Bool.and_eq_true,
            decide_eq_true_eq] at hgeneration
          rw [hgeneration.2.1.1.2, hcount]
          simp
        | false =>
          simp only [ParsedPayloads.validateAgainstGeneration, hlazy, Bool.false_eq_true, if_false,
            Bool.and_eq_true, decide_eq_true_eq, List.all_eq_true] at hgeneration
          exact ⟨hgeneration.2.2, hgeneration.2.1.2⟩
      obtain ⟨slots, hslots, -⟩ := slotMap_eq_some hvalid.slots hfits.1 hfits.2
      exact ⟨slots, hslots⟩
    obtain ⟨slotMap, hslotMap⟩ := hslots
    exact ⟨members, _, slotMap, htree.loads, by rw [htree.python, hitems]; rfl, hslotMap, rfl, rfl,
      fun a ha b hb heq => parseU64_injOn htree.parse_isSome hplain ha hb heq⟩

/-- One record whose slot has the given keys. -/
def keyedPayloads (keys : List String) : LegacyPayloads Value :=
  { singlePayloads "vectors/g000000000001.odb" with
    idMapJson := jsonObject [("schema_version", .string "ordinaldb.adapter.id_map.v1"),
      ("next_u64_id", jsonNat 1), ("string_to_u64", jsonObject [("a", jsonNat 0)]),
      ("u64_to_slot", jsonObject (keys.map fun key => (key, jsonNat 0)))] }

theorem idMap_agrees_iff_single : ∃ plan,
    prepareSnapshot .ofTrees singleEnv .missing none (keyedPayloads ["0"]) .created = some plan ∧
      Agrees .ofTrees (keyedPayloads ["0"]).idMapJson plan.parsed plan.generation.vectorCount := by
  have hsome : (prepareSnapshot .ofTrees singleEnv .missing none (keyedPayloads ["0"])
      .created).isSome := by
    decide +kernel
  obtain ⟨plan, hplan⟩ := Option.isSome_iff_exists.mp hsome
  have hkeys : slotKeys .ofTrees (keyedPayloads ["0"]).idMapJson = ["0"] := by decide +kernel
  refine ⟨plan, hplan, (idMap_agrees_iff hplan).mpr ?_⟩
  rw [hkeys]
  exact ⟨by decide, by decide⟩

/-- Python refuses the key `+0`; the keys `0` and `00` are one id for both readers. -/
theorem signed_and_doubled_keys :
    (∃ plan, prepareSnapshot .ofTrees singleEnv .missing none (keyedPayloads ["+0"]) .created =
        some plan ∧
      ¬Agrees .ofTrees (keyedPayloads ["+0"]).idMapJson plan.parsed
        plan.generation.vectorCount) ∧
    ∃ plan, prepareSnapshot .ofTrees singleEnv .missing none (keyedPayloads ["0", "00"]) .created =
        some plan ∧
      ¬Agrees .ofTrees (keyedPayloads ["0", "00"]).idMapJson plan.parsed
        plan.generation.vectorCount := by
  have hsigned : (prepareSnapshot .ofTrees singleEnv .missing none (keyedPayloads ["+0"])
      .created).isSome := by
    decide +kernel
  have hdoubled : (prepareSnapshot .ofTrees singleEnv .missing none (keyedPayloads ["0", "00"])
      .created).isSome := by
    decide +kernel
  obtain ⟨signed, hsigned⟩ := Option.isSome_iff_exists.mp hsigned
  obtain ⟨doubled, hdoubled⟩ := Option.isSome_iff_exists.mp hdoubled
  refine ⟨⟨signed, hsigned, ?_⟩, doubled, hdoubled, ?_⟩
  · rintro ⟨members, idMap, -, hloads, hpython, -⟩
    have hnone : ((loadsObject .ofTrees (keyedPayloads ["+0"]).idMapJson).bind
        parseIdMap).isNone := by
      decide +kernel
    rw [hloads, Option.bind_some, hpython] at hnone
    cases hnone
  · rintro ⟨-, -, -, -, -, -, -, -, hinjective⟩
    have hkeys : slotKeys .ofTrees (keyedPayloads ["0", "00"]).idMapJson = ["0", "00"] := by
      decide +kernel
    rw [hkeys] at hinjective
    exact absurd (hinjective "0" (by simp) "00" (by simp) (by decide +kernel)) (by decide)

end OrdinalDB.Adapter
