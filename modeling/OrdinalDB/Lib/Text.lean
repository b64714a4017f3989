import Mathlib

/-!
# Splitting and decimal numbers

Texts are lists of characters.

* `splitOnce` splits at the first occurrence of a separator; `splitOnce_char`
  is its rule for one character, `splitOnce_skip` and `splitOnce_self` step
  along a text.
* `nil_mem_splitOn`: where an empty part of a split text comes from.
* `decimal` prints a number and `parseDecimal` reads a run of ASCII digits
  back, up to a bound; `parseDecimal_decimal` is the round trip. Runs of one
  length denote different numbers (`ofDigitChars_injective`) and are ordered as
  these (`ofDigitChars_lt_of_lt`).
* `isWhitespace` and `decimalValue` are classes of Unicode; `decimalValue_digit`
  ties the second to the digits of ASCII.
-/

namespace Text

/-! ## Comparing -/

instance lawfulBEqText : LawfulBEq (List Char) := List.instLawfulBEq

instance lawfulBEqTexts : LawfulBEq (List (List Char)) := List.instLawfulBEq

/-! ## Splitting -/

/-- Split at the first occurrence of `sep`. -/
def splitOnce (sep : List Char) : List Char → Option (List Char × List Char)
  | [] => if sep = [] then some ([], []) else none
  | c :: rest =>
    if sep.isPrefixOf (c :: rest) then some ([], (c :: rest).drop sep.length)
    else (splitOnce sep rest).map fun parts => (c :: parts.1, parts.2)

theorem splitOnce_char {sep : Char} {left right : List Char} (h : sep ∉ left) :
    splitOnce [sep] (left ++ sep :: right) = some (left, right) := by
  induction left with
  | nil => simp [splitOnce]
  | cons c left ih =>
    obtain ⟨hc, hleft⟩ := not_or.mp (mt List.mem_cons.mpr h)
    simp [splitOnce, hc, ih hleft]

/-- A text without the separator's first character is skipped. -/
theorem splitOnce_skip {c : Char} {sep left text : List Char} (h : c ∉ left) :
    splitOnce (c :: sep) (left ++ text) =
      (splitOnce (c :: sep) text).map fun parts => (left ++ parts.1, parts.2) := by
  induction left with
  | nil => simp
  | cons d left ih =>
    obtain ⟨hd, hleft⟩ := not_or.mp (mt List.mem_cons.mpr h)
    have hhead : ¬(c :: sep).isPrefixOf (d :: (left ++ text)) := by
      rw [List.isPrefixOf_cons_cons]
      simp [hd]
    rw [List.cons_append, splitOnce, if_neg hhead, ih hleft, Option.map_map]
    rfl

theorem splitOnce_self {c : Char} {sep text : List Char} :
    splitOnce (c :: sep) (c :: sep ++ text) = some ([], text) := by
  have hhead : (c :: sep).isPrefixOf (c :: sep ++ text) :=
    List.isPrefixOf_iff_prefix.mpr (List.prefix_append _ _)
  rw [List.cons_append] at hhead ⊢
  rw [splitOnce, if_pos hhead, ← List.cons_append, List.drop_left]

theorem eq_of_splitOnce {sep text left right : List Char}
    (h : splitOnce sep text = some (left, right)) : text = left ++ sep ++ right := by
  induction text generalizing left with
  | nil =>
    unfold splitOnce at h
    split at h
    next hsep => cases h; simp [hsep]
    next => cases h
  | cons c rest ih =>
    unfold splitOnce at h
    split at h
    next hprefix =>
      cases h
      obtain ⟨tail, htail⟩ := List.isPrefixOf_iff_prefix.mp hprefix
      simp [← htail]
    next =>
      obtain ⟨parts, hparts, heq⟩ := Option.map_eq_some_iff.mp h
      cases heq
      simpa using ih hparts

/-- A separator that occurs is found. -/
theorem splitOnce_isSome {sep left right : List Char} :
    (splitOnce sep (left ++ sep ++ right)).isSome := by
  induction left with
  | nil =>
    cases htext : [] ++ sep ++ right with
    | nil =>
      have hsep : sep = [] := (List.append_eq_nil_iff.mp htext).1
      simp [splitOnce, hsep]
    | cons c rest =>
      have hprefix : sep.isPrefixOf (c :: rest) :=
        List.isPrefixOf_iff_prefix.mpr ⟨right, by simpa using htext⟩
      simp [splitOnce, hprefix]
  | cons c left ih =>
    rw [List.cons_append, List.cons_append, splitOnce]
    split
    · rfl
    · simpa using ih

/-! ## Parts between separators -/

theorem nil_mem_tail_splitOn {a : Char} {l : List Char} (h : [] ∈ (l.splitOn a).tail) :
    l.getLast? = some a ∨ ∃ left right, l = left ++ [a, a] ++ right := by
  induction l with
  | nil => simp at h
  | cons y ys ih =>
    obtain ⟨first, rest, hsplit⟩ := List.exists_cons_of_ne_nil (List.splitOn_ne_nil a ys)
    have hlast : ys.getLast? = some a → (y :: ys).getLast? = some a := by
      intro hys
      rw [List.getLast?_cons, hys]
      rfl
    have hmore : [] ∈ rest → (y :: ys).getLast? = some a ∨
        ∃ left right, y :: ys = left ++ [a, a] ++ right := by
      intro hrest
      rcases ih (by rw [hsplit]; exact hrest) with hys | ⟨left, right, hys⟩
      · exact .inl (hlast hys)
      · exact .inr ⟨y :: left, right, by rw [hys]; rfl⟩
    rw [List.splitOn_cons_eq_if_modifyHead, hsplit] at h
    split at h
    next hy =>
      obtain rfl := eq_of_beq hy
      rcases List.mem_cons.mp h with hfirst | hrest
      · -- the part after the separator is empty
        cases ys with
        | nil => exact .inl rfl
        | cons z zs =>
          rw [List.splitOn_cons_eq_if_modifyHead] at hsplit
          split at hsplit
          next hz =>
            obtain rfl := eq_of_beq hz
            exact .inr ⟨[], zs, rfl⟩
          next =>
            obtain ⟨part, parts, hparts⟩ := List.exists_cons_of_ne_nil (List.splitOn_ne_nil y zs)
            rw [hparts] at hsplit
            have := (List.cons.inj hsplit).1
            rw [← hfirst] at this
            cases this
      · exact hmore hrest
    next => exact hmore h

/-- An empty part lies before a leading separator, after a final one or between two. -/
theorem nil_mem_splitOn {a : Char} {l : List Char} (h : [] ∈ l.splitOn a) :
    l = [] ∨ l.head? = some a ∨ l.getLast? = some a ∨ ∃ left right, l = left ++ [a, a] ++ right := by
  cases l with
  | nil => exact .inl rfl
  | cons x xs =>
    by_cases hx : x = a
    · exact .inr (.inl (by rw [hx]; rfl))
    · refine .inr (.inr (nil_mem_tail_splitOn ?_))
      obtain ⟨part, parts, hparts⟩ := List.exists_cons_of_ne_nil (List.splitOn_ne_nil a xs)
      rw [List.splitOn_cons_eq_if_modifyHead, if_neg (by simpa using hx), hparts] at h ⊢
      rcases List.mem_cons.mp h with hnil | h
      · cases hnil
      · exact h

theorem mem_of_mem_splitOn {a c : Char} {l part : List Char} (hpart : part ∈ l.splitOn a)
    (hc : c ∈ part) : c ∈ l := by
  induction l generalizing part with
  | nil =>
    rw [List.splitOn_nil, List.mem_singleton] at hpart
    rw [hpart] at hc
    cases hc
  | cons x xs ih =>
    obtain ⟨first, rest, hsplit⟩ := List.exists_cons_of_ne_nil (List.splitOn_ne_nil a xs)
    have hmore : ∀ {other}, other ∈ first :: rest → c ∈ other → c ∈ x :: xs := by
      intro other hother hmem
      rw [← hsplit] at hother
      exact List.mem_cons_of_mem x (ih hother hmem)
    rw [List.splitOn_cons_eq_if_modifyHead, hsplit] at hpart
    split at hpart
    · rcases List.mem_cons.mp hpart with rfl | hpart
      · cases hc
      · exact hmore hpart hc
    · rcases List.mem_cons.mp hpart with rfl | hpart
      · rcases List.mem_cons.mp hc with rfl | hc
        · exact List.mem_cons_self
        · exact hmore List.mem_cons_self hc
      · exact hmore (List.mem_cons_of_mem _ hpart) hc

theorem splitOn_injective {a : Char} : Function.Injective fun l : List Char => l.splitOn a :=
  fun l r h => by
    have hl : [a].intercalate (l.splitOn a) = l := List.intercalate_splitOn a
    have hr : [a].intercalate (r.splitOn a) = r := List.intercalate_splitOn a
    rw [← hl, ← hr]
    exact congrArg _ h

/-! ## Decimal numbers -/

def decimal (n : Nat) : List Char := Nat.toDigits 10 n

/-- A nonempty run of ASCII digits whose value stays below `bound`. -/
def parseDecimal (bound : Nat) (digits : List Char) : Option Nat :=
  if digits = [] ∨ ¬digits.all Char.isDigit then none
  else if Nat.ofDigitChars 10 digits 0 < bound then some (Nat.ofDigitChars 10 digits 0)
  else none

theorem decimal_ne_nil {n : Nat} : decimal n ≠ [] := Nat.toDigits_ne_nil

theorem isDigit_of_mem_decimal {n : Nat} {c : Char} (h : c ∈ decimal n) : c.isDigit :=
  Nat.isDigit_of_mem_toDigits (by decide) (by decide) h

theorem parseDecimal_decimal {n bound : Nat} (h : n < bound) :
    parseDecimal bound (decimal n) = some n := by
  have hdigits : ¬(decimal n = [] ∨ ¬(decimal n).all Char.isDigit) := by
    simp only [decimal_ne_nil, false_or, not_not, List.all_eq_true]
    exact fun c hc => isDigit_of_mem_decimal hc
  have hvalue : Nat.ofDigitChars 10 (decimal n) 0 = n := Nat.ofDigitChars_ten_toDigits
  simp only [parseDecimal, if_neg hdigits, hvalue, if_pos h]

theorem decimal_injective : Function.Injective decimal := by
  intro m n h
  have hm : parseDecimal (m + n + 1) (decimal m) = some m := parseDecimal_decimal (by omega)
  have hn : parseDecimal (m + n + 1) (decimal n) = some n := parseDecimal_decimal (by omega)
  exact Option.some.inj (hm.symm.trans (h ▸ hn))

theorem digit_lt {c : Char} (h : c.isDigit) : c.toNat - '0'.toNat < 10 ∧ '0'.toNat ≤ c.toNat := by
  obtain ⟨hlow, hhigh⟩ := Char.isDigit_iff_toNat.mp h
  have hzero : '0'.toNat = 48 := rfl
  have hnine : '9'.toNat = 57 := rfl
  omega

theorem ofDigitChars_lt {digits : List Char} (h : ∀ c ∈ digits, c.isDigit) (init : Nat) :
    Nat.ofDigitChars 10 digits init < 10 ^ digits.length * (init + 1) := by
  induction digits generalizing init with
  | nil => simp
  | cons c digits ih =>
    have hdigit := (digit_lt (h c List.mem_cons_self)).1
    have hrest := ih (fun d hd => h d (List.mem_cons_of_mem _ hd)) (10 * init + (c.toNat - '0'.toNat))
    rw [Nat.ofDigitChars_cons]
    calc _ < 10 ^ digits.length * (10 * init + (c.toNat - '0'.toNat) + 1) := hrest
      _ ≤ 10 ^ digits.length * (10 * (init + 1)) := Nat.mul_le_mul_left _ (by omega)
      _ = 10 ^ (c :: digits).length * (init + 1) := by rw [List.length_cons, pow_succ]; ring

/-- Digits of one length that denote one number are the same. -/
theorem ofDigitChars_injective {a b : List Char} (ha : ∀ c ∈ a, c.isDigit)
    (hb : ∀ c ∈ b, c.isDigit) (hlength : a.length = b.length) {i j : Nat}
    (h : Nat.ofDigitChars 10 a i = Nat.ofDigitChars 10 b j) : a = b ∧ i = j := by
  induction a generalizing b i j with
  | nil =>
    obtain rfl := List.length_eq_zero_iff.mp hlength.symm
    exact ⟨rfl, h⟩
  | cons c a ih =>
    cases b with
    | nil => cases hlength
    | cons d b =>
      rw [Nat.ofDigitChars_cons, Nat.ofDigitChars_cons] at h
      obtain ⟨rfl, hinit⟩ := ih (fun e he => ha e (List.mem_cons_of_mem _ he))
        (fun e he => hb e (List.mem_cons_of_mem _ he)) (Nat.succ.inj hlength) h
      have hc := digit_lt (ha c List.mem_cons_self)
      have hd := digit_lt (hb d List.mem_cons_self)
      obtain rfl : c = d := Char.toNat_inj.mp (by omega)
      exact ⟨rfl, by omega⟩

theorem ofDigitChars_pos {digits : List Char} (h : ∀ c ∈ digits, c.isDigit) :
    0 < Nat.ofDigitChars 10 digits 0 ↔ digits ≠ List.replicate digits.length '0' := by
  have hzero : Nat.ofDigitChars 10 (List.replicate digits.length '0') 0 = 0 := by
    rw [Nat.ofDigitChars_replicate_zero, Nat.mul_zero]
  constructor
  · rintro hpos heq
    rw [heq, hzero] at hpos
    exact absurd hpos (Nat.lt_irrefl 0)
  · intro hne
    refine Nat.pos_of_ne_zero fun heq => hne ?_
    exact (ofDigitChars_injective h (by simp [List.mem_replicate]) (by simp)
      (heq.trans hzero.symm)).1

/-- Digits without their leading zeros. -/
def stripZeros (digits : List Char) : List Char := digits.dropWhile (· = '0')

theorem ofDigitChars_stripZeros (digits : List Char) :
    Nat.ofDigitChars 10 (stripZeros digits) 0 = Nat.ofDigitChars 10 digits 0 := by
  induction digits with
  | nil => rfl
  | cons c digits ih =>
    unfold stripZeros
    rw [List.dropWhile_cons]
    split
    next hzero =>
      obtain rfl := of_decide_eq_true hzero
      rw [Nat.ofDigitChars_cons]
      exact ih
    next => rfl

theorem le_ofDigitChars {digits : List Char} {init : Nat} :
    10 ^ digits.length * init ≤ Nat.ofDigitChars 10 digits init := by
  induction digits generalizing init with
  | nil => simp
  | cons c digits ih =>
    rw [Nat.ofDigitChars_cons, List.length_cons, pow_succ, Nat.mul_assoc]
    exact (Nat.mul_le_mul_left _ (Nat.le_add_right _ _)).trans ih

/-- Digits of one length are ordered as the numbers. -/
theorem ofDigitChars_lt_of_lt {a b : List Char} (ha : ∀ c ∈ a, c.isDigit)
    (hb : ∀ c ∈ b, c.isDigit) (hlength : a.length = b.length) (h : a < b) (init : Nat) :
    Nat.ofDigitChars 10 a init < Nat.ofDigitChars 10 b init := by
  induction a generalizing b init with
  | nil =>
    obtain rfl := List.length_eq_zero_iff.mp hlength.symm
    exact absurd h (List.lt_irrefl [])
  | cons c a ih =>
    cases b with
    | nil => cases hlength
    | cons d b =>
      have ha' : ∀ e ∈ a, e.isDigit := fun e he => ha e (List.mem_cons_of_mem _ he)
      have hb' : ∀ e ∈ b, e.isDigit := fun e he => hb e (List.mem_cons_of_mem _ he)
      rw [Nat.ofDigitChars_cons, Nat.ofDigitChars_cons]
      rcases List.cons_lt_cons_iff.mp h with hlt | ⟨rfl, hrest⟩
      · have hc := digit_lt (ha c List.mem_cons_self)
        have hd := digit_lt (hb d List.mem_cons_self)
        have hvalue : c.toNat < d.toNat := hlt
        calc _ < 10 ^ a.length * (10 * init + (c.toNat - '0'.toNat) + 1) := ofDigitChars_lt ha' _
          _ ≤ 10 ^ b.length * (10 * init + (d.toNat - '0'.toNat)) := by
            rw [Nat.succ.inj hlength]
            exact Nat.mul_le_mul_left _ (by omega)
          _ ≤ _ := le_ofDigitChars
      · exact ih ha' hb' (Nat.succ.inj hlength) hrest _

/-- A number fixes its digits up to leading zeros. -/
theorem stripZeros_eq_iff {a b : List Char} (ha : ∀ c ∈ a, c.isDigit) (hb : ∀ c ∈ b, c.isDigit) :
    stripZeros a = stripZeros b ↔ Nat.ofDigitChars 10 a 0 = Nat.ofDigitChars 10 b 0 := by
  have hdigits : ∀ {l : List Char}, (∀ c ∈ l, c.isDigit) → ∀ c ∈ stripZeros l, c.isDigit :=
    fun hl c hc => hl c ((List.dropWhile_suffix _).subset hc)
  constructor
  · intro h
    rw [← ofDigitChars_stripZeros a, h, ofDigitChars_stripZeros]
  · intro h
    rw [← ofDigitChars_stripZeros a, ← ofDigitChars_stripZeros b] at h
    -- a leading digit other than zero fixes the length
    have hlow : ∀ {l : List Char}, (∀ c ∈ l, c.isDigit) → stripZeros l ≠ [] →
        10 ^ ((stripZeros l).length - 1) ≤ Nat.ofDigitChars 10 (stripZeros l) 0 := by
      intro l hl hne
      obtain ⟨c, rest, hrest⟩ := List.exists_cons_of_ne_nil hne
      have hc : c ≠ '0' := by
        have hhead := List.head_dropWhile_not (fun c => decide (c = '0')) (l := l) hne
        intro hzero
        have : (stripZeros l).head hne = '0' := by simp [hrest, hzero]
        unfold stripZeros at this
        rw [this] at hhead
        simp at hhead
      have hvalue : 1 ≤ c.toNat - '0'.toNat := by
        obtain ⟨-, hbelow⟩ := digit_lt (hdigits hl c (by rw [hrest]; exact List.mem_cons_self))
        have : c.toNat ≠ '0'.toNat := fun heq => hc (Char.toNat_inj.mp heq)
        omega
      rw [hrest, Nat.ofDigitChars_cons, List.length_cons, Nat.add_sub_cancel, Nat.mul_zero,
        Nat.zero_add]
      calc 10 ^ rest.length = 10 ^ rest.length * 1 := (Nat.mul_one _).symm
        _ ≤ 10 ^ rest.length * (c.toNat - '0'.toNat) := Nat.mul_le_mul_left _ hvalue
        _ ≤ _ := le_ofDigitChars
    have hle : ∀ {l r : List Char}, (∀ c ∈ l, c.isDigit) → (∀ c ∈ r, c.isDigit) →
        Nat.ofDigitChars 10 (stripZeros l) 0 = Nat.ofDigitChars 10 (stripZeros r) 0 →
        (stripZeros l).length ≤ (stripZeros r).length := by
      intro l r hl hr heq
      by_cases hne : stripZeros l = []
      · simp [hne]
      · have hlt := ofDigitChars_lt (hdigits hr) 0
        have hge := hlow hl hne
        rw [heq] at hge
        have hpow := (Nat.pow_lt_pow_iff_right (by decide : 1 < 10)).mp
          (hge.trans_lt (by simpa using hlt))
        omega
    exact (ofDigitChars_injective (hdigits ha) (hdigits hb)
      (Nat.le_antisymm (hle ha hb h) (hle hb ha h.symm)) h).1

/-! ## Marks -/

/-- A mark that is sought before a mark that is placed: neither repeats its first character, so
the sought one lies in the text before, or begins where the placed one does. -/
theorem mark_prefix_cases {c : Char} {sought placed a b rest : List Char} (hsought : c ∉ sought)
    (hplaced : c ∉ placed) (hrest : c ∉ rest)
    (h : a ++ c :: sought <+: b ++ c :: placed ++ rest) :
    (a = b ∧ sought <+: placed ++ rest) ∨ a ++ c :: sought <+: b := by
  obtain ⟨tail, htail⟩ := h
  rw [List.append_assoc, List.append_assoc] at htail
  rcases List.append_eq_append_iff.mp htail with ⟨gap, rfl, hgap⟩ | ⟨gap, rfl, hgap⟩
  · -- `b` goes on where `a` ends
    cases gap with
    | nil => exact .inl ⟨(List.append_nil a).symm, tail, (List.cons.inj hgap).2⟩
    | cons d gap =>
      obtain ⟨rfl, hrest'⟩ := List.cons.inj hgap
      rcases List.append_eq_append_iff.mp hrest' with ⟨behind, rfl, -⟩ | ⟨excess, rfl, hexcess⟩
      · exact .inr ⟨behind, by simp⟩
      · cases excess with
        | nil => exact .inr ⟨[], by simp⟩
        | cons e excess =>
          obtain ⟨rfl, -⟩ := List.cons.inj hexcess
          exact absurd (List.mem_append_right gap List.mem_cons_self) hsought
  · -- `a` goes on where `b` ends, so its mark lies among the characters behind
    cases gap with
    | nil => exact .inl ⟨List.append_nil b, tail, (List.cons.inj hgap).2.symm⟩
    | cons d gap =>
      have hbehind : placed ++ rest = gap ++ (c :: sought ++ tail) := (List.cons.inj hgap).2
      have hmem : c ∈ placed ++ rest := by
        rw [hbehind]
        exact List.mem_append_right gap List.mem_cons_self
      exact absurd hmem (List.not_mem_append hplaced hrest)

/-- What stands behind the last separator. -/
theorem last_part_unique {sep : Char} {l r f g : List Char} (hf : sep ∉ f) (hg : sep ∉ g)
    (h : l ++ sep :: f = r ++ sep :: g) : f = g := by
  rcases List.append_eq_append_iff.mp h with ⟨gap, -, hgap⟩ | ⟨gap, -, hgap⟩
  · cases gap with
    | nil => exact (List.cons.inj hgap).2
    | cons d gap =>
      have hbehind : f = gap ++ sep :: g := (List.cons.inj hgap).2
      exact absurd (hbehind ▸ List.mem_append_right gap List.mem_cons_self) hf
  · cases gap with
    | nil => exact (List.cons.inj hgap).2.symm
    | cons d gap =>
      have hbehind : g = gap ++ sep :: f := (List.cons.inj hgap).2
      exact absurd (hbehind ▸ List.mem_append_right gap List.mem_cons_self) hg

theorem intercalate_concat {sep last : List Char} {parts : List (List Char)} (h : parts ≠ []) :
    sep.intercalate (parts ++ [last]) = sep.intercalate parts ++ sep ++ last := by
  induction parts with
  | nil => exact absurd rfl h
  | cons part parts ih =>
    rw [List.cons_append, List.intercalate_cons_of_ne_nil (by simp)]
    cases parts with
    | nil => simp [List.intercalate_singleton]
    | cons next parts =>
      have hhead : sep.intercalate (part :: next :: parts) =
          part ++ sep ++ sep.intercalate (next :: parts) :=
        List.intercalate_cons_of_ne_nil (List.cons_ne_nil next parts)
      rw [ih (List.cons_ne_nil next parts), hhead]
      simp only [List.append_assoc]

/-! ## Classes of Unicode -/

/-- The characters with the property `White_Space`. -/
def isWhitespace (c : Char) : Bool :=
  let code := c.toNat
  (0x09 ≤ code && code ≤ 0x0d) || (0x2000 ≤ code && code ≤ 0x200a) ||
    code ∈ [0x20, 0x85, 0xa0, 0x1680, 0x2028, 0x2029, 0x202f, 0x205f, 0x3000]

/-- The zeros of the decimal digits of Unicode 13; later versions add scripts. -/
def decimalZeros : List Nat :=
  [0x30, 0x660, 0x6f0, 0x7c0, 0x966, 0x9e6, 0xa66, 0xae6, 0xb66, 0xbe6, 0xc66, 0xce6, 0xd66, 0xde6,
    0xe50, 0xed0, 0xf20, 0x1040, 0x1090, 0x17e0, 0x1810, 0x1946, 0x19d0, 0x1a80, 0x1a90, 0x1b50,
    0x1bb0, 0x1c40, 0x1c50, 0xa620, 0xa8d0, 0xa900, 0xa9d0, 0xa9f0, 0xaa50, 0xabf0, 0xff10, 0x104a0,
    0x10d30, 0x11066, 0x110f0, 0x11136, 0x111d0, 0x112f0, 0x11450, 0x114d0, 0x11650, 0x116c0,
    0x11730, 0x118e0, 0x11950, 0x11c50, 0x11d50, 0x11da0, 0x16a60, 0x16b50, 0x1d7ce, 0x1d7d8,
    0x1d7e2, 0x1d7ec, 0x1d7f6, 0x1e140, 0x1e2f0, 0x1e950, 0x1fbf0]

/-- The value of a decimal digit. -/
def decimalValue (c : Char) : Option Nat :=
  (decimalZeros.find? fun low => low ≤ c.toNat && c.toNat < low + 10).map (c.toNat - ·)

theorem decimalValue_digit {c : Char} (h : c.isDigit) :
    decimalValue c = some (c.toNat - '0'.toNat) := by
  obtain ⟨hvalue, hlow⟩ := digit_lt h
  have hzero : '0'.toNat = 0x30 := rfl
  have hfound : (decide (0x30 ≤ c.toNat) && decide (c.toNat < 0x30 + 10)) = true := by
    simp only [Bool.and_eq_true, decide_eq_true_eq]
    omega
  simp [decimalValue, decimalZeros, hfound, hzero]

end Text
