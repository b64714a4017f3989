import Mathlib

/-!
# Tokenizer v1 of the sparse index

The tokenizer of `ordinaldb-hybrid/src/sparse.rs`. Text is a list of
characters, a term is its UTF-8 bytes. Tokens are runs of ASCII alphanumeric
characters, so on them a character is a byte.
-/

namespace OrdinalDB.Sparse

inductive TokenizerKind
  | simple
  | identifierSubtokens
deriving DecidableEq, Repr

/-- `tokenizer as u16`. -/
def TokenizerKind.toU16 : TokenizerKind → Nat
  | .simple => 1
  | .identifierSubtokens => 2

/-- A term by its UTF-8 bytes. -/
abbrev Term := List UInt8

def utf8 (text : List Char) : List UInt8 := text.flatMap String.utf8EncodeChar

def isAsciiLowercase (b : UInt8) : Bool := 0x61 ≤ b && b ≤ 0x7a

def isAsciiUppercase (b : UInt8) : Bool := 0x41 ≤ b && b ≤ 0x5a

def isAsciiDigit (b : UInt8) : Bool := 0x30 ≤ b && b ≤ 0x39

def isAsciiAlphanumeric (b : UInt8) : Bool :=
  isAsciiLowercase b || isAsciiUppercase b || isAsciiDigit b

def toAsciiLowercase (b : UInt8) : UInt8 := if isAsciiUppercase b then b + 32 else b

/-- The byte `s`. -/
def byteS : UInt8 := 0x73

/-! ## Normalization -/

/-- Pop trailing `s` bytes while more than four bytes remain. Each round pops
one, so the term's length is enough fuel. -/
def popTrailingS : Nat → Term → Term
  | 0, term => term
  | fuel + 1, term =>
    if term.length > 4 ∧ term.getLast? = some byteS then popTrailingS fuel term.dropLast else term

def normalizeTerm (term : Term) : Option Term :=
  if !term.all isAsciiAlphanumeric then none
  else
    let term := term.map toAsciiLowercase
    if term.length < 3 then none
    else
      let term := popTrailingS term.length term
      if term.length < 3 then none else some term

def isNormalizedTermV1 (term : Term) : Bool :=
  term.length ≥ 3 && term.all (fun b => isAsciiLowercase b || isAsciiDigit b) &&
    !(term.length > 4 && term.getLast? = some byteS)

theorem popTrailingS_done {fuel : Nat} {term : Term} (h : term.length ≤ fuel) :
    ¬((popTrailingS fuel term).length > 4 ∧ (popTrailingS fuel term).getLast? = some byteS) := by
  induction fuel generalizing term with
  | zero =>
    rintro ⟨hlen, -⟩
    simp only [popTrailingS] at hlen
    omega
  | succ fuel ih =>
    rw [popTrailingS]
    split
    · exact ih (by simp; omega)
    · next hstop => exact hstop

theorem popTrailingS_sublist (fuel : Nat) (term : Term) : (popTrailingS fuel term).Sublist term := by
  induction fuel generalizing term with
  | zero => exact .refl _
  | succ fuel ih =>
    rw [popTrailingS]
    split
    · exact (ih _).trans (List.dropLast_sublist term)
    · exact .refl _

theorem lowercase_of_alphanumeric {b : UInt8} (h : isAsciiAlphanumeric b) :
    isAsciiLowercase (toAsciiLowercase b) || isAsciiDigit (toAsciiLowercase b) := by
  have hall : ∀ n : Fin 256, isAsciiAlphanumeric (.ofNat n) →
      isAsciiLowercase (toAsciiLowercase (.ofNat n)) || isAsciiDigit (toAsciiLowercase (.ofNat n)) := by
    decide +kernel
  have hb := hall ⟨b.toNat, b.toNat_lt⟩
  rw [UInt8.ofNat_toNat] at hb
  exact hb h

/-- What `normalize_term` returns passes the reader's check. -/
theorem normalizeTerm_normalized {term out : Term} (h : normalizeTerm term = some out) :
    isNormalizedTermV1 out := by
  simp only [normalizeTerm, Bool.not_eq_true', Bool.eq_false_iff] at h
  split at h
  · cases h
  next halnum =>
  split at h
  · cases h
  split at h
  · cases h
  next hlen =>
  obtain rfl := Option.some.inj h
  have hdone := popTrailingS_done (Nat.le_refl (term.map toAsciiLowercase).length)
  have hsub := popTrailingS_sublist (term.map toAsciiLowercase).length (term.map toAsciiLowercase)
  have hbytes : ∀ b ∈ popTrailingS (term.map toAsciiLowercase).length (term.map toAsciiLowercase),
      isAsciiLowercase b || isAsciiDigit b := by
    intro b hb
    obtain ⟨a, ha, rfl⟩ := List.mem_map.mp (hsub.subset hb)
    exact lowercase_of_alphanumeric (List.all_eq_true.mp (not_not.mp halnum) a ha)
  simp only [isNormalizedTermV1, Bool.and_eq_true, decide_eq_true_eq, List.all_eq_true,
    Bool.not_eq_true', Bool.eq_false_iff]
  exact ⟨⟨by omega, hbytes⟩, by simpa using hdone⟩

/-! ## Tokens -/

/-- The runs of ASCII alphanumeric characters, with the run read so far. -/
def alnumRuns : Option (List Char) → List Char → List (List Char)
  | none, [] => []
  | some run, [] => [run]
  | run, ch :: text =>
    if ch.isAlphanum then alnumRuns (some (run.getD [] ++ [ch])) text
    else
      match run with
      | some token => token :: alnumRuns none text
      | none => alnumRuns none text

def asciiAlnumTokens (text : List Char) : List (List Char) := alnumRuns none text

/-- A camel-case boundary before position `idx`. -/
def splitsAt (token : List Char) (idx : Nat) : Bool :=
  let prev := token.getD (idx - 1) ' '
  let cur := token.getD idx ' '
  cur.isUpper &&
    (prev.isLower || prev.isDigit || (prev.isUpper && (token[idx + 1]?).any Char.isLower))

def identifierSubtokens (token : List Char) : List (List Char) :=
  if token.length < 2 then []
  else
    let (parts, start) := (List.range' 1 (token.length - 1)).foldl
      (fun (parts, start) idx =>
        if splitsAt token idx then
          (if start < idx then parts ++ [(token.drop start).take (idx - start)] else parts, idx)
        else (parts, start))
      (([] : List (List Char)), 0)
    let parts := if start < token.length then parts ++ [token.drop start] else parts
    if parts.length ≤ 1 then [] else parts

def tokenizeText (tokenizer : TokenizerKind) (text : List Char) : List Term :=
  (asciiAlnumTokens text).flatMap fun token =>
    (normalizeTerm (utf8 token)).toList ++
      if tokenizer = .identifierSubtokens then
        (identifierSubtokens token).filterMap fun subtoken => normalizeTerm (utf8 subtoken)
      else []

theorem tokenizeText_normalized {tokenizer : TokenizerKind} {text : List Char} {term : Term}
    (h : term ∈ tokenizeText tokenizer text) : isNormalizedTermV1 term := by
  obtain ⟨token, -, hmem⟩ := List.mem_flatMap.mp h
  rcases List.mem_append.mp hmem with hmem | hmem
  · exact normalizeTerm_normalized (Option.mem_toList.mp hmem)
  · split at hmem
    · obtain ⟨subtoken, -, hsub⟩ := List.mem_filterMap.mp hmem
      exact normalizeTerm_normalized hsub
    · cases hmem

example : tokenizeText .identifierSubtokens "getUserIds, access".toList =
    [utf8 "getuserid".toList, utf8 "get".toList, utf8 "user".toList, utf8 "ids".toList,
      utf8 "acce".toList] := by
  decide

end OrdinalDB.Sparse
