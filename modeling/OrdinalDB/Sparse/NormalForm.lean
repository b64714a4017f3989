import OrdinalDB.Lib.Runs
import OrdinalDB.Sparse.Tokenizer

/-!
# Tokens in normal form

`normalize_term` is a projection onto the terms that the index reader accepts,
`ascii_alnum_tokens` cuts a text into its maximal alphanumeric runs, and
`identifier_subtokens` cuts a token into parts that make it up again.
-/

namespace OrdinalDB.Sparse

open Runs

/-! ## Normal forms -/

theorem alphanumeric_of_lowercase_or_digit {b : UInt8}
    (h : isAsciiLowercase b || isAsciiDigit b) :
    isAsciiAlphanumeric b ∧ toAsciiLowercase b = b := by
  have hall : ∀ n : Fin 256, isAsciiLowercase (.ofNat n) || isAsciiDigit (.ofNat n) →
      isAsciiAlphanumeric (.ofNat n) ∧ toAsciiLowercase (.ofNat n) = .ofNat n := by
    decide +kernel
  have hb := hall ⟨b.toNat, b.toNat_lt⟩
  rw [UInt8.ofNat_toNat] at hb
  exact hb h

theorem popTrailingS_fixed {fuel : Nat} {term : Term}
    (h : ¬(term.length > 4 ∧ term.getLast? = some byteS)) : popTrailingS fuel term = term := by
  cases fuel with
  | zero => rfl
  | succ fuel =>
    show (if term.length > 4 ∧ term.getLast? = some byteS then _ else term) = term
    rw [if_neg h]

theorem isNormalizedTermV1_iff {term : Term} :
    isNormalizedTermV1 term ↔ 3 ≤ term.length ∧
      (∀ b ∈ term, isAsciiLowercase b || isAsciiDigit b) ∧
      ¬(term.length > 4 ∧ term.getLast? = some byteS) := by
  simp only [isNormalizedTermV1, Bool.and_eq_true, decide_eq_true_eq, List.all_eq_true,
    Bool.not_eq_true', Bool.eq_false_iff, ge_iff_le, and_assoc, ne_eq]

/-- A normalized term is left as it is. -/
theorem normalizeTerm_of_normalized {term : Term} (h : isNormalizedTermV1 term) :
    normalizeTerm term = some term := by
  obtain ⟨hlength, hbytes, hlast⟩ := isNormalizedTermV1_iff.mp h
  have halnum : term.all isAsciiAlphanumeric = true :=
    List.all_eq_true.mpr fun b hb => (alphanumeric_of_lowercase_or_digit (hbytes b hb)).1
  have hlower : term.map toAsciiLowercase = term :=
    (List.map_congr_left fun b hb => (alphanumeric_of_lowercase_or_digit (hbytes b hb)).2).trans
      (List.map_id' term)
  simp only [normalizeTerm, halnum, hlower, popTrailingS_fixed hlast, if_neg hlength.not_gt,
    Bool.not_true, Bool.false_eq_true, if_false]

theorem isNormalizedTermV1_iff_fixed {term : Term} :
    isNormalizedTermV1 term ↔ normalizeTerm term = some term :=
  ⟨normalizeTerm_of_normalized, normalizeTerm_normalized⟩

/-! ## Alphanumeric runs -/

theorem alnumRuns_of_alphanum {run : Option (List Char)} {ch : Char} {rest : List Char}
    (h : ch.isAlphanum) :
    alnumRuns run (ch :: rest) = alnumRuns (some (run.getD [] ++ [ch])) rest := by
  cases run <;> rw [alnumRuns, if_pos h]

/-- The scan at `position` with the run since `start` in hand, none while the two agree, yields the
maximal runs from `start` on in order. -/
theorem alnumRuns_spans (text : List Char) {rest : List Char} (start position : Nat)
    (run : Option (List Char))
    (hrest : text.drop position = rest) (hstart : start ≤ position)
    (hrun : run = if start < position then some (slice text start position) else none)
    (hall : ∀ i, start ≤ i → i < position → At Char.isAlphanum text i)
    (hleft : 0 < start → ¬At Char.isAlphanum text (start - 1)) :
    ∃ spans : List (Nat × Nat),
      alnumRuns run rest = spans.map (fun span => slice text span.1 span.2) ∧
      spans.Pairwise (fun span next => span.2 < next.1) ∧
      ∀ first last, (first, last) ∈ spans ↔
        MaximalRun Char.isAlphanum text first last ∧ start ≤ first := by
  induction rest generalizing start position run with
  | nil =>
    have hend : text.length ≤ position := List.drop_eq_nil_iff.mp hrest
    by_cases hopen : start < position
    · -- the text ends inside a run
      have hlast := (hall (position - 1) (Nat.le_sub_one_of_lt hopen)
        (Nat.sub_one_lt_of_lt hopen)).lt
      obtain rfl : position = text.length := by omega
      rw [if_pos hopen] at hrun
      refine ⟨[(start, text.length)], by rw [hrun]; rfl, List.pairwise_singleton _ _, ?_⟩
      intro first last
      rw [List.mem_singleton]
      constructor
      · intro h
        obtain ⟨rfl, rfl⟩ := Prod.mk.inj h
        exact ⟨⟨hopen, hall, hleft, not_at_length⟩, Nat.le_refl _⟩
      · rintro ⟨hmax, hlow⟩
        have hhigh : first ≤ text.length := hmax.nonempty.le.trans hmax.stop_le
        obtain rfl := hmax.start_eq hall hlow hhigh
        rw [hmax.stop_eq ⟨hopen, hall, hleft, not_at_length⟩]
    · rw [if_neg hopen] at hrun
      refine ⟨[], by rw [hrun]; rfl, .nil, ?_⟩
      intro first last
      constructor
      · intro h
        cases h
      · rintro ⟨hmax, hlow⟩
        have := hmax.nonempty
        have := hmax.stop_le
        omega
  | cons ch rest ih =>
    have hat : At Char.isAlphanum text position ↔ ch.isAlphanum := at_iff_of_drop hrest
    have hnext : text.drop (position + 1) = rest := by
      rw [← List.drop_drop, hrest]
      rfl
    by_cases hch : ch.isAlphanum
    · -- the run goes on
      have hgrown : run.getD [] ++ [ch] = slice text start (position + 1) := by
        rw [slice_succ hstart hrest, hrun]
        split
        next => rfl
        next hopen =>
          obtain rfl : start = position := Nat.le_antisymm hstart (Nat.not_lt.mp hopen)
          rw [slice_self]
          rfl
      rw [alnumRuns_of_alphanum hch, hgrown]
      refine ih start (position + 1) _ hnext (Nat.le_succ_of_le hstart)
        (by rw [if_pos (Nat.lt_succ_of_le hstart)]) ?_ hleft
      intro i hlow hhigh
      rcases Nat.lt_succ_iff_lt_or_eq.mp hhigh with hbefore | rfl
      · exact hall i hlow hbefore
      · exact hat.mpr hch
    · -- the run in hand, if any, ends here
      obtain ⟨spans, hspans, hordered, hexact⟩ := ih (position + 1) (position + 1) none hnext
        (Nat.le_refl _) (by rw [if_neg (Nat.lt_irrefl _)])
        (fun i hlow hhigh => absurd hhigh (Nat.not_lt.mpr hlow)) (fun _ h => hch (hat.mp h))
      by_cases hopen : start < position
      · rw [if_pos hopen] at hrun
        have hscan : alnumRuns run (ch :: rest) =
            slice text start position :: alnumRuns none rest := by
          rw [hrun, alnumRuns, if_neg hch]
        have hrunMax : MaximalRun Char.isAlphanum text start position :=
          ⟨hopen, hall, hleft, fun h => hch (hat.mp h)⟩
        refine ⟨(start, position) :: spans, by rw [hscan, hspans]; rfl, ?_, ?_⟩
        · refine List.pairwise_cons.mpr ⟨?_, hordered⟩
          rintro ⟨first, last⟩ hmem
          exact ((hexact first last).mp hmem).2
        · intro first last
          rw [List.mem_cons, hexact]
          constructor
          · rintro (h | ⟨hmax, hlow⟩)
            · obtain ⟨rfl, rfl⟩ := Prod.mk.inj h
              exact ⟨hrunMax, Nat.le_refl _⟩
            · exact ⟨hmax, by omega⟩
          · rintro ⟨hmax, hlow⟩
            by_cases hhigh : first ≤ position
            · obtain rfl := hmax.start_eq hall hlow hhigh
              exact .inl (by rw [hmax.stop_eq hrunMax])
            · exact .inr ⟨hmax, Nat.not_le.mp hhigh⟩
      · rw [if_neg hopen] at hrun
        have hscan : alnumRuns run (ch :: rest) = alnumRuns none rest := by
          rw [hrun, alnumRuns, if_neg hch]
        refine ⟨spans, by rw [hscan, hspans], hordered, ?_⟩
        intro first last
        rw [hexact]
        refine and_congr_right fun hmax => ⟨by omega, fun hlow => ?_⟩
        have hfirst : first ≠ position := by
          rintro rfl
          exact hch (hat.mp (hmax.all first (Nat.le_refl _) hmax.nonempty))
        omega

/-! ## Subtokens -/

/-- The loop of `identifier_subtokens` over the positions below `n + 1`. -/
def subtokenLoop (token : List Char) (n : Nat) : List (List Char) × Nat :=
  (List.range' 1 n).foldl
    (fun (parts, start) idx =>
      if splitsAt token idx then
        (if start < idx then parts ++ [(token.drop start).take (idx - start)] else parts, idx)
      else (parts, start))
    ([], 0)

theorem subtokenLoop_spec (token : List Char) (n : Nat) (hn : n < token.length) :
    (subtokenLoop token n).2 ≤ n ∧
      (subtokenLoop token n).1.flatten = token.take (subtokenLoop token n).2 ∧
      ∀ part ∈ (subtokenLoop token n).1, part ≠ [] := by
  induction n with
  | zero => exact ⟨Nat.le_refl _, rfl, fun part h => absurd h List.not_mem_nil⟩
  | succ n ih =>
    obtain ⟨hstart, hflat, hparts⟩ := ih (Nat.lt_of_succ_lt hn)
    have hstep : subtokenLoop token (n + 1) =
        if splitsAt token (n + 1) then
          (if (subtokenLoop token n).2 < n + 1 then
            (subtokenLoop token n).1 ++
              [slice token (subtokenLoop token n).2 (n + 1)]
          else (subtokenLoop token n).1, n + 1)
        else subtokenLoop token n := by
      unfold subtokenLoop slice
      rw [List.range'_1_concat, List.foldl_append, Nat.add_comm 1 n]
      rfl
    rw [hstep]
    split
    · rw [if_pos (Nat.lt_succ_of_le hstart)]
      refine ⟨Nat.le_refl _, ?_, ?_⟩
      · rw [List.flatten_append, hflat, List.flatten_singleton]
        exact take_append_slice (Nat.le_succ_of_le hstart)
      · intro part hpart
        rcases List.mem_append.mp hpart with hpart | hpart
        · exact hparts part hpart
        · rw [List.mem_singleton.mp hpart]
          exact slice_ne_nil (Nat.lt_succ_of_le hstart) hn
    · exact ⟨Nat.le_succ_of_le hstart, hflat, hparts⟩

/-- The parts of a token with at least two characters: the loop leaves the last one open. -/
def subtokenParts (token : List Char) : List (List Char) :=
  (subtokenLoop token (token.length - 1)).1 ++
    [token.drop (subtokenLoop token (token.length - 1)).2]

theorem identifierSubtokens_eq {token : List Char} (h : 2 ≤ token.length) :
    identifierSubtokens token =
      if (subtokenParts token).length ≤ 1 then [] else subtokenParts token := by
  have hopen : (subtokenLoop token (token.length - 1)).2 < token.length := by
    have := (subtokenLoop_spec token (token.length - 1) (by omega)).1
    omega
  have hparts : subtokenParts token =
      if (subtokenLoop token (token.length - 1)).2 < token.length then subtokenParts token
      else (subtokenLoop token (token.length - 1)).1 := by
    rw [if_pos hopen]
  rw [hparts]
  unfold identifierSubtokens
  rw [if_neg (Nat.not_lt.mpr h)]
  rfl

theorem subtokenParts_spec {token : List Char} (h : 2 ≤ token.length) :
    (subtokenParts token).flatten = token ∧ ∀ part ∈ subtokenParts token, part ≠ [] := by
  obtain ⟨hstart, hflat, hparts⟩ := subtokenLoop_spec token (token.length - 1) (by omega)
  unfold subtokenParts
  constructor
  · rw [List.flatten_append, hflat, List.flatten_singleton, List.take_append_drop]
  · intro part hpart
    rcases List.mem_append.mp hpart with hpart | hpart
    · exact hparts part hpart
    · rw [List.mem_singleton.mp hpart]
      exact List.ne_nil_of_length_pos (by rw [List.length_drop]; omega)

theorem identifierSubtokens_cases (token : List Char) :
    identifierSubtokens token = [] ∨
      2 ≤ (identifierSubtokens token).length ∧ (∀ part ∈ identifierSubtokens token, part ≠ []) ∧
        (identifierSubtokens token).flatten = token := by
  by_cases hlength : token.length < 2
  · left
    unfold identifierSubtokens
    rw [if_pos hlength]
  · obtain ⟨hflat, hparts⟩ := subtokenParts_spec (Nat.not_lt.mp hlength)
    rw [identifierSubtokens_eq (Nat.not_lt.mp hlength)]
    split
    next => exact .inl rfl
    next hmany => exact .inr ⟨Nat.lt_of_not_le hmany, hparts, hflat⟩

/-- Every term that a text yields is in the reader's normal form, which is what `normalize_term`
leaves as it is; tokens are the maximal alphanumeric runs in order, and their subtokens make them
up. -/
theorem tokens_in_normal_form :
    (∀ tokenizer text, ∀ term ∈ tokenizeText tokenizer text, isNormalizedTermV1 term) ∧
    (∀ term out, normalizeTerm term = some out →
      isNormalizedTermV1 out ∧ normalizeTerm out = some out) ∧
    (∀ term, isNormalizedTermV1 term ↔ normalizeTerm term = some term) ∧
    (∀ text, ∃ spans : List (Nat × Nat),
      asciiAlnumTokens text = spans.map (fun span => slice text span.1 span.2) ∧
      spans.Pairwise (fun span next => span.2 < next.1) ∧
      ∀ start stop, (start, stop) ∈ spans ↔ MaximalRun Char.isAlphanum text start stop) ∧
    ∀ text, ∀ token ∈ asciiAlnumTokens text,
      identifierSubtokens token = [] ∨
        2 ≤ (identifierSubtokens token).length ∧ (∀ part ∈ identifierSubtokens token, part ≠ []) ∧
          (identifierSubtokens token).flatten = token := by
  refine ⟨fun _ _ _ => tokenizeText_normalized, ?_, fun _ => isNormalizedTermV1_iff_fixed, ?_,
    fun _ token _ => identifierSubtokens_cases token⟩
  · intro term out h
    have hout := normalizeTerm_normalized h
    exact ⟨hout, normalizeTerm_of_normalized hout⟩
  · intro text
    obtain ⟨spans, htokens, hordered, hexact⟩ :=
      alnumRuns_spans text 0 0 none List.drop_zero (Nat.le_refl 0)
        (by rw [if_neg (Nat.lt_irrefl 0)]) (fun i _ h => absurd h (Nat.not_lt_zero i))
        (fun h => absurd h (Nat.lt_irrefl 0))
    exact ⟨spans, htokens, hordered, fun start stop =>
      (hexact start stop).trans (and_iff_left (Nat.zero_le start))⟩

end OrdinalDB.Sparse
