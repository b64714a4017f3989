import OrdinalDB.Store.Mutations

/-!
# Spellings of index paths

An index path without a `.` component is accepted exactly when it is
`index.odb` or the canonical name of a generation under `vectors/`; different
accepted paths of this kind denote different directories, and different
generations under `vectors/` have different ids (`index_path_spelling`).

`Path::components` drops a `.` that is not leading, so paths with one have
aliases (`dot_component_alias`). A gc update may name any generation, the active
one included.
-/

namespace OrdinalDB.Store

open Text

/-! ## Canonical paths -/

def generationPath (digits : List Char) : String :=
  String.ofList ("vectors/g".toList ++ digits ++ ".odb".toList)

/-- `index.odb`, or twelve digits that are not all zero between `vectors/g` and `.odb`. -/
inductive Canonical : String → Prop
  | index : Canonical indexDir
  | generation {digits : List Char} (width : digits.length = 12)
      (ascii : ∀ c ∈ digits, c.isDigit) (nonzero : digits ≠ List.replicate 12 '0') :
      Canonical (generationPath digits)

/-- The names on the way to what a relative path without `..` denotes. -/
def pathNames (value : String) : List (List Char) :=
  (value.toList.splitOn '/').filter fun part => part ≠ [] && part ≠ ['.']

/-- Some component is a `.`. -/
def HasDot (value : String) : Prop := ['.'] ∈ value.toList.splitOn '/'

instance (value : String) : Decidable (HasDot value) := inferInstanceAs (Decidable (_ ∈ _))

/-! ## Components -/

def componentOf (part : List Char) : Component :=
  if part = ['.', '.'] then .parentDir else .normal (String.ofList part)

theorem components_eq {value : String} (hempty : [] ∉ value.toList.splitOn '/')
    (hdot : ¬HasDot value) : components value = (value.toList.splitOn '/').map componentOf := by
  have hsingle : ['.'] ∉ value.toList.splitOn '/' := hdot
  have hmap : components value =
      (value.toList.splitOn '/').zipIdx.map fun entry => componentOf entry.1 := by
    refine List.filterMap_eq_map_iff_forall_eq_some.mpr fun entry hentry => ?_
    have hpart := List.fst_mem_of_mem_zipIdx hentry
    have hnil : entry.1 ≠ [] := fun h => hempty (h ▸ hpart)
    have hcur : entry.1 ≠ ['.'] := fun h => hsingle (h ▸ hpart)
    simp only [hnil, hcur, if_false, componentOf]
    split <;> rfl
  rw [hmap, ← Function.comp_def componentOf, ← List.map_map, List.zipIdx_map_fst]

theorem pathNames_eq {value : String} (hempty : [] ∉ value.toList.splitOn '/')
    (hdot : ¬HasDot value) : pathNames value = value.toList.splitOn '/' := by
  refine List.filter_eq_self.mpr fun part hpart => ?_
  have hnil : part ≠ [] := fun h => hempty (h ▸ hpart)
  have hsingle : ['.'] ∉ value.toList.splitOn '/' := hdot
  have hcur : part ≠ ['.'] := fun h => hsingle (h ▸ hpart)
  simp [hnil, hcur]

/-- A path without `.` is valid when its parts are names, without backslashes. -/
theorem validateRelativePath_iff {value : String} (hdot : ¬HasDot value) :
    validateRelativePath value ↔ [] ∉ value.toList.splitOn '/' ∧
      ['.', '.'] ∉ value.toList.splitOn '/' ∧ '\\' ∉ value.toList := by
  simp only [validateRelativePath, Bool.and_eq_true, decide_eq_true_eq, Bool.not_eq_true',
    Option.isNone_iff_eq_none, List.all_eq_true]
  constructor
  · rintro ⟨⟨⟨⟨⟨hne, hback⟩, hdouble⟩, hlast⟩, hhead⟩, hall⟩
    have hempty : [] ∉ value.toList.splitOn '/' := by
      intro hmem
      rcases nil_mem_splitOn hmem with hnil | hfirst | hfinal | ⟨left, right, htext⟩
      · exact hne hnil
      · exact hhead hfirst
      · exact hlast hfinal
      · have hfound : (splitOnce ['/', '/'] (left ++ ['/', '/'] ++ right)).isSome :=
          splitOnce_isSome
        rw [← htext, show splitOnce ['/', '/'] value.toList = none from hdouble] at hfound
        cases hfound
    refine ⟨hempty, fun hparent => ?_, by simpa using hback⟩
    rw [components_eq hempty hdot] at hall
    have := hall _ (List.mem_map_of_mem hparent)
    simp [componentOf] at this
  · rintro ⟨hempty, hparent, hback⟩
    refine ⟨⟨⟨⟨⟨?_, by simpa using hback⟩, ?_⟩, ?_⟩, ?_⟩, ?_⟩
    · intro hnil
      exact hempty (by simp [hnil])
    · refine Option.eq_none_iff_forall_ne_some.mpr fun parts hparts => hempty ?_
      have htext : value.toList = parts.1 ++ '/' :: '/' :: parts.2 := by
        simpa using eq_of_splitOnce hparts
      rw [htext, List.splitOn_append_cons_self, List.splitOn_cons_eq_if_modifyHead]
      simp
    · intro hlast
      obtain ⟨init, htext⟩ := List.getLast?_eq_some_iff.mp hlast
      refine hempty ?_
      rw [htext, List.splitOn_append_cons_self]
      simp
    · intro hhead
      obtain ⟨rest, htext⟩ := List.head?_eq_some_iff.mp hhead
      refine hempty ?_
      rw [htext, List.splitOn_cons_eq_if_modifyHead]
      simp
    · intro component hcomponent
      rw [components_eq hempty hdot] at hcomponent
      obtain ⟨part, hpart, rfl⟩ := List.mem_map.mp hcomponent
      have hname : part ≠ ['.', '.'] := fun h => hparent (h ▸ hpart)
      simp [componentOf, hname]

/-! ## Generation names -/

theorem parseGenerationDir_eq_some {name : String} {id : Nat} :
    parseGenerationDir name = some id ↔ ∃ digits : List Char,
      name.toList = 'g' :: (digits ++ ".odb".toList) ∧ digits.length = 12 ∧
        (∀ c ∈ digits, c.isDigit) ∧ digits ≠ List.replicate 12 '0' ∧
        Nat.ofDigitChars 10 digits 0 = id := by
  unfold parseGenerationDir
  constructor
  · intro h
    split at h
    next rest hname =>
      split at h
      next hrest =>
        obtain ⟨hparse, hpos⟩ := Option.filter_eq_some_iff.mp h
        have hlength : (rest.take 12).length = 12 := by simp [hrest.1]
        unfold parseDecimal at hparse
        split at hparse
        next => cases hparse
        next hdigits =>
          have hascii : ∀ c ∈ rest.take 12, c.isDigit := by
            simp only [not_or, not_not, List.all_eq_true] at hdigits
            exact hdigits.2
          split at hparse
          next =>
            obtain rfl := Option.some.inj hparse
            refine ⟨rest.take 12, ?_, hlength, hascii, ?_, rfl⟩
            · rw [hname, ← hrest.2, List.take_append_drop]
            · have := (ofDigitChars_pos hascii).mp (of_decide_eq_true hpos)
              rwa [hlength] at this
          next => cases hparse
      next => cases h
    next => cases h
  · rintro ⟨digits, hname, hlength, hascii, hzero, rfl⟩
    have hpos : 0 < Nat.ofDigitChars 10 digits 0 :=
      (ofDigitChars_pos hascii).mpr (by rwa [hlength])
    have hbound : Nat.ofDigitChars 10 digits 0 < u64Bound := by
      have hlt := ofDigitChars_lt hascii 0
      rw [hlength] at hlt
      exact hlt.trans (by decide)
    have hdigits : ¬(digits = [] ∨ ¬digits.all Char.isDigit) := by
      simp only [not_or, not_not, List.all_eq_true]
      exact ⟨fun hnil => by simp [hnil] at hlength, hascii⟩
    rw [hname]
    have hrest : (digits ++ ".odb".toList).length = 16 ∧
        (digits ++ ".odb".toList).drop 12 = ".odb".toList := by
      simp [hlength]
    have htake : (digits ++ ".odb".toList).take 12 = digits := by simp [hlength]
    show (if (digits ++ ".odb".toList).length = 16 ∧ _ then _ else none) = _
    rw [if_pos hrest, htake, parseDecimal, if_neg hdigits, if_pos hbound]
    simp [hpos]

theorem slash_not_mem_digits {digits : List Char} (h : ∀ c ∈ digits, c.isDigit) :
    '/' ∉ digits := by
  intro hmem
  have := h '/' hmem
  simp at this

theorem backslash_not_mem_digits {digits : List Char} (h : ∀ c ∈ digits, c.isDigit) :
    '\\' ∉ digits := by
  intro hmem
  have := h '\\' hmem
  simp at this

theorem toList_generationPath (digits : List Char) :
    (generationPath digits).toList =
      "vectors".toList ++ '/' :: ('g' :: (digits ++ ".odb".toList)) := by
  have hprefix : "vectors/g".toList = "vectors".toList ++ ['/', 'g'] := by decide
  have htext : (generationPath digits).toList = "vectors/g".toList ++ digits ++ ".odb".toList :=
    String.toList_ofList
  rw [htext, hprefix]
  simp only [List.append_assoc, List.cons_append, List.nil_append]

theorem splitOn_generationPath {digits : List Char} (h : ∀ c ∈ digits, c.isDigit) :
    (generationPath digits).toList.splitOn '/' =
      ["vectors".toList, 'g' :: (digits ++ ".odb".toList)] := by
  have hsuffix : '/' ∉ ".odb".toList := by decide
  have hname : '/' ∉ 'g' :: (digits ++ ".odb".toList) := by
    simp only [List.mem_cons, List.mem_append, not_or]
    exact ⟨by decide, slash_not_mem_digits h, hsuffix⟩
  rw [toList_generationPath, List.splitOn_append_cons_self_of_not_mem (by decide),
    List.splitOn_eq_singleton hname]

theorem not_hasDot_generationPath {digits : List Char} (h : ∀ c ∈ digits, c.isDigit) :
    ¬HasDot (generationPath digits) := by
  have hfirst : ['.'] ≠ "vectors".toList := by decide
  have hsecond : ['.'] ≠ 'g' :: (digits ++ ".odb".toList) :=
    fun h => absurd (List.cons.inj h).1 (by decide)
  unfold HasDot
  rw [splitOn_generationPath h, List.mem_pair, not_or]
  exact ⟨hfirst, hsecond⟩

/-- A canonical generation path is located by its name. -/
theorem locate_generationPath {digits : List Char} (hwidth : digits.length = 12)
    (hascii : ∀ c ∈ digits, c.isDigit) (hzero : digits ≠ List.replicate 12 '0') :
    locate (generationPath digits) =
      some (.vectors (String.ofList ('g' :: (digits ++ ".odb".toList)))) := by
  have hdot := not_hasDot_generationPath hascii
  have hsplit := splitOn_generationPath hascii
  have hvalid : validateRelativePath (generationPath digits) := by
    rw [validateRelativePath_iff hdot, hsplit]
    have hvectors : '\\' ∉ "vectors".toList := by decide
    have hsuffix : '\\' ∉ ".odb".toList := by decide
    have hfirst : [] ≠ "vectors".toList ∧ ['.', '.'] ≠ "vectors".toList := by decide
    have hnil : ([] : List Char) ≠ 'g' :: (digits ++ ".odb".toList) := fun h => nomatch h
    have hparent : ['.', '.'] ≠ 'g' :: (digits ++ ".odb".toList) :=
      fun h => absurd (List.cons.inj h).1 (by decide)
    refine ⟨fun h => ?_, fun h => ?_, ?_⟩
    · exact (List.mem_pair.mp h).elim hfirst.1 hnil
    · exact (List.mem_pair.mp h).elim hfirst.2 hparent
    · simp only [toList_generationPath, List.mem_append, List.mem_cons, not_or]
      exact ⟨hvectors, by decide, by decide, backslash_not_mem_digits hascii, hsuffix⟩
  have hcomponents : components (generationPath digits) =
      [.normal vectorsDir, .normal (String.ofList ('g' :: (digits ++ ".odb".toList)))] := by
    rw [components_eq ((validateRelativePath_iff hdot).mp hvalid).1 hdot, hsplit]
    have hfirst : componentOf "vectors".toList = .normal vectorsDir := by decide
    have hsecond : 'g' :: (digits ++ ".odb".toList) ≠ ['.', '.'] :=
      fun h => absurd (List.cons.inj h).1 (by decide)
    rw [List.map_cons, List.map_cons, List.map_nil, hfirst, componentOf, if_neg hsecond]
  have hindex : generationPath digits ≠ indexDir := by
    intro h
    have hhead := congrArg (fun value : String => '/' ∈ value.toList) h
    have hslash : '/' ∉ indexDir.toList := by decide
    refine hslash (hhead ▸ ?_)
    rw [toList_generationPath]
    exact List.mem_append_right _ List.mem_cons_self
  have hparse : (parseGenerationDir (String.ofList ('g' :: (digits ++ ".odb".toList)))).isSome :=
    Option.isSome_of_eq_some
      (parseGenerationDir_eq_some.mpr ⟨digits, String.toList_ofList, hwidth, hascii, hzero, rfl⟩)
  simp only [locate, hvalid, Bool.not_true, Bool.false_eq_true, if_false, hindex, hcomponents]
  exact if_pos ⟨trivial, hparse⟩

/-! ## Spellings -/

theorem Canonical.valid {value : String} (h : Canonical value) : validateIndexPath value := by
  obtain ⟨⟩ | ⟨hwidth, hascii, hzero⟩ := h
  · decide
  · exact Option.isSome_of_eq_some (locate_generationPath hwidth hascii hzero)

theorem relative_of_validateIndexPath {value : String} (h : validateIndexPath value) :
    validateRelativePath value := by
  unfold validateIndexPath locate at h
  split at h
  next => cases h
  next hrelative => simpa using hrelative

/-- Without `.` components exactly the canonical paths are accepted. -/
theorem validateIndexPath_iff {value : String} (hdot : ¬HasDot value) :
    validateIndexPath value ↔ Canonical value := by
  constructor
  · intro h
    unfold validateIndexPath locate at h
    split at h
    next => cases h
    next hvalid =>
      have hempty := ((validateRelativePath_iff hdot).mp (by simpa using hvalid)).1
      split at h
      next hindex => exact hindex ▸ .index
      next =>
        split at h
        next first second hcomponents =>
          split at h
          next hname =>
            rw [components_eq hempty hdot] at hcomponents
            obtain ⟨left, right, hsplit, hleft, hright⟩ :
                ∃ left right, value.toList.splitOn '/' = [left, right] ∧
                  componentOf left = .normal first ∧ componentOf right = .normal second := by
              cases hparts : value.toList.splitOn '/' with
              | nil => simp [hparts] at hcomponents
              | cons left rest =>
                rw [hparts] at hcomponents
                obtain ⟨hleft, hrest⟩ := List.cons.inj hcomponents
                obtain ⟨right, hright⟩ := List.length_eq_one_iff.mp
                  (by simpa using congrArg List.length hrest : rest.length = 1)
                subst hright
                exact ⟨left, right, rfl, hleft, (List.cons.inj hrest).1⟩
            have hnormal : ∀ {part : List Char} {name : String},
                componentOf part = .normal name → part = name.toList := by
              intro part name hpart
              unfold componentOf at hpart
              split at hpart
              next => cases hpart
              next => rw [← Component.normal.inj hpart, String.toList_ofList]
            obtain ⟨id, hid⟩ := Option.isSome_iff_exists.mp hname.2
            obtain ⟨digits, hsecond, hwidth, hascii, hzero, -⟩ := parseGenerationDir_eq_some.mp hid
            have htext : value.toList = (generationPath digits).toList := by
              refine splitOn_injective (a := '/') ?_
              show value.toList.splitOn '/' = (generationPath digits).toList.splitOn '/'
              rw [hsplit, splitOn_generationPath hascii, hnormal hleft, hnormal hright, hname.1,
                hsecond]
              rfl
            rw [String.toList_inj.mp htext]
            exact .generation hwidth hascii hzero
          next => cases h
        next => cases h
  · exact Canonical.valid

/-- Accepted paths without `.` that name one directory are one path. -/
theorem indexPath_unique {a b : String} (ha : ¬HasDot a) (hb : ¬HasDot b)
    (hvalidA : validateIndexPath a) (hvalidB : validateIndexPath b)
    (h : pathNames a = pathNames b) : a = b := by
  have hempty : ∀ {value : String}, ¬HasDot value → validateIndexPath value →
      [] ∉ value.toList.splitOn '/' := fun hdot hvalid =>
    ((validateRelativePath_iff hdot).mp (relative_of_validateIndexPath hvalid)).1
  rw [pathNames_eq (hempty ha hvalidA) ha, pathNames_eq (hempty hb hvalidB) hb] at h
  exact String.toList_inj.mp (splitOn_injective h)

theorem generationId_generationPath {digits : List Char} (hwidth : digits.length = 12)
    (hascii : ∀ c ∈ digits, c.isDigit) (hzero : digits ≠ List.replicate 12 '0') :
    generationIdFromIndexPath (generationPath digits) = some (Nat.ofDigitChars 10 digits 0) := by
  rw [generationIdFromIndexPath, locate_generationPath hwidth hascii hzero]
  exact parseGenerationDir_eq_some.mpr
    ⟨digits, String.toList_ofList, hwidth, hascii, hzero, rfl⟩

/-- A gc update on a canonical generation path is accepted whatever generation is active. -/
theorem validateGcUpdate_generationPath {update : GenerationGcUpdate}
    (hpath : Canonical update.path) (hindex : update.path ≠ indexDir) :
    validateGcUpdate update ↔ isValidGenerationLifecycleState update.state ∧
      ¬update.reason.toList.all isWhitespace := by
  have hrelative := relative_of_validateIndexPath hpath.valid
  simp [validateGcUpdate, hrelative, hindex]

theorem index_path_spelling :
    (∀ value, ¬HasDot value → (validateIndexPath value ↔ Canonical value)) ∧
    (∀ a b, ¬HasDot a → ¬HasDot b → validateIndexPath a → validateIndexPath b →
      pathNames a = pathNames b → a = b) ∧
    (∀ a b, ¬HasDot a → ¬HasDot b → validateIndexPath a → validateIndexPath b →
      a ≠ indexDir → b ≠ indexDir →
      generationIdFromIndexPath a = generationIdFromIndexPath b → a = b) ∧
    (∀ update, ¬HasDot update.path → validateGcUpdate update →
      pathNames update.path ≠ [indexDir.toList]) ∧
    ∀ update, Canonical update.path → update.path ≠ indexDir →
      (validateGcUpdate update ↔ isValidGenerationLifecycleState update.state ∧
        ¬update.reason.toList.all isWhitespace) := by
  refine ⟨fun value => validateIndexPath_iff, fun a b => indexPath_unique, ?_, ?_,
    fun update => validateGcUpdate_generationPath⟩
  · intro a b ha hb hvalidA hvalidB hindexA hindexB h
    obtain ⟨⟩ | ⟨hwidth, hascii, hzero⟩ := (validateIndexPath_iff ha).mp hvalidA
    · exact absurd rfl hindexA
    obtain ⟨⟩ | ⟨hwidth', hascii', hzero'⟩ := (validateIndexPath_iff hb).mp hvalidB
    · exact absurd rfl hindexB
    rw [generationId_generationPath hwidth hascii hzero,
      generationId_generationPath hwidth' hascii' hzero'] at h
    rw [(ofDigitChars_injective hascii hascii' (hwidth.trans hwidth'.symm) (Option.some.inj h)).1]
  · intro update hdot hvalid hnames
    simp only [validateGcUpdate, Bool.and_eq_true, decide_eq_true_eq] at hvalid
    have hempty := ((validateRelativePath_iff hdot).mp hvalid.1.1.1).1
    rw [pathNames_eq hempty hdot] at hnames
    refine hvalid.1.1.2 (String.toList_inj.mp (splitOn_injective (a := '/') ?_))
    show update.path.toList.splitOn '/' = indexDir.toList.splitOn '/'
    rw [hnames]
    decide

theorem index_path_spelling_first : validateIndexPath "vectors/g000000000001.odb" := by
  have hdot : ¬HasDot "vectors/g000000000001.odb" := by decide
  have hcanonical : Canonical (generationPath (List.replicate 11 '0' ++ ['1'])) :=
    .generation rfl (by simp) (by decide)
  have hspelled : generationPath (List.replicate 11 '0' ++ ['1']) = "vectors/g000000000001.odb" := by
    decide
  exact (index_path_spelling.1 _ hdot).mpr (hspelled ▸ hcanonical)

/-- A second spelling of a generation and of `index.odb`, and gc updates on `index.odb` and on
a canonical path. -/
theorem dot_component_alias :
    validateIndexPath "vectors/./g000000000001.odb" ∧
    pathNames "vectors/./g000000000001.odb" = pathNames "vectors/g000000000001.odb" ∧
    generationIdFromIndexPath "vectors/./g000000000001.odb" =
      generationIdFromIndexPath "vectors/g000000000001.odb" ∧
    validateIndexPath "vectors/g000000000001.odb" ∧
    ¬Canonical "vectors/./g000000000001.odb" ∧
    (validateGcUpdate ⟨none, "index.odb/.", "deleting", "gc"⟩ ∧
      pathNames "index.odb/." = [indexDir.toList]) ∧
    validateGcUpdate ⟨some 1, "vectors/g000000000001.odb", "deleting", "gc"⟩ := by
  refine ⟨by decide, by decide, by decide, by decide, ?_,
    ⟨by decide, by decide⟩, by decide⟩
  generalize hvalue : "vectors/./g000000000001.odb" = value
  intro hcanonical
  obtain ⟨⟩ | ⟨hwidth, hascii, hzero⟩ := hcanonical
  · exact absurd hvalue (by decide)
  · exact not_hasDot_generationPath hascii (hvalue ▸ by decide)

end OrdinalDB.Store
