import OrdinalDB.Bundle.Separation
import OrdinalDB.Store.IndexPaths
import OrdinalDB.Store.Shared

/-!
# Names of interrupted replacements

`parse_generation_debris_name` of `ordinaldb-adapter-store/src/lib.rs` recovers
the generation from a name that `temp_bundle_path` and
`unique_backup_bundle_path` of `ordinaldb/src/io.rs` have decorated. It looks
for the first temporary decoration before it looks for a backup decoration, so a
generation whose backup name was decorated as temporary is not recovered
(`attributed_iff`).
-/

namespace OrdinalDB.Debris

open OrdinalDB.Bundle Store Text
open SharedStore (generationDirName)

/-- `parse_generation_debris_name`. -/
def parseGenerationDebrisName (name : String) : Option Nat :=
  let trimmed := name.toList.dropWhile (· = '.')
  if trimmed.length = name.toList.length then none
  else do
    let (generation, suffix) ← (splitOnce tmpMark trimmed).or (splitOnce bakMark trimmed)
    if suffix = [] then none else parseGenerationDir (String.ofList generation)

/-! ## Decorated names -/

inductive Mark
  | temp
  | backup
deriving DecidableEq, Repr

def Mark.text : Mark → List Char
  | temp => tmpMark
  | backup => bakMark

/-- `.tmp-{pid}-{nanos}` or `.bak-{pid}-{nanos}`. -/
structure Decoration where
  mark : Mark
  pid : Nat
  nanos : Nat
deriving DecidableEq, Repr

namespace Decoration

def stamp (decoration : Decoration) : List Char :=
  decimal decoration.pid ++ '-' :: decimal decoration.nanos

def text (decoration : Decoration) : List Char := decoration.mark.text ++ decoration.stamp

def isTemp (decoration : Decoration) : Bool := decoration.mark = .temp

end Decoration

/-- A generation's directory name with leading dots and decorations behind. -/
def scratchName (dots id : Nat) (decorations : List Decoration) : List Char :=
  List.replicate dots '.' ++ (generationDirName id).toList ++ decorations.flatMap Decoration.text

/-- What the two functions make of a generation's directory name, again and again. -/
inductive Produced (id : Nat) : Name → Prop
  | temp {pid nanos : Nat} :
    Produced id (tempBundleName (.ofString (generationDirName id)) pid nanos)
  | backup {pid nanos : Nat} :
    Produced id (uniqueBackupBundleName (.ofString (generationDirName id)) pid nanos)
  | tempAgain {name : Name} {pid nanos : Nat} (h : Produced id name) :
    Produced id (tempBundleName name pid nanos)
  | backupAgain {name : Name} {pid nanos : Nat} (h : Produced id name) :
    Produced id (uniqueBackupBundleName name pid nanos)

/-- The name gives its generation, no generation's directory bears it, and a temporary name made
of it bears one temporary decoration if it bears one itself. -/
structure Attributed (dots id : Nat) (decorations : List Decoration) : Prop where
  debris : parseGenerationDebrisName (String.ofList (scratchName dots id decorations)) = some id
  notGeneration : parseGenerationDir (String.ofList (scratchName dots id decorations)) = none
  oneTemp : decorations.any Decoration.isTemp → ∀ pid nanos, ∃ backups : List Decoration,
    (∀ decoration ∈ backups, decoration.mark = .backup) ∧
      tempBundleName (Utf8.encode (scratchName dots id decorations)) pid nanos =
        Utf8.encode (scratchName 1 id (backups ++ [⟨.temp, pid, nanos⟩]))

/-! ## Generation names -/

/-- The digits of a generation's directory name. -/
def generationDigits (id : Nat) : List Char := (Nat.toDigits 10 id).leftpad 12 '0'

theorem generationDirName_toList (id : Nat) :
    (generationDirName id).toList = 'g' :: generationDigits id ++ ".odb".toList := by
  unfold generationDirName generationDigits
  rw [String.toList_ofList]

theorem isDigit_of_mem_generationDigits {id : Nat} {c : Char} (h : c ∈ generationDigits id) :
    c.isDigit := by
  unfold generationDigits List.leftpad at h
  rcases List.mem_append.mp h with hzero | hdigit
  · rw [List.eq_of_mem_replicate hzero]
    rfl
  · exact isDigit_of_mem_decimal hdigit

theorem parseGenerationDir_generationDirName {id : Nat} (hid : 0 < id) (hlast : id ≤ 999999999999) :
    parseGenerationDir (generationDirName id) = some id := by
  have hdigits : (Nat.toDigits 10 id).length ≤ 12 :=
    Nat.toDigits_length 10 id 12 (by decide) (Nat.lt_succ_of_le hlast)
  have hvalue : Nat.ofDigitChars 10 (generationDigits id) 0 = id := by
    unfold generationDigits List.leftpad
    rw [Nat.ofDigitChars_append, Nat.ofDigitChars_replicate_zero, Nat.mul_zero,
      Nat.ofDigitChars_ten_toDigits]
  have hlength : (generationDigits id).length = 12 := by
    unfold generationDigits
    rw [List.length_leftpad]
    exact Nat.max_eq_left hdigits
  refine parseGenerationDir_eq_some.mpr ⟨generationDigits id, generationDirName_toList id, hlength,
    fun c hc => isDigit_of_mem_generationDigits hc, ?_, hvalue⟩
  have hpos : 0 < Nat.ofDigitChars 10 (generationDigits id) 0 := by rwa [hvalue]
  have hnonzero := (ofDigitChars_pos fun c hc => isDigit_of_mem_generationDigits hc).mp hpos
  rwa [hlength] at hnonzero

/-- A generation's directory name has a fixed length. -/
theorem length_of_parseGenerationDir {name : String} {id : Nat}
    (h : parseGenerationDir name = some id) : name.toList.length = 17 := by
  obtain ⟨digits, hname, hlength, -⟩ := parseGenerationDir_eq_some.mp h
  rw [hname, List.length_cons, List.length_append, hlength]
  rfl

/-! ## Splitting at a decoration -/

/-- A decoration's mark behind its dot. -/
def Mark.word : Mark → List Char
  | temp => "tmp-".toList
  | backup => "bak-".toList

theorem mark_text (mark : Mark) : mark.text = '.' :: mark.word := by
  cases mark <;> rfl

theorem dot_not_mem_word (mark : Mark) : '.' ∉ mark.word := by
  cases mark <;> decide

theorem word_not_prefix {mark other : Mark} (h : other ≠ mark) (text : List Char) :
    ¬mark.word.isPrefixOf (other.word ++ text) := by
  cases mark <;> cases other
  · exact absurd rfl h
  · exact Bool.false_ne_true
  · exact Bool.false_ne_true
  · exact absurd rfl h

theorem word_not_prefix_odb (mark : Mark) (text : List Char) :
    ¬mark.word.isPrefixOf ("odb".toList ++ text) := by
  cases mark <;> exact Bool.false_ne_true

theorem decoration_text (decoration : Decoration) :
    decoration.text = '.' :: (decoration.mark.word ++ decoration.stamp) := by
  unfold Decoration.text
  rw [mark_text, List.cons_append]

/-- The text of the other decoration is skipped. -/
theorem splitOnce_other {mark : Mark} {decoration : Decoration} {text : List Char}
    (h : decoration.mark ≠ mark) :
    splitOnce mark.text (decoration.text ++ text) =
      (splitOnce mark.text text).map fun parts => (decoration.text ++ parts.1, parts.2) := by
  have hbehind : '.' ∉ decoration.mark.word ++ decoration.stamp :=
    List.not_mem_append (dot_not_mem_word _) not_mem_stamp
  have hhead : ¬('.' :: mark.word).isPrefixOf
      ('.' :: (decoration.mark.word ++ decoration.stamp ++ text)) := by
    rw [List.isPrefixOf_cons_cons, List.append_assoc]
    simpa using word_not_prefix h (decoration.stamp ++ text)
  rw [decoration_text, mark_text, List.cons_append, splitOnce, if_neg hhead,
    splitOnce_skip hbehind, Option.map_map]
  rfl

theorem splitOnce_decorations (mark : Mark) (decorations : List Decoration) :
    splitOnce mark.text (decorations.flatMap Decoration.text) =
      match decorations.dropWhile (·.mark ≠ mark) with
      | [] => none
      | decoration :: rest =>
        some ((decorations.takeWhile (·.mark ≠ mark)).flatMap Decoration.text,
          decoration.stamp ++ rest.flatMap Decoration.text) := by
  induction decorations with
  | nil => cases mark <;> rfl
  | cons decoration decorations ih =>
    rw [List.flatMap_cons]
    by_cases hmark : decoration.mark = mark
    · have hself : decoration.text = '.' :: mark.word ++ decoration.stamp := by
        rw [decoration_text, hmark, List.cons_append]
      rw [hself, mark_text, List.append_assoc, splitOnce_self,
        List.dropWhile_cons_of_neg (by simpa using hmark),
        List.takeWhile_cons_of_neg (by simpa using hmark)]
      rfl
    · rw [splitOnce_other hmark, ih, List.dropWhile_cons_of_pos (by simpa using hmark),
        List.takeWhile_cons_of_pos (by simpa using hmark)]
      split <;> rfl

/-- A generation's directory name is skipped. -/
theorem splitOnce_generation (mark : Mark) (id : Nat) (decorations : List Decoration) :
    splitOnce mark.text ((generationDirName id).toList ++ decorations.flatMap Decoration.text) =
      (splitOnce mark.text (decorations.flatMap Decoration.text)).map fun parts =>
        ((generationDirName id).toList ++ parts.1, parts.2) := by
  have hfront : '.' ∉ 'g' :: generationDigits id := by
    intro h
    rcases List.mem_cons.mp h with hg | hdigit
    · cases hg
    · cases isDigit_of_mem_generationDigits hdigit
  have hodb : '.' ∉ "odb".toList := by decide
  have hhead : ¬('.' :: mark.word).isPrefixOf
      ('.' :: ("odb".toList ++ decorations.flatMap Decoration.text)) := by
    rw [List.isPrefixOf_cons_cons]
    simpa using word_not_prefix_odb mark (decorations.flatMap Decoration.text)
  have hname : (generationDirName id).toList =
      'g' :: generationDigits id ++ '.' :: "odb".toList := generationDirName_toList id
  rw [hname, mark_text, List.append_assoc, splitOnce_skip hfront, List.cons_append, splitOnce,
    if_neg hhead, splitOnce_skip hodb, Option.map_map, Option.map_map]
  refine congrArg (fun f => Option.map f _) (funext fun parts => ?_)
  simp

theorem trimmed_scratchName (dots id : Nat) (decorations : List Decoration) :
    (scratchName dots id decorations).dropWhile (· = '.') =
      (generationDirName id).toList ++ decorations.flatMap Decoration.text := by
  unfold scratchName
  rw [List.append_assoc, List.dropWhile_append_of_pos (by simp [List.mem_replicate]),
    generationDirName_toList]
  rfl

theorem trimmed_shorter {dots : Nat} (hdots : 0 < dots) (id : Nat)
    (decorations : List Decoration) :
    ((scratchName dots id decorations).dropWhile (· = '.')).length ≠
      (scratchName dots id decorations).length := by
  rw [trimmed_scratchName]
  unfold scratchName
  simp only [List.length_append, List.length_replicate]
  omega

theorem stamp_ne_nil (decoration : Decoration) (text : List Char) : decoration.stamp ++ text ≠ [] := by
  unfold Decoration.stamp
  simp

/-- The decorations before the first temporary one. -/
def frontBackups (decorations : List Decoration) : List Decoration :=
  decorations.takeWhile (·.mark ≠ .temp)

theorem mark_of_mem_frontBackups {decorations : List Decoration} {decoration : Decoration}
    (h : decoration ∈ frontBackups decorations) : decoration.mark = .backup := by
  have hmark : decoration.mark ≠ .temp := by simpa using List.mem_takeWhile_imp h
  cases hcase : decoration.mark with
  | temp => exact absurd hcase hmark
  | backup => rfl

theorem splitOnce_temp {decorations : List Decoration} (h : decorations.any Decoration.isTemp)
    (id : Nat) : ∃ suffix, suffix ≠ [] ∧
      splitOnce tmpMark ((generationDirName id).toList ++ decorations.flatMap Decoration.text) =
        some ((generationDirName id).toList ++
          (frontBackups decorations).flatMap Decoration.text, suffix) := by
  obtain ⟨decoration, hmem, htemp⟩ := List.any_eq_true.mp h
  have hsplit := splitOnce_decorations .temp decorations
  cases hrest : decorations.dropWhile (·.mark ≠ .temp) with
  | nil =>
    have hnot := List.dropWhile_eq_nil_iff.mp hrest decoration hmem
    exact absurd (of_decide_eq_true htemp) (by simpa using hnot)
  | cons first rest =>
    rw [hrest] at hsplit
    refine ⟨first.stamp ++ rest.flatMap Decoration.text, stamp_ne_nil first _, ?_⟩
    show splitOnce Mark.temp.text _ = _
    rw [splitOnce_generation, hsplit]
    rfl

theorem splitOnce_temp_none {decorations : List Decoration}
    (h : ∀ decoration ∈ decorations, decoration.mark = .backup) (id : Nat) :
    splitOnce tmpMark ((generationDirName id).toList ++ decorations.flatMap Decoration.text) =
      none := by
  have hrest : decorations.dropWhile (·.mark ≠ .temp) = [] :=
    List.dropWhile_eq_nil_iff.mpr fun decoration hmem => by
      rw [h decoration hmem]
      rfl
  have hsplit := splitOnce_decorations .temp decorations
  rw [hrest] at hsplit
  show splitOnce Mark.temp.text _ = none
  rw [splitOnce_generation, hsplit]
  rfl

theorem splitOnce_backup {decoration : Decoration} (h : decoration.mark = .backup)
    (decorations : List Decoration) (id : Nat) : ∃ suffix, suffix ≠ [] ∧
      splitOnce bakMark
          ((generationDirName id).toList ++ (decoration :: decorations).flatMap Decoration.text) =
        some ((generationDirName id).toList, suffix) := by
  have hsplit := splitOnce_decorations .backup (decoration :: decorations)
  rw [List.dropWhile_cons_of_neg (by simpa using h),
    List.takeWhile_cons_of_neg (by simpa using h)] at hsplit
  refine ⟨_, stamp_ne_nil decoration (decorations.flatMap Decoration.text), ?_⟩
  show splitOnce Mark.backup.text _ = _
  rw [splitOnce_generation, hsplit, Option.map_some, List.flatMap_nil, List.append_nil]

/-! ## Attribution -/

section

variable {dots id : Nat} {decorations : List Decoration}

theorem parseGenerationDebrisName_of_split {generation suffix : List Char} (hdots : 0 < dots)
    (hsuffix : suffix ≠ [])
    (h : (splitOnce tmpMark
        ((generationDirName id).toList ++ decorations.flatMap Decoration.text)).or
      (splitOnce bakMark
        ((generationDirName id).toList ++ decorations.flatMap Decoration.text)) =
          some (generation, suffix)) :
    parseGenerationDebrisName (String.ofList (scratchName dots id decorations)) =
      parseGenerationDir (String.ofList generation) := by
  unfold parseGenerationDebrisName
  rw [String.toList_ofList]
  dsimp only
  rw [if_neg (trimmed_shorter hdots id decorations), trimmed_scratchName, h]
  show (if suffix = [] then none else _) = _
  rw [if_neg hsuffix]

/-- Behind a backup decoration no generation's directory name ends. -/
theorem frontBackups_eq_nil_of_parse {found : Nat}
    (hid : 0 < id) (hlast : id ≤ 999999999999)
    (h : parseGenerationDir (String.ofList ((generationDirName id).toList ++
      (frontBackups decorations).flatMap Decoration.text)) = some found) :
    frontBackups decorations = [] := by
  have hlength := length_of_parseGenerationDir h
  have hname := length_of_parseGenerationDir (parseGenerationDir_generationDirName hid hlast)
  rw [String.toList_ofList, List.length_append, hname] at hlength
  have hnil : (frontBackups decorations).flatMap Decoration.text = [] :=
    List.length_eq_zero_iff.mp (Nat.add_left_cancel hlength)
  cases hfront : frontBackups decorations with
  | nil => rfl
  | cons decoration rest =>
    rw [hfront, List.flatMap_cons, decoration_text] at hnil
    cases hnil

theorem backups_of_not_any (h : ¬decorations.any Decoration.isTemp) :
    ∀ decoration ∈ decorations, decoration.mark = .backup := by
  intro decoration hmem
  cases hmark : decoration.mark with
  | temp => exact absurd (List.any_eq_true.mpr ⟨decoration, hmem, decide_eq_true hmark⟩) h
  | backup => rfl

theorem parseGenerationDebrisName_scratchName (hid : 0 < id) (hlast : id ≤ 999999999999)
    (hdots : 0 < dots) (hdecorations : decorations ≠ []) :
    parseGenerationDebrisName (String.ofList (scratchName dots id decorations)) = some id ↔
      decorations.head?.any Decoration.isTemp ∨
        ∀ decoration ∈ decorations, decoration.mark = .backup := by
  have hgeneration := parseGenerationDir_generationDirName hid hlast
  by_cases htemp : decorations.any Decoration.isTemp
  · -- the generation is sought before the first temporary decoration
    obtain ⟨suffix, hsuffix, hsplit⟩ := splitOnce_temp htemp id
    rw [parseGenerationDebrisName_of_split hdots hsuffix (by rw [hsplit, Option.some_or])]
    have hnot : ¬∀ decoration ∈ decorations, decoration.mark = .backup := by
      obtain ⟨decoration, hmem, hmark⟩ := List.any_eq_true.mp htemp
      intro hall
      have hmark := of_decide_eq_true hmark
      rw [hall decoration hmem] at hmark
      cases hmark
    have hfront : frontBackups decorations = [] ↔ decorations.head?.any Decoration.isTemp := by
      cases decorations with
      | nil => exact absurd rfl hdecorations
      | cons decoration rest =>
        unfold frontBackups Decoration.isTemp
        by_cases hmark : decoration.mark = .temp <;> simp [hmark]
    rw [or_iff_left hnot, ← hfront]
    constructor
    · exact frontBackups_eq_nil_of_parse hid hlast
    · intro hnil
      rw [hnil, List.flatMap_nil, List.append_nil, String.ofList_toList, hgeneration]
  · have hbackup := backups_of_not_any htemp
    obtain ⟨decoration, rest, rfl⟩ := List.exists_cons_of_ne_nil hdecorations
    obtain ⟨suffix, hsuffix, hsplit⟩ :=
      splitOnce_backup (hbackup decoration List.mem_cons_self) rest id
    refine iff_of_true ?_ (.inr hbackup)
    rw [parseGenerationDebrisName_of_split hdots hsuffix
      (by rw [splitOnce_temp_none hbackup, hsplit, Option.none_or]), String.ofList_toList,
      hgeneration]

theorem parseGenerationDir_scratchName (hdots : 0 < dots) :
    parseGenerationDir (String.ofList (scratchName dots id decorations)) = none := by
  obtain ⟨dots, rfl⟩ := Nat.exists_eq_succ_of_ne_zero hdots.ne'
  refine Option.eq_none_iff_forall_ne_some.mpr fun found h => ?_
  obtain ⟨digits, hname, -⟩ := parseGenerationDir_eq_some.mp h
  rw [String.toList_ofList] at hname
  cases hname

/-- A temporary name made of a temporary name keeps the backup decorations in front alone. -/
theorem tempBundleText_scratchName (hdots : 0 < dots) (htemp : decorations.any Decoration.isTemp)
    (pid nanos : Nat) :
    tempBundleText (scratchName dots id decorations) pid nanos =
      scratchName 1 id (frontBackups decorations ++ [⟨.temp, pid, nanos⟩]) := by
  obtain ⟨suffix, hsuffix, hsplit⟩ := splitOnce_temp htemp id
  have hcanonical : canonicalBundleName (scratchName dots id decorations) =
      (generationDirName id).toList ++ (frontBackups decorations).flatMap Decoration.text := by
    have hparts : (generationDirName id).toList ++
        (frontBackups decorations).flatMap Decoration.text ≠ [] ∧ suffix ≠ [] := by
      refine ⟨fun h => ?_, hsuffix⟩
      have hname := (List.append_eq_nil_iff.mp h).1
      rw [generationDirName_toList] at hname
      cases hname
    unfold canonicalBundleName
    dsimp only
    rw [if_neg (trimmed_shorter hdots id decorations), trimmed_scratchName, hsplit]
    exact if_pos hparts
  unfold tempBundleText
  rw [hcanonical]
  unfold scratchName
  rw [List.flatMap_append]
  simp [Decoration.text, Decoration.stamp, Mark.text]

theorem tempBundleText_of_backups (hdots : 0 < dots)
    (hbackup : ∀ decoration ∈ decorations, decoration.mark = .backup) (pid nanos : Nat) :
    tempBundleText (scratchName dots id decorations) pid nanos =
      scratchName (dots + 1) id (decorations ++ [⟨.temp, pid, nanos⟩]) := by
  have hcanonical : canonicalBundleName (scratchName dots id decorations) =
      scratchName dots id decorations := by
    unfold canonicalBundleName
    dsimp only
    rw [if_neg (trimmed_shorter hdots id decorations), trimmed_scratchName,
      splitOnce_temp_none hbackup]
  unfold tempBundleText
  rw [hcanonical]
  unfold scratchName
  rw [List.flatMap_append, List.replicate_succ]
  simp [Decoration.text, Decoration.stamp, Mark.text]

theorem uniqueBackupBundleText_scratchName (pid nanos : Nat) :
    uniqueBackupBundleText (scratchName dots id decorations) pid nanos =
      scratchName (dots + 1) id (decorations ++ [⟨.backup, pid, nanos⟩]) := by
  unfold uniqueBackupBundleText backupPrefix scratchName
  rw [List.flatMap_append, List.replicate_succ]
  simp [Decoration.text, Decoration.stamp, Mark.text]

theorem tempBundleText_generation (pid nanos : Nat) :
    tempBundleText (generationDirName id).toList pid nanos =
      scratchName 1 id [⟨.temp, pid, nanos⟩] := by
  have hcanonical : canonicalBundleName (generationDirName id).toList =
      (generationDirName id).toList := by
    rw [generationDirName_toList]
    exact if_pos rfl
  unfold tempBundleText
  rw [hcanonical]
  unfold scratchName
  simp [Decoration.text, Decoration.stamp, Mark.text]

theorem uniqueBackupBundleText_generation (pid nanos : Nat) :
    uniqueBackupBundleText (generationDirName id).toList pid nanos =
      scratchName 1 id [⟨.backup, pid, nanos⟩] := by
  unfold uniqueBackupBundleText backupPrefix scratchName
  simp [Decoration.text, Decoration.stamp, Mark.text]

theorem tempBundleName_encode (text : List Char) (pid nanos : Nat) :
    tempBundleName (Utf8.encode text) pid nanos = Utf8.encode (tempBundleText text pid nanos) := by
  rw [tempBundleName, Name.text, Utf8.lossy_encode]

theorem uniqueBackupBundleName_encode (text : List Char) (pid nanos : Nat) :
    uniqueBackupBundleName (Utf8.encode text) pid nanos =
      Utf8.encode (uniqueBackupBundleText text pid nanos) := by
  rw [uniqueBackupBundleName, Name.text, Utf8.lossy_encode]

/-- What the two functions produce is a decorated name. -/
theorem Produced.scratch {name : Name} (h : Produced id name) : ∃ dots decorations,
    0 < dots ∧ decorations ≠ [] ∧ name = Utf8.encode (scratchName dots id decorations) := by
  induction h with
  | @temp pid nanos =>
    refine ⟨1, [⟨.temp, pid, nanos⟩], Nat.one_pos, List.cons_ne_nil _ _, ?_⟩
    rw [Name.ofString, tempBundleName_encode, tempBundleText_generation]
  | @backup pid nanos =>
    refine ⟨1, [⟨.backup, pid, nanos⟩], Nat.one_pos, List.cons_ne_nil _ _, ?_⟩
    rw [Name.ofString, uniqueBackupBundleName_encode, uniqueBackupBundleText_generation]
  | tempAgain _ ih =>
    obtain ⟨dots, decorations, hdots, -, rfl⟩ := ih
    rw [tempBundleName_encode]
    by_cases htemp : decorations.any Decoration.isTemp
    · exact ⟨1, _, Nat.one_pos, by simp,
        congrArg Utf8.encode (tempBundleText_scratchName hdots htemp _ _)⟩
    · exact ⟨dots + 1, _, Nat.succ_pos dots, by simp, congrArg Utf8.encode
        (tempBundleText_of_backups hdots (backups_of_not_any htemp) _ _)⟩
  | backupAgain _ ih =>
    obtain ⟨dots, decorations, -, -, rfl⟩ := ih
    rw [uniqueBackupBundleName_encode]
    exact ⟨dots + 1, _, Nat.succ_pos dots, by simp,
      congrArg Utf8.encode (uniqueBackupBundleText_scratchName _ _)⟩

/-- Every name that is produced is a decorated name, and a decorated name is attributed to its
generation unless a backup decoration stands in front and a temporary one follows. -/
theorem attributed_iff (hid : 0 < id) (hlast : id ≤ 999999999999) :
    (∀ name, Produced id name → ∃ dots decorations, 0 < dots ∧ decorations ≠ [] ∧
      name = Utf8.encode (scratchName dots id decorations)) ∧
    ∀ (dots : Nat) (decorations : List Decoration), 0 < dots → decorations ≠ [] →
      (Attributed dots id decorations ↔
        decorations.head?.any Decoration.isTemp ∨
          ∀ decoration ∈ decorations, decoration.mark = .backup) := by
  refine ⟨fun name h => h.scratch, fun dots decorations hdots hdecorations => ⟨fun h => ?_,
    fun h => ?_⟩⟩
  · exact (parseGenerationDebrisName_scratchName hid hlast hdots hdecorations).mp h.debris
  · exact {
      debris := (parseGenerationDebrisName_scratchName hid hlast hdots hdecorations).mpr h
      notGeneration := parseGenerationDir_scratchName hdots
      oneTemp := fun htemp pid nanos => ⟨frontBackups decorations,
        fun _ hmem => mark_of_mem_frontBackups hmem, by
          rw [tempBundleName_encode, tempBundleText_scratchName hdots htemp]⟩ }

end

theorem stacked_temp_attributed : Attributed 2 5 [⟨.temp, 1, 2⟩, ⟨.temp, 3, 4⟩] ∧
    ¬Attributed 2 5 [⟨.backup, 1, 2⟩, ⟨.temp, 3, 4⟩] := by
  have hiff := (attributed_iff (by decide : 0 < 5) (by decide)).2 2
  refine ⟨(hiff _ (by decide) (by decide)).mpr (.inl (by decide)), fun h => ?_⟩
  rcases (hiff _ (by decide) (by decide)).mp h with hhead | hall
  · exact absurd hhead (by decide)
  · exact absurd (hall ⟨.temp, 3, 4⟩ (by decide)) (by decide)

/-- A temporary name made of a backup name is not attributed. -/
theorem temp_of_backup_not_attributed :
    ∃ name, Produced 5 name ∧ name = .ofString "..g000000000005.odb.bak-1-2.tmp-3-4" ∧
      name = Utf8.encode (scratchName 2 5 [⟨.backup, 1, 2⟩, ⟨.temp, 3, 4⟩]) ∧
      parseGenerationDebrisName (String.ofList name.text) = none ∧
      ¬Attributed 2 5 [⟨.backup, 1, 2⟩, ⟨.temp, 3, 4⟩] := by
  have hparse : parseGenerationDebrisName
      (String.ofList (scratchName 2 5 [⟨.backup, 1, 2⟩, ⟨.temp, 3, 4⟩])) = none := by
    decide +kernel
  have hname : tempBundleName
      (uniqueBackupBundleName (.ofString (generationDirName 5)) 1 2) 3 4 =
        Utf8.encode (scratchName 2 5 [⟨.backup, 1, 2⟩, ⟨.temp, 3, 4⟩]) := by
    decide +kernel
  refine ⟨_, .tempAgain .backup, by decide +kernel, hname, ?_, fun h => ?_⟩
  · rw [hname, Name.text, Utf8.lossy_encode]
    exact hparse
  · have hdebris := h.debris
    rw [hparse] at hdebris
    cases hdebris

end OrdinalDB.Debris
