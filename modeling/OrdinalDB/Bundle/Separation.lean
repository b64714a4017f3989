import OrdinalDB.Bundle.Recovery

/-!
# Several bundles in one directory

`recoverBundleIfMissing` recognises a backup by the prefix `.{name}.bak-` alone,
on lossy texts. A name that extends another one by `.bak-` reads as a backup of
it: its own backups, its temporary directories and, with a leading dot, the
bundle itself. Names with one lossy text have the same backups.

Results: `isBackup_backup_iff` (whose backups are recognised), and
`backups_separate_iff` (recovery moves the backups of its target alone exactly
when no two names read alike and none extends another one so).
-/

namespace OrdinalDB.Bundle

open Text

variable {C : Type}

/-! ## Leftovers -/

/-- What a write of a bundle leaves in the directory. -/
inductive Leftover
  | bundle
  | temp (pid now : Nat)
  | backup (pid now : Nat)
deriving DecidableEq, Repr

def Leftover.name (owner : Name) : Leftover → Name
  | bundle => owner
  | temp pid now => tempBundleName owner pid now
  | backup pid now => uniqueBackupBundleName owner pid now

/-- Every entry comes from a write of one of the bundles. -/
def LeftBehind (names : Set Name) (dir : Dir C) (origin : Name → Name × Leftover) : Prop :=
  ∀ name ∈ dir, (origin name).1 ∈ names ∧ name = (origin name).2.name (origin name).1

/-- Recovery of a bundle changes nothing but moves a backup of that bundle into place. -/
def RecoversOwn (names : Set Name) : Prop :=
  ∀ (C : Type) (dir : Dir C) (origin : Name → Name × Leftover) (modifiedNanos : Name → Nat),
    LeftBehind names dir origin → ∀ target ∈ names, ∀ dir',
      recoverBundleIfMissing target modifiedNanos dir = some dir' →
        dir' = dir ∨ ∃ backup pid now, origin backup = (target, .backup pid now) ∧
          dir.rename backup target = some dir'

/-- The names have texts of their own, and no leftover of one bundle has the backup prefix of
another. -/
def Separate (names : Set Name) : Prop :=
  ∀ a ∈ names, ∀ b ∈ names, (a.text = b.text → a = b) ∧ ¬a.text ++ bakMark <+: b.text ∧
    ¬backupPrefix a.text <+: b.text ∧ ¬a.text ++ bakMark <+: canonicalBundleName b.text

/-! ## Recognition -/

theorem not_mem_stamp {pid now : Nat} : '.' ∉ decimal pid ++ '-' :: decimal now := by
  have hdecimal : ∀ n, '.' ∉ decimal n := fun n h => by
    have := isDigit_of_mem_decimal h
    simp at this
  simp [hdecimal]

theorem isBackup_iff {target name : Name} :
    IsBackup target name ↔ backupPrefix target.text <+: name.text :=
  List.isPrefixOf_iff_prefix

theorem isBackup_backup_iff {a b : Name} {pid now : Nat} :
    IsBackup a (uniqueBackupBundleName b pid now) ↔
      a.text = b.text ∨ a.text ++ bakMark <+: b.text := by
  rw [isBackup_iff, text_uniqueBackupBundleName]
  unfold uniqueBackupBundleText backupPrefix
  constructor
  · intro h
    have hmark : a.text ++ '.' :: "bak-".toList <+:
        b.text ++ '.' :: "bak-".toList ++ (decimal pid ++ '-' :: decimal now) :=
      (List.cons_prefix_cons.mp h).2
    rcases mark_prefix_cases (by decide) (by decide) not_mem_stamp hmark with ⟨heq, -⟩ | hprefix
    · exact .inl heq
    · exact .inr hprefix
  · rintro (heq | hprefix)
    · rw [heq]
      exact List.prefix_append _ _
    · have hname : b.text <+: b.text ++ bakMark ++ (decimal pid ++ '-' :: decimal now) := by
        rw [List.append_assoc]
        exact List.prefix_append _ _
      exact List.cons_prefix_cons.mpr ⟨rfl, hprefix.trans hname⟩

theorem isBackup_temp_iff {a b : Name} {pid now : Nat} :
    IsBackup a (tempBundleName b pid now) ↔
      a.text ++ bakMark <+: canonicalBundleName b.text := by
  rw [isBackup_iff, text_tempBundleName]
  unfold tempBundleText backupPrefix
  constructor
  · intro h
    have hmark : a.text ++ '.' :: "bak-".toList <+: canonicalBundleName b.text ++
        '.' :: "tmp-".toList ++ (decimal pid ++ '-' :: decimal now) := by
      have htail := (List.cons_prefix_cons.mp h).2
      simpa [bakMark, tmpMark] using htail
    rcases mark_prefix_cases (by decide) (by decide) not_mem_stamp hmark with ⟨-, hmark⟩ | hprefix
    · simp at hmark
    · exact hprefix
  · intro hprefix
    have hname : canonicalBundleName b.text <+:
        canonicalBundleName b.text ++ tmpMark ++ decimal pid ++ '-' :: decimal now := by
      simp only [List.append_assoc]
      exact List.prefix_append _ _
    exact List.cons_prefix_cons.mpr ⟨rfl, hprefix.trans hname⟩

/-- A text is never longer than itself. -/
theorem not_mark_prefix_self (a : List Char) : ¬a ++ bakMark <+: a := by
  intro h
  have hlength := h.length_le
  simp [bakMark] at hlength

/-- In separate names a leftover with the backup prefix of a bundle is a backup of it. -/
theorem Separate.eq_backup {names : Set Name} (h : Separate names) {target owner : Name}
    (htarget : target ∈ names) (howner : owner ∈ names) {leftover : Leftover}
    (hbackup : IsBackup target (leftover.name owner)) :
    target = owner ∧ ∃ pid now, leftover = .backup pid now := by
  obtain ⟨hdistinct, hextends, hbundle, htemp⟩ := h target htarget owner howner
  cases leftover with
  | bundle => exact absurd (isBackup_iff.mp hbackup) hbundle
  | temp pid now => exact absurd (isBackup_temp_iff.mp hbackup) htemp
  | backup pid now =>
    exact ⟨hdistinct ((isBackup_backup_iff.mp hbackup).resolve_right hextends), pid, now, rfl⟩

/-! ## Recovery -/

/-- All that recovery can do: nothing, or move one recognised entry into place. -/
theorem recoverBundleIfMissing_cases {target : Name} {modifiedNanos : Name → Nat}
    {dir dir' : Dir C} (h : recoverBundleIfMissing target modifiedNanos dir = some dir') :
    dir' = dir ∨ ∃ backup ∈ dir, IsBackup target backup ∧ dir.rename backup target = some dir' := by
  unfold recoverBundleIfMissing at h
  split at h
  next => cases h
  next => exact .inl (Option.some.inj h).symm
  next =>
    split at h
    next => cases h
    next candidates hcandidates =>
      split at h
      next => exact .inl (Option.some.inj h).symm
      next backup hfind =>
        right
        have hmem := List.mem_of_find?_eq_some hfind
        unfold backupBundleCandidates at hcandidates
        simp only at hcandidates
        split at hcandidates
        next => cases hcandidates
        next =>
          obtain rfl := Option.some.inj hcandidates
          have hnames := (List.mem_filter.mp (mem_newestFirst.mp hmem)).1
          obtain ⟨hdir, hbackup⟩ := List.mem_filter.mp hnames
          exact ⟨backup, AList.mem_keys.mp hdir, of_decide_eq_true hbackup, h⟩

theorem Dir.mem_singleton {name other : Name} {node : Node C} :
    other ∈ (AList.singleton name node : Dir C) ↔ other = name := by
  show other ∈ [name] ↔ other = name
  exact List.mem_singleton

/-- A complete directory under a recognised name is moved into place. -/
theorem recoverBundleIfMissing_singleton {target name : Name} (h : IsBackup target name)
    (modifiedNanos : Name → Nat) (content : C) :
    ∃ dir', recoverBundleIfMissing target modifiedNanos (AList.singleton name (.bundle content)) =
        some dir' ∧ dir'.lookup target = some (.bundle content) ∧
      (AList.singleton name (.bundle content) : Dir C).lookup target = none := by
  have hmissing : (AList.singleton name (.bundle content) : Dir C).lookup target = none := by
    refine AList.lookup_eq_none.mpr fun hmem => ne_target_of_isBackup h ?_
    exact (Dir.mem_singleton.mp hmem).symm
  have hnode : (AList.singleton name (.bundle content) : Dir C).lookup name =
      some (.bundle content) := AList.lookup_insert ∅
  have hcandidates : backupBundleCandidates target modifiedNanos
      (AList.singleton name (.bundle content) : Dir C) = some [name] := by
    simp [backupBundleCandidates, AList.keys_singleton, h, hnode, Node.isSymlink, Node.isDir,
      newestFirst]
  have hrename := Dir.rename_of_lookup hnode hmissing
  refine ⟨_, Eq.trans ?_ hrename, AList.lookup_insert _, hmissing⟩
  simp [recoverBundleIfMissing, hmissing, hcandidates, hnode, Node.verifyForLoad]

theorem RecoversOwn.eq_backup {names : Set Name} (h : RecoversOwn names) {a b : Name}
    (ha : a ∈ names) (hb : b ∈ names) (leftover : Leftover)
    (hbackup : IsBackup a (leftover.name b)) : a = b ∧ ∃ pid now, leftover = .backup pid now := by
  let dir : Dir Unit := AList.singleton (leftover.name b) (.bundle ())
  have hleft : LeftBehind names dir fun _ => (b, leftover) :=
    fun name hname => ⟨hb, Dir.mem_singleton.mp hname⟩
  obtain ⟨dir', hrecover, htarget, hmissing⟩ :=
    recoverBundleIfMissing_singleton hbackup (fun _ => 0) ()
  rcases h Unit dir _ _ hleft a ha dir' hrecover with rfl | ⟨_, pid, now, horigin, -⟩
  · rw [hmissing] at htarget
    cases htarget
  · obtain ⟨rfl, rfl⟩ := Prod.mk.inj horigin
    exact ⟨rfl, pid, now, rfl⟩

theorem recoversOwn_iff (names : Set Name) : RecoversOwn names ↔ Separate names := by
  constructor
  · intro h a ha b hb
    refine ⟨fun halike => ?_, fun hextends => ?_, fun hbundle => ?_, fun htemp => ?_⟩
    · exact (h.eq_backup ha hb (.backup 0 0) (isBackup_backup_iff.mpr (.inl halike))).1
    · obtain ⟨rfl, -⟩ :=
        h.eq_backup ha hb (.backup 0 0) (isBackup_backup_iff.mpr (.inr hextends))
      exact not_mark_prefix_self a.text hextends
    · obtain ⟨-, pid, now, heq⟩ :=
        h.eq_backup ha hb .bundle (isBackup_iff.mpr hbundle)
      cases heq
    · obtain ⟨-, pid, now, heq⟩ :=
        h.eq_backup ha hb (.temp 0 0) (isBackup_temp_iff.mpr htemp)
      cases heq
  · intro h C dir origin modifiedNanos hleft target htarget dir' hrecover
    rcases recoverBundleIfMissing_cases hrecover with hsame | ⟨backup, hmem, hbackup, hrename⟩
    · exact .inl hsame
    · obtain ⟨howner, hname⟩ := hleft backup hmem
      rw [hname] at hbackup
      obtain ⟨hown, pid, now, hleftover⟩ := h.eq_backup htarget howner hbackup
      exact .inr ⟨backup, pid, now, Prod.ext hown.symm hleftover, hrename⟩

/-- The backups of `b` are recognised for another bundle `a` exactly when both names read alike or
`b` extends `a` by `.bak-`, and recovery keeps to its own backups exactly when the names are
separate. -/
theorem backups_separate_iff (names : Set Name) :
    (∀ (a b : Name) (pid now : Nat),
      (IsBackup a (uniqueBackupBundleName b pid now) → a = b) ↔
        (a.text = b.text → a = b) ∧ ¬a.text ++ bakMark <+: b.text) ∧
      (RecoversOwn names ↔ Separate names) := by
  refine ⟨fun a b pid now => ?_, recoversOwn_iff names⟩
  rw [isBackup_backup_iff]
  constructor
  · intro h
    refine ⟨fun halike => h (.inl halike), fun hextends => ?_⟩
    obtain rfl := h (.inr hextends)
    exact not_mark_prefix_self a.text hextends
  · rintro ⟨hdistinct, hnot⟩ (halike | hextends)
    · exact hdistinct halike
    · exact absurd hextends hnot

/-- A backup of `x.bak-y`, alone in the directory. -/
def strangerDir : Dir String :=
  AList.singleton (uniqueBackupBundleName (.ofString "x.bak-y") 7 100)
    (.bundle "content of x.bak-y")

/-- The bytes `0xff` and `0xfe` read alike. -/
def unreadable (b : UInt8) : Name := b :: Name.ofString ".odb"

def unreadableDir : Dir String :=
  AList.singleton (uniqueBackupBundleName (unreadable 0xfe) 7 100) (.bundle "content of 0xfe")

theorem backup_of_stranger :
    ¬(IsBackup (.ofString "x") (uniqueBackupBundleName (.ofString "x.bak-y") 7 100) →
        Name.ofString "x" = Name.ofString "x.bak-y") ∧
      (loadBundle (.ofString "x") (fun _ => 0) strangerDir).1 = .content "content of x.bak-y" ∧
      (loadBundle (unreadable 0xff) (fun _ => 0) unreadableDir).1 = .content "content of 0xfe" := by
  decide +kernel

end OrdinalDB.Bundle
