import OrdinalDB.Bundle.Directory

/-!
# What recovery restores

`Recoverable target dir published`: the target is in place with the published
content, or it is missing and the newest backup has that content.

Results: `loadBundle_recoverable` (a load returns the published content and
leaves the directory recoverable), and the rules that keep a directory
recoverable: `Recoverable.agree` for changes to scratch entries,
`Recoverable.moveAside` and `Recoverable.restore` for the two renames of a
backup.
-/

namespace OrdinalDB.Bundle

open Text

variable {C : Type} {target name : Name} {dir dir' : Dir C} {published : Option C} {c : C}

/-- `name` is the backup that a process made of `target` at time `now`. -/
def BackupAt (target name : Name) (now : Nat) : Prop :=
  ∃ pid < u128Bound, now < u128Bound ∧ name = uniqueBackupBundleName target pid now

theorem BackupAt.isBackup {now : Nat} (h : BackupAt target name now) : IsBackup target name := by
  obtain ⟨pid, -, -, rfl⟩ := h
  exact isBackup_uniqueBackupBundleName

theorem BackupAt.key {now : Nat} (h : BackupAt target name now) (modified : Name → Nat) :
    (ofLex (candidateKey target modified name)).1 = now := by
  obtain ⟨pid, hpid, hnow, rfl⟩ := h
  simp [candidateKey, uniqueBackupBundleText, parseBackupSuffix_backup hpid hnow]

/-- Every backup candidate is a directory that the naming scheme made. -/
def WellNamed (target : Name) (clock : Nat) (dir : Dir C) : Prop :=
  ∀ name node, dir.lookup name = some node → IsBackup target name →
    node.isDir ∧ ∃ now ≤ clock, BackupAt target name now

/-- `backup` holds `c` and every other backup is older. -/
structure Newest (target : Name) (dir : Dir C) (backup : Name) (c : C) : Prop where
  lookup : dir.lookup backup = some (.bundle c)
  newest : ∃ now, BackupAt target backup now ∧
    ∀ other ≠ backup, other ∈ dir → ∀ stamp, BackupAt target other stamp → stamp < now

def Recoverable (target : Name) (dir : Dir C) : Option C → Prop
  | none => dir.lookup target = none ∧ ∀ name ∈ dir, ¬IsBackup target name
  | some c => dir.lookup target = some (.bundle c) ∨
      dir.lookup target = none ∧ ∃ backup, Newest target dir backup c

/-- An entry that neither loads nor renames of the bundle look at. -/
def Scratch (target name : Name) : Prop := name ≠ target ∧ ¬IsBackup target name

theorem scratch_tempBundleName {pid now : Nat} (h : tempBundleName target pid now ≠ target) :
    Scratch target (tempBundleName target pid now) :=
  ⟨h, tempBundleName_not_backup⟩

theorem backupAt_uniqueBackupBundleName {pid : UInt32} {now : Nat} (h : now < u128Bound) :
    BackupAt target (uniqueBackupBundleName target pid.toNat now) now :=
  ⟨pid.toNat, pid.toNat_lt.trans (by decide), h, rfl⟩

/-- The answer of a load that finds what was published. -/
def Loaded.ofPublished : Option C → Loaded C
  | none => .missing
  | some c => .content c

/-- A directory that holds the target holds what was published. -/
theorem Recoverable.published_of_mem (h : Recoverable target dir published) {node : Node C}
    (hnode : dir.lookup target = some node) : ∃ c, published = some c ∧ node = .bundle c := by
  cases published with
  | none => rw [h.1] at hnode; cases hnode
  | some c =>
    rcases h with htarget | ⟨htarget, -⟩
    · exact ⟨c, rfl, Option.some.inj (hnode.symm.trans htarget)⟩
    · rw [htarget] at hnode; cases hnode

/-! ## Candidates -/

theorem exists_cons_of_pairwise {α : Type} {r : α → α → Prop} {l : List α} {a : α}
    (hl : l.Pairwise r) (ha : a ∈ l) (hlast : ∀ b ∈ l, b ≠ a → ¬r b a) : ∃ rest, l = a :: rest := by
  cases l with
  | nil => cases ha
  | cons b rest =>
    by_cases hba : b = a
    · exact ⟨rest, by rw [hba]⟩
    · have hr : r b a := List.rel_of_pairwise_cons hl ((List.mem_cons.mp ha).resolve_left (Ne.symm hba))
      exact absurd hr (hlast b List.mem_cons_self hba)

section Candidates

variable {clock : Nat} {backup : Name}

theorem mem_newestFirst {modified : Name → Nat} {names : List Name} :
    name ∈ newestFirst target modified names ↔ name ∈ names :=
  List.mem_insertionSort _

theorem newestFirst_pairwise (modified : Name → Nat) (names : List Name) :
    (newestFirst target modified names).Pairwise fun a b =>
      candidateKey target modified b ≤ candidateKey target modified a := by
  have htotal : Std.Total fun a b : Name =>
      candidateKey target modified b ≤ candidateKey target modified a :=
    ⟨fun a b => le_total _ _⟩
  have htrans : IsTrans Name fun a b =>
      candidateKey target modified b ≤ candidateKey target modified a :=
    ⟨fun a b c hab hbc => hbc.trans hab⟩
  exact List.pairwise_insertionSort _ _

/-- The newest backup is tried first. -/
theorem Newest.head (hnewest : Newest target dir backup c) (modified : Name → Nat)
    {names : List Name} (hbackup : backup ∈ names)
    (hnames : ∀ name ∈ names, name ∈ dir ∧ ∃ stamp, BackupAt target name stamp) :
    ∃ rest, newestFirst target modified names = backup :: rest := by
  obtain ⟨now, hnow, hlast⟩ := hnewest.newest
  refine exists_cons_of_pairwise (newestFirst_pairwise modified names)
    (mem_newestFirst.mpr hbackup) fun other hother hne hle => ?_
  obtain ⟨hdir, stamp, hstamp⟩ := hnames other (mem_newestFirst.mp hother)
  have hfirst := Prod.Lex.monotone_fst _ _ hle
  rw [hnow.key modified, hstamp.key modified] at hfirst
  have hless := hlast other hne hdir stamp hstamp
  omega

/-- With well-named backups the candidates are all of them. -/
theorem backupBundleCandidates_of_wellNamed (h : WellNamed target clock dir)
    (modified : Name → Nat) :
    backupBundleCandidates target modified dir =
      some (newestFirst target modified (dir.keys.filter fun name => IsBackup target name)) := by
  have hnode : ∀ name ∈ dir.keys.filter (fun name => IsBackup target name),
      ∃ node, dir.lookup name = some node ∧ node.isDir := by
    intro name hname
    obtain ⟨hkey, hbackup⟩ := List.mem_filter.mp hname
    obtain ⟨node, hnode⟩ :=
      Option.isSome_iff_exists.mp (AList.lookup_isSome.mpr (AList.mem_keys.mpr hkey))
    exact ⟨node, hnode, (h name node hnode (of_decide_eq_true hbackup)).1⟩
  have hsymlink : ¬((dir.keys.filter fun name => IsBackup target name).any
      fun name => (dir.lookup name).any Node.isSymlink) := by
    simp only [List.any_eq_true, not_exists, not_and]
    intro name hname
    obtain ⟨node, hnode, hdir⟩ := hnode name hname
    rw [hnode]
    cases node <;> simp_all [Node.isDir, Node.isSymlink]
  have hall : (dir.keys.filter fun name => IsBackup target name).filter
      (fun name => (dir.lookup name).any Node.isDir) =
        dir.keys.filter fun name => IsBackup target name := by
    refine List.filter_eq_self.mpr fun name hname => ?_
    obtain ⟨node, hnode, hdir⟩ := hnode name hname
    simp [hnode, hdir]
  simp only [backupBundleCandidates, hall]
  exact if_neg hsymlink

theorem mem_backups : name ∈ dir.keys.filter (fun name => IsBackup target name) ↔
    name ∈ dir ∧ IsBackup target name := by
  simp [List.mem_filter, AList.mem_keys]

theorem WellNamed.backupAt (h : WellNamed target clock dir) (hname : name ∈ dir)
    (hbackup : IsBackup target name) : ∃ now ≤ clock, BackupAt target name now := by
  obtain ⟨node, hnode⟩ := Option.isSome_iff_exists.mp (AList.lookup_isSome.mpr hname)
  exact (h name node hnode hbackup).2

theorem WellNamed.stamp_le {stamp : Nat} (h : WellNamed target clock dir) (hname : name ∈ dir)
    (hstamp : BackupAt target name stamp) : stamp ≤ clock := by
  obtain ⟨now, hnow, hbackup⟩ := h.backupAt hname hstamp.isBackup
  have hsame : stamp = now := (hstamp.key fun _ => 0).symm.trans (hbackup.key fun _ => 0)
  exact hsame.le.trans hnow

end Candidates

/-! ## Rules for changes of the directory -/

section Rules

variable {clock : Nat} {backup source dest : Name} {node : Node C}

theorem not_isBackup_target : ¬IsBackup target target :=
  fun h => ne_target_of_isBackup h rfl

theorem WellNamed.insert (h : WellNamed target clock dir)
    (hname : IsBackup target name → node.isDir ∧ ∃ now ≤ clock, BackupAt target name now) :
    WellNamed target clock (dir.insert name node) := by
  intro other node' hother
  by_cases heq : other = name
  · subst heq
    rw [AList.lookup_insert] at hother
    cases hother
    exact hname
  · rw [AList.lookup_insert_ne heq] at hother
    exact h other node' hother

theorem WellNamed.erase (h : WellNamed target clock dir) :
    WellNamed target clock (dir.erase name) := by
  intro other node' hother
  by_cases heq : other = name
  · subst heq
    rw [AList.lookup_erase] at hother
    cases hother
  · rw [AList.lookup_erase_ne heq] at hother
    exact h other node' hother

theorem WellNamed.mono {later : Nat} (h : WellNamed target clock dir) (hle : clock ≤ later) :
    WellNamed target later dir := by
  intro name node hnode hprefix
  obtain ⟨hdir, now, hnow, hbackup⟩ := h name node hnode hprefix
  exact ⟨hdir, now, hnow.trans hle, hbackup⟩

/-- Only the target and the backup candidates count. -/
theorem Recoverable.agree (h : Recoverable target dir published)
    (hagree : ∀ name, name = target ∨ IsBackup target name → dir'.lookup name = dir.lookup name) :
    Recoverable target dir' published := by
  have hmem : ∀ name, IsBackup target name → (name ∈ dir' ↔ name ∈ dir) := fun name hname => by
    rw [← AList.lookup_isSome, ← AList.lookup_isSome, hagree name (.inr hname)]
  cases published with
  | none =>
    obtain ⟨htarget, hnone⟩ := h
    refine ⟨(hagree target (.inl rfl)).trans htarget, fun name hname hbackup => ?_⟩
    exact hnone name ((hmem name hbackup).mp hname) hbackup
  | some c =>
    rcases h with htarget | ⟨htarget, backup, hlookup, now, hnow, hlast⟩
    · exact .inl ((hagree target (.inl rfl)).trans htarget)
    · refine .inr ⟨(hagree target (.inl rfl)).trans htarget, backup, ?_, now, hnow, ?_⟩
      · exact (hagree backup (.inr hnow.isBackup)).trans hlookup
      · intro other hne hother stamp hstamp
        exact hlast other hne ((hmem other hstamp.isBackup).mp hother) stamp hstamp

/-- Scratch entries do not count. -/
theorem Recoverable.insert (h : Recoverable target dir published) (htarget : name ≠ target)
    (hbackup : ¬IsBackup target name) : Recoverable target (dir.insert name node) published := by
  refine h.agree fun other hother => AList.lookup_insert_ne ?_
  rintro rfl
  exact hother.elim htarget hbackup

theorem Recoverable.erase (h : Recoverable target dir published) (htarget : name ≠ target)
    (hbackup : ¬IsBackup target name) : Recoverable target (dir.erase name) published := by
  refine h.agree fun other hother => AList.lookup_erase_ne ?_
  rintro rfl
  exact hother.elim htarget hbackup

/-- The target moved to the newest backup name. -/
theorem Newest.moveAside {now : Nat} (hnow : BackupAt target backup now)
    (hlast : ∀ other ∈ dir, ∀ stamp, BackupAt target other stamp → stamp < now) :
    Newest target ((dir.erase target).insert backup (.bundle c)) backup c where
  lookup := AList.lookup_insert _
  newest := by
    refine ⟨now, hnow, fun other hne hother stamp hstamp => ?_⟩
    have hmem : other ∈ dir := by
      have hother := (AList.mem_insert _).mp hother
      exact (AList.mem_erase.mp (hother.resolve_left hne)).2
    exact hlast other hmem stamp hstamp

end Rules

/-! ## Loading -/

/-- Recovery leaves the published content in place. -/
theorem recoverBundleIfMissing_recoverable {clock : Nat} (hwell : WellNamed target clock dir)
    (h : Recoverable target dir published) (modified : Name → Nat) :
    ∃ dir', recoverBundleIfMissing target modified dir = some dir' ∧
      dir'.lookup target = published.map .bundle ∧
      WellNamed target clock dir' ∧ Recoverable target dir' published := by
  cases published with
  | none =>
    obtain ⟨htarget, hnone⟩ := h
    have hcandidates := backupBundleCandidates_of_wellNamed hwell modified
    have hempty : dir.keys.filter (fun name => IsBackup target name) = [] :=
      List.eq_nil_iff_forall_not_mem.mpr fun name hname =>
        hnone name (mem_backups.mp hname).1 (mem_backups.mp hname).2
    rw [hempty] at hcandidates
    exact ⟨dir, by simp [recoverBundleIfMissing, htarget, hcandidates, newestFirst],
      htarget, hwell, htarget, hnone⟩
  | some c =>
    rcases h with htarget | ⟨htarget, backup, hnewest⟩
    · exact ⟨dir, by simp only [recoverBundleIfMissing, htarget], htarget, hwell, .inl htarget⟩
    · obtain ⟨now, hnow, -⟩ := id hnewest.newest
      obtain ⟨rest, hhead⟩ := hnewest.head modified
        (mem_backups.mpr ⟨AList.lookup_isSome.mp (by rw [hnewest.lookup]; rfl), hnow.isBackup⟩)
        fun name hname => by
          obtain ⟨hdir, hbackup⟩ := mem_backups.mp hname
          obtain ⟨stamp, -, hstamp⟩ := hwell.backupAt hdir hbackup
          exact ⟨hdir, stamp, hstamp⟩
      have hcandidates := backupBundleCandidates_of_wellNamed hwell modified
      rw [hhead] at hcandidates
      have hverifies : (dir.lookup backup).any Node.verifyForLoad := by rw [hnewest.lookup]; rfl
      have hrename := Dir.rename_of_lookup hnewest.lookup htarget
      have hrecover : recoverBundleIfMissing target modified dir =
          some ((dir.erase backup).insert target (.bundle c)) := by
        simp only [recoverBundleIfMissing, htarget, hcandidates, List.find?_cons, hverifies, hrename]
      exact ⟨_, hrecover, AList.lookup_insert _,
        hwell.erase.insert fun h => absurd h not_isBackup_target,
        .inl (AList.lookup_insert _)⟩

/-- A load answers with what was published. -/
theorem loadBundle_recoverable {clock : Nat} (hwell : WellNamed target clock dir)
    (h : Recoverable target dir published) (modified : Name → Nat) :
    (loadBundle target modified dir).1 = .ofPublished published ∧
      WellNamed target clock (loadBundle target modified dir).2 ∧
      Recoverable target (loadBundle target modified dir).2 published := by
  obtain ⟨dir', hrecover, htarget, hwell', hrecoverable⟩ :=
    recoverBundleIfMissing_recoverable hwell h modified
  simp only [loadBundle, hrecover, htarget]
  refine ⟨?_, hwell', hrecoverable⟩
  cases published with
  | none => rfl
  | some c => rfl

end OrdinalDB.Bundle
