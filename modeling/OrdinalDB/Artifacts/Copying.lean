import OrdinalDB.Artifacts.Contents

/-!
# What a written bundle holds

The files and names of a bundle after `write_bundle_contents`: the copies leave
the files that are there, every declared artifact is copied under its trimmed
name, and the names are distinct (`copyAuxiliaryArtifacts_spec`). The id file is
read as it was written (`readIdsFile_writeIdsFile`).
-/

namespace OrdinalDB.Artifacts

open ByteCodec Ltr

variable {F M L R S : Type}

/-! ## Trees -/

theorem Tree.read_write_self (tree : Tree F) (path : RelPath) (content : F) :
    (tree.write path content).read path = some content := by
  simp [Tree.read, Tree.write]

theorem Tree.read_write_of_ne (tree : Tree F) {path other : RelPath} (content : F)
    (h : other ≠ path) : (tree.write path content).read other = tree.read other := by
  simp [Tree.read, Tree.write, Function.update_of_ne h]

theorem Tree.read_eq_some {tree : Tree F} {path : RelPath} {content : F} :
    tree.read path = some content ↔ tree path = some (.file content) := by
  unfold Tree.read
  split
  next found heq => rw [heq]; simp
  next hother =>
    constructor
    · intro h
      cases h
    · intro h
      exact absurd h (hother content)

/-- Every file of the first tree is in the second. -/
def Tree.Extends (before after : Tree F) : Prop :=
  ∀ path content, before.read path = some content → after.read path = some content

theorem Tree.Extends.trans {a b c : Tree F} (hab : a.Extends b) (hbc : b.Extends c) : a.Extends c :=
  fun path content h => hbc path content (hab path content h)

theorem Tree.extends_createDirAll {before after : Tree F} {path : RelPath}
    (h : before.createDirAll path = some after) : before.Extends after := by
  unfold Tree.createDirAll at h
  split at h
  next => cases h
  next hfree =>
    obtain rfl := Option.some.inj h
    intro part content hread
    rw [Tree.read_eq_some] at hread ⊢
    have hoff : part ∉ path.inits := by
      intro hmem
      refine hfree (List.any_eq_true.mpr ⟨part, hmem, ?_⟩)
      rw [hread]
      rfl
    rw [if_neg hoff, hread]

theorem Tree.extends_write {tree : Tree F} {path : RelPath} {content : F}
    (h : ∀ old, tree.read path ≠ some old) : tree.Extends (tree.write path content) := by
  intro other old hread
  have hne : other ≠ path := by
    rintro rfl
    exact h old hread
  rw [Tree.read_write_of_ne _ _ hne, hread]

/-! ## Copying -/

/-- The declaration is copied as this artifact. -/
def Copied (tree : Tree F) (artifact : AuxiliaryArtifactDeclaration F)
    (copy : CreateAuxiliaryArtifact) : Prop :=
  copy.name = trim artifact.name ∧ copy.required = artifact.required ∧
    validateBundleRelativePath artifact.bundlePath = some copy.path ∧
    ∃ content, artifact.source = some content ∧ tree.read copy.path = some content

theorem Copied.extend {before after : Tree F} {artifact : AuxiliaryArtifactDeclaration F}
    {copy : CreateAuxiliaryArtifact} (h : Copied before artifact copy)
    (hextends : before.Extends after) : Copied after artifact copy := by
  obtain ⟨hname, hrequired, hpath, content, hsource, hread⟩ := h
  exact ⟨hname, hrequired, hpath, content, hsource, hextends _ _ hread⟩

/-- One turn of the loop. -/
theorem copyArtifact_spec {state state' : Copying F} {artifact : AuxiliaryArtifactDeclaration F}
    (h : copyArtifact state artifact = some state') :
    ∃ copy, Copied state'.tree artifact copy ∧ copy.name ∉ state.seenNames ∧
      state'.seenNames = copy.name :: state.seenNames ∧
      state'.auxiliaries = state.auxiliaries ++ [copy] ∧ state.tree.Extends state'.tree := by
  simp only [copyArtifact, Option.bind_eq_bind, Option.bind_eq_some_iff, Option.guard_eq_some',
    Option.pure_def, Option.some.injEq, exists_const] at h
  obtain ⟨-, hfresh, path, hpath, hreserved, -, hfree, tree, htree, content, hsource, rfl⟩ := h
  have hwrite : ∀ old, tree.read path ≠ some old := by
    intro old hread
    unfold Tree.createDirAll at htree
    split at htree
    next => cases htree
    next =>
      obtain rfl := Option.some.inj htree
      rw [Tree.read_eq_some] at hread
      rw [Option.isNone_iff_eq_none.mp hfree] at hread
      split at hread <;> cases hread
  have hextends : tree.Extends (tree.write path content) := Tree.extends_write hwrite
  exact ⟨⟨trim artifact.name, path, artifact.required⟩,
    ⟨rfl, rfl, hpath, content, hsource, Tree.read_write_self _ _ _⟩, hfresh, rfl, rfl,
    (Tree.extends_createDirAll htree).trans hextends⟩

/-- The whole loop: the copies in the order of the declarations. -/
theorem copying_spec {artifacts : List (AuxiliaryArtifactDeclaration F)} {state state' : Copying F}
    (h : artifacts.foldlM copyArtifact state = some state') :
    ∃ copies, List.Forall₂ (Copied state'.tree) artifacts copies ∧
      state'.auxiliaries = state.auxiliaries ++ copies ∧ state.tree.Extends state'.tree ∧
      (copies.map (·.name)).Nodup ∧ ∀ copy ∈ copies, copy.name ∉ state.seenNames := by
  induction artifacts generalizing state with
  | nil =>
    obtain rfl := Option.some.inj h
    exact ⟨[], .nil, by simp, fun _ _ hread => hread, by simp, by simp⟩
  | cons artifact rest ih =>
    rw [List.foldlM_cons] at h
    obtain ⟨middle, hfirst, hrest⟩ := Option.bind_eq_some_iff.mp h
    obtain ⟨copy, hcopied, hfresh, hseen, hauxiliaries, hextends⟩ := copyArtifact_spec hfirst
    obtain ⟨copies, hcopies, hall, hextends', hnodup, hunseen⟩ := ih hrest
    refine ⟨copy :: copies, .cons (hcopied.extend hextends') hcopies, ?_,
      hextends.trans hextends', ?_, ?_⟩
    · rw [hall, hauxiliaries, List.append_assoc]
      rfl
    · refine List.nodup_cons.mpr ⟨fun hmem => ?_, hnodup⟩
      obtain ⟨later, hlater, hname⟩ := List.mem_map.mp hmem
      exact hunseen later hlater (by rw [hseen, hname]; exact List.mem_cons_self)
    · intro later hlater
      rcases List.mem_cons.mp hlater with rfl | hlater
      · exact hfresh
      · exact fun hmem => hunseen later hlater (by rw [hseen]; exact List.mem_cons_of_mem _ hmem)

/-- The names of an index's own artifacts are trimmed. -/
theorem trim_ownAuxiliaries {sign : Option (SignBitmap S)} {ids : Option (List UInt64)} :
    (ownAuxiliaries sign ids).map (fun artifact => trim artifact.name) =
      (ownAuxiliaries sign ids).map (·.name) := by
  refine List.map_congr_left fun artifact hmem => ?_
  have hname : artifact.name = signAuxName ∨ artifact.name = idsAuxName := by
    rcases List.mem_append.mp hmem with hmem | hmem
    · split at hmem
      · exact .inl (congrArg CreateAuxiliaryArtifact.name (List.mem_singleton.mp hmem))
      · cases hmem
    · split at hmem
      · exact .inr (congrArg CreateAuxiliaryArtifact.name (List.mem_singleton.mp hmem))
      · cases hmem
  rcases hname with hname | hname
  · rw [hname]
    decide
  · rw [hname]
    decide

theorem nodup_ownAuxiliaries {sign : Option (SignBitmap S)} {ids : Option (List UInt64)} :
    ((ownAuxiliaries sign ids).map (·.name)).Nodup := by
  have hne : signAuxName ≠ idsAuxName := by decide
  cases sign <;> cases ids <;> simp [ownAuxiliaries, hne]

theorem copyAuxiliaryArtifacts_spec {tree : Tree F} {sign : Option (SignBitmap S)}
    {ids : Option (List UInt64)} {artifacts : List (AuxiliaryArtifactDeclaration F)}
    {copied : Copying F}
    (h : copyAuxiliaryArtifacts tree (ownAuxiliaries sign ids) artifacts = some copied) :
    ∃ copies, List.Forall₂ (Copied copied.tree) artifacts copies ∧
      copied.auxiliaries = ownAuxiliaries sign ids ++ copies ∧ tree.Extends copied.tree ∧
      (copied.auxiliaries.map (·.name)).Nodup := by
  obtain ⟨copies, hcopies, hauxiliaries, hextends, hnodup, hunseen⟩ := copying_spec h
  refine ⟨copies, hcopies, hauxiliaries, hextends, ?_⟩
  rw [hauxiliaries, List.map_append]
  refine List.nodup_append.mpr ⟨nodup_ownAuxiliaries, hnodup, fun name hown other hother => ?_⟩
  rintro rfl
  obtain ⟨copy, hcopy, rfl⟩ := List.mem_map.mp hother
  exact hunseen copy hcopy (by rw [trim_ownAuxiliaries]; exact hown)

/-! ## The id file -/

theorem readIdsFile_writeIdsFile {ids : List UInt64} {bytes : Bytes} (hnodup : ids.Nodup)
    (h : writeIdsFile ids = some bytes) : readIdsFile bytes ids.length = some ids := by
  obtain ⟨hfits, rfl⟩ := Option.ite_none_right_eq_some.mp h |>.imp id Option.some.inj
  have hwords : (ids.flatMap fun id => le 8 id.toNat).length = ids.length * 8 :=
    At.flatMap_length_eq (fun id => le_length 8 _) ids
  have hlength : (idsBytes ids).length = ids.length * 8 + 16 := by
    simp only [idsBytes, List.length_append, idsMagic_length, le_length, hwords]
    omega
  have hbound : ids.length * 8 + 16 < 2 ^ 63 := by
    rw [hlength, maxFileBytes] at hfits
    omega
  have hwhole : At (idsBytes ids) 0 (idsMagic ++ le 8 ids.length ++
    ids.flatMap fun id => le 8 id.toNat) := At.whole _
  have hhead : slice (idsBytes ids) 0 8 = some idsMagic := by
    rw [← idsMagic_length]
    exact hwhole.left.left.slice_eq
  have hcount : wordAt (idsBytes ids) 8 8 = some ids.length := by
    have hword := hwhole.left.right
    rw [idsMagic_length] at hword
    exact hword.wordAt_eq (by norm_num; omega)
  have hids : (List.range ids.length).mapM (fun i =>
      (wordAt (idsBytes ids) 8 (16 + i * 8)).map UInt64.ofNat) = some ids := by
    rw [Table.mapM_eq_some]
    refine List.ext_getElem (by simp) fun i hi hi' => ?_
    have hlt : i < ids.length := by simpa using hi
    have htable := hwhole.right
    rw [List.length_append, idsMagic_length, le_length] at htable
    have hentry := htable.flatMap (fun id => le_length 8 _) (List.getElem?_eq_getElem hlt)
    have hword := hentry.wordAt_eq (v := ids[i].toNat) ids[i].toNat_lt
    simp only [List.getElem_map, List.getElem_range]
    rw [show 16 + i * 8 = 0 + (8 + 8) + i * 8 by omega, hword]
    simp
  have hlimit : ids.length * 8 + 16 < 2 ^ 64 := hbound.trans (by norm_num)
  unfold readIdsFile
  rw [hlength, hhead, hcount, hids]
  simp only [guard, hlimit, if_true, Option.bind_eq_bind, Option.bind_some, hnodup, Option.pure_def]

end OrdinalDB.Artifacts
