import OrdinalDB.Artifacts.Copying

/-!
# Opening what was written

`write_verified_bundle` and `open_verified` of `OrdinalIndex` and `IdMapIndex`.
The reader tells from the artifact names what a bundle holds, and the writer
reserves only the names of the artifacts that the index itself brings along, so a
declared auxiliary can stand where the reader looks for ids or signs:
`reopens_iff`.
-/

namespace OrdinalDB.Artifacts

open ByteCodec Ltr

variable {F M L R S : Type}

/-! ## The two index types -/

inductive DenseIndex (R S : Type)
  | ordinal (index : OrdinalIndex R S)
  | idMap (index : IdMapIndex R S)

namespace DenseIndex

def inner : DenseIndex R S → OrdinalIndex R S
  | ordinal index => index
  | idMap index => index.inner

/-- The ids in the order of the slots. -/
def ids : DenseIndex R S → Option (List UInt64)
  | ordinal _ => none
  | idMap index => some index.slotToId

/-- Built by the API. -/
def Reached (ov : Ordvec R S) : DenseIndex R S → Prop
  | ordinal index => index.Reached ov
  | idMap index => index.Reached ov

/-- `write_verified_bundle`, up to the move into place. -/
def writeVerifiedBundle (vendor : Vendor F M L R S) (options : CreateManifestOptions L)
    (artifacts : List (AuxiliaryArtifactDeclaration F)) : DenseIndex R S → Option (Bundle F M)
  | ordinal index => do
    let inner ← index.inner
    writeBundle vendor inner index.sign none options artifacts
  | idMap index => do
    let inner ← index.inner.inner
    guard (index.slotToId.length = inner.len)
    writeBundle vendor inner index.inner.sign (some index.slotToId) options artifacts

/-- `open_verified` of the type of the index. -/
def openVerified (vendor : Vendor F M L R S) (limits : L) (bundle : Bundle F M) :
    DenseIndex R S → Option (DenseIndex R S)
  | ordinal _ => do
    let loaded ← loadVerifiedBundle vendor limits bundle
    guard loaded.idsPath.isNone
    (OrdinalIndex.fromLoadedParts loaded.rankquant loaded.sign).map ordinal
  | idMap _ => do
    let loaded ← loadVerifiedBundle vendor limits bundle
    let idsPath ← loaded.idsPath
    let ids ← (bundle.tree.read idsPath).bind fun content =>
      readIdsFile (vendor.bytes content) loaded.rankquant.len
    let inner ← OrdinalIndex.fromLoadedParts loaded.rankquant loaded.sign
    (IdMapIndex.fromLoadedParts inner ids).map idMap

end DenseIndex

/-! ## Names in a plan -/

/-- The artifact under a name. -/
def named (auxiliaries : List CreateAuxiliaryArtifact) (name : Name) :
    Option CreateAuxiliaryArtifact :=
  auxiliaries.find? fun artifact => artifact.name = name

theorem auxiliaryPath_planOf {rankquant : RankQuant R}
    {auxiliaries : List CreateAuxiliaryArtifact} (hnodup : (auxiliaries.map (·.name)).Nodup)
    (name : Name) : auxiliaryPath (planOf rankquant auxiliaries) name =
      some ((named auxiliaries name).map (·.path)) := by
  unfold auxiliaryPath planOf named
  simp only
  induction auxiliaries with
  | nil => rfl
  | cons artifact rest ih =>
    obtain ⟨hfresh, hrest⟩ := List.nodup_cons.mp hnodup
    by_cases hname : artifact.name = name
    · have hnone : (rest.map fun artifact => (artifact.name, some artifact.path)).filter
          (fun artifact => decide (artifact.1 = name)) = [] := by
        refine List.filter_eq_nil_iff.mpr fun pair hpair => ?_
        obtain ⟨later, hlater, rfl⟩ := List.mem_map.mp hpair
        rw [decide_eq_true_eq]
        exact fun hsame => hfresh (List.mem_map.mpr ⟨later, hlater, hsame.trans hname.symm⟩)
      simp [hname, hnone]
    · simpa [hname] using ih hrest

/-! ## A written bundle -/

/-- What `write_bundle` leaves for its reader. -/
structure Written (vendor : Vendor F M L R S) (limits : L)
    (artifacts : List (AuxiliaryArtifactDeclaration F)) (rankquant : RankQuant R)
    (sign : Option (SignBitmap S)) (ids : Option (List UInt64)) (bundle : Bundle F M)
    (copies : List CreateAuxiliaryArtifact) : Prop where
  plan : vendor.verifyForLoad limits bundle = some (planOf rankquant (ownAuxiliaries sign ids ++ copies))
  nodup : ((ownAuxiliaries sign ids ++ copies).map (·.name)).Nodup
  copied : List.Forall₂ (Copied bundle.tree) artifacts copies
  rank : bundle.tree.read [indexFile] = some (vendor.writeRank rankquant)
  sign : ∀ s, sign = some s → bundle.tree.read [signFile] = some (vendor.writeSign s)
  ids : ∀ l, ids = some l → ∃ bytes, writeIdsFile l = some bytes ∧
    bundle.tree.read [idsFile] = some (vendor.ofBytes bytes)

theorem writeBundle_eq_some {vendor : Vendor F M L R S} {rankquant : RankQuant R}
    {sign : Option (SignBitmap S)} {ids : Option (List UInt64)} {options : CreateManifestOptions L}
    {artifacts : List (AuxiliaryArtifactDeclaration F)} {bundle : Bundle F M}
    (h : writeBundle vendor rankquant sign ids options artifacts = some bundle) :
    ∃ copies, Written vendor options.limits artifacts rankquant sign ids bundle copies := by
  simp only [writeBundle, writeBundleContents, Option.bind_eq_bind, Option.bind_eq_some_iff,
    Option.guard_eq_some', Option.pure_def, Option.some.injEq, exists_const] at h
  obtain ⟨_, ⟨idsContent, hidsContent, -, copied, hcopied, manifest, hmanifest, -, rfl⟩, hverified,
    rfl⟩ := h
  obtain ⟨plan, hplan⟩ := Option.isSome_iff_exists.mp hverified
  obtain ⟨copies, hcopies, hauxiliaries, hextends, hnodup⟩ := copyAuxiliaryArtifacts_spec hcopied
  have hfiles : indexFile ≠ signFile ∧ indexFile ≠ idsFile ∧ signFile ≠ idsFile := by
    decide
  have hrank : copied.tree.read [indexFile] = some (vendor.writeRank rankquant) := by
    refine hextends _ _ ?_
    cases sign <;> cases idsContent <;>
      simp [ownFiles, Tree.read_write_of_ne, Tree.read_write_self, hfiles]
  have hplan' := vendor.roundTrip _ _ _ _ _ _ hrank hnodup hmanifest hplan
  rw [hauxiliaries] at hplan' hnodup
  refine ⟨copies, by rw [hplan, hplan'], hnodup, hcopies, hrank, fun s hs => ?_, fun l hl => ?_⟩
  · subst hs
    refine hextends _ _ ?_
    cases idsContent <;> simp [ownFiles, Tree.read_write_of_ne, Tree.read_write_self, hfiles]
  · subst hl
    obtain ⟨bytes, hbytes, rfl⟩ := Option.map_eq_some_iff.mp hidsContent
    refine ⟨bytes, hbytes, hextends _ _ ?_⟩
    simp [ownFiles, Tree.read_write_self]

/-! ## Which artifact the reader finds -/

section Found

variable {copies : List CreateAuxiliaryArtifact} {sign : Option (SignBitmap S)}
  {ids : Option (List UInt64)}

theorem named_eq_some (hnodup : (copies.map (·.name)).Nodup) {name : Name}
    {copy : CreateAuxiliaryArtifact} :
    named copies name = some copy ↔ copy ∈ copies ∧ copy.name = name := by
  constructor
  · intro h
    exact ⟨List.mem_of_find?_eq_some h, by simpa using List.find?_some h⟩
  · rintro ⟨hmem, rfl⟩
    induction copies with
    | nil => cases hmem
    | cons first rest ih =>
      obtain ⟨hfresh, hrest⟩ := List.nodup_cons.mp hnodup
      rcases List.mem_cons.mp hmem with rfl | hmem
      · simp [named]
      · have hne : first.name ≠ copy.name := fun hsame =>
          hfresh (List.mem_map.mpr ⟨copy, hmem, hsame.symm⟩)
        have hfound := ih hrest hmem
        simp only [named] at hfound
        simp [named, hne, hfound]

theorem signAuxName_ne_idsAuxName : signAuxName ≠ idsAuxName := by decide

theorem named_sign_some (s : SignBitmap S) :
    named (ownAuxiliaries (some s) ids ++ copies) signAuxName =
      some ⟨signAuxName, [signFile], true⟩ := by
  simp [named, ownAuxiliaries]

theorem named_sign_none :
    named (ownAuxiliaries (none : Option (SignBitmap S)) ids ++ copies) signAuxName =
      named copies signAuxName := by
  cases ids <;> simp [named, ownAuxiliaries, signAuxName_ne_idsAuxName.symm]

theorem named_ids_some (l : List UInt64) :
    named (ownAuxiliaries sign (some l) ++ copies) idsAuxName =
      some ⟨idsAuxName, [idsFile], true⟩ := by
  cases sign <;> simp [named, ownAuxiliaries, signAuxName_ne_idsAuxName]

theorem named_ids_none :
    named (ownAuxiliaries sign none ++ copies) idsAuxName = named copies idsAuxName := by
  cases sign <;> simp [named, ownAuxiliaries, signAuxName_ne_idsAuxName]

/-- A name is found among the copies when it is declared. -/
theorem named_copies_eq_none {tree : Tree F}
    {artifacts : List (AuxiliaryArtifactDeclaration F)}
    (h : List.Forall₂ (Copied tree) artifacts copies) (name : Name) :
    named copies name = none ↔ ∀ artifact ∈ artifacts, trim artifact.name ≠ name := by
  unfold named
  induction h with
  | nil => simp
  | cons hcopied _ ih =>
    rw [List.find?_cons]
    split
    next hname =>
      rw [decide_eq_true_eq] at hname
      simp only [reduceCtorEq, List.mem_cons, forall_eq_or_imp, false_iff, not_and]
      exact fun hne => absurd (hcopied.1.symm.trans hname) hne
    next hname =>
      rw [decide_eq_false_iff_not] at hname
      rw [ih, List.forall_mem_cons]
      exact ⟨fun hrest => ⟨fun heq => hname (hcopied.1.trans heq), hrest⟩, fun hall => hall.2⟩

theorem mem_of_copied {tree : Tree F} {artifacts : List (AuxiliaryArtifactDeclaration F)}
    (h : List.Forall₂ (Copied tree) artifacts copies) :
    (∀ copy ∈ copies, ∃ artifact ∈ artifacts, Copied tree artifact copy) ∧
      ∀ artifact ∈ artifacts, ∃ copy ∈ copies, Copied tree artifact copy := by
  induction h with
  | nil => simp
  | cons hcopied _ ih =>
    refine ⟨List.forall_mem_cons.mpr ⟨⟨_, List.mem_cons_self, hcopied⟩, fun copy hcopy => ?_⟩,
      List.forall_mem_cons.mpr ⟨⟨_, List.mem_cons_self, hcopied⟩, fun artifact hartifact => ?_⟩⟩
    · obtain ⟨artifact, hmem, hcopied⟩ := ih.1 copy hcopy
      exact ⟨artifact, List.mem_cons_of_mem _ hmem, hcopied⟩
    · obtain ⟨copy, hmem, hcopied⟩ := ih.2 artifact hartifact
      exact ⟨copy, List.mem_cons_of_mem _ hmem, hcopied⟩

end Found

/-! ## What a declared sign artifact has to be -/

/-- The content is a sign store that an index with these rows can carry. -/
def FitsSign (vendor : Vendor F M L R S) (rankquant : RankQuant R) (content : F) : Prop :=
  ∃ sign, vendor.loadSign content = some sign ∧ sign.dim = rankquant.dim ∧
    sign.rows.length = rankquant.rows.length ∧ signCompatible rankquant.dim rankquant.bits

section Load

variable {vendor : Vendor F M L R S} {limits : L}
  {artifacts : List (AuxiliaryArtifactDeclaration F)} {rankquant : RankQuant R}
  {sign : Option (SignBitmap S)} {ids : Option (List UInt64)} {bundle : Bundle F M}
  {copies : List CreateAuxiliaryArtifact}

/-- The load of a written bundle, down to the artifacts that it finds. -/
theorem Written.load (h : Written vendor limits artifacts rankquant sign ids bundle copies) :
    loadVerifiedBundle vendor limits bundle =
      (loadSignAt vendor bundle.tree rankquant
        ((named (ownAuxiliaries sign ids ++ copies) signAuxName).map (·.path))).map fun found =>
      ⟨rankquant, found, (named (ownAuxiliaries sign ids ++ copies) idsAuxName).map (·.path)⟩ := by
  have hrank : (bundle.tree.read [indexFile]).bind vendor.loadRank = some rankquant := by
    rw [h.rank, Option.bind_some, vendor.loadRank_writeRank]
  simp only [loadVerifiedBundle, h.plan, Option.bind_eq_bind, Option.bind_some,
    auxiliaryPath_planOf h.nodup]
  simp only [planOf, hrank, guard, if_true, Option.pure_def, Option.bind_some, and_self]
  generalize loadSignAt vendor bundle.tree rankquant _ = found
  cases found <;> rfl

theorem loadSignAt_eq_some {tree : Tree F} {path : RelPath} {found : Option (SignBitmap S)} :
    loadSignAt vendor tree rankquant (some path) = some found ↔
      ∃ content s, tree.read path = some content ∧ vendor.loadSign content = some s ∧
        s.dim = rankquant.dim ∧ s.rows.length = rankquant.rows.length ∧ found = some s := by
  simp only [loadSignAt, Option.bind_eq_bind, Option.bind_eq_some_iff, Option.guard_eq_some',
    Option.pure_def, Option.some.injEq, exists_const]
  constructor
  · rintro ⟨s, ⟨content, hread, hload⟩, ⟨hdim, hlength⟩, rfl⟩
    exact ⟨content, s, hread, hload, hdim, hlength, rfl⟩
  · rintro ⟨content, s, hread, hload, hdim, hlength, rfl⟩
    exact ⟨s, ⟨content, hread, hload⟩, ⟨hdim, hlength⟩, rfl⟩

/-- No declaration takes the name of the signs, unless it is a sign store that fits. -/
def SignNameFits (vendor : Vendor F M L R S) (rankquant : RankQuant R)
    (artifacts : List (AuxiliaryArtifactDeclaration F)) : Prop :=
  ∀ artifact ∈ artifacts, trim artifact.name = signAuxName →
    ∃ content, artifact.source = some content ∧ FitsSign vendor rankquant content

theorem Written.nodup_copies
    (h : Written vendor limits artifacts rankquant sign ids bundle copies) :
    (copies.map (·.name)).Nodup := by
  have hnodup := h.nodup
  rw [List.map_append] at hnodup
  exact (List.nodup_append.mp hnodup).2.1

/-- The name of an artifact of the index is not declared. -/
theorem Written.undeclared
    (h : Written vendor limits artifacts rankquant sign ids bundle copies)
    (own : CreateAuxiliaryArtifact) (hown : own ∈ ownAuxiliaries sign ids)
    {artifact : AuxiliaryArtifactDeclaration F} (hmem : artifact ∈ artifacts) :
    trim artifact.name ≠ own.name := by
  intro hname
  obtain ⟨copy, hcopy, hcopied⟩ := (mem_of_copied h.copied).2 artifact hmem
  have hnodup := h.nodup
  rw [List.map_append] at hnodup
  exact (List.nodup_append.mp hnodup).2.2 own.name (List.mem_map.mpr ⟨own, hown, rfl⟩) copy.name
    (List.mem_map.mpr ⟨copy, hcopy, rfl⟩) (hname.symm.trans hcopied.1.symm)

/-- What a declaration of the name of the signs has to be for the reader. -/
theorem Written.declared_sign_iff
    (h : Written vendor limits artifacts rankquant sign ids bundle copies)
    {copy : CreateAuxiliaryArtifact} (hfound : named copies signAuxName = some copy) :
    (∃ content, bundle.tree.read copy.path = some content ∧ FitsSign vendor rankquant content) ↔
      SignNameFits vendor rankquant artifacts := by
  obtain ⟨hcopy, hname⟩ := (named_eq_some h.nodup_copies).mp hfound
  constructor
  · rintro ⟨content, hread, hfits⟩ artifact hmem htrim
    obtain ⟨copy', hcopy', hname', -, -, content', hsource, hread'⟩ :=
      (mem_of_copied h.copied).2 artifact hmem
    -- names are distinct, so this is the copy that was found
    have hsame : named copies signAuxName = some copy' :=
      (named_eq_some h.nodup_copies).mpr ⟨hcopy', hname'.trans htrim⟩
    obtain rfl := Option.some.inj (hfound.symm.trans hsame)
    obtain rfl := Option.some.inj (hread.symm.trans hread')
    exact ⟨content, hsource, hfits⟩
  · intro hall
    obtain ⟨artifact, hmem, hname', -, -, content, hsource, hread⟩ :=
      (mem_of_copied h.copied).1 copy hcopy
    obtain ⟨content', hsource', hfits⟩ := hall artifact hmem (hname'.symm.trans hname)
    obtain rfl := Option.some.inj (hsource.symm.trans hsource')
    exact ⟨content, hread, hfits⟩

/-- Both stores of a written bundle are read and fit together exactly when `SignNameFits`. -/
theorem Written.parts_iff
    (h : Written vendor limits artifacts rankquant sign ids bundle copies)
    (hcompatible : CompatibleDim rankquant.dim rankquant.bits)
    (hsign : ∀ s, sign = some s → s.dim = rankquant.dim ∧
      s.rows.length = rankquant.rows.length ∧ signCompatible rankquant.dim rankquant.bits) :
    (∃ found inner, loadSignAt vendor bundle.tree rankquant
        ((named (ownAuxiliaries sign ids ++ copies) signAuxName).map (·.path)) = some found ∧
      OrdinalIndex.fromLoadedParts rankquant found = some inner) ↔
      SignNameFits vendor rankquant artifacts := by
  cases sign with
  | some s =>
    obtain ⟨hdim, hlength, hfits⟩ := hsign s rfl
    rw [named_sign_some]
    constructor
    · intro _ artifact hmem htrim
      refine absurd htrim (h.undeclared ⟨signAuxName, [signFile], true⟩ ?_ hmem)
      simp [ownAuxiliaries]
    · intro _
      refine ⟨some s, _, loadSignAt_eq_some.mpr ⟨_, s, h.sign s rfl, vendor.loadSign_writeSign s,
        hdim, hlength, rfl⟩, OrdinalIndex.fromLoadedParts_eq_some.mpr ⟨hcompatible, ?_, rfl⟩⟩
      intro s' hs'
      obtain rfl := Option.some.inj hs'
      exact ⟨hfits, hdim, hlength⟩
  | none =>
    rw [named_sign_none]
    cases hfound : named copies signAuxName with
    | none =>
      constructor
      · intro _ artifact hmem htrim
        exact absurd htrim ((named_copies_eq_none h.copied signAuxName).mp hfound artifact hmem)
      · intro _
        exact ⟨none, _, rfl, OrdinalIndex.fromLoadedParts_eq_some.mpr
          ⟨hcompatible, fun _ hs => absurd hs.symm (Option.some_ne_none _), rfl⟩⟩
    | some copy =>
      rw [← h.declared_sign_iff hfound, Option.map_some]
      constructor
      · rintro ⟨found, inner, hload, hinner⟩
        obtain ⟨content, s, hread, hloaded, hdim, hlength, rfl⟩ := loadSignAt_eq_some.mp hload
        obtain ⟨-, hfits, -⟩ := OrdinalIndex.fromLoadedParts_eq_some.mp hinner
        exact ⟨content, hread, s, hloaded, hdim, hlength, (hfits s rfl).1⟩
      · rintro ⟨content, hread, s, hloaded, hdim, hlength, hfits⟩
        refine ⟨some s, _, loadSignAt_eq_some.mpr ⟨content, s, hread, hloaded, hdim, hlength, rfl⟩,
          OrdinalIndex.fromLoadedParts_eq_some.mpr ⟨hcompatible, ?_, rfl⟩⟩
        intro s' hs'
        obtain rfl := Option.some.inj hs'
        exact ⟨hfits, hdim, hlength⟩

/-- The sign store of the index is the one that is read. -/
theorem Written.sign_read
    (h : Written vendor limits artifacts rankquant sign ids bundle copies)
    {found : Option (SignBitmap S)} (hfound : loadSignAt vendor bundle.tree rankquant
      ((named (ownAuxiliaries sign ids ++ copies) signAuxName).map (·.path)) = some found) :
    ∀ s, sign = some s → found = some s := by
  rintro s rfl
  rw [named_sign_some, Option.map_some] at hfound
  obtain ⟨content, s', hread, hload, -, -, rfl⟩ := loadSignAt_eq_some.mp hfound
  obtain rfl := Option.some.inj ((h.sign s rfl).symm.trans hread)
  exact (vendor.loadSign_writeSign s).symm.trans hload |>.symm

end Load

/-! ## Reopening -/

/-- The bundle opens as the type of the index and gives back the rows, the signs if the index
has them, the ids in their slots and the declared auxiliaries under their trimmed names. -/
structure Reopens (vendor : Vendor F M L R S) (limits : L)
    (artifacts : List (AuxiliaryArtifactDeclaration F)) (index : DenseIndex R S)
    (bundle : Bundle F M) : Prop where
  opened : ∃ opened, index.openVerified vendor limits bundle = some opened ∧
    opened.inner.inner = index.inner.inner ∧ opened.ids = index.ids ∧
    ∀ sign, index.inner.sign = some sign → opened.inner.sign = some sign
  declared : ∃ plan copies, vendor.verifyForLoad limits bundle = some plan ∧
    List.Forall₂ (Copied bundle.tree) artifacts copies ∧
    plan.auxiliaryArtifacts = (ownAuxiliaries index.inner.sign index.ids ++ copies).map
      fun artifact => (artifact.name, some artifact.path)

/-- No declared name is one that the reader interprets, apart from a sign store that the index
could carry itself. -/
def NamesFree (vendor : Vendor F M L R S) (index : DenseIndex R S)
    (artifacts : List (AuxiliaryArtifactDeclaration F)) : Prop :=
  (∀ artifact ∈ artifacts, trim artifact.name ≠ idsAuxName) ∧
    ∀ rankquant, index.inner.inner = some rankquant → SignNameFits vendor rankquant artifacts

section Reopen

variable {ov : Ordvec R S} {vendor : Vendor F M L R S} {options : CreateManifestOptions L}
  {artifacts : List (AuxiliaryArtifactDeclaration F)} {bundle : Bundle F M}

/-- What a successful write says about the index and its bundle. -/
theorem written_of_write {index : DenseIndex R S}
    (h : index.writeVerifiedBundle vendor options artifacts = some bundle) :
    ∃ rankquant copies, index.inner.inner = some rankquant ∧
      Written vendor options.limits artifacts rankquant index.inner.sign index.ids bundle copies := by
  cases index with
  | ordinal index =>
    obtain ⟨rankquant, hrank, hwrite⟩ := Option.bind_eq_some_iff.mp h
    obtain ⟨copies, hwritten⟩ := writeBundle_eq_some hwrite
    exact ⟨rankquant, copies, hrank, hwritten⟩
  | idMap index =>
    obtain ⟨rankquant, hrank, hwrite⟩ := Option.bind_eq_some_iff.mp h
    obtain ⟨-, -, hwrite⟩ := Option.bind_eq_some_iff.mp hwrite
    obtain ⟨copies, hwritten⟩ := writeBundle_eq_some hwrite
    exact ⟨rankquant, copies, hrank, hwritten⟩

section Kinds

variable {rankquant : RankQuant R} {copies : List CreateAuxiliaryArtifact}

theorem openVerified_ordinal_iff {index : OrdinalIndex R S} {opened : DenseIndex R S}
    (h : Written vendor options.limits artifacts rankquant index.sign none bundle copies) :
    DenseIndex.openVerified vendor options.limits bundle (.ordinal index) = some opened ↔
      ∃ found inner, loadSignAt vendor bundle.tree rankquant
          ((named (ownAuxiliaries index.sign none ++ copies) signAuxName).map (·.path)) = some found ∧
        OrdinalIndex.fromLoadedParts rankquant found = some inner ∧
        named copies idsAuxName = none ∧ opened = .ordinal inner := by
  simp only [DenseIndex.openVerified, h.load, named_ids_none, Option.bind_eq_bind,
    Option.bind_eq_some_iff, Option.map_eq_some_iff, Option.guard_eq_some', exists_const]
  constructor
  · rintro ⟨_, ⟨found, hfound, rfl⟩, hnone, inner, hinner, rfl⟩
    exact ⟨found, inner, hfound, hinner, by simpa using hnone, rfl⟩
  · rintro ⟨found, inner, hfound, hinner, hnone, rfl⟩
    exact ⟨_, ⟨found, hfound, rfl⟩, by simp [hnone], inner, hinner, rfl⟩

theorem openVerified_idMap_iff {index : IdMapIndex R S} (opened : DenseIndex R S)
    (hnodup : index.slotToId.Nodup) (hlength : index.slotToId.length = rankquant.len)
    (h : Written vendor options.limits artifacts rankquant index.inner.sign (some index.slotToId)
      bundle copies) :
    DenseIndex.openVerified vendor options.limits bundle (.idMap index) = some opened ↔
      ∃ found inner, loadSignAt vendor bundle.tree rankquant
          ((named (ownAuxiliaries index.inner.sign (some index.slotToId) ++ copies)
            signAuxName).map (·.path)) = some found ∧
        OrdinalIndex.fromLoadedParts rankquant found = some inner ∧
        opened = .idMap ⟨inner, index.slotToId, SlotTable.insertFrom ∅ 0 index.slotToId⟩ := by
  obtain ⟨bytes, hbytes, hfile⟩ := h.ids _ rfl
  have hread : readIdsFile (vendor.bytes (vendor.ofBytes bytes)) rankquant.len =
      some index.slotToId := by
    rw [vendor.bytes_ofBytes, ← hlength]
    exact readIdsFile_writeIdsFile hnodup hbytes
  have hbuild : ∀ {found : Option (SignBitmap S)} {inner : OrdinalIndex R S},
      OrdinalIndex.fromLoadedParts rankquant found = some inner →
      IdMapIndex.fromLoadedParts inner index.slotToId =
        some ⟨inner, index.slotToId, SlotTable.insertFrom ∅ 0 index.slotToId⟩ := by
    intro found inner hinner
    obtain ⟨-, -, rfl⟩ := OrdinalIndex.fromLoadedParts_eq_some.mp hinner
    simp [IdMapIndex.fromLoadedParts, OrdinalIndex.len, hlength, hnodup]
  simp only [DenseIndex.openVerified, h.load, named_ids_some, Option.bind_eq_bind,
    Option.bind_eq_some_iff, Option.map_eq_some_iff, Option.map_some]
  constructor
  · rintro ⟨_, ⟨found, hfound, rfl⟩, path, hpath, ids, ⟨content, hcontent, hids⟩, inner, hinner,
      index', hindex, rfl⟩
    obtain rfl := Option.some.inj hpath
    obtain rfl := Option.some.inj (hfile.symm.trans hcontent)
    obtain rfl := Option.some.inj (hread.symm.trans hids)
    obtain rfl := Option.some.inj ((hbuild hinner).symm.trans hindex)
    exact ⟨found, inner, hfound, hinner, rfl⟩
  · rintro ⟨found, inner, hfound, hinner, rfl⟩
    exact ⟨_, ⟨found, hfound, rfl⟩, _, rfl, _, ⟨_, hfile, hread⟩, inner, hinner, _, hbuild hinner,
      rfl⟩

end Kinds

/-- A bundle that was written opens again exactly when no declared name is one that the reader
interprets. -/
theorem reopens_iff {index : DenseIndex R S} (hreached : index.Reached ov)
    (h : index.writeVerifiedBundle vendor options artifacts = some bundle) :
    Reopens vendor options.limits artifacts index bundle ↔
      NamesFree vendor index artifacts := by
  obtain ⟨rankquant, copies, hrank, hwritten⟩ := written_of_write h
  have hdeclared : ∃ plan copies, vendor.verifyForLoad options.limits bundle = some plan ∧
      List.Forall₂ (Copied bundle.tree) artifacts copies ∧
      plan.auxiliaryArtifacts = (ownAuxiliaries index.inner.sign index.ids ++ copies).map
        fun artifact => (artifact.name, some artifact.path) :=
    ⟨_, copies, hwritten.plan, hwritten.copied, rfl⟩
  have hshaped : index.inner.Shaped := by
    cases index with
    | ordinal index => exact OrdinalIndex.Reached.shaped hreached
    | idMap index => exact (IdMapIndex.Reached.shaped hreached).inner
  obtain ⟨-, -, hcompatible⟩ := hshaped.rank rankquant hrank
  have hparts := hwritten.parts_iff hcompatible fun s hs => by
    obtain ⟨rank, hrank', hfits⟩ := hshaped.sign s hs
    obtain rfl := Option.some.inj (hrank.symm.trans hrank')
    exact hfits
  have hnames : NamesFree vendor index artifacts ↔
      (∀ artifact ∈ artifacts, trim artifact.name ≠ idsAuxName) ∧
        SignNameFits vendor rankquant artifacts :=
    and_congr_right fun _ => ⟨fun hall => hall rankquant hrank, fun hfits rank hrank' =>
      Option.some.inj (hrank.symm.trans hrank') ▸ hfits⟩
  rw [hnames, ← hparts]
  have hrank' : ∀ {found : Option (SignBitmap S)} {inner : OrdinalIndex R S},
      OrdinalIndex.fromLoadedParts rankquant found = some inner →
      inner.inner = index.inner.inner ∧ inner.sign = found := by
    intro found inner hinner
    obtain ⟨-, -, rfl⟩ := OrdinalIndex.fromLoadedParts_eq_some.mp hinner
    exact ⟨hrank.symm, rfl⟩
  cases index with
  | ordinal index =>
    -- an index without ids must not find an artifact under the name of the id file
    have hids := named_copies_eq_none hwritten.copied idsAuxName
    constructor
    · rintro ⟨⟨opened, hopen, -⟩, -⟩
      obtain ⟨found, inner, hfound, hinner, hnone, -⟩ := (openVerified_ordinal_iff hwritten).mp hopen
      exact ⟨hids.mp hnone, found, inner, hfound, hinner⟩
    · rintro ⟨hnoids, found, inner, hfound, hinner⟩
      refine ⟨⟨.ordinal inner, (openVerified_ordinal_iff hwritten).mpr
        ⟨found, inner, hfound, hinner, hids.mpr hnoids, rfl⟩, (hrank' hinner).1, rfl,
        fun s hs => ?_⟩, hdeclared⟩
      exact (hrank' hinner).2.trans (hwritten.sign_read hfound s hs)
  | idMap index =>
    have hshape := IdMapIndex.Reached.shaped hreached
    have hlength : index.slotToId.length = rankquant.len := by
      have hlen : index.inner.inner = some rankquant := hrank
      rw [← hshape.len, OrdinalIndex.len, hlen]
      rfl
    have hopen_iff := fun opened => openVerified_idMap_iff opened
      hshape.index.nodup hlength hwritten
    -- an id map declares its own id file, so the writer has refused a second one
    have hnoids : ∀ artifact ∈ artifacts, trim artifact.name ≠ idsAuxName := by
      intro artifact hmem
      refine hwritten.undeclared ⟨idsAuxName, [idsFile], true⟩ ?_ hmem
      simp [ownAuxiliaries, DenseIndex.ids]
    constructor
    · rintro ⟨⟨opened, hopen, -⟩, -⟩
      obtain ⟨found, inner, hfound, hinner, -⟩ := (hopen_iff opened).mp hopen
      exact ⟨hnoids, found, inner, hfound, hinner⟩
    · rintro ⟨-, found, inner, hfound, hinner⟩
      refine ⟨⟨_, (hopen_iff _).mpr ⟨found, inner, hfound, hinner, rfl⟩, (hrank' hinner).1, rfl,
        fun s hs => ?_⟩, hdeclared⟩
      exact (hrank' hinner).2.trans (hwritten.sign_read hfound s hs)

end Reopen

/-! ## A declared id file -/

inductive ExampleFile
  | bytes (content : Bytes)
  | rank (rankquant : RankQuant Unit)
  | sign (sign : SignBitmap Unit)

/-- Stores as they are; a manifest is the list of its artifacts, which must be there. -/
def exampleVendor : Vendor ExampleFile (List CreateAuxiliaryArtifact) Unit Unit Unit where
  bytes
    | .bytes content => content
    | _ => []
  ofBytes := .bytes
  bytes_ofBytes _ := rfl
  writeRank := .rank
  loadRank
    | .rank rankquant => some rankquant
    | _ => none
  loadRank_writeRank _ := rfl
  writeSign := .sign
  loadSign
    | .sign sign => some sign
    | _ => none
  loadSign_writeSign _ := rfl
  createManifest _ _ auxiliaries := some auxiliaries
  verifyForLoad _ bundle :=
    match bundle.tree.read [indexFile] with
    | some (.rank rankquant) =>
      if bundle.manifest.all fun artifact => (bundle.tree.read artifact.path).isSome then
        some (planOf rankquant bundle.manifest)
      else none
    | _ => none
  roundTrip limits tree rankquant auxiliaries manifest plan hrank _ hmanifest hplan := by
    obtain rfl := Option.some.inj hmanifest
    simp only [hrank] at hplan
    exact (Option.some.inj (Option.ite_none_right_eq_some.mp hplan).2).symm

/-- An index of dimension 8, without rows. -/
def exampleIndex : OrdinalIndex Unit Unit := ⟨some 8, 2, some ⟨8, 2, []⟩, none, .optional⟩

def exampleOptions : CreateManifestOptions Unit := ⟨(), []⟩

/-- One byte as `extra.bin`. -/
def exampleArtifact (name : String) : AuxiliaryArtifactDeclaration ExampleFile :=
  ⟨name.toList, some (.bytes [1]), "extra.bin".toList, true⟩

theorem exampleIndex_reached (ov : Ordvec Unit Unit) :
    (DenseIndex.ordinal exampleIndex).Reached ov := by
  have hnew : OrdinalIndex.newWithBuildOptions 8 2 .optional = .ok exampleIndex := by rfl
  exact .new hnew

/-- Two rows with their signs. -/
def signedIndex : OrdinalIndex Unit Unit :=
  ⟨some 64, 2, some ⟨64, 2, [(), ()]⟩, some ⟨64, [(), ()]⟩, .optional⟩

/-- The rows under the ids 7 and 4. -/
def signedIdMap : IdMapIndex Unit Unit :=
  ⟨signedIndex, [7, 4], SlotTable.insertFrom ∅ 0 [7, 4]⟩

theorem signedIdMap_reached : (DenseIndex.idMap signedIdMap).Reached
    (⟨fun _ _ _ => (), fun _ _ => ()⟩ : Ordvec Unit Unit) := by
  have hinner : OrdinalIndex.fromLoadedParts (⟨64, 2, [(), ()]⟩ : RankQuant Unit)
      (some (⟨64, [(), ()]⟩ : SignBitmap Unit)) = some signedIndex := by rfl
  have hloaded : IdMapIndex.fromLoadedParts signedIndex [7, 4] = some signedIdMap := by rfl
  exact .loaded (.loaded hinner) hloaded

theorem reopens_iff_notes : ∃ bundle,
    (DenseIndex.idMap signedIdMap).writeVerifiedBundle exampleVendor exampleOptions
      [exampleArtifact " notes "] = some bundle ∧
    Reopens exampleVendor () [exampleArtifact " notes "] (.idMap signedIdMap) bundle := by
  have hwrite : ((DenseIndex.idMap signedIdMap).writeVerifiedBundle exampleVendor exampleOptions
      [exampleArtifact " notes "]).isSome := by decide +kernel
  obtain ⟨bundle, hbundle⟩ := Option.isSome_iff_exists.mp hwrite
  refine ⟨bundle, hbundle, (reopens_iff signedIdMap_reached hbundle).mpr ⟨?_, ?_⟩⟩
  · intro artifact hmem
    obtain rfl := List.mem_singleton.mp hmem
    decide +kernel
  · intro rankquant _ artifact hmem hname
    obtain rfl := List.mem_singleton.mp hmem
    exact absurd hname (by decide +kernel)

/-- An auxiliary by the name of the id file: the write succeeds, and the bundle does not open. -/
theorem declared_ids_not_reopened : (∀ ov, (DenseIndex.ordinal exampleIndex).Reached ov) ∧
    ∃ bundle, (DenseIndex.ordinal exampleIndex).writeVerifiedBundle exampleVendor exampleOptions
      [exampleArtifact "ordinaldb.ids"] = some bundle ∧
    ¬Reopens exampleVendor () [exampleArtifact "ordinaldb.ids"] (.ordinal exampleIndex) bundle := by
  have hrun : ((DenseIndex.ordinal exampleIndex).writeVerifiedBundle exampleVendor exampleOptions
      [exampleArtifact "ordinaldb.ids"]).any fun bundle =>
        ((DenseIndex.ordinal exampleIndex).openVerified exampleVendor () bundle).isNone := by
    decide +kernel
  obtain ⟨bundle, hbundle, hnone⟩ := (Option.any_eq_true _ _).mp hrun
  refine ⟨exampleIndex_reached, bundle, hbundle, fun hreopens => ?_⟩
  obtain ⟨opened, hopen, -⟩ := hreopens.opened
  rw [hopen] at hnone
  cases hnone

end OrdinalDB.Artifacts
