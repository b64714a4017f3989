import OrdinalDB.Artifacts.Reopening

/-!
# The two ways to load a bundle

`OrdinalIndex::load` reads a bundle by `load_bundle`, and `load_with_options` by
`load_verified_bundle`. `load_eq_loadWithOptions`: with the default options they accept the same
bundles, and the indexes are equal.
-/

namespace OrdinalDB.Artifacts

open Ltr

variable {F M L R S : Type}

/-! ## Definitions -/

inductive SignLoadPolicy
  | require
  | requireIfSupported
  | any
  | forbid
deriving DecidableEq, Repr

structure DenseLoadOptions where
  sign : SignLoadPolicy
  expectedDim : Option Nat
  expectedBits : Option UInt8
deriving DecidableEq, Repr

/-- `DenseLoadOptions::default`. -/
def DenseLoadOptions.default : DenseLoadOptions := ⟨.requireIfSupported, none, none⟩

/-- `require_auxiliary`: it succeeds when the artifact is declared with a verified path. -/
structure RequireAuxiliary where
  path : VerifiedLoadPlan → Name → Option RelPath
  path_eq_some : ∀ {plan : VerifiedLoadPlan} {name : Name} {path' : RelPath},
    (plan.auxiliaryArtifacts.map Prod.fst).Nodup →
    (path plan name = some path' ↔ (name, some path') ∈ plan.auxiliaryArtifacts)

/-- The checks that both loaders begin with. -/
def loadPrimary (vendor : Vendor F M L R S) (bundle : Bundle F M) (plan : VerifiedLoadPlan)
    (options : DenseLoadOptions) : Option (RankQuant R × UInt8) := do
  guard (plan.kind = .rankQuant)
  let bits ← match plan.params with
    | .rankQuant bits => some bits
    | .other => none
  guard (options.expectedDim.all (· = plan.dim))
  guard (options.expectedBits.all (· = bits))
  guard (plan.rowIdentityKind = "row_id_identity")
  let rankquant ← (bundle.tree.read plan.artifactPath).bind vendor.loadRank
  guard (plan.dim = rankquant.dim ∧ plan.vectorCount = rankquant.len ∧ bits = rankquant.bits ∧
    plan.rowCount = rankquant.len)
  pure (rankquant, bits)

/-- `load_bundle`; it expects no shape. -/
def loadBundle (vendor : Vendor F M L R S) (limits : L) (bundle : Bundle F M) :
    Option (LoadedVerifiedBundle R S) := do
  let plan ← vendor.verifyForLoad limits bundle
  let (rankquant, bits) ← loadPrimary vendor bundle plan .default
  let sign ← match ← auxiliaryPath plan signAuxName with
    | some path => ((bundle.tree.read path).bind vendor.loadSign).map some
    | none => if signCompatible plan.dim bits then none else some none
  let idsPath ← auxiliaryPath plan idsAuxName
  pure ⟨rankquant, sign, idsPath⟩

/-- `load_verified_bundle` with any options. -/
def loadVerifiedBundleWith (vendor : Vendor F M L R S) (required : RequireAuxiliary) (limits : L)
    (bundle : Bundle F M) (options : DenseLoadOptions) : Option (LoadedVerifiedBundle R S) := do
  let plan ← vendor.verifyForLoad limits bundle
  let (rankquant, bits) ← loadPrimary vendor bundle plan options
  let declared := plan.auxiliaryArtifacts.any fun artifact => artifact.1 = signAuxName
  let signPath ← match options.sign with
    | .forbid => if declared then none else some none
    | .require => (required.path plan signAuxName).map some
    | .requireIfSupported =>
      if signCompatible plan.dim bits then (required.path plan signAuxName).map some
      else auxiliaryPath plan signAuxName
    | .any => auxiliaryPath plan signAuxName
  let sign ← loadSignAt vendor bundle.tree rankquant signPath
  let idsPath ← auxiliaryPath plan idsAuxName
  pure ⟨rankquant, sign, idsPath⟩

/-- The last step of both: a bundle with ids is no plain index. -/
def ordinalOf (loaded : LoadedVerifiedBundle R S) : Option (OrdinalIndex R S) := do
  guard loaded.idsPath.isNone
  OrdinalIndex.fromLoadedParts loaded.rankquant loaded.sign

/-- `OrdinalIndex::load`, when the directory is there. -/
def load (vendor : Vendor F M L R S) (limits : L) (bundle : Bundle F M) :
    Option (OrdinalIndex R S) :=
  (loadBundle vendor limits bundle).bind ordinalOf

/-- `OrdinalIndex::load_with_options`, when the directory is there. -/
def loadWithOptions (vendor : Vendor F M L R S) (required : RequireAuxiliary) (limits : L)
    (bundle : Bundle F M) (options : DenseLoadOptions) : Option (OrdinalIndex R S) :=
  (loadVerifiedBundleWith vendor required limits bundle options).bind ordinalOf

/-! ## Paths -/

variable {vendor : Vendor F M L R S} {bundle : Bundle F M} {plan : VerifiedLoadPlan} {name : Name}

/-- A declared name, when names are distinct. -/
theorem filter_of_mem {l : List (Name × Option RelPath)} (hnodup : (l.map Prod.fst).Nodup)
    {path : Option RelPath} (h : (name, path) ∈ l) :
    (l.filter fun artifact => artifact.1 = name) = [(name, path)] := by
  induction l with
  | nil => cases h
  | cons artifact rest ih =>
    obtain ⟨hfresh, hrest⟩ := List.nodup_cons.mp hnodup
    rcases List.mem_cons.mp h with rfl | hmem
    · have hnone : (rest.filter fun artifact => artifact.1 = name) = [] := by
        refine List.filter_eq_nil_iff.mpr fun later hlater => ?_
        rw [decide_eq_true_eq]
        exact fun hsame => hfresh (List.mem_map.mpr ⟨later, hlater, hsame⟩)
      simp [hnone]
    · have hother : artifact.1 ≠ name := fun hsame =>
        hfresh (List.mem_map.mpr ⟨_, hmem, hsame.symm⟩)
      rw [List.filter_cons_of_neg (by simpa using hother), ih hrest hmem]

theorem auxiliaryPath_eq_some (hnodup : (plan.auxiliaryArtifacts.map Prod.fst).Nodup)
    {path : RelPath} :
    auxiliaryPath plan name = some (some path) ↔ (name, some path) ∈ plan.auxiliaryArtifacts := by
  unfold auxiliaryPath
  constructor
  · intro h
    split at h
    next => cases h
    next found declared hfilter =>
      obtain ⟨path', rfl, hpath⟩ := Option.map_eq_some_iff.mp h
      obtain rfl := Option.some.inj hpath
      have hmem : (found, some path') ∈ plan.auxiliaryArtifacts.filter
          fun artifact => artifact.1 = name := hfilter ▸ List.mem_singleton.mpr rfl
      obtain ⟨hdeclared, hname⟩ := List.mem_filter.mp hmem
      obtain rfl : found = name := of_decide_eq_true hname
      exact hdeclared
    next => cases h
  · intro h
    rw [filter_of_mem hnodup h]
    rfl

/-- The required path is the one that is declared. -/
theorem required_path (required : RequireAuxiliary) (name : Name)
    (hnodup : (plan.auxiliaryArtifacts.map Prod.fst).Nodup) :
    required.path plan name = (auxiliaryPath plan name).join := by
  refine Option.ext fun path => ?_
  rw [required.path_eq_some hnodup, ← auxiliaryPath_eq_some hnodup, Option.join_eq_some_iff]

/-! ## Agreement -/

/-- A loaded sign store whose shape is wrong is refused by the last step. -/
theorem ordinalOf_shape {rankquant : RankQuant R} {sign : SignBitmap S}
    {idsPath : Option RelPath}
    (h : ¬(sign.dim = rankquant.dim ∧ sign.rows.length = rankquant.rows.length)) :
    ordinalOf ⟨rankquant, some sign, idsPath⟩ = none := by
  refine Option.eq_none_iff_forall_ne_some.mpr fun index hindex => ?_
  obtain ⟨-, -, hparts⟩ := Option.bind_eq_some_iff.mp hindex
  obtain ⟨-, hsign, -⟩ := OrdinalIndex.fromLoadedParts_eq_some.mp hparts
  exact h (hsign sign rfl).2

/-- The two loads agree. -/
theorem load_eq_loadWithOptions (vendor : Vendor F M L R S) (required : RequireAuxiliary)
    (limits : L) (bundle : Bundle F M)
    (hnames : ∀ plan, vendor.verifyForLoad limits bundle = some plan →
      (plan.auxiliaryArtifacts.map Prod.fst).Nodup) :
    load vendor limits bundle = loadWithOptions vendor required limits bundle .default := by
  unfold load loadWithOptions loadBundle loadVerifiedBundleWith
  simp only [Option.bind_eq_bind, Option.bind_assoc]
  refine Option.bind_congr fun plan hplan => Option.bind_congr fun primary hprimary => ?_
  obtain ⟨rankquant, bits⟩ := primary
  have hrequired := required_path required signAuxName (hnames plan hplan)
  simp only [DenseLoadOptions.default, hrequired]
  -- what the sign store leads to
  let rest (sign : Option (SignBitmap S)) : Option (OrdinalIndex R S) :=
    ((auxiliaryPath plan idsAuxName).bind fun idsPath =>
      pure (⟨rankquant, sign, idsPath⟩ : LoadedVerifiedBundle R S)).bind ordinalOf
  have hshape : ∀ sign : SignBitmap S,
      ¬(sign.dim = rankquant.dim ∧ sign.rows.length = rankquant.rows.length) →
      rest (some sign) = none := by
    intro sign hwrong
    show Option.bind (Option.bind _ _) _ = none
    rw [Option.bind_assoc]
    exact Option.bind_eq_none_iff.mpr fun idsPath _ => ordinalOf_shape hwrong
  have hstored : ∀ path, (loadSignAt vendor bundle.tree rankquant (some path)).bind rest =
      ((bundle.tree.read path).bind vendor.loadSign).bind fun sign => rest (some sign) := by
    intro path
    show (((bundle.tree.read path).bind vendor.loadSign).bind fun sign =>
      (guard (sign.dim = rankquant.dim ∧ sign.rows.length = rankquant.rows.length) :
        Option Unit).bind fun _ => some (some sign)).bind rest = _
    rw [Option.bind_assoc]
    refine Option.bind_congr fun sign _ => ?_
    by_cases hwhole : sign.dim = rankquant.dim ∧ sign.rows.length = rankquant.rows.length
    · simp only [hwhole, and_self, guard_true]
      rfl
    · simp only [hwhole, guard_false, hshape sign hwhole]
      rfl
  cases auxiliaryPath plan signAuxName with
  | none => split <;> rfl
  | some found =>
    cases found with
    | none =>
      split
      next => rfl
      next => rfl
    | some path =>
      have hload := hstored path
      have hdirect : ((Option.map some ((bundle.tree.read path).bind vendor.loadSign)).bind
          fun sign => rest sign) = (loadSignAt vendor bundle.tree rankquant (some path)).bind
            rest := by
        rw [hload, Option.bind_map]
        rfl
      split
      next =>
        show ((Option.map some ((bundle.tree.read path).bind vendor.loadSign)).bind _).bind _ =
          ((loadSignAt vendor bundle.tree rankquant (some path)).bind _).bind _
        rw [Option.bind_assoc, Option.bind_assoc]
        exact hdirect
      next =>
        show ((Option.map some ((bundle.tree.read path).bind vendor.loadSign)).bind _).bind _ =
          ((loadSignAt vendor bundle.tree rankquant (some path)).bind _).bind _
        rw [Option.bind_assoc, Option.bind_assoc]
        exact hdirect

def declaredPath : RequireAuxiliary where
  path plan name := (auxiliaryPath plan name).join
  path_eq_some hnodup := by rw [Option.join_eq_some_iff, auxiliaryPath_eq_some hnodup]

def signAuxiliary : CreateAuxiliaryArtifact := ⟨signAuxName, [signFile], true⟩

/-- A bundle of two rows with their sign sidecar. -/
def exampleBundle : Bundle ExampleFile (List CreateAuxiliaryArtifact) :=
  ⟨[signAuxiliary], (Tree.empty.write [indexFile] (.rank ⟨64, 2, [(), ()]⟩)).write [signFile]
    (.sign ⟨64, [(), ()]⟩)⟩

theorem load_eq_loadWithOptions_example :
    load exampleVendor () exampleBundle = some signedIndex ∧
    loadWithOptions exampleVendor declaredPath () exampleBundle .default = some signedIndex := by
  have hload : load exampleVendor () exampleBundle = some signedIndex := by decide +kernel
  refine ⟨hload, (load_eq_loadWithOptions exampleVendor declaredPath () exampleBundle
    fun plan hplan => ?_).symm.trans hload⟩
  have hexample : exampleVendor.verifyForLoad () exampleBundle =
      some (planOf (R := Unit) ⟨64, 2, [(), ()]⟩ [signAuxiliary]) := by
    decide +kernel
  obtain rfl := Option.some.inj (hexample.symm.trans hplan)
  exact List.nodup_singleton _

end OrdinalDB.Artifacts
