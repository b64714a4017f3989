import OrdinalDB.Store.History

/-!
# Commits and openability

In a run from an empty root, a call settles when it fails and leaves the file,
or succeeds with a store that opens. `settles_iff`: every call settles unless it
bricks the store. Two kinds of call do: a snapshot that activates a retired
generation (`retired_again`), whose row is overwritten but counted as a new one,
and a metadata patch that nests too deep for the reader (`deep_patch`).
-/

namespace OrdinalDB.Store

open Machine Json

variable {Text : Type} {codec : JsonCodec Text} {env : Env} {storeFile : StoreFile Text}

/-- The call fails and leaves the file, or succeeds with the store that the file now holds. -/
def Settles (codec : JsonCodec Text) (storeFile : StoreFile Text) (request : Request Text) : Prop :=
  answer codec storeFile request = (none, storeFile) ∨
    ∃ store parsed generation, (answer codec storeFile request).1 = some store ∧
      openVerified codec request.1.disk (answer codec storeFile request).2 none = some store ∧
      Opens codec request.1.disk (answer codec storeFile request).2.rows none none store parsed
        generation

/-- A snapshot that passes the checks before its transaction and activates a retired
generation, or a patch that passes them and nests too deep. -/
def Bricks (codec : JsonCodec Text) (storeFile : StoreFile Text) (request : Request Text) : Prop :=
  match request.2 with
  | .writeLegacySnapshot expected payloads origin =>
    (prepareSnapshot codec request.1 storeFile expected payloads origin).isSome ∧
      Reactivates codec storeFile payloads
  | .commit expected (.replaceLegacySnapshot payloads) =>
    (prepareSnapshot codec request.1 storeFile (some expected) payloads .created).isSome ∧
      Reactivates codec storeFile payloads
  | .commit expected (.patchMetadata patches) =>
    (patchTransaction codec request.1 storeFile expected patches).isSome ∧ NestsTooDeep patches
  | .recordGenerationGc _ _ => False

/-! ## Outcomes -/

/-- The file is left alone, or the answer is the store in it. -/
def Settled (codec : JsonCodec Text) (env : Env) (storeFile : StoreFile Text)
    (outcome : Outcome Text) : Prop :=
  outcome = (none, storeFile) ∨ ∃ store parsed generation, outcome.1 = some store ∧
    openVerified codec env.disk outcome.2 none = some store ∧
    Opens codec env.disk outcome.2.rows none none store parsed generation

theorem settled_reopen {tables : Tables Text} {store : VerifiedAdapterStore Text}
    (h : openTables codec env.disk tables none none = some store) :
    Settled codec env storeFile (reopen codec env tables) := by
  obtain ⟨parsed, generation, hopens⟩ := openTables_eq_some.mp h
  exact .inr ⟨store, parsed, generation, h, h, hopens⟩

/-- A commit that does not open is not settled: the sequence number has moved. -/
theorem not_settled_reopen {call : Call Text} {tables : Tables Text} {manifest : Manifest}
    (hcommit : Commit codec env storeFile call tables manifest)
    (h : openTables codec env.disk tables none none = none) :
    ¬Settled codec env storeFile (reopen codec env tables) := by
  rintro (hsame | ⟨store, _, _, hstore, -⟩)
  · have hfile : StoreFile.tables tables = storeFile := congrArg Prod.snd hsame
    have hsequence := hcommit.sequence
    rw [← hfile, StoreFile.commitSequence,
      show (StoreFile.tables tables).manifest = some manifest from hcommit.row] at hsequence
    simp at hsequence
  · rw [show (reopen codec env tables).1 = none from h] at hstore
    cases hstore

theorem writeLegacySnapshotInner_settled {expected : Option StoreRevision}
    {payloads : LegacyPayloads Text} {origin : StoreOrigin} (hfresh : storeFile.Fresh) :
    Settled codec env storeFile
        (writeLegacySnapshotInner codec env storeFile expected payloads origin) ↔
      ¬((prepareSnapshot codec env storeFile expected payloads origin).isSome ∧
        Reactivates codec storeFile payloads) := by
  unfold writeLegacySnapshotInner
  cases hplan : prepareSnapshot codec env storeFile expected payloads origin with
  | none => exact iff_of_true (.inl rfl) (by simp)
  | some plan =>
    obtain ⟨previousStore, tableCounts, h⟩ := prepareSnapshot_eq_some.mp hplan
    obtain ⟨next, hnext, -⟩ := h.generations
    obtain ⟨after, hafter, hwritten⟩ :=
      @writeSnapshotTransaction_eq_some _ codec env _ _ _ _ h.parses hnext
    obtain ⟨hopens, hcloses⟩ := h.opens_iff hfresh hwritten
    have hcommit : Commit codec env storeFile (.writeLegacySnapshot expected payloads origin)
        after plan.manifest := h.commit hwritten trivial rfl rfl
    simp only [hafter, Option.isSome_some, true_and]
    constructor
    · exact fun hsettled hold => not_settled_reopen hcommit (hcloses hold _ _) hsettled
    · exact fun hnew => settled_reopen (hopens hnew)

theorem commitMetadataPatch_settled {expected : StoreRevision} {patches : List MetadataPatch}
    (hfresh : storeFile.Fresh) :
    Settled codec env storeFile (commitMetadataPatch codec env storeFile expected patches) ↔
      ¬((patchTransaction codec env storeFile expected patches).isSome ∧
        NestsTooDeep patches) := by
  unfold commitMetadataPatch
  cases hafter : patchTransaction codec env storeFile expected patches with
  | none => exact iff_of_true (.inl rfl) (by simp)
  | some after =>
    obtain ⟨_, _, _, _, _, h⟩ := patchTransaction_eq_some hafter
    obtain ⟨hopens, hcloses⟩ := h.opens_iff (h.counts hfresh)
    obtain ⟨manifest, hcommit⟩ := h.commit
    simp only [Option.isSome_some, true_and]
    constructor
    · exact fun hsettled hdeep => not_settled_reopen hcommit (hcloses hdeep _ _) hsettled
    · exact fun hfits => settled_reopen (openTables_eq_some.mpr ⟨_, _, hopens hfits⟩)

theorem recordGenerationGcInner_settled {expected : Option StoreRevision}
    {updates : List GenerationGcUpdate} (hfresh : storeFile.Fresh) :
    Settled codec env storeFile
      (recordGenerationGcInner codec env storeFile expected updates) := by
  unfold recordGenerationGcInner
  split
  next =>
    cases hcurrent : (currentVerifiedStore codec env.disk storeFile none).join with
    | none => exact .inl rfl
    | some store =>
      obtain ⟨hfile, parsed, generation, hopens⟩ := currentStore_eq_some hcurrent
      refine .inr ⟨store, parsed, generation, rfl, ?_, hopens⟩
      rw [hfile]
      exact openTables_eq_some.mpr ⟨_, _, hopens⟩
  next =>
    cases hafter : gcTransaction codec env storeFile expected updates with
    | none => exact .inl rfl
    | some after =>
      obtain ⟨_, _, _, h⟩ := gcTransaction_eq_some hafter
      exact settled_reopen (openTables_eq_some.mpr ⟨_, _, h.opens_after (h.counts hfresh)⟩)

/-! ## Runs -/

theorem settles_iff_of_fresh (hfresh : storeFile.Fresh) (request : Request Text) :
    Settles codec storeFile request ↔ ¬Bricks codec storeFile request := by
  obtain ⟨env, call⟩ := request
  cases call with
  | writeLegacySnapshot expected payloads origin => exact writeLegacySnapshotInner_settled hfresh
  | commit expected mutation =>
    cases mutation with
    | replaceLegacySnapshot payloads => exact writeLegacySnapshotInner_settled hfresh
    | patchMetadata patches => exact commitMetadataPatch_settled hfresh
  | recordGenerationGc expected updates =>
    exact iff_of_true (recordGenerationGcInner_settled hfresh) not_false

/-- After any run from an empty root, the next call settles exactly when it does not brick the
store. -/
theorem settles_iff (codec : JsonCodec Text) (calls : List (Request Text))
    (request : Request Text) :
    let storeFile := (runCalls (answer codec) .missing calls).2
    Settles codec storeFile request ↔ ¬Bricks codec storeFile request :=
  settles_iff_of_fresh (@runCalls_simulates _ _ _ _ (answer codec) countRecorded
    (fun s n => History n s) (fun _ _ request h => (h.answer request).2) _ _ history_missing
    calls).fresh request

/-! ## Bricked stores -/

theorem not_settles {request : Request Text}
    (hreply : (answer codec storeFile request).1.isNone)
    (hsequence : (answer codec storeFile request).2.commitSequence ≠ storeFile.commitSequence) :
    ¬Settles codec storeFile request := by
  rintro (hsame | ⟨store, _, _, hstore, -⟩)
  · exact hsequence (by rw [hsame])
  · rw [hstore] at hreply
    cases hreply

def snapshotRequest (expected : Option StoreRevision) (indexPath : String) : Request Value :=
  (singleEnv, .writeLegacySnapshot expected (singlePayloads indexPath) .created)

/-- A snapshot of the first generation, and one of the second. -/
def twoSnapshots : List (Request Value) :=
  [snapshotRequest none "vectors/g000000000001.odb",
    snapshotRequest singleStore.revision "vectors/g000000000002.odb"]

/-- The next snapshot activates the first generation again, and the store is lost. -/
theorem retired_again :
    let storeFile := (runCalls (answer .ofTrees) .missing twoSnapshots).2
    ¬Settles .ofTrees storeFile
      (snapshotRequest storeFile.revision "vectors/g000000000001.odb") :=
  not_settles (by decide +kernel) (by decide +kernel)

/-- Arrays in each other. -/
def nested : Nat → Value
  | 0 => .null
  | n + 1 => .array (.cons (nested n) .nil)

theorem canonical_nested (n : Nat) : (nested n).Canonical := by
  induction n with
  | zero => rfl
  | succ n ih =>
    have hread : (nested n).distinct = some (nested n) := ih
    simp [nested, Value.Canonical, Value.distinct, Items.distinct, hread]

def nestedPatch (n : Nat) : MetadataPatch where
  id := "a"
  metadata := (∅ : Object).insert "key" (nested n)
  canonical key value h := by
    rw [Std.ExtTreeMap.getElem?_insert] at h
    split at h
    next =>
      obtain rfl := Option.some.inj h
      exact canonical_nested n
    next => simp at h

/-- A patch that nests one deeper than the reader reads. -/
theorem deep_patch : ∃ expected, singleStore.revision = some expected ∧
    ¬Settles .ofTrees singleStore
      (singleEnv, .commit expected (.patchMetadata [nestedPatch maxMetadataDepth])) := by
  have hrun : singleStore.revision.any fun expected =>
      let request : Request Value :=
        (singleEnv, .commit expected (.patchMetadata [nestedPatch maxMetadataDepth]))
      (answer .ofTrees singleStore request).1.isNone &&
        (answer .ofTrees singleStore request).2.commitSequence ≠ singleStore.commitSequence := by
    decide +kernel
  obtain ⟨expected, hexpected, hrun⟩ := (Option.any_eq_true _ _).mp hrun
  rw [Bool.and_eq_true, decide_eq_true_eq] at hrun
  exact ⟨expected, hexpected, not_settles hrun.1 hrun.2⟩

end OrdinalDB.Store
