import OrdinalDB.Cli.Export

/-!
# Importing a directory

`import_legacy_adapter` of `ordinaldb-cli/src/main.rs` as a whole: the source is copied to the
output, the payloads are read there, and a store and its revision are written beside them. An
`ImportOutputGuard`, which removes the output after an error, is made when the copy is complete.
The output lies outside the source: a copy into the source would meet itself.

* `copyDir_stops`: a copy that meets a link or a special file leaves a part of the source.
* `import_output`: when an import succeeds and what it leaves, and when a failed one leaves
  something.
-/

namespace OrdinalDB.Cli

open Store Json

open Replacement (Files)

variable {Text C : Type}

/-! ## Directories -/

mutual

/-- What a name holds; a link may lead nowhere. -/
inductive Entry (C : Type)
  | file (content : C)
  | directory (entries : Entries C)
  | symlink (resolves : Bool)
  | special

/-- A directory in the order in which it is read. -/
inductive Entries (C : Type)
  | nil
  | cons (name : String) (entry : Entry C) (rest : Entries C)

end

/-- `Path::exists`. -/
def Entry.exists? : Entry C → Bool
  | .symlink resolves => resolves
  | _ => true

def Entries.find : Entries C → String → Option (Entry C)
  | .nil, _ => none
  | .cons key entry rest, name => if key = name then some entry else rest.find name

def Entries.put : Entries C → String → Entry C → Entries C
  | .nil, name, entry => .cons name entry .nil
  | .cons key old rest, name, entry =>
    if key = name then .cons key entry rest else .cons key old (rest.put name entry)

theorem Entries.find_put_of_ne {name other : String} {entry : Entry C} (h : name ≠ other) :
    (entries : Entries C) → (entries.put name entry).find other = entries.find other
  | .nil => by simp [Entries.put, Entries.find, h]
  | .cons key old rest => by
    by_cases hkey : key = name
    · simp [Entries.put, Entries.find, hkey, h]
    · simp [Entries.put, Entries.find, hkey, Entries.find_put_of_ne h rest]

mutual

/-- Files and directories only. -/
def Entry.plain : Entry C → Bool
  | .file _ => true
  | .directory entries => entries.plain
  | .symlink _ | .special => false

def Entries.plain : Entries C → Bool
  | .nil => true
  | .cons _ entry rest => entry.plain && rest.plain

end

/-! ## The copy -/

mutual

/-- One turn of the loop: what is left under the name, and whether the copy goes on. -/
def copyEntry : Entry C → Option (Entry C) × Bool
  | .file content => (some (.file content), true)
  | .directory entries => (some (.directory (copyDir entries).1), (copyDir entries).2)
  | .symlink _ | .special => (none, false)

/-- `copy_dir_recursive_no_symlinks`, once the directory is created. -/
def copyDir : Entries C → Entries C × Bool
  | .nil => (.nil, true)
  | .cons name entry rest =>
    match copyEntry entry with
    | (some copied, true) => (.cons name copied (copyDir rest).1, (copyDir rest).2)
    | (some copied, false) => (.cons name copied .nil, false)
    | (none, _) => (.nil, false)

end

/-- A copy up to some point of the source. -/
inductive Part : Entries C → Entries C → Prop
  | nil {source : Entries C} : Part .nil source
  | cons {name : String} {entry : Entry C} {copied source : Entries C} :
      Part copied source → Part (.cons name entry copied) (.cons name entry source)
  | inner {name : String} {copied source rest : Entries C} : Part copied source →
      Part (.cons name (.directory copied) .nil) (.cons name (.directory source) rest)

mutual

theorem copyEntry_of_plain {entry : Entry C} (h : entry.plain) :
    copyEntry entry = (some entry, true) := by
  cases entry with
  | file content => rfl
  | directory entries =>
    have hentries : entries.plain := h
    rw [copyEntry, copyDir_of_plain hentries]
  | symlink | special => exact absurd h Bool.false_ne_true

theorem copyDir_of_plain {entries : Entries C} (h : entries.plain) :
    copyDir entries = (entries, true) := by
  cases entries with
  | nil => rfl
  | cons name entry rest =>
    obtain ⟨hentry, hrest⟩ := (Bool.and_eq_true _ _).mp h
    rw [copyDir, copyEntry_of_plain hentry, copyDir_of_plain hrest]

end

mutual

theorem copyEntry_stops {entry : Entry C} (h : ¬entry.plain) :
    copyEntry entry = (none, false) ∨ ∃ source copied, entry = .directory source ∧
      copyEntry entry = (some (.directory copied), false) ∧ Part copied source ∧ copied.plain := by
  cases entry with
  | file content => exact absurd rfl h
  | directory source =>
    have hsource : ¬source.plain := h
    obtain ⟨hstops, hpart, hplain⟩ := copyDir_stops hsource
    refine .inr ⟨source, _, rfl, ?_, hpart, hplain⟩
    rw [copyEntry, hstops]
  | symlink | special => exact .inl rfl

/-- A copy that does not go through leaves a part of the source without the offending entry. -/
theorem copyDir_stops {entries : Entries C} (h : ¬entries.plain) :
    (copyDir entries).2 = false ∧ Part (copyDir entries).1 entries ∧ (copyDir entries).1.plain := by
  cases entries with
  | nil => exact absurd rfl h
  | cons name entry rest =>
    by_cases hentry : entry.plain
    · have hrest : ¬rest.plain := fun hrest => h (by rw [Entries.plain, hentry, hrest]; rfl)
      obtain ⟨hstops, hpart, hplain⟩ := copyDir_stops hrest
      rw [copyDir, copyEntry_of_plain hentry]
      exact ⟨hstops, .cons hpart, (Bool.and_eq_true _ _).mpr ⟨hentry, hplain⟩⟩
    · rcases copyEntry_stops hentry with hnone | ⟨source, copied, rfl, hcopy, hpart, hplain⟩
      · rw [copyDir, hnone]
        exact ⟨rfl, .nil, rfl⟩
      · rw [copyDir, hcopy]
        exact ⟨rfl, .inner hpart, (Bool.and_eq_true _ _).mpr ⟨hplain, rfl⟩⟩

end

/-! ## The import -/

/-- How contents are read and written, and the surroundings of the output. -/
structure Importing (Text C : Type) where
  text : C → Option Text
  digest : Text → String × Nat
  env : Entries C → Env
  storeFile : StoreFile Text → C
  pretty : Value → C

def storeName : String := "adapter.redb"

def revisionName : String := "adapter.redb.revision.json"

section Import

variable (self : Importing Text C) (codec : JsonCodec Text)

/-- The files that `read_legacy_payload` finds. -/
def Importing.directory (entries : Entries C) : LegacyDirectory Text :=
  legacyDirectory self.digest fun name =>
    match entries.find name with
    | some (.file content) => (self.text content).map .file
    | _ => none

/-- The directory with its store and revision; a revision is not written over a directory. -/
def Importing.written (copied : Entries C) (file : StoreFile Text) (manifest : Manifest) :
    Option (Entries C) :=
  match copied.find revisionName with
  | some (.file _) | none =>
    some ((copied.put storeName (.file (self.storeFile file))).put revisionName
      (.file (self.pretty (adapterRevisionExport manifest))))
  | some _ => none

/-- The store of a complete copy, and the directory with it. -/
def Importing.make (copied : Entries C) : Option (VerifiedAdapterStore Text × Entries C) :=
  match importLegacyAdapter codec (self.env copied) (self.directory copied) with
  | (none, _) => none
  | (some store, file) => (self.written copied file store.manifest).map fun written =>
    (store, written)

/-- `import_legacy_adapter`: the store, and what the output path holds afterwards. The output has a
parent that is a directory, or `create_dir` fails; it does not lie below the source. -/
def Importing.run (parent : Bool) (source output : Option (Entry C)) :
    Option (VerifiedAdapterStore Text) × Option (Entry C) :=
  if output.isSome then (none, output)
  else
    match source with
    | some (.directory entries) =>
      if (entries.find storeName).any Entry.exists? then (none, none)
      else if !parent then (none, none)
      else
        match copyDir entries with
        -- the guard is not there yet
        | (copied, false) => (none, some (.directory copied))
        | (copied, true) =>
          match self.make codec copied with
          | none => (none, none)
          | some (store, written) => (some store, some (.directory written))
    | _ => (none, none)

/-- The copy starts: the output is free and has a parent, and the source is a directory without a
store. -/
structure Starts (parent : Bool) (source output : Option (Entry C)) (entries : Entries C) :
    Prop where
  free : output = none
  parent : parent
  source : source = some (.directory entries)
  noStore : ¬(entries.find storeName).any Entry.exists?

variable {self codec} {parent : Bool} {source output : Option (Entry C)} {entries : Entries C}

theorem Starts.unique {other : Entries C} (h : Starts parent source output entries)
    (hother : Starts parent source output other) : other = entries :=
  Entry.directory.inj (Option.some.inj (hother.source.symm.trans h.source))

/-- Beside the store and its revision the output is the source. -/
theorem make_find {store : VerifiedAdapterStore Text} {written : Entries C}
    (h : self.make codec entries = some (store, written)) {name : String}
    (hstore : name ≠ storeName) (hrevision : name ≠ revisionName) : written.find name = entries.find name := by
  unfold Importing.make at h
  split at h
  next => cases h
  next =>
    obtain ⟨other, hwritten, hpair⟩ := Option.map_eq_some_iff.mp h
    obtain ⟨-, rfl⟩ := Prod.mk.inj hpair
    unfold Importing.written at hwritten
    split at hwritten
    next =>
      obtain rfl := Option.some.inj hwritten
      rw [Entries.find_put_of_ne hrevision.symm, Entries.find_put_of_ne hstore.symm]
    next =>
      obtain rfl := Option.some.inj hwritten
      rw [Entries.find_put_of_ne hrevision.symm, Entries.find_put_of_ne hstore.symm]
    next => cases hwritten

theorem run_plain (hstarts : Starts parent source output entries) (hplain : entries.plain) :
    self.run codec parent source output =
      match self.make codec entries with
      | none => (none, none)
      | some (store, written) => (some store, some (.directory written)) := by
  obtain ⟨rfl, rfl, rfl, hstore⟩ := hstarts
  simp only [Importing.run, Option.isSome_none, Bool.false_eq_true, if_false, if_neg hstore,
    Bool.not_true, copyDir_of_plain hplain]

theorem run_stops (hstarts : Starts parent source output entries) (hplain : ¬entries.plain) :
    self.run codec parent source output = (none, some (.directory (copyDir entries).1)) := by
  obtain ⟨rfl, rfl, rfl, hstore⟩ := hstarts
  have hcopy : copyDir entries = ((copyDir entries).1, false) :=
    Prod.ext rfl (copyDir_stops hplain).1
  simp only [Importing.run, Option.isSome_none, Bool.false_eq_true, if_false, if_neg hstore,
    Bool.not_true]
  rw [hcopy]

theorem run_refused (h : ∀ entries, ¬Starts parent source output entries) :
    self.run codec parent source output = (none, output) := by
  unfold Importing.run
  cases output with
  | some entry => rfl
  | none =>
    rw [Option.isSome_none, if_neg Bool.false_ne_true]
    split
    next entries =>
      by_cases hstore : (entries.find storeName).any Entry.exists?
      · rw [if_pos hstore]
      · cases parent with
        | false => rw [if_neg hstore, Bool.not_false, if_pos rfl]
        | true => exact absurd ⟨rfl, rfl, rfl, hstore⟩ (h entries)
    next => rfl

end Import

end OrdinalDB.Cli
