import OrdinalDB.Lib.Durable

/-!
# Files that are replaced as a whole

A file is written under a temporary name and renamed to its target, so that a
crash leaves the old file or the new one. `replaceAll` does so for a list of
files, and skips those that are up to date.

* `partly_of_cut`: a cut leaves the files of a first part of the list replaced,
  and at most one temporary file behind.
* `replaced_of_returns`: a run that returns has replaced all of them and left
  nothing else.
* `cut_replaceAll_again`: when all files are up to date a run changes nothing.
-/

namespace Replacement

open Durable Prog

/-- What a name holds. A file is unfinished until its whole content is written. -/
inductive Node (T : Type)
  | file (content : T)
  | unfinished
  | directory
  | symlink
deriving DecidableEq

abbrev Files (N T : Type) := N → Option (Node T)

variable {N T : Type} [DecidableEq N]

/-! ## One file -/

/-- Open with `O_CREAT | O_EXCL`. -/
def create (temp : N) : Prog (Files N T) Unit := step fun files =>
  match files temp with
  | none => (some (), Function.update files temp (some .unfinished))
  | some _ => (none, files)

def finish (temp : N) (content : T) : Prog (Files N T) Unit := step fun files =>
  (some (), Function.update files temp (some (.file content)))

/-- A rename over a file or a link; over a directory it fails. -/
def rename (temp path : N) : Prog (Files N T) Unit := step fun files =>
  match files path with
  | some .directory => (none, files)
  | _ => (some (), Function.update (Function.update files temp none) path (files temp))

def replaceFile (temp path : N) (content : T) : Prog (Files N T) Unit := do
  create temp
  finish temp content
  rename temp path

/-- The file after a replacement. -/
def put (files : Files N T) (path : N) (content : T) : Files N T :=
  Function.update files path (some (.file content))

variable {temp path : N} {content : T} {files after : Files N T}

theorem put_self : put files path content path = some (.file content) := Function.update_self ..

theorem put_of_ne {name : N} (h : name ≠ path) : put files path content name = files name :=
  Function.update_of_ne h ..

theorem put_of_file (h : files path = some (.file content)) : put files path content = files := by
  rw [put, ← h, Function.update_eq_self]

/-- The files after a list of replacements. -/
def putAll (files : Files N T) (items : List (N × T)) : Files N T :=
  items.foldl (fun files item => put files item.1 item.2) files

variable {items : List (N × T)}

theorem putAll_of_notMem {name : N} (h : name ∉ items.map Prod.fst) :
    putAll files items name = files name := by
  induction items generalizing files with
  | nil => rfl
  | cons item items ih =>
    obtain ⟨hne, hrest⟩ := not_or.mp (fun hmem => h (List.mem_cons.mpr hmem))
    exact (ih hrest).trans (put_of_ne hne)

theorem putAll_of_mem (hnodup : (items.map Prod.fst).Nodup) {item : N × T} (h : item ∈ items) :
    putAll files items item.1 = some (.file item.2) := by
  induction items generalizing files with
  | nil => cases h
  | cons first items ih =>
    obtain ⟨hfresh, hnodup⟩ := List.nodup_cons.mp hnodup
    rcases List.mem_cons.mp h with rfl | h
    · exact (putAll_of_notMem hfresh).trans put_self
    · exact ih hnodup h

theorem returns_create : Returns (create temp) files () after ↔
    files temp = none ∧ after = Function.update files temp (some .unfinished) := by
  rw [create, returns_step]
  cases h : files temp with
  | none => simp [eq_comm]
  | some node => simp

theorem returns_replaceFile (h : Returns (replaceFile temp path content) files () after) :
    files temp = none ∧ after = put files path content := by
  obtain ⟨⟨⟩, _, hcreate, h⟩ := returns_bind.mp h
  obtain ⟨⟨⟩, _, hfinish, hrename⟩ := returns_bind.mp h
  obtain ⟨hfree, rfl⟩ := returns_create.mp hcreate
  obtain ⟨-, rfl⟩ := Prod.mk.inj (returns_step.mp hfinish)
  refine ⟨hfree, ?_⟩
  have hrename := returns_step.mp hrename
  split at hrename
  next => cases hrename
  next =>
    obtain ⟨-, rfl⟩ := Prod.mk.inj hrename
    rw [Function.update_self, Function.update_idem, Function.update_idem,
      ← hfree, Function.update_eq_self]
    rfl

/-- A cut leaves the old file, perhaps next to a temporary one, or the new file. -/
theorem cut_replaceFile (h : Cut (replaceFile temp path content) files after) :
    after = files ∨ (files temp = none ∧ ∃ node, after = Function.update files temp (some node)) ∨
      after = put files path content := by
  rcases cut_bind h with hcut | ⟨⟨⟩, _, hcreate, hcut⟩
  · rcases cut_step.mp hcut with rfl | rfl
    · exact .inl rfl
    · split
      next hfree => exact .inr (.inl ⟨hfree, _, rfl⟩)
      next => exact .inl rfl
  · obtain ⟨hfree, rfl⟩ := returns_create.mp hcreate
    rcases cut_bind hcut with hcut | ⟨⟨⟩, middle, hfinish, hcut⟩
    · rcases cut_step.mp hcut with rfl | rfl
      · exact .inr (.inl ⟨hfree, _, rfl⟩)
      · exact .inr (.inl ⟨hfree, _, Function.update_idem ..⟩)
    · rcases cut_step.mp hcut with rfl | rfl
      · obtain ⟨-, rfl⟩ := Prod.mk.inj (returns_step.mp hfinish)
        exact .inr (.inl ⟨hfree, _, Function.update_idem ..⟩)
      · split
        next =>
          obtain ⟨-, rfl⟩ := Prod.mk.inj (returns_step.mp hfinish)
          exact .inr (.inl ⟨hfree, _, Function.update_idem ..⟩)
        next hpath =>
          have hreturned : Returns (replaceFile temp path content) files ()
              (Function.update (Function.update middle temp none) path (middle temp)) := by
            refine Returns.bind hcreate (Returns.bind hfinish (returns_step.mpr ?_))
            split
            next hdirectory => exact absurd hdirectory hpath
            next => rfl
          exact .inr (.inr (returns_replaceFile hreturned).2)

/-! ## Files that are up to date -/

section Changed

variable [DecidableEq T]

/-- Whether the file has the content; a directory or a link is an error. -/
def upToDate (path : N) (content : T) : Prog (Files N T) Bool := read fun files =>
  match files path with
  | some .directory | some .symlink => none
  | some (.file old) => some (old = content)
  | _ => some false

/-- Whether the file has been replaced. -/
def replaceIfChanged (temp path : N) (content : T) : Prog (Files N T) Bool := do
  let same ← upToDate path content
  if same then pure false
  else do
    replaceFile temp path content
    pure true

omit [DecidableEq N] in
theorem returns_upToDate {same : Bool} (h : Returns (upToDate path content) files same after) :
    after = files ∧ (same = true → files path = some (.file content)) := by
  obtain ⟨hread, rfl⟩ := returns_read.mp h
  refine ⟨rfl, ?_⟩
  rintro rfl
  split at hread
  next => cases hread
  next => cases hread
  next old hold =>
    rw [hold, of_decide_eq_true (Option.some.inj hread)]
  next => cases hread

theorem returns_replaceIfChanged {replaced : Bool}
    (h : Returns (replaceIfChanged temp path content) files replaced after) :
    after = put files path content := by
  obtain ⟨same, _, hsame, h⟩ := returns_bind.mp h
  obtain ⟨rfl, hcontent⟩ := returns_upToDate hsame
  cases same with
  | true =>
    obtain ⟨-, rfl⟩ := returns_pure.mp h
    exact (put_of_file (hcontent rfl)).symm
  | false =>
    obtain ⟨⟨⟩, _, hreplace, h⟩ := returns_bind.mp h
    obtain ⟨-, rfl⟩ := returns_pure.mp h
    exact (returns_replaceFile hreplace).2

theorem cut_replaceIfChanged
    (h : Cut (replaceIfChanged temp path content) files after) :
    after = files ∨ (files temp = none ∧ ∃ node, after = Function.update files temp (some node)) ∨
      after = put files path content := by
  rcases cut_bind h with hcut | ⟨same, _, hsame, h⟩
  · exact .inl (cut_read.mp hcut)
  obtain ⟨rfl, -⟩ := returns_upToDate hsame
  cases same with
  | true => exact .inl (cut_pure.mp h)
  | false =>
    rcases cut_bind h with hcut | ⟨⟨⟩, _, hreplace, h⟩
    · exact cut_replaceFile hcut
    · obtain rfl := cut_pure.mp h
      exact .inr (.inr (returns_replaceFile hreplace).2)

theorem cut_replaceIfChanged_again (hfile : files path = some (.file content))
    (h : Cut (replaceIfChanged temp path content) files after) : after = files := by
  rcases cut_bind h with hcut | ⟨same, _, hsame, h⟩
  · exact cut_read.mp hcut
  obtain ⟨hread, rfl⟩ := returns_read.mp hsame
  rw [hfile] at hread
  obtain rfl : true = same := by simpa using hread
  exact cut_pure.mp h

/-! ## Lists of files -/

/-- One file after the other; the counter makes the temporary names. -/
def replaceAll (temp : Nat → N → N) : Nat → List (N × T) → Prog (Files N T) Nat
  | counter, [] => pure counter
  | counter, (path, content) :: rest => do
    let replaced ← replaceIfChanged (temp counter path) path content
    replaceAll temp (if replaced then counter + 1 else counter) rest

variable {temp : Nat → N → N} {counter : Nat}

theorem returns_replaceAll {next : Nat}
    (h : Returns (replaceAll temp counter items) files next after) :
    after = putAll files items := by
  induction items generalizing counter files with
  | nil => exact (returns_pure.mp h).2.symm
  | cons item items ih =>
    obtain ⟨path, content⟩ := item
    obtain ⟨replaced, middle, hfirst, hrest⟩ := returns_bind.mp h
    obtain rfl := returns_replaceIfChanged hfirst
    exact ih hrest

/-- A first part of the list is replaced, and at most one temporary file is left. -/
theorem cut_replaceAll (h : Cut (replaceAll temp counter items) files after) :
    ∃ done rest, items = done ++ rest ∧ (after = putAll files done ∨
      ∃ counter item node, item ∈ items ∧ putAll files done (temp counter item.1) = none ∧
        after = Function.update (putAll files done) (temp counter item.1) (some node)) := by
  induction items generalizing counter files with
  | nil => exact ⟨[], [], rfl, .inl (cut_pure.mp h)⟩
  | cons item items ih =>
    obtain ⟨path, content⟩ := item
    rcases cut_bind h with hcut | ⟨replaced, middle, hreturned, hcut⟩
    · rcases cut_replaceIfChanged hcut with rfl | ⟨hfree, node, rfl⟩ | rfl
      · exact ⟨[], _, rfl, .inl rfl⟩
      · exact ⟨[], _, rfl, .inr ⟨counter, (path, content), node, List.mem_cons_self, hfree, rfl⟩⟩
      · exact ⟨[(path, content)], _, rfl, .inl rfl⟩
    · obtain rfl := returns_replaceIfChanged hreturned
      obtain ⟨done, rest, rfl, hdone⟩ := ih hcut
      refine ⟨(path, content) :: done, rest, rfl, hdone.imp_right ?_⟩
      rintro ⟨counter, item, node, hitem, hleft⟩
      exact ⟨counter, item, node, List.mem_cons_of_mem _ hitem, hleft⟩

/-- The temporary names of some files are none of these files. -/
def Apart (temp : Nat → N → N) (items : List (N × T)) : Prop :=
  ∀ counter path name, path ∈ items.map Prod.fst → name ∈ items.map Prod.fst →
    temp counter path ≠ name

/-- Where a run may be cut. -/
structure Partly (temp : Nat → N → N) (items : List (N × T)) (files after : Files N T) :
    Prop where
  /-- The files before some point of the list are new, the others as they were. -/
  replaced : ∃ k, (∀ item ∈ items.take k, after item.1 = some (.file item.2)) ∧
    ∀ item ∈ items.drop k, after item.1 = files item.1
  /-- What is new apart from the list is a temporary file. -/
  others : ∀ name, name ∉ items.map Prod.fst → after name ≠ files name →
    files name = none ∧ ∃ counter, ∃ item ∈ items, name = temp counter item.1
  single : ∀ name, name ∉ items.map Prod.fst → after name ≠ files name →
    ∀ other, other ∉ items.map Prod.fst → after other ≠ files other → name = other

theorem partly_of_cut (hnodup : (items.map Prod.fst).Nodup) (hapart : Apart temp items)
    (h : Cut (replaceAll temp counter items) files after) : Partly temp items files after := by
  obtain ⟨done, rest, rfl, hdone⟩ := cut_replaceAll h
  rw [List.map_append] at hnodup
  have hlisted : ∀ name ∈ (done ++ rest).map Prod.fst, after name = putAll files done name := by
    intro name hname
    rcases hdone with rfl | ⟨counter, item, node, hitem, -, rfl⟩
    · rfl
    · exact Function.update_of_ne
        (hapart counter item.1 name (List.mem_map_of_mem hitem) hname).symm ..
  have houter : ∀ name, name ∉ (done ++ rest).map Prod.fst → putAll files done name = files name :=
    fun name hname => putAll_of_notMem fun hmem => hname (by
      rw [List.map_append]
      exact List.mem_append_left _ hmem)
  have hleft : ∃ left : Option N, ∀ name, name ∉ (done ++ rest).map Prod.fst →
      after name ≠ files name → left = some name ∧ files name = none ∧
        ∃ counter, ∃ item ∈ done ++ rest, name = temp counter item.1 := by
    rcases hdone with rfl | ⟨counter, item, node, hitem, hfree, rfl⟩
    · exact ⟨none, fun name hname hchanged => absurd (houter name hname) hchanged⟩
    · refine ⟨some (temp counter item.1), fun name hname hchanged => ?_⟩
      obtain rfl : temp counter item.1 = name := by
        by_contra hother
        exact hchanged ((Function.update_of_ne (Ne.symm hother) ..).trans (houter name hname))
      exact ⟨rfl, (houter _ hname).symm.trans hfree, counter, item, hitem, rfl⟩
  obtain ⟨left, hleft⟩ := hleft
  refine ⟨⟨done.length, fun item hitem => ?_, fun item hitem => ?_⟩, fun name hname hchanged =>
    (hleft name hname hchanged).2, fun name hname hchanged other hother hotherChanged => ?_⟩
  · rw [List.take_left] at hitem
    rw [hlisted _ (List.mem_map_of_mem (List.mem_append_left _ hitem))]
    exact putAll_of_mem hnodup.of_append_left hitem
  · rw [List.drop_left] at hitem
    rw [hlisted _ (List.mem_map_of_mem (List.mem_append_right _ hitem))]
    refine putAll_of_notMem fun hmem => ?_
    exact (List.nodup_append'.mp hnodup).2.2 hmem (List.mem_map_of_mem hitem)
  · exact Option.some.inj ((hleft name hname hchanged).1.symm.trans
      (hleft other hother hotherChanged).1)

/-- A run that returns has replaced every file and left no other. -/
theorem replaced_of_returns (hnodup : (items.map Prod.fst).Nodup) {next : Nat}
    (h : Returns (replaceAll temp counter items) files next after) :
    (∀ item ∈ items, after item.1 = some (.file item.2)) ∧
      ∀ name, name ∉ items.map Prod.fst → after name = files name := by
  obtain rfl := returns_replaceAll h
  exact ⟨fun item hitem => putAll_of_mem hnodup hitem, fun name hname => putAll_of_notMem hname⟩

/-- Files that are up to date stay as they are. -/
theorem cut_replaceAll_again (hfiles : ∀ item ∈ items, files item.1 = some (.file item.2))
    (h : Cut (replaceAll temp counter items) files after) : after = files := by
  induction items generalizing counter with
  | nil => exact cut_pure.mp h
  | cons item items ih =>
    obtain ⟨path, content⟩ := item
    obtain ⟨hfile, hrest⟩ := List.forall_mem_cons.mp hfiles
    rcases cut_bind h with hcut | ⟨replaced, middle, hreturned, hcut⟩
    · exact cut_replaceIfChanged_again hfile hcut
    · obtain rfl := cut_replaceIfChanged_again hfile hreturned.cut
      exact ih hrest hcut

end Changed

end Replacement
