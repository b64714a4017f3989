import Mathlib

/-!
# Computations that fail

Rules for `Except`: a sequence went through when every part did, `reject` is
an early return, and `mapM` goes through when every element does. `Avoids` says
which errors do not occur, and is proved part by part.
-/

namespace Outcome

variable {E α β : Type}

/-- `if bad { return Err(e) }`. -/
def reject (bad : Prop) [Decidable bad] (e : E) : Except E Unit :=
  if bad then .error e else .ok ()

theorem reject_eq_ok {bad : Prop} [Decidable bad] {e : E} {u : Unit} :
    reject bad e = .ok u ↔ ¬bad := by
  unfold reject
  split
  next h => exact iff_of_false nofun (not_not_intro h)
  next h => exact iff_of_true rfl h

theorem bind_eq_ok {x : Except E α} {f : α → Except E β} {b : β} :
    (x >>= f) = .ok b ↔ ∃ a, x = .ok a ∧ f a = .ok b := by
  cases x with
  | error e => exact iff_of_false nofun fun ⟨a, ha, _⟩ => nomatch ha
  | ok a =>
    constructor
    · exact fun h => ⟨a, rfl, h⟩
    · rintro ⟨_, ha, h⟩
      obtain rfl := Except.ok.inj ha
      exact h

/-- `x.ok_or(e)`. -/
def okOr (x : Option α) (e : E) : Except E α :=
  match x with
  | some a => .ok a
  | none => .error e

theorem okOr_eq_ok {x : Option α} {e : E} {a : α} : okOr x e = .ok a ↔ x = some a := by
  cases x with
  | none => exact iff_of_false nofun nofun
  | some b => exact Except.ok.injEq b a ▸ (Option.some.injEq b a ▸ Iff.rfl)

theorem ok_bind (a : α) (f : α → Except E β) : ((Except.ok a : Except E α) >>= f) = f a := rfl

theorem pure_eq_ok {a b : α} : (pure a : Except E α) = .ok b ↔ a = b := Except.ok.injEq a b ▸ .rfl

/-- A loop goes through when every step does. -/
theorem forM_eq_ok {f : α → Except E Unit} {l : List α} {u : Unit} :
    l.forM f = .ok u ↔ ∀ a ∈ l, f a = .ok () := by
  induction l with
  | nil => exact iff_of_true rfl nofun
  | cons a l ih =>
    show (f a >>= fun _ => l.forM f) = .ok u ↔ _
    rw [bind_eq_ok, List.forall_mem_cons]
    constructor
    · rintro ⟨_, ha, hrest⟩
      exact ⟨ha, ih.mp hrest⟩
    · rintro ⟨ha, hrest⟩
      exact ⟨(), ha, ih.mpr hrest⟩

theorem mapM_eq_ok {f : α → Except E β} {l : List α} {r : List β} :
    l.mapM f = .ok r ↔ l.map f = r.map .ok := by
  induction l generalizing r with
  | nil => cases r <;> simp [pure_eq_ok]
  | cons a l ih =>
    rw [List.mapM_cons, bind_eq_ok]
    constructor
    · rintro ⟨b, hb, hrest⟩
      obtain ⟨bs, hbs, hr⟩ := bind_eq_ok.mp hrest
      obtain rfl := pure_eq_ok.mp hr
      rw [List.map_cons, List.map_cons, hb, ih.mp hbs]
    · intro h
      cases r with
      | nil => cases h
      | cons b r =>
        obtain ⟨hb, hbs⟩ := List.cons.inj h
        exact ⟨b, hb, bind_eq_ok.mpr ⟨r, ih.mpr hbs, rfl⟩⟩

/-- Elements that all go through have a list of results. -/
theorem exists_map_ok {f : α → Except E β} {l : List α} (h : ∀ a ∈ l, ∃ b, f a = .ok b) :
    ∃ r : List β, l.map f = r.map .ok := by
  induction l with
  | nil => exact ⟨[], rfl⟩
  | cons a l ih =>
    obtain ⟨⟨b, hb⟩, hrest⟩ := List.forall_mem_cons.mp h
    obtain ⟨r, hr⟩ := ih hrest
    exact ⟨b :: r, by rw [List.map_cons, List.map_cons, hb, hr]⟩

theorem length_of_mapM {f : α → Except E β} {l : List α} {r : List β} (h : l.mapM f = .ok r) :
    r.length = l.length := by
  simpa using (congrArg List.length (mapM_eq_ok.mp h)).symm

theorem getElem?_of_mapM {f : α → Except E β} {l : List α} {r : List β} (h : l.mapM f = .ok r)
    {i : Nat} {b : β} (hb : r[i]? = some b) : ∃ a, l[i]? = some a ∧ f a = .ok b := by
  have hentry := congrArg (·[i]?) (mapM_eq_ok.mp h)
  simp only [List.getElem?_map, hb, Option.map_some] at hentry
  exact Option.map_eq_some_iff.mp hentry

/-! ## Errors that do not occur -/

/-- The computation does not end in a bad error. -/
def Avoids (bad : E → Prop) (x : Except E α) : Prop := ∀ e, x = .error e → ¬bad e

section Avoids

variable {bad : E → Prop}

theorem Avoids.ok (a : α) : Avoids bad (.ok a : Except E α) := fun e h => by cases h

theorem Avoids.error {e : E} (h : ¬bad e) : Avoids bad (.error e : Except E α) := by
  rintro _ ⟨⟩
  exact h

theorem Avoids.reject {p : Prop} [Decidable p] {e : E} (h : ¬bad e) :
    Avoids bad (reject p e) := by
  unfold Outcome.reject
  split
  · exact .error h
  · exact .ok ()

theorem Avoids.bind {x : Except E α} {f : α → Except E β} (hx : Avoids bad x)
    (hf : ∀ a, x = .ok a → Avoids bad (f a)) : Avoids bad (x >>= f) := by
  cases x with
  | error e => exact .error (hx e rfl)
  | ok a => exact hf a rfl

theorem Avoids.map {x : Except E α} {f : α → β} (hx : Avoids bad x) : Avoids bad (x.map f) := by
  cases x with
  | error e => exact .error (hx e rfl)
  | ok a => exact .ok _

theorem Avoids.foldlM {f : β → α → Except E β} {l : List α}
    (h : ∀ b, ∀ a ∈ l, Avoids bad (f b a)) (b : β) : Avoids bad (l.foldlM f b) := by
  induction l generalizing b with
  | nil => exact .ok b
  | cons a l ih =>
    rw [List.foldlM_cons]
    exact (h b a List.mem_cons_self).bind fun next _ =>
      ih (fun b a ha => h b a (List.mem_cons_of_mem _ ha)) next

theorem Avoids.mapM {f : α → Except E β} {l : List α} (h : ∀ a ∈ l, Avoids bad (f a)) :
    Avoids bad (l.mapM f) := by
  induction l with
  | nil => exact .ok []
  | cons a l ih =>
    rw [List.mapM_cons]
    exact (h a List.mem_cons_self).bind fun _ _ =>
      (ih fun a ha => h a (List.mem_cons_of_mem _ ha)).bind fun _ _ => .ok _

theorem Avoids.forM {f : α → Except E Unit} {l : List α} (h : ∀ a ∈ l, Avoids bad (f a)) :
    Avoids bad (l.forM f) := by
  induction l with
  | nil => exact .ok ()
  | cons a l ih =>
    exact (h a List.mem_cons_self).bind fun _ _ => ih fun a ha => h a (List.mem_cons_of_mem _ ha)

end Avoids

end Outcome
