import Mathlib

/-!
# Programs that a crash may cut

A program over a durable state passes through states on its way to an answer or
an error, and a crash leaves any of them behind.

* `Returns p s a t`: from `s` the program answers `a` and leaves `t`.
  `returns_bind` takes a program apart.
* `Cut p s t`: a crash, or the end of the program, leaves `t`.
* `Triple pre p post crash`: from a state with `pre` every answer meets `post`
  and every cut meets `crash`. `Triple.bind` is the rule for sequences and
  `Triple.forM` the one for loops.
-/

namespace Durable

variable {σ α β : Type}

/-- The states before the last one, and the end; an error is no answer. -/
structure Effect (σ α : Type) where
  passed : List σ
  answer : Option α
  final : σ

def Prog (σ α : Type) := σ → Effect σ α

namespace Prog

protected def pure (a : α) : Prog σ α := fun s => ⟨[], some a, s⟩

protected def bind (p : Prog σ α) (q : α → Prog σ β) : Prog σ β := fun s =>
  match (p s).answer with
  | none => ⟨(p s).passed, none, (p s).final⟩
  | some a =>
    ⟨(p s).passed ++ (q a (p s).final).passed, (q a (p s).final).answer, (q a (p s).final).final⟩

instance : Monad (Prog σ) where
  pure := Prog.pure
  bind := Prog.bind

/-- Look at the state. -/
def read (f : σ → Option α) : Prog σ α := fun s => ⟨[], f s, s⟩

/-- One atomic step. -/
def step (f : σ → Option α × σ) : Prog σ α := fun s => ⟨[s], (f s).1, (f s).2⟩

end Prog

open Prog

/-! ## Answers -/

def Returns (p : Prog σ α) (s : σ) (a : α) (t : σ) : Prop :=
  (p s).answer = some a ∧ (p s).final = t

variable {p : Prog σ α} {q : α → Prog σ β} {s t u : σ} {a : α} {b : β}

theorem returns_pure {c : α} : Returns (pure a : Prog σ α) s c t ↔ a = c ∧ s = t :=
  and_congr_left fun _ => Option.some_inj

theorem returns_bind :
    Returns (p >>= q) s b u ↔ ∃ a t, Returns p s a t ∧ Returns (q a) t b u := by
  show ((p.bind q) s).answer = some b ∧ ((p.bind q) s).final = u ↔ _
  unfold Prog.bind
  cases hanswer : (p s).answer with
  | none => simp [Returns, hanswer]
  | some a => simp [Returns, hanswer]

theorem Returns.bind (h : Returns p s a t) (hnext : Returns (q a) t b u) :
    Returns (p >>= q) s b u :=
  returns_bind.mpr ⟨a, t, h, hnext⟩

theorem returns_read {f : σ → Option α} : Returns (Prog.read f) s a t ↔ f s = some a ∧ s = t :=
  Iff.rfl

theorem returns_step {f : σ → Option α × σ} : Returns (step f) s a t ↔ f s = (some a, t) :=
  Prod.mk_inj.symm

theorem Returns.ite_pos {c : Prop} [Decidable c] {other : Prog σ α} (h : Returns p s a t) (hc : c) :
    Returns (if c then p else other) s a t := by
  rwa [if_pos hc]

theorem Returns.ite_neg {c : Prop} [Decidable c] {other : Prog σ α} (h : Returns p s a t)
    (hc : ¬c) : Returns (if c then other else p) s a t := by
  rwa [if_neg hc]

/-! ## Cuts -/

def Cut (p : Prog σ α) (s t : σ) : Prop := t ∈ (p s).passed ∨ t = (p s).final

theorem Returns.cut (h : Returns p s a t) : Cut p s t := .inr h.2.symm

theorem cut_pure : Cut (pure a : Prog σ α) s t ↔ t = s :=
  or_iff_right (List.not_mem_nil)

theorem cut_read {f : σ → Option α} : Cut (Prog.read f) s t ↔ t = s :=
  or_iff_right (List.not_mem_nil)

theorem cut_step {f : σ → Option α × σ} : Cut (step f) s t ↔ t = s ∨ t = (f s).2 :=
  or_congr_left List.mem_singleton

/-- A cut falls into the first program or into the second. -/
theorem cut_bind (h : Cut (p >>= q) s u) :
    Cut p s u ∨ ∃ a t, Returns p s a t ∧ Cut (q a) t u := by
  change u ∈ ((p.bind q) s).passed ∨ u = ((p.bind q) s).final at h
  unfold Prog.bind at h
  cases hanswer : (p s).answer with
  | none =>
    rw [hanswer] at h
    exact .inl h
  | some a =>
    rw [hanswer] at h
    rcases h with hpassed | hfinal
    · rcases List.mem_append.mp hpassed with hfirst | hsecond
      · exact .inl (.inl hfirst)
      · exact .inr ⟨a, _, ⟨hanswer, rfl⟩, .inl hsecond⟩
    · exact .inr ⟨a, _, ⟨hanswer, rfl⟩, .inr hfinal⟩

/-! ## Triples -/

structure Triple (pre : σ → Prop) (p : Prog σ α) (post : α → σ → Prop) (crash : σ → Prop) :
    Prop where
  returns : ∀ s a t, pre s → Returns p s a t → post a t
  cuts : ∀ s t, pre s → Cut p s t → crash t

namespace Triple

variable {pre : σ → Prop} {post : α → σ → Prop} {crash : σ → Prop}

theorem weaken {pre' : σ → Prop} {post' : α → σ → Prop} {crash' : σ → Prop}
    (h : Triple pre p post crash) (hpre : ∀ s, pre' s → pre s)
    (hpost : ∀ a s, post a s → post' a s) (hcrash : ∀ s, crash s → crash' s) :
    Triple pre' p post' crash' where
  returns s a t hs hreturns := hpost a t (h.returns s a t (hpre s hs) hreturns)
  cuts s t hs hcut := hcrash t (h.cuts s t (hpre s hs) hcut)

protected theorem pure (h : ∀ s, pre s → post a s ∧ crash s) : Triple pre (pure a) post crash where
  returns s c t hs hreturns := by
    obtain ⟨rfl, rfl⟩ := returns_pure.mp hreturns
    exact (h s hs).1
  cuts s t hs hcut := cut_pure.mp hcut ▸ (h s hs).2

protected theorem read {f : σ → Option α} (hpost : ∀ s a, pre s → f s = some a → post a s)
    (hcrash : ∀ s, pre s → crash s) : Triple pre (Prog.read f) post crash where
  returns s a _ hs hreturns := hreturns.2 ▸ hpost s a hs hreturns.1
  cuts s _ hs hcut := cut_read.mp hcut ▸ hcrash s hs

protected theorem step {f : σ → Option α × σ}
    (h : ∀ s, pre s → crash s ∧ crash (f s).2 ∧ ∀ a, (f s).1 = some a → post a (f s).2) :
    Triple pre (step f) post crash where
  returns s a _ hs hreturns := hreturns.2 ▸ (h s hs).2.2 a hreturns.1
  cuts s t hs hcut := by
    rcases cut_step.mp hcut with rfl | rfl
    · exact (h _ hs).1
    · exact (h _ hs).2.1

protected theorem bind {middle : α → σ → Prop} {post : β → σ → Prop}
    (h : Triple pre p middle crash) (hnext : ∀ a, Triple (middle a) (q a) post crash) :
    Triple pre (p >>= q) post crash where
  returns s b u hs hreturns := by
    obtain ⟨a, t, hfirst, hsecond⟩ := returns_bind.mp hreturns
    exact (hnext a).returns t b u (h.returns s a t hs hfirst) hsecond
  cuts s u hs hcut := by
    rcases cut_bind hcut with hfirst | ⟨a, t, hfirst, hsecond⟩
    · exact h.cuts s u hs hfirst
    · exact (hnext a).cuts t u (h.returns s a t hs hfirst) hsecond

/-- `Triple.bind` with the assertion between the two programs. -/
theorem seq (middle : α → σ → Prop) {post : β → σ → Prop} (h : Triple pre p middle crash)
    (hnext : ∀ a, Triple (middle a) (q a) post crash) : Triple pre (p >>= q) post crash :=
  Triple.bind h hnext

/-- A fact that does not depend on the state. -/
theorem given {fact : Prop} (h : fact → Triple pre p post crash) :
    Triple (fun s => pre s ∧ fact) p post crash where
  returns s a t hs hreturns := (h hs.2).returns s a t hs.1 hreturns
  cuts s t hs hcut := (h hs.2).cuts s t hs.1 hcut

/-- An invariant of every round of a loop. -/
protected theorem forM {ι : Type} {inv : σ → Prop} {body : ι → Prog σ Unit} {items : List ι}
    (h : ∀ item ∈ items, Triple inv (body item) (fun _ => inv) inv) :
    Triple inv (items.forM body) (fun _ => inv) inv := by
  induction items with
  | nil => exact Triple.pure fun s hs => ⟨hs, hs⟩
  | cons item items ih =>
    exact (h item List.mem_cons_self).bind fun _ =>
      ih fun other hother => h other (List.mem_cons_of_mem _ hother)

end Triple

end Durable
