import OrdinalDB.Index.IdMapRefinement

/-!
# The indexes that the API can build

`from_loaded_parts` of both index types, and the values that their public
functions reach: the constructors, loads, adds and removals. Each of them has
stores of one shape (`OrdinalIndex.Shaped`, `IdMapIndex.Shaped`), which is what a
load checks again.
-/

namespace OrdinalDB

open Float32Bits (F32)

variable {R S : Type} {ov : Ordvec R S}

namespace OrdinalIndex

/-- `OrdinalIndex::from_loaded_parts`; `none` is an error. -/
def fromLoadedParts (rankquant : RankQuant R) (sign : Option (SignBitmap S)) :
    Option (OrdinalIndex R S) := do
  guard (validateDimBits rankquant.dim rankquant.bits).isOk
  guard (sign.all fun sign =>
    signCompatible rankquant.dim rankquant.bits && sign.dim = rankquant.dim &&
      sign.rows.length = rankquant.len)
  pure ⟨some rankquant.dim, rankquant.bits, some rankquant, sign, .optional⟩

/-- The stores have a valid shape, and the same one. -/
structure Shaped (index : OrdinalIndex R S) : Prop where
  rank : ∀ rank, index.inner = some rank →
    index.dim = some rank.dim ∧ rank.bits = index.bits ∧ CompatibleDim rank.dim rank.bits
  sign : ∀ sign, index.sign = some sign → ∃ rank, index.inner = some rank ∧
    sign.dim = rank.dim ∧ sign.rows.length = rank.rows.length ∧ signCompatible rank.dim rank.bits

inductive Reached (ov : Ordvec R S) : OrdinalIndex R S → Prop
  | new {dim : Nat} {bits : UInt8} {policy : SignPolicy} {self : OrdinalIndex R S}
      (h : newWithBuildOptions dim bits policy = .ok self) : Reached ov self
  | newLazy {bits : UInt8} {policy : SignPolicy} {self : OrdinalIndex R S}
      (h : newLazyWithBuildOptions bits policy = .ok self) : Reached ov self
  | loaded {rankquant : RankQuant R} {sign : Option (SignBitmap S)} {self : OrdinalIndex R S}
      (h : fromLoadedParts rankquant sign = some self) : Reached ov self
  | add2d {self : OrdinalIndex R S} (h : Reached ov self) (vectors : List F32) (dim : Nat) :
      Reached ov (self.add2d ov vectors dim).2
  | swapRemove {self self' : OrdinalIndex R S} {idx moved : Nat} (h : Reached ov self)
      (hremove : self.swapRemove idx = some (moved, self')) : Reached ov self'

theorem validateDimBits_ok_iff {dim : Nat} {bits : UInt8} :
    validateDimBits dim bits = .ok () ↔ CompatibleDim dim bits := by
  rw [← checkDimBits_ok_iff, validateDimBits]
  cases checkDimBits dim bits <;> simp [Except.mapError]

theorem isOk_validateDimBits {dim : Nat} {bits : UInt8} :
    (validateDimBits dim bits).isOk ↔ CompatibleDim dim bits := by
  rw [← validateDimBits_ok_iff]
  cases validateDimBits dim bits <;> simp [Except.isOk, Except.toBool]

theorem fromLoadedParts_eq_some {rankquant : RankQuant R} {sign : Option (SignBitmap S)}
    {self : OrdinalIndex R S} : fromLoadedParts rankquant sign = some self ↔
      CompatibleDim rankquant.dim rankquant.bits ∧
      (∀ s, sign = some s → signCompatible rankquant.dim rankquant.bits ∧
        s.dim = rankquant.dim ∧ s.rows.length = rankquant.rows.length) ∧
      self = ⟨some rankquant.dim, rankquant.bits, some rankquant, sign, .optional⟩ := by
  have hsign : (sign.all fun sign => signCompatible rankquant.dim rankquant.bits &&
      sign.dim = rankquant.dim && sign.rows.length = rankquant.len) = true ↔
      ∀ s, sign = some s → signCompatible rankquant.dim rankquant.bits ∧
        s.dim = rankquant.dim ∧ s.rows.length = rankquant.rows.length := by
    cases sign with
    | none => simp
    | some s =>
      simp only [Option.all_some, Bool.and_eq_true, decide_eq_true_eq, and_assoc,
        Option.some.injEq, forall_eq']
      rfl
  simp only [fromLoadedParts, Option.bind_eq_bind, Option.bind_eq_some_iff, Option.guard_eq_some',
    Option.pure_def, Option.some.injEq, exists_const, isOk_validateDimBits, hsign]
  exact ⟨fun ⟨hdim, hfits, hself⟩ => ⟨hdim, hfits, hself.symm⟩,
    fun ⟨hdim, hfits, hself⟩ => ⟨hdim, hfits, hself.symm⟩⟩

/-- A new sign store is empty and fits. -/
theorem maybeNewSign_ok {dim : Nat} {bits : UInt8} {policy : SignPolicy}
    {sign : Option (SignBitmap S)} (h : maybeNewSign dim bits policy = .ok sign) :
    ∀ s, sign = some s → s = .new dim ∧ signCompatible dim bits := by
  intro s hs
  subst hs
  cases hcompatible : signCompatible dim bits <;> cases policy <;>
    simp [maybeNewSign, hcompatible] at h
  all_goals exact ⟨h.symm, rfl⟩

theorem shaped_empty {dim : Nat} {bits : UInt8} {policy : SignPolicy}
    {sign : Option (SignBitmap S)} (hcompatible : CompatibleDim dim bits)
    (hsign : maybeNewSign dim bits policy = .ok sign) :
    Shaped (R := R) ⟨some dim, bits, some (.new dim bits), sign, policy⟩ where
  rank rank hrank := by
    obtain rfl := Option.some.inj hrank
    exact ⟨rfl, rfl, hcompatible⟩
  sign s hs := by
    obtain ⟨rfl, hfits⟩ := maybeNewSign_ok hsign s hs
    exact ⟨_, rfl, rfl, rfl, hfits⟩

variable {self : OrdinalIndex R S}

theorem Shaped.appendRows (h : self.Shaped) (ov : Ordvec R S) (vectors : List F32) {dim : Nat}
    (hdim : self.dim = some dim) {rank : RankQuant R} (hrank : self.inner = some rank) :
    (self.appendRows ov vectors).Shaped ∧
      (self.appendRows ov vectors).len = self.len + vectors.length / dim := by
  obtain ⟨hrankDim, hbits, hcompatible⟩ := h.rank rank hrank
  obtain rfl := Option.some.inj (hrankDim.symm.trans hdim)
  refine ⟨⟨fun rank' hrank' => ?_, fun sign' hsign' => ?_⟩, ?_⟩
  · rw [OrdinalIndex.appendRows, hrank] at hrank'
    obtain rfl := Option.some.inj hrank'
    exact ⟨hrankDim, hbits, hcompatible⟩
  · obtain ⟨sign, hsign, rfl⟩ := Option.map_eq_some_iff.mp hsign'
    obtain ⟨rank', hrank', hsame, hlength, hfits⟩ := h.sign sign hsign
    obtain rfl := Option.some.inj (hrank.symm.trans hrank')
    refine ⟨rank.add ov vectors, by rw [OrdinalIndex.appendRows, hrank]; rfl, hsame, ?_, hfits⟩
    simp [SignBitmap.add, RankQuant.add, hlength, hsame]
  · simp [OrdinalIndex.appendRows, len, hrank, RankQuant.add, RankQuant.len]

/-- An add leaves the index as it is, or appends the rows of the batch. -/
theorem Shaped.add2d (h : self.Shaped) (ov : Ordvec R S) (vectors : List F32) (dim : Nat) :
    (∃ e, self.add2d ov vectors dim = (.error e, self)) ∨
      ∃ self', self.add2d ov vectors dim = (.ok (), self') ∧ self'.Shaped ∧
        self'.len = self.len + vectors.length / dim := by
  unfold OrdinalIndex.add2d
  cases hshape : validateAddDimBits dim self.bits with
  | error e => exact .inl ⟨e, rfl⟩
  | ok _ =>
  have hcompatible := validateAddDimBits_ok_iff.mp hshape
  by_cases hmul : vectors.length % dim = 0
  swap
  · exact .inl ⟨_, if_pos hmul⟩
  have hcommit : (∃ existing, self.dim = some existing ∧ existing = dim) ∨ self.dim = none →
      (∃ e, self.commitRows ov vectors dim = (.error e, self)) ∨
        ∃ self', self.commitRows ov vectors dim = (.ok (), self') ∧ self'.Shaped ∧
          self'.len = self.len + vectors.length / dim := by
    intro hdim
    unfold commitRows
    cases hrank : self.inner with
    | some rank =>
      have hself : self.dim = some dim := by
        rcases hdim with ⟨existing, hsome, rfl⟩ | hnone
        · exact hsome
        · rw [(h.rank rank hrank).1] at hnone
          cases hnone
      exact .inr ⟨_, rfl, h.appendRows ov vectors hself hrank⟩
    | none =>
      cases hsign : (maybeNewSign dim self.bits self.signPolicy : Except _ (Option (SignBitmap S))) with
      | error e => exact .inl ⟨_, rfl⟩
      | ok sign =>
        have hlen : self.len = 0 := by simp [len, hrank]
        rw [hlen]
        exact .inr ⟨_, rfl, (shaped_empty hcompatible hsign).appendRows ov vectors rfl rfl⟩
  simp only [hmul, ne_eq, not_true_eq_false, if_false]
  cases hdim : self.dim with
  | none =>
    by_cases hrows : vectors.length / dim = 0
    · exact .inr ⟨self, by simp [hrows], h, by simp [hrows]⟩
    · cases hbad : firstInvalidCoord vectors dim with
      | some bad => exact .inl ⟨_, by simp [hrows]; rfl⟩
      | none => simpa [hrows] using hcommit (.inr hdim)
  | some existing =>
    by_cases heq : existing = dim
    · cases hbad : firstInvalidCoord vectors dim with
      | some bad => exact .inl ⟨_, by simp [heq]; rfl⟩
      | none =>
        by_cases hrows : vectors.length / dim = 0
        · exact .inr ⟨self, by simp [heq, hrows], h, by simp [hrows]⟩
        · simpa [heq, hrows] using hcommit (.inl ⟨existing, hdim, heq⟩)
    · exact .inl ⟨_, if_pos heq⟩

theorem Shaped.swapRemove (h : self.Shaped) {self' : OrdinalIndex R S} {idx moved : Nat}
    (hremove : self.swapRemove idx = some (moved, self')) :
    self'.Shaped ∧ idx < self.len ∧ self'.len = self.len - 1 := by
  simp only [OrdinalIndex.swapRemove, Option.bind_eq_bind, Option.bind_eq_some_iff] at hremove
  obtain ⟨-, -, rank, hrank, ⟨movedFrom, inner⟩, hinner, hremove⟩ := hremove
  obtain ⟨hidx, hinner⟩ := Option.ite_none_right_eq_some.mp hinner
  obtain ⟨rfl, rfl⟩ := Prod.mk.inj (Option.some.inj hinner)
  obtain ⟨hdim, hbits, hcompatible⟩ := h.rank rank hrank
  have hlen : idx < self.len := by simpa [len, hrank, RankQuant.len] using hidx
  cases hsign : self.sign with
  | none =>
    rw [hsign] at hremove
    obtain ⟨-, rfl⟩ := Prod.mk.inj (Option.some.inj hremove)
    refine ⟨⟨fun rank' hrank' => ?_, fun sign' hsign' => ?_⟩, hlen, ?_⟩
    · obtain rfl := Option.some.inj hrank'
      exact ⟨hdim, hbits, hcompatible⟩
    · cases hsign'
    · simp [len, hrank, RankQuant.len]
  | some sign =>
    rw [hsign] at hremove
    obtain ⟨shorter, hshorter, hremove⟩ := Option.bind_eq_some_iff.mp hremove
    obtain ⟨hidx', hshorter⟩ := Option.ite_none_right_eq_some.mp hshorter
    obtain rfl := Option.some.inj hshorter
    obtain ⟨-, rfl⟩ := Prod.mk.inj (Option.some.inj hremove)
    obtain ⟨rank', hrank', hsame, hlength, hfits⟩ := h.sign sign hsign
    obtain rfl := Option.some.inj (hrank.symm.trans hrank')
    refine ⟨⟨fun rank' hrank' => ?_, fun sign' hsign' => ?_⟩, hlen, ?_⟩
    · obtain rfl := Option.some.inj hrank'
      exact ⟨hdim, hbits, hcompatible⟩
    · obtain rfl := Option.some.inj hsign'
      exact ⟨_, rfl, hsame, by simp [hlength], hfits⟩
    · simp [len, hrank, RankQuant.len]

theorem len_of_new {dim : Nat} {bits : UInt8} {policy : SignPolicy}
    (h : newWithBuildOptions dim bits policy = .ok self) :
    self.len = 0 ∧ self.Shaped := by
  simp only [newWithBuildOptions, bind, Except.bind, pure, Except.pure] at h
  cases hbits : validateBits bits with
  | error e => simp [hbits] at h
  | ok _ =>
    cases hdim : validateDimBits dim bits with
    | error e => simp [hbits, hdim] at h
    | ok _ =>
      cases hsign : (maybeNewSign dim bits policy : Except _ (Option (SignBitmap S))) with
      | error e => simp [hbits, hdim, hsign] at h
      | ok sign =>
        simp only [hbits, hdim, hsign] at h
        obtain rfl := Except.ok.inj h
        exact ⟨rfl, shaped_empty (validateDimBits_ok_iff.mp hdim) hsign⟩

theorem len_of_newLazy {bits : UInt8} {policy : SignPolicy}
    (h : newLazyWithBuildOptions bits policy = .ok self) : self.len = 0 ∧ self.Shaped := by
  have hlazy : self.inner = none ∧ self.sign = none := by
    simp only [newLazyWithBuildOptions, bind, Except.bind, pure, Except.pure] at h
    cases hbits : validateBits bits with
    | error e => simp [hbits] at h
    | ok _ =>
      simp only [hbits] at h
      split at h
      next => cases h
      next =>
        obtain rfl := Except.ok.inj h
        exact ⟨rfl, rfl⟩
  refine ⟨by simp [len, hlazy.1], fun rank hrank => ?_, fun sign hsign => ?_⟩
  · rw [hlazy.1] at hrank
    cases hrank
  · rw [hlazy.2] at hsign
    cases hsign

theorem Reached.shaped (h : Reached ov self) : self.Shaped := by
  induction h with
  | new h => exact (len_of_new h).2
  | newLazy h => exact (len_of_newLazy h).2
  | @loaded rankquant sign self h =>
    obtain ⟨hcompatible, hsign, rfl⟩ := fromLoadedParts_eq_some.mp h
    refine ⟨fun rank hrank => ?_, fun s hs => ?_⟩
    · obtain rfl := Option.some.inj hrank
      exact ⟨rfl, rfl, hcompatible⟩
    · obtain ⟨hfits, hdim, hlength⟩ := hsign s hs
      exact ⟨rankquant, rfl, hdim, hlength, hfits⟩
  | add2d _ vectors dim ih =>
    rcases ih.add2d ov vectors dim with ⟨e, hadd⟩ | ⟨self', hadd, hshaped, -⟩
    · rwa [hadd]
    · rwa [hadd]
  | swapRemove _ hremove ih => exact (ih.swapRemove hremove).1

end OrdinalIndex

namespace IdMapIndex

/-- `IdMapIndex::from_loaded_parts`; `none` is an error. -/
def fromLoadedParts (inner : OrdinalIndex R S) (slotToId : List UInt64) :
    Option (IdMapIndex R S) := do
  guard (inner.len = slotToId.length)
  guard slotToId.Nodup
  pure ⟨inner, slotToId, SlotTable.insertFrom ∅ 0 slotToId⟩

/-- The dense index is shaped, and the ids are distinct, one a slot. -/
structure Shaped (m : IdMapIndex R S) : Prop where
  inner : m.inner.Shaped
  index : SlotTable.Indexes m.idToSlot m.slotToId
  len : m.inner.len = m.slotToId.length

inductive Reached (ov : Ordvec R S) : IdMapIndex R S → Prop
  | new {self : IdMapIndex R S} (h : IsNew self) : Reached ov self
  | loaded {inner : OrdinalIndex R S} {slotToId : List UInt64} {self : IdMapIndex R S}
      (hinner : inner.Reached ov) (h : fromLoadedParts inner slotToId = some self) :
      Reached ov self
  | answer {self : IdMapIndex R S} (h : Reached ov self) (call : Call) :
      Reached ov (self.answer ov call).2

variable {self : IdMapIndex R S}

theorem Shaped.addWithIds2d (h : self.Shaped) (ov : Ordvec R S) (vectors : List F32) (dim : Nat)
    (ids : List UInt64) : (self.addWithIds2d ov vectors dim ids).2.Shaped := by
  unfold IdMapIndex.addWithIds2d
  split
  next => exact h
  next =>
    split
    next => exact h
    next =>
      simp only
      split
      next => exact h
      next hcount =>
        split
        next => exact h
        next hclash =>
          split
          next => exact h
          next =>
            obtain ⟨hnodup, hfresh⟩ := firstClash_eq_none.mp hclash
            have hnew : ∀ id ∈ ids, id ∉ self.slotToId := fun id hid hmem =>
              (hfresh id hid).1 (h.index.mem_iff.mpr hmem)
            rcases h.inner.add2d ov vectors dim with ⟨e, hadd⟩ | ⟨inner, hadd, hshaped, hlen⟩
            · rw [hadd]
              exact h
            · rw [hadd]
              refine ⟨hshaped, ?_, ?_⟩
              · show SlotTable.Indexes (SlotTable.insertFrom self.idToSlot self.inner.len ids) _
                rw [h.len]
                exact h.index.append (List.nodup_append.mpr ⟨h.index.nodup, hnodup,
                  fun a ha b hb hab => hnew b hb (hab ▸ ha)⟩)
              · show inner.len = (self.slotToId ++ ids).length
                rw [hlen, h.len, List.length_append, not_not.mp hcount]

theorem Shaped.remove (h : self.Shaped) {id : UInt64} {found : Bool} {self' : IdMapIndex R S}
    (hremove : self.remove id = some (found, self')) : self'.Shaped := by
  unfold IdMapIndex.remove at hremove
  cases hslot : self.idToSlot.lookup id with
  | none =>
    rw [hslot] at hremove
    obtain ⟨-, rfl⟩ := Prod.mk.inj (Option.some.inj hremove)
    exact h
  | some slot =>
    rw [hslot] at hremove
    simp only [Option.bind_eq_bind, Option.bind_eq_some_iff] at hremove
    obtain ⟨⟨moved, inner⟩, hswap, -, -, evicted, -, -, -, hself⟩ := hremove
    obtain ⟨-, rfl⟩ := Prod.mk.inj (Option.some.inj hself)
    obtain ⟨hshaped, -, hlen⟩ := h.inner.swapRemove hswap
    exact ⟨hshaped, h.index.swapRemove hslot, by
      rw [hlen, h.len]
      exact (SlotTable.swapRemove_length _ _).symm⟩

theorem Reached.shaped (h : Reached ov self) : self.Shaped := by
  induction h with
  | @new self h =>
    obtain ⟨hempty, hids, hslots⟩ : (self.inner.len = 0 ∧ self.inner.Shaped) ∧
        self.slotToId = [] ∧ self.idToSlot = ∅ := by
      rcases h with ⟨dim, bits, policy, hnew⟩ | ⟨bits, policy, hnew⟩
      · cases hinner : (OrdinalIndex.newWithBuildOptions dim bits policy :
            Except _ (OrdinalIndex R S)) with
        | error e =>
          rw [newWithBuildOptions, hinner] at hnew
          cases hnew
        | ok inner =>
          rw [newWithBuildOptions, hinner] at hnew
          obtain rfl := Except.ok.inj hnew
          exact ⟨OrdinalIndex.len_of_new hinner, rfl, rfl⟩
      · cases hinner : (OrdinalIndex.newLazyWithBuildOptions bits policy :
            Except _ (OrdinalIndex R S)) with
        | error e =>
          rw [newLazyWithBuildOptions, hinner] at hnew
          cases hnew
        | ok inner =>
          rw [newLazyWithBuildOptions, hinner] at hnew
          obtain rfl := Except.ok.inj hnew
          exact ⟨OrdinalIndex.len_of_newLazy hinner, rfl, rfl⟩
    refine ⟨hempty.2, ?_, by rw [hempty.1, hids]; rfl⟩
    rw [hids, hslots]
    exact .empty
  | @loaded inner slotToId self hinner h =>
    simp only [fromLoadedParts, Option.bind_eq_bind, Option.bind_eq_some_iff,
      Option.guard_eq_some', Option.pure_def, Option.some.injEq, exists_const] at h
    obtain ⟨hlen, hnodup, rfl⟩ := h
    have hindex := SlotTable.Indexes.empty.append (by simpa using hnodup)
    exact ⟨hinner.shaped, by simpa using hindex, hlen⟩
  | @answer self _ call ih =>
    cases call with
    | addWithIds vectors ids =>
      unfold IdMapIndex.answer
      cases hadd : self.addWithIds ov vectors ids with
      | none => simpa [hadd] using ih
      | some result =>
        obtain ⟨dim, -, hresult⟩ := Option.bind_eq_some_iff.mp hadd
        obtain rfl := Option.some.inj hresult
        simpa [hadd] using ih.addWithIds2d ov vectors dim ids
    | addWithIds2d vectors dim ids => exact ih.addWithIds2d ov vectors dim ids
    | remove id =>
      unfold IdMapIndex.answer
      cases hremove : self.remove id with
      | none => simpa [hremove] using ih
      | some result =>
        obtain ⟨found, self'⟩ := result
        simpa [hremove] using ih.remove hremove

end IdMapIndex

end OrdinalDB
