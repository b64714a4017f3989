import OrdinalDB.Index.IdMapIndex

/-!
# `IdMapIndex` refines a map from ids to vectors

The invariant is one list of rows, pairs of an id and a vector, of which the
three structures of the index are columns (`IdMapIndex.Holds`). An add appends
to the list and a removal is a swap-remove of it, so the columns stay parallel.

Results:
1. `OrdinalIndex.add2d_spec`: a batch is rejected exactly on `RowsFault`, and
   then nothing changed.
2. `addWithIds2d_spec` and `remove_spec`: the same for the index with ids.
3. `idMapIndex_refines`: along every sequence of calls the index represents the
   map that the accepted calls build, and answers the next call by its content.
-/

namespace OrdinalDB

open Float32Bits (F32)

variable {R S : Type}

/-! ## The dense part -/

theorem firstInvalidCoord_eq_none {values : List F32} {dim : Nat} :
    firstInvalidCoord values dim = none ↔ ∀ v ∈ values, validCoord v := by
  rw [firstInvalidCoord]
  split
  · next hall => simpa using hall.2
  · -- the serial scan
    rw [List.findSome?_eq_none_iff]
    constructor
    · intro h v hv
      obtain ⟨i, hi⟩ := List.mem_iff_getElem?.mp hv
      have hpair := h (v, i) (List.mem_zipIdx_iff_getElem?.mpr hi)
      simpa [validCoord] using hpair
    · rintro h ⟨v, i⟩ hpair
      have hv := h v (List.mem_of_getElem? (List.mem_zipIdx_iff_getElem?.mp hpair))
      simpa [validCoord] using hv

namespace OrdinalIndex

/-- The index stores exactly `vectors`, in slot order. -/
inductive Holds (ov : Ordvec R S) : OrdinalIndex R S → List (List F32) → Prop
  | uncommitted (bits : UInt8) (policy : SignPolicy) : Holds ov ⟨none, bits, none, none, policy⟩ []
  | committed (dim : Nat) (bits : UInt8) (policy : SignPolicy) (vectors : List (List F32))
      (sign : Option (SignBitmap S))
      (hs : ∀ s, sign = some s → s = ⟨dim, vectors.map (ov.signRow dim)⟩) :
      Holds ov ⟨some dim, bits, some ⟨dim, bits, vectors.map (ov.rankRow dim bits)⟩, sign, policy⟩
        vectors

/-- Why `add_2d` rejects a batch of at least one row. -/
def RowsFault (self : OrdinalIndex R S) (vectors : List F32) (dim : Nat) : Prop :=
  ¬CompatibleDim dim self.bits ∨ vectors.length % dim ≠ 0 ∨
  (∃ existing, self.dim = some existing ∧ existing ≠ dim) ∨
  (∃ v ∈ vectors, ¬validCoord v) ∨
  (self.dim = none ∧ self.signPolicy = .required ∧ signCompatible dim self.bits = false)

variable {ov : Ordvec R S} {self : OrdinalIndex R S} {vectors : List (List F32)}

theorem Holds.len_eq (h : Holds ov self vectors) : self.len = vectors.length := by
  cases h with
  | uncommitted => rfl
  | committed => simp [len, RankQuant.len]

theorem Holds.rank_rows (h : Holds ov self vectors) {rank : RankQuant R}
    (hr : self.inner = some rank) : rank.rows = vectors.map (ov.rankRow rank.dim rank.bits) := by
  cases h with
  | uncommitted => cases hr
  | committed =>
    obtain rfl := Option.some.inj hr
    rfl

theorem Holds.sign_rows (h : Holds ov self vectors) {sign : SignBitmap S}
    (hr : self.sign = some sign) : sign.rows = vectors.map (ov.signRow sign.dim) := by
  cases h with
  | uncommitted => cases hr
  | committed _ _ _ _ _ hs => simp [hs sign hr]

theorem Holds.has_rank (h : Holds ov self vectors) (hne : vectors ≠ []) :
    ∃ rank, self.inner = some rank := by
  cases h with
  | uncommitted => exact absurd rfl hne
  | committed => exact ⟨_, rfl⟩

theorem Holds.appendRows {dim : Nat} (h : Holds ov self vectors) (hdim : self.dim = some dim)
    (batch : List F32) : Holds ov (self.appendRows ov batch) (vectors ++ rowsOf dim batch) := by
  cases h with
  | uncommitted => simp at hdim
  | committed dim' bits policy vectors sign hs =>
    obtain rfl : dim' = dim := by simpa using hdim
    simp only [OrdinalIndex.appendRows, Option.map_some, RankQuant.add, ← List.map_append]
    refine .committed dim' bits policy _ _ ?_
    intro s hsome
    obtain ⟨old, hold, rfl⟩ := Option.map_eq_some_iff.mp hsome
    simp [hs old hold, SignBitmap.add]

theorem maybeNewSign_spec (dim : Nat) (bits : UInt8) (policy : SignPolicy) :
    (∃ e, (maybeNewSign dim bits policy : Except _ (Option (SignBitmap S))) = .error e ∧
      policy = .required ∧ signCompatible dim bits = false) ∨
    (∃ sign, (maybeNewSign dim bits policy : Except _ (Option (SignBitmap S))) = .ok sign ∧
      (∀ s, sign = some s → s = .new dim) ∧
      ¬(policy = .required ∧ signCompatible dim bits = false)) := by
  cases policy with
  | disabled => exact Or.inr ⟨none, rfl, by simp, by simp⟩
  | optional =>
    refine Or.inr ⟨_, rfl, ?_, by simp⟩
    intro s hs
    split at hs
    · exact (Option.some.inj hs).symm
    · cases hs
  | required =>
    cases hc : signCompatible dim bits with
    | true => exact Or.inr ⟨some (.new dim), by simp [maybeNewSign, hc], by simp, by simp⟩
    | false => exact Or.inl ⟨_, by simp [maybeNewSign, hc]; rfl, rfl, rfl⟩

/-- `add_2d` on at least one row: a fault is an error that changes nothing,
anything else appends the rows. -/
theorem add2d_spec (h : Holds ov self vectors) {batch : List F32} {dim : Nat}
    (hrows : batch.length / dim ≠ 0) :
    (RowsFault self batch dim ∧ ∃ e, self.add2d ov batch dim = (.error e, self)) ∨
    (¬RowsFault self batch dim ∧ ∃ self', self.add2d ov batch dim = (.ok (), self') ∧
      Holds ov self' (vectors ++ rowsOf dim batch) ∧ self'.dim = some dim) := by
  rw [add2d]
  cases hshape : validateAddDimBits dim self.bits with
  | error e =>
    refine Or.inl ⟨Or.inl ?_, e, rfl⟩
    rw [← validateAddDimBits_ok_iff, hshape]
    simp
  | ok _ =>
  have hcompat := validateAddDimBits_ok_iff.mp hshape
  by_cases hmul : batch.length % dim = 0
  swap
  · exact Or.inl ⟨Or.inr (Or.inl hmul), _, by simp [hmul]; rfl⟩
  cases hbad : firstInvalidCoord batch dim with
  | some bad =>
    have hinvalid : ∃ v ∈ batch, ¬validCoord v := by
      by_contra hall
      have hnone : firstInvalidCoord batch dim = none :=
        firstInvalidCoord_eq_none.mpr (by simpa using hall)
      rw [hbad] at hnone
      cases hnone
    refine Or.inl ⟨Or.inr (Or.inr (Or.inr (Or.inl hinvalid))), ?_⟩
    cases hd : self.dim with
    | none => exact ⟨_, by simp [hmul, hrows]; rfl⟩
    | some existing =>
      by_cases heq : existing = dim
      · exact ⟨_, by simp [hmul, heq]; rfl⟩
      · exact ⟨_, by simp [hmul, heq]; rfl⟩
  | none =>
  have hvalid := firstInvalidCoord_eq_none.mp hbad
  cases h with
  | committed dim' bits policy vectors sign hs =>
    by_cases heq : dim' = dim
    · subst heq
      have hheld := (Holds.committed dim' bits policy vectors sign hs).appendRows rfl batch
      refine Or.inr ⟨?_, _, by simp [hmul, hrows, commitRows], hheld, rfl⟩
      rintro (hc | hm | ⟨d, hd, hne⟩ | ⟨v, hv, hbadv⟩ | ⟨hlazy, -⟩)
      · exact hc hcompat
      · exact hm hmul
      · exact hne (Option.some.inj hd).symm
      · exact hbadv (hvalid v hv)
      · cases hlazy
    · refine Or.inl ⟨Or.inr (Or.inr (Or.inl ⟨dim', rfl, heq⟩)), .dimMismatch dim' dim, ?_⟩
      simp [hmul, heq]
  | uncommitted bits policy =>
    -- an index without dimension commits to the one of the batch
    rcases maybeNewSign_spec (S := S) dim bits policy with
      ⟨e, hsign, hrequired, hincompat⟩ | ⟨sign, hsign, hnew, hok⟩
    · refine Or.inl ⟨Or.inr (Or.inr (Or.inr (Or.inr ⟨rfl, hrequired, hincompat⟩))), ?_⟩
      exact ⟨_, by simp [hmul, hrows, commitRows, hsign]; rfl⟩
    · have hempty : Holds ov ⟨some dim, bits, some (.new dim bits), sign, policy⟩ [] :=
        .committed dim bits policy [] sign hnew
      have hheld := hempty.appendRows rfl batch
      refine Or.inr ⟨?_, _, by simp [hmul, hrows, commitRows, hsign], hheld, rfl⟩
      rintro (hc | hm | ⟨d, hd, -⟩ | ⟨v, hv, hbadv⟩ | ⟨-, hfault⟩)
      · exact hc hcompat
      · exact hm hmul
      · cases hd
      · exact hbadv (hvalid v hv)
      · exact hok hfault

theorem swapRemove_spec (h : Holds ov self vectors) {slot : Nat} (hslot : slot < vectors.length) :
    ∃ self', self.swapRemove slot = some (vectors.length - 1, self') ∧ self'.dim = self.dim ∧
      Holds ov self' (SlotTable.swapRemove vectors slot) := by
  cases h with
  | uncommitted => simp at hslot
  | committed dim bits policy vectors sign hs =>
    let moved := SlotTable.swapRemove vectors slot
    let rank : RankQuant R := ⟨dim, bits, moved.map (ov.rankRow dim bits)⟩
    cases sign with
    | none =>
      refine ⟨⟨some dim, bits, some rank, none, policy⟩, ?_, rfl,
        .committed dim bits policy moved none (by simp)⟩
      simp [swapRemove, RankQuant.swapRemove, hslot, rank, moved]
    | some sign =>
      obtain rfl := hs sign rfl
      refine ⟨⟨some dim, bits, some rank, some ⟨dim, moved.map (ov.signRow dim)⟩, policy⟩, ?_, rfl,
        .committed dim bits policy moved _ (by simp)⟩
      simp [swapRemove, RankQuant.swapRemove, SignBitmap.swapRemove, hslot, rank, moved]

end OrdinalIndex

/-! ## The id tables -/

theorem firstClash_eq_none {m : Finmap fun _ : UInt64 => Nat} {seen ids : List UInt64} :
    firstClash m seen ids = none ↔ ids.Nodup ∧ ∀ id ∈ ids, id ∉ m ∧ id ∉ seen := by
  induction ids generalizing seen with
  | nil => simp [firstClash]
  | cons id ids ih =>
    rw [firstClash]
    split
    · next hclash =>
      simp only [reduceCtorEq, List.mem_cons, forall_eq_or_imp, false_iff, not_and]
      intro _ hfree
      exact absurd hclash (not_or.mpr hfree)
    · next hfree =>
      rw [ih, List.nodup_cons]
      simp only [List.mem_cons, forall_eq_or_imp, not_or] at hfree ⊢
      constructor
      · rintro ⟨hnd, hall⟩
        exact ⟨⟨fun hmem => (hall id hmem).2.1 rfl, hnd⟩, hfree,
          fun k hk => ⟨(hall k hk).1, (hall k hk).2.2⟩⟩
      · rintro ⟨⟨hid, hnd⟩, -, hall⟩
        refine ⟨hnd, fun k hk => ⟨(hall k hk).1, ?_, (hall k hk).2⟩⟩
        rintro rfl
        exact hid hk

namespace IdMapIndex

/-- The index with ids is the columns of `rows`, and the map inverts the id column. -/
structure Holds (ov : Ordvec R S) (m : IdMapIndex R S) (rows : List (UInt64 × List F32)) :
    Prop where
  ids : m.slotToId = rows.map Prod.fst
  index : SlotTable.Indexes m.idToSlot m.slotToId
  inner : m.inner.Holds ov (rows.map Prod.snd)

/-- Why `add_with_ids_2d` rejects a batch. -/
def BatchFault (self : IdMapIndex R S) (vectors : List F32) (dim : Nat) (ids : List UInt64) : Prop :=
  dim < 2 ∨ 65535 < dim ∨ vectors.length % dim ≠ 0 ∨ ids.length ≠ vectors.length / dim ∨
  ¬ids.Nodup ∨ (∃ id ∈ ids, id ∈ self.slotToId) ∨
  (ids ≠ [] ∧ self.inner.RowsFault vectors dim)

variable {ov : Ordvec R S} {self : IdMapIndex R S} {rows : List (UInt64 × List F32)}

theorem Holds.nodup (h : Holds ov self rows) : (rows.map Prod.fst).Nodup := h.ids ▸ h.index.nodup

/-- A batch add either meets a fault and changes nothing, or appends its rows. -/
theorem addWithIds2d_spec (h : Holds ov self rows) (vectors : List F32) (dim : Nat)
    (ids : List UInt64) :
    (BatchFault self vectors dim ids ∧ ∃ e, self.addWithIds2d ov vectors dim ids = (.error e, self)) ∨
    (¬BatchFault self vectors dim ids ∧ ids.length = vectors.length / dim ∧
      ∃ self', self.addWithIds2d ov vectors dim ids = (.ok (), self') ∧
        Holds ov self' (rows ++ ids.zip (rowsOf dim vectors)) ∧
        self'.inner.dim = if ids = [] then self.inner.dim else some dim) := by
  rw [addWithIds2d]
  by_cases hrange : dim < 2 ∨ dim > 65535
  · rw [if_pos hrange]
    exact Or.inl ⟨hrange.elim Or.inl fun hbig => Or.inr (Or.inl hbig), _, rfl⟩
  rw [if_neg hrange]
  by_cases hmul : vectors.length % dim = 0
  swap
  · rw [if_pos hmul]
    exact Or.inl ⟨Or.inr (Or.inr (Or.inl hmul)), _, rfl⟩
  rw [if_neg (not_not.mpr hmul)]
  by_cases hlen : ids.length = vectors.length / dim
  swap
  · simp only [if_pos hlen]
    exact Or.inl ⟨Or.inr (Or.inr (Or.inr (Or.inl hlen))), _, rfl⟩
  simp only [if_neg (not_not.mpr hlen)]
  -- the ids are checked before any row is added: none may be live or given twice
  cases hclash : firstClash self.idToSlot [] ids with
  | some id =>
    refine Or.inl ⟨Or.inr (Or.inr (Or.inr (Or.inr ?_))), _, rfl⟩
    by_contra hfree
    rw [not_or, not_not, not_or] at hfree
    have hnone : firstClash self.idToSlot [] ids = none := by
      refine firstClash_eq_none.mpr ⟨hfree.1, fun k hk => ⟨fun hmem => ?_, by simp⟩⟩
      exact hfree.2.1 ⟨k, hk, h.index.mem_iff.mp hmem⟩
    rw [hclash] at hnone
    cases hnone
  | none =>
  obtain ⟨hnd, hfresh⟩ := firstClash_eq_none.mp hclash
  have hnew : ∀ id ∈ ids, id ∉ self.slotToId := fun id hid hmem =>
    (hfresh id hid).1 (h.index.mem_iff.mpr hmem)
  have hnofault (hinner : ¬(ids ≠ [] ∧ self.inner.RowsFault vectors dim)) :
      ¬BatchFault self vectors dim ids := by
    rintro (hlo | hhi | hm | hl | hdup | ⟨id, hid, hmem⟩ | hrows)
    · exact hrange (Or.inl hlo)
    · exact hrange (Or.inr hhi)
    · exact hm hmul
    · exact hl hlen
    · exact hdup hnd
    · exact hnew id hid hmem
    · exact hinner hrows
  by_cases hrows : vectors.length / dim = 0
  · obtain rfl : ids = [] := List.eq_nil_of_length_eq_zero (hlen.trans hrows)
    exact Or.inr ⟨hnofault fun hne => hne.1 rfl, hlen, self, if_pos hrows, by simpa using h,
      by simp⟩
  have hne : ids ≠ [] := fun hnil => hrows (by rw [← hlen, hnil, List.length_nil])
  simp only [if_neg hrows]
  -- the rows go in first; the maps are extended when they are in
  rcases OrdinalIndex.add2d_spec h.inner hrows with
    ⟨hfault, e, hadd⟩ | ⟨hfine, inner, hadd, hinner, hdim⟩
  · refine Or.inl ⟨Or.inr (Or.inr (Or.inr (Or.inr (Or.inr (Or.inr ⟨hne, hfault⟩))))), e, ?_⟩
    rw [hadd]
  · refine Or.inr ⟨hnofault fun hbad => hfine hbad.2, hlen, _, by rw [hadd], ?_,
      hdim.trans (if_neg hne).symm⟩
    have hlen' : self.inner.len = self.slotToId.length := by
      rw [h.inner.len_eq, h.ids, List.length_map, List.length_map]
    have hzip : ids.length = (rowsOf dim vectors).length := by rw [rowsOf_length, hlen]
    refine ⟨?_, ?_, ?_⟩
    · simp [h.ids, List.map_fst_zip (Nat.le_of_eq hzip)]
    · rw [hlen']
      exact h.index.append (List.nodup_append.mpr ⟨h.index.nodup, hnd,
        fun a ha b hb hab => hnew b hb (hab ▸ ha)⟩)
    · simpa [List.map_snd_zip (Nat.le_of_eq hzip.symm)] using hinner

/-- A removal finds exactly the live ids and takes one row out of all columns. -/
theorem remove_spec (h : Holds ov self rows) (id : UInt64) :
    (id ∉ self.slotToId ∧ self.remove id = some (false, self)) ∨
    (∃ slot vector, rows[slot]? = some (id, vector) ∧ ∃ self', self.remove id = some (true, self') ∧
      Holds ov self' (SlotTable.swapRemove rows slot) ∧ self'.inner.dim = self.inner.dim) := by
  rw [remove]
  cases hslot : self.idToSlot.lookup id with
  | none =>
    exact Or.inl ⟨fun hmem => Finmap.lookup_eq_none.mp hslot (h.index.mem_iff.mpr hmem), rfl⟩
  | some slot =>
  have hid : self.slotToId[slot]? = some id := (h.index id slot).mp hslot
  have hrow : (rows.map Prod.fst)[slot]? = some id := h.ids ▸ hid
  rw [List.getElem?_map, Option.map_eq_some_iff] at hrow
  obtain ⟨⟨id', vector⟩, hrow, rfl⟩ := hrow
  obtain ⟨hlt, -⟩ := List.getElem?_eq_some_iff.mp hrow
  have hlt' : slot < (rows.map Prod.snd).length := by simpa using hlt
  obtain ⟨inner, hswap, hdim, hinner⟩ := OrdinalIndex.swapRemove_spec h.inner hlt'
  refine Or.inr ⟨slot, vector, hrow, _, by simp [hswap, h.ids, hrow]; rfl, ?_, hdim⟩
  refine ⟨by simp, ?_, by simpa using hinner⟩
  simpa [h.ids] using h.index.swapRemove hslot

end IdMapIndex

/-! ## The map the rows stand for -/

namespace VectorMap

/-- The map with exactly the pairs of `rows`. -/
def denote (rows : List (UInt64 × List F32)) : UInt64 → Option (List F32) :=
  assign (fun _ => none) rows

theorem denote_append (rows batch : List (UInt64 × List F32)) :
    denote (rows ++ batch) = assign (denote rows) batch := List.foldl_append

theorem denote_eq_some {rows : List (UInt64 × List F32)} (hnd : (rows.map Prod.fst).Nodup)
    {id : UInt64} {vector : List F32} : denote rows id = some vector ↔ (id, vector) ∈ rows := by
  induction rows using List.reverseRecOn with
  | nil => simp [denote, assign]
  | append_singleton rows pair ih =>
    rw [List.map_append, List.nodup_append] at hnd
    obtain ⟨hnd, -, hfresh⟩ := hnd
    rw [denote_append]
    simp only [assign, List.foldl_cons, List.foldl_nil, List.mem_append, List.mem_singleton]
    by_cases heq : id = pair.1
    · subst heq
      have habsent : (pair.1, vector) ∉ rows := fun hmem =>
        hfresh pair.1 (List.mem_map.mpr ⟨_, hmem, rfl⟩) pair.1 (by simp) rfl
      simp [habsent, Prod.ext_iff, eq_comm]
    · rw [Function.update_of_ne heq, ih hnd]
      simp [Prod.ext_iff, heq]

theorem denote_isSome {rows : List (UInt64 × List F32)} (hnd : (rows.map Prod.fst).Nodup)
    {id : UInt64} : (denote rows id).isSome ↔ id ∈ rows.map Prod.fst := by
  rw [Option.isSome_iff_exists]
  simp only [denote_eq_some hnd, List.mem_map, Prod.exists, exists_and_right, exists_eq_right]

theorem denote_swapRemove {rows : List (UInt64 × List F32)} (hnd : (rows.map Prod.fst).Nodup)
    {slot : Nat} {id : UInt64} {vector : List F32} (hrow : rows[slot]? = some (id, vector)) :
    denote (SlotTable.swapRemove rows slot) = Function.update (denote rows) id none := by
  have hnd' : ((SlotTable.swapRemove rows slot).map Prod.fst).Nodup := by
    obtain ⟨hlt, -⟩ := List.getElem?_eq_some_iff.mp hrow
    rw [((SlotTable.swapRemove_perm rows hlt).map _).nodup_iff]
    exact hnd.sublist ((List.eraseIdx_sublist rows slot).map _)
  funext k
  refine Option.ext fun v => ?_
  rw [denote_eq_some hnd', SlotTable.mem_swapRemove hnd.of_map hrow]
  by_cases hk : k = id
  · subst hk
    simp only [Function.update_self, reduceCtorEq, iff_false, not_and, not_not]
    intro hmem
    have hpair : (k, vector) ∈ rows := List.mem_of_getElem? hrow
    exact List.inj_on_of_nodup_map hnd hmem hpair rfl
  · rw [Function.update_of_ne hk, denote_eq_some hnd]
    simp [Prod.ext_iff, hk]

end VectorMap

namespace IdMapIndex

variable {ov : Ordvec R S} {self : IdMapIndex R S} {s : VectorMap}

/-- The index is `s`: the two id tables invert each other over the live ids and
the slots, both stores have one row per live id, and the row at an id's slot is
the code of the vector `s` has for it. -/
structure Represents (ov : Ordvec R S) (m : IdMapIndex R S) (s : VectorMap) : Prop where
  dim : m.inner.dim = s.dim
  inverse : ∀ id slot, m.idToSlot.lookup id = some slot ↔ m.slotToId[slot]? = some id
  nodup : m.slotToId.Nodup
  live : ∀ id, id ∈ m.slotToId ↔ (s.vectors id).isSome
  innerLen : m.inner.len = m.len
  rankLen : ∀ rank, m.inner.inner = some rank → rank.rows.length = m.len
  signLen : ∀ sign, m.inner.sign = some sign → sign.rows.length = m.len
  stored : ∀ id slot, m.idToSlot.lookup id = some slot → ∃ vector, s.vectors id = some vector ∧
    (∃ rank, m.inner.inner = some rank ∧
      rank.rows[slot]? = some (ov.rankRow rank.dim rank.bits vector)) ∧
    ∀ sign, m.inner.sign = some sign → sign.rows[slot]? = some (ov.signRow sign.dim vector)

/-- The row list behind an index that represents `s`. -/
def HoldsFor (ov : Ordvec R S) (m : IdMapIndex R S) (s : VectorMap) : Prop :=
  ∃ rows, Holds ov m rows ∧ s = ⟨m.inner.dim, VectorMap.denote rows⟩

theorem HoldsFor.represents (h : HoldsFor ov self s) : Represents ov self s := by
  obtain ⟨rows, hold, rfl⟩ := h
  have hlen : self.len = rows.length := by simp [len, hold.ids]
  have hrows {id : UInt64} {slot : Nat} (hslot : self.idToSlot.lookup id = some slot) :
      ∃ vector, rows[slot]? = some (id, vector) := by
    have hid := (hold.index id slot).mp hslot
    rw [hold.ids, List.getElem?_map, Option.map_eq_some_iff] at hid
    obtain ⟨⟨id', vector⟩, hrow, rfl⟩ := hid
    exact ⟨vector, hrow⟩
  have hinner := hold.inner
  refine ⟨rfl, hold.index, hold.index.nodup, ?_, ?_, ?_, ?_, ?_⟩
  · intro id
    rw [VectorMap.denote_isSome hold.nodup, hold.ids]
  · rw [hinner.len_eq, hlen, List.length_map]
  · intro rank hrank
    simp [hinner.rank_rows hrank, hlen]
  · intro sign hsign
    simp [hinner.sign_rows hsign, hlen]
  · intro id slot hslot
    obtain ⟨vector, hrow⟩ := hrows hslot
    refine ⟨vector, (VectorMap.denote_eq_some hold.nodup).mpr (List.mem_of_getElem? hrow), ?_, ?_⟩
    · have hne : rows.map Prod.snd ≠ [] := by
        rintro hnil
        simp [List.map_eq_nil_iff.mp hnil] at hrow
      obtain ⟨rank, hrank⟩ := hinner.has_rank hne
      exact ⟨rank, hrank, by simp [hinner.rank_rows hrank, hrow]⟩
    · intro sign hsign
      simp [hinner.sign_rows hsign, hrow]

/-- The constructors that succeed, `dim` fixed or still open. -/
def IsNew (m : IdMapIndex R S) : Prop :=
  (∃ dim bits sign, newWithBuildOptions dim bits sign = .ok m) ∨
  (∃ bits sign, newLazyWithBuildOptions bits sign = .ok m)

theorem IsNew.holdsFor (h : IsNew self) (ov : Ordvec R S) :
    HoldsFor ov self ⟨self.inner.dim, fun _ => none⟩ := by
  refine ⟨[], ?_, rfl⟩
  rcases h with ⟨dim, bits, policy, hnew⟩ | ⟨bits, policy, hnew⟩
  · simp only [newWithBuildOptions, OrdinalIndex.newWithBuildOptions] at hnew
    cases hbits : validateBits bits <;> cases hdim : validateDimBits dim bits <;>
      cases hsign : (maybeNewSign dim bits policy : Except _ (Option (SignBitmap S))) <;>
      simp only [hbits, hdim, hsign, bind, Except.bind, pure, Except.pure, reduceCtorEq] at hnew
    next sign =>
      obtain rfl := Except.ok.inj hnew
      refine ⟨rfl, .empty, .committed dim bits policy [] sign ?_⟩
      rcases OrdinalIndex.maybeNewSign_spec (S := S) dim bits policy with
        ⟨e, herr, -⟩ | ⟨sign', hok, hfresh, -⟩
      · rw [hsign] at herr
        cases herr
      · rw [hsign] at hok
        obtain rfl := Except.ok.inj hok
        exact hfresh
  · simp only [newLazyWithBuildOptions, OrdinalIndex.newLazyWithBuildOptions] at hnew
    cases hbits : validateBits bits <;>
      by_cases hsign : policy = .required ∧ (signRequiredMultiple bits).isNone <;>
      simp only [hbits, hsign, bind, Except.bind, pure, Except.pure, reduceCtorEq, throw,
        throwThe, MonadExceptOf.throw, if_true, if_false, and_self] at hnew
    obtain rfl := Except.ok.inj hnew
    exact ⟨rfl, .empty, .uncommitted bits policy⟩

/-! ## Calls -/

/-- A batch add: an error that changes nothing exactly on a fault, else the ids are appended. -/
def AddAnswer (m : IdMapIndex R S) (vectors : List F32) (dim : Nat) (ids : List UInt64)
    (reply : Reply) (m' : IdMapIndex R S) : Prop :=
  (BatchFault m vectors dim ids ∧ ∃ e, reply = .added (.error e) ∧ m' = m) ∨
  (¬BatchFault m vectors dim ids ∧ reply = .added (.ok ()) ∧ m'.slotToId = m.slotToId ++ ids)

/-- The answer a call must get from `m`, and the live ids it leaves. -/
def Answers (m : IdMapIndex R S) : Call → Reply → IdMapIndex R S → Prop
  | .addWithIds vectors ids, reply, m' =>
    match m.inner.dim with
    | none => reply = .panicked ∧ m' = m
    | some dim => AddAnswer m vectors dim ids reply m'
  | .addWithIds2d vectors dim ids, reply, m' => AddAnswer m vectors dim ids reply m'
  | .remove id, reply, m' =>
    (id ∉ m.slotToId ∧ reply = .removed false ∧ m' = m) ∨
    (id ∈ m.slotToId ∧ reply = .removed true ∧
      ∀ id', id' ∈ m'.slotToId ↔ id' ∈ m.slotToId ∧ id' ≠ id)

theorem addWithIds2d_simulates (h : HoldsFor ov self s) (vectors : List F32) (dim : Nat)
    (ids : List UInt64) :
    let answer := self.addWithIds2d ov vectors dim ids
    AddAnswer self vectors dim ids (.added answer.1) answer.2 ∧
      HoldsFor ov answer.2 (s.apply (.addWithIds2d vectors dim ids) (.added answer.1)) := by
  obtain ⟨rows, hold, rfl⟩ := h
  rcases addWithIds2d_spec hold vectors dim ids with
    ⟨hfault, e, heq⟩ | ⟨hfine, hlen, self', heq, hold', hdim⟩
  · rw [heq]
    exact ⟨Or.inl ⟨hfault, e, rfl, rfl⟩, rows, hold, rfl⟩
  · rw [heq]
    have hzip : ids.length = (rowsOf dim vectors).length := by rw [rowsOf_length, hlen]
    refine ⟨Or.inr ⟨hfine, rfl, ?_⟩, _, hold', ?_⟩
    · rw [hold'.ids, hold.ids, List.map_append, List.map_fst_zip (Nat.le_of_eq hzip)]
    · by_cases hnil : ids = []
      · simp [VectorMap.apply, VectorMap.add, hnil, hdim]
      · simp [VectorMap.apply, VectorMap.add, hnil, hdim, VectorMap.denote_append]

theorem remove_simulates (h : HoldsFor ov self s) (id : UInt64) :
    Answers self (.remove id) (self.answer ov (.remove id)).1 (self.answer ov (.remove id)).2 ∧
      HoldsFor ov (self.answer ov (.remove id)).2
        (s.apply (.remove id) (self.answer ov (.remove id)).1) := by
  obtain ⟨rows, hold, rfl⟩ := h
  rcases remove_spec hold id with ⟨habsent, heq⟩ | ⟨slot, vector, hrow, self', heq, hold', hdim⟩
  · simp only [answer, heq]
    exact ⟨Or.inl ⟨habsent, rfl, rfl⟩, rows, hold, rfl⟩
  · simp only [answer, heq]
    have hkey : (rows.map Prod.fst)[slot]? = some id := by simp [hrow]
    refine ⟨Or.inr ⟨?_, rfl, fun id' => ?_⟩, _, hold', ?_⟩
    · exact hold.ids ▸ List.mem_of_getElem? hkey
    · rw [hold'.ids, ← SlotTable.swapRemove_map, SlotTable.mem_swapRemove hold.nodup hkey, hold.ids]
    · rw [hdim, VectorMap.denote_swapRemove hold.nodup hrow]
      rfl

/-- One call: the answer is the expected one and the map follows it. -/
theorem answer_simulates (h : HoldsFor ov self s) (call : Call) :
    Answers self call (self.answer ov call).1 (self.answer ov call).2 ∧
      HoldsFor ov (self.answer ov call).2 (s.apply call (self.answer ov call).1) := by
  cases call with
  | addWithIds2d vectors dim ids => exact addWithIds2d_simulates h vectors dim ids
  | remove id => exact remove_simulates h id
  | addWithIds vectors ids =>
    have hdim : self.inner.dim = s.dim := by
      obtain ⟨rows, -, rfl⟩ := h
      rfl
    cases hd : self.inner.dim with
    | none =>
      have hanswer : self.answer ov (.addWithIds vectors ids) = (.panicked, self) := by
        simp [answer, addWithIds, hd]
      rw [hanswer]
      refine ⟨?_, h⟩
      simp [Answers, hd]
    | some dim =>
      have hanswer : self.answer ov (.addWithIds vectors ids) =
          (.added (self.addWithIds2d ov vectors dim ids).1,
            (self.addWithIds2d ov vectors dim ids).2) := by
        simp [answer, addWithIds, hd]
      obtain ⟨hadd, hheld⟩ := addWithIds2d_simulates h vectors dim ids
      rw [hanswer]
      refine ⟨by simpa [Answers, hd] using hadd, ?_⟩
      have happly : s.apply (.addWithIds vectors ids)
          (.added (self.addWithIds2d ov vectors dim ids).1) =
          s.apply (.addWithIds2d vectors dim ids)
            (.added (self.addWithIds2d ov vectors dim ids).1) := by
        cases (self.addWithIds2d ov vectors dim ids).1 <;>
          simp [VectorMap.apply, ← hdim, hd]
      rw [happly]
      exact hheld

end IdMapIndex

open IdMapIndex in
/-- `IdMapIndex` is a finite map from ids to vectors: after every sequence of calls
from a new index it represents the map its accepted calls build, and the next
call is answered from that map's content. -/
theorem idMapIndex_refines (ov : Ordvec R S) {m₀ : IdMapIndex R S} (hnew : IsNew m₀)
    (calls : List Call) :
    let run := Machine.runCalls (answer ov) m₀ calls
    Represents ov run.2 (Machine.replay VectorMap.apply ⟨m₀.inner.dim, fun _ => none⟩ run.1) ∧
      ∀ call, Answers run.2 call (answer ov run.2 call).1 (answer ov run.2 call).2 := by
  have hstep : ∀ m s call, HoldsFor ov m s →
      HoldsFor ov (answer ov m call).2 (s.apply call (answer ov m call).1) :=
    fun _ _ call h => (answer_simulates h call).2
  have hrun := Machine.runCalls_simulates hstep (hnew.holdsFor ov) calls
  exact ⟨hrun.represents, fun call => (answer_simulates hrun call).1⟩

/-- Stores that keep the row itself. -/
def plainRows : Ordvec (List F32) (List F32) := ⟨fun _ _ row => row, fun _ row => row⟩

/-- Three rows of dimension 4, then the first one removed. -/
def removeFirstOfThree : List IdMapIndex.Call :=
  let one : F32 := ⟨0x3f800000⟩
  [.addWithIds (List.replicate 12 one) [10, 20, 30], .remove 10, .remove 10]

/-- A new index of dimension 4 and 2 bits. -/
def emptyDim4 : IdMapIndex (List F32) (List F32) :=
  ⟨⟨some 4, 2, some (.new 4 2), none, .optional⟩, [], ∅⟩

open IdMapIndex in
theorem idMapIndex_refines_removeFirst :
    Represents plainRows (Machine.runCalls (answer plainRows) emptyDim4 removeFirstOfThree).2
      (Machine.replay VectorMap.apply ⟨some 4, fun _ => none⟩
        (Machine.runCalls (answer plainRows) emptyDim4 removeFirstOfThree).1) :=
  have hnew : IsNew emptyDim4 := Or.inl ⟨4, 2, .optional, rfl⟩
  (idMapIndex_refines plainRows hnew removeFirstOfThree).1

example : (Machine.runCalls (IdMapIndex.answer plainRows) emptyDim4 removeFirstOfThree).2.slotToId =
    [30, 20] := by decide

end OrdinalDB
