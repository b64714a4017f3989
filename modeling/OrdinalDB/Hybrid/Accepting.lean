import OrdinalDB.Hybrid.RankedBatch
import OrdinalDB.Lib.Outcome

/-!
# Batches that are accepted

The other direction of the checks: lists that are ranked pass them, and pass them unchanged.
`fromSortedOffsetsHits_iff` and `fromOffsetsHits_iff` say when a batch of given lists is
accepted and what it is then.
-/

namespace OrdinalDB.Hybrid

open Float32Bits Outcome

variable {list : List ScoredRow} {ls : List (List ScoredRow)} {batch : RankedBatch}

theorem validateOffsets_of_valid (h : batch.Valid) :
    validateOffsets batch.offsets batch.hits.length = .ok () := by
  obtain ⟨offsets, hits⟩ := batch
  have hstart : offsets.head? = some 0 := h.start
  have hstop : offsets.getLast? = some hits.length := h.stop
  cases offsets with
  | nil => cases hstart
  | cons first rest =>
    obtain rfl : first = 0 := Option.some.inj hstart
    have hascending :
        ((0 :: rest).zip rest).any (fun pair => decide (pair.1 > pair.2)) = false := by
      refine List.any_eq_false.mpr fun pair hpair => ?_
      obtain ⟨i, hi, rfl⟩ := List.getElem_of_mem hpair
      have hlt : i < rest.length := by
        rw [List.length_zip] at hi
        omega
      have hle := List.pairwise_iff_getElem.mp h.ascending i (i + 1) (by simp; omega) (by simpa)
        (Nat.lt_succ_self i)
      rw [List.getElem_zip, decide_eq_true_eq]
      exact not_lt.mpr hle
    have hlast : rest.getLast?.getD 0 = hits.length := by
      rw [List.getLast?_cons] at hstop
      exact Option.some.inj hstop
    simp [validateOffsets, hascending, hlast]

theorem validateNoDuplicateRows_of_nodup {seen : Finset UInt64}
    (hnodup : (list.map ScoredRow.rowId).Nodup) (hseen : ∀ row ∈ list, row.rowId ∉ seen) :
    validateNoDuplicateRows seen list = .ok () := by
  induction list generalizing seen with
  | nil => rfl
  | cons row rows ih =>
    obtain ⟨hnew, hrest⟩ := List.nodup_cons.mp hnodup
    rw [validateNoDuplicateRows, if_neg (hseen row List.mem_cons_self)]
    refine ih hrest fun other hother hmem => ?_
    rcases Finset.mem_insert.mp hmem with heq | hmem
    · exact hnew (heq ▸ List.mem_map_of_mem hother)
    · exact hseen other (List.mem_cons_of_mem _ hother) hmem

theorem validateSortedRankedSlice_iff :
    validateSortedRankedSlice list = .ok () ↔ RankedList list := by
  refine ⟨validateSortedRankedSlice_spec, fun h => ?_⟩
  have hsorted : (list.zip list.tail).any
      (fun pair => decide (rankRowOrder pair.1 pair.2 = .gt)) = false := by
    refine List.any_eq_false.mpr fun pair hpair => ?_
    obtain ⟨i, hi, rfl⟩ := List.getElem_of_mem hpair
    rw [List.length_zip, List.length_tail] at hi
    have hlt := List.pairwise_iff_getElem.mp h.strict i (i + 1) (by omega) (by omega)
      (Nat.lt_succ_self i)
    rw [List.getElem_zip, List.getElem_tail, decide_eq_true_eq, hlt]
    exact nofun
  unfold validateSortedRankedSlice
  rw [checkFinite_eq_ok.mpr h.finite, hsorted]
  exact validateNoDuplicateRows_of_nodup h.nodup fun _ _ => Finset.notMem_empty _

/-- Lists are accepted as they are when all of them are ranked. -/
theorem fromSortedOffsetsHits_iff :
    RankedBatch.fromSortedOffsetsHits (Batch.ofLists ls).offsets (Batch.ofLists ls).hits =
      .ok batch ↔ (∀ list ∈ ls, RankedList list) ∧ batch = Batch.ofLists ls := by
  obtain ⟨hvalid, hlists⟩ := Batch.ofLists_spec ls
  have hsame : (⟨(Batch.ofLists ls).offsets, (Batch.ofLists ls).hits⟩ : RankedBatch) =
      Batch.ofLists ls := rfl
  unfold RankedBatch.fromSortedOffsetsHits
  rw [validateOffsets_of_valid hvalid, ok_bind, hsame]
  show (Batch.lists (Batch.ofLists ls)).forM _ >>= _ = _ ↔ _
  rw [hlists, bind_eq_ok]
  constructor
  · rintro ⟨u, hall, heq⟩
    exact ⟨fun list hlist => validateSortedRankedSlice_iff.mp (forM_eq_ok.mp hall list hlist),
      (pure_eq_ok.mp heq).symm⟩
  · rintro ⟨hall, rfl⟩
    exact ⟨(), forM_eq_ok.mpr fun list hlist => validateSortedRankedSlice_iff.mpr (hall list hlist),
      rfl⟩

theorem fromOffsetsHits_iff :
    RankedBatch.fromOffsetsHits (Batch.ofLists ls).offsets (Batch.ofLists ls).hits = .ok batch ↔
      ∃ normal : List (List ScoredRow), ls.map normalizeRankedList = normal.map .ok ∧
        batch = Batch.ofLists normal := by
  obtain ⟨hvalid, hlists⟩ := Batch.ofLists_spec ls
  have hsame : (⟨(Batch.ofLists ls).offsets, (Batch.ofLists ls).hits⟩ : RankedBatch) =
      Batch.ofLists ls := rfl
  unfold RankedBatch.fromOffsetsHits
  rw [validateOffsets_of_valid hvalid, ok_bind, hsame, hlists]
  exact Batch.foldlM_push_eq_ok

end OrdinalDB.Hybrid
