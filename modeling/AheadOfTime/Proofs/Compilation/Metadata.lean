import AheadOfTime.Compilation.Metadata
import Mathlib.Data.List.Sort

/-! The order of metadata is total, so what a compilation emits determines how it is listed. -/

namespace AheadOfTime.Metadata

namespace Entry

variable {a b c : Entry}

theorem le_of_name_eq (h : a.name = b.name) : a.le b ↔ a.symbol ≤ b.symbol := by simp [le, h]

theorem le_of_name_ne (h : a.name ≠ b.name) : a.le b ↔ a.name ≤ b.name := by simp [le, h]

theorem le_antisymm (hab : a.le b) (hba : b.le a) : a = b := by
  by_cases h : a.name = b.name
  · rw [le_of_name_eq h] at hab
    rw [le_of_name_eq h.symm] at hba
    obtain ⟨name, symbol⟩ := a
    obtain ⟨name', symbol'⟩ := b
    rw [mk.injEq]
    exact ⟨h, String.le_antisymm hab hba⟩
  · rw [le_of_name_ne h] at hab
    rw [le_of_name_ne (Ne.symm h)] at hba
    exact absurd (String.le_antisymm hab hba) h

theorem le_total (a b : Entry) : a.le b || b.le a := by
  rw [Bool.or_eq_true]
  by_cases h : a.name = b.name
  · rw [le_of_name_eq h, le_of_name_eq h.symm]
    exact String.le_total _ _
  · rw [le_of_name_ne h, le_of_name_ne (Ne.symm h)]
    exact String.le_total _ _

theorem le_trans (hab : a.le b) (hbc : b.le c) : a.le c := by
  by_cases h : a.name = b.name
  · by_cases h' : b.name = c.name
    · rw [le_of_name_eq h] at hab
      rw [le_of_name_eq h'] at hbc
      exact (le_of_name_eq (h.trans h')).mpr (String.le_trans hab hbc)
    · rw [le_of_name_ne h', ← h] at hbc
      exact (le_of_name_ne (h ▸ h')).mpr hbc
  · rw [le_of_name_ne h] at hab
    by_cases h' : b.name = c.name
    · exact (le_of_name_ne (h' ▸ h)).mpr (h' ▸ hab)
    · rw [le_of_name_ne h'] at hbc
      have hne : a.name ≠ c.name := fun hac => h (String.le_antisymm hab (hac ▸ hbc))
      exact (le_of_name_ne hne).mpr (String.le_trans hab hbc)

end Entry

theorem pairwise_le_mergeSort (as : List Entry) : (as.mergeSort Entry.le).Pairwise (Entry.le · ·) :=
  @List.pairwise_mergeSort _ Entry.le (fun _ _ _ => Entry.le_trans) Entry.le_total as

theorem mergeSort_eq_of_perm {as bs : List Entry} (h : as.Perm bs) :
    as.mergeSort Entry.le = bs.mergeSort Entry.le := by
  refine List.Perm.eq_of_pairwise (fun _ _ _ _ => Entry.le_antisymm) (pairwise_le_mergeSort as)
    (pairwise_le_mergeSort bs) ?_
  exact ((List.mergeSort_perm as _).trans h).trans (List.mergeSort_perm bs _).symm

end AheadOfTime.Metadata
