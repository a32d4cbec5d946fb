import Mathlib.Data.List.Basic

/-!
# Rows of one key in a table of many

A table shared by several owners is a list of rows; the rows of one owner, in
row order and with their numbers in the table, are `keptRows`.  Appending a row
extends the list of its owner only, and changing a row in place changes one
entry of the list of its owner only.
-/

namespace SysAnalyzer.Foundation

open List

universe u

variable {Row : Type u}

/-- The rows that `keep` selects, with their numbers in the table. -/
def keptRows (keep : Row → Bool) (rows : List Row) : List (Row × Nat) :=
  rows.zipIdx.filter fun entry => keep entry.1

def changeEntry (number : Nat) (change : Row → Row) (entry : Row × Nat) : Row × Nat :=
  if entry.2 = number then (change entry.1, entry.2) else entry

variable {keep : Row → Bool} {rows : List Row}

theorem mem_keptRows {entry : Row × Nat} :
    entry ∈ keptRows keep rows ↔ rows[entry.2]? = some entry.1 ∧ keep entry.1 = true := by
  simp [keptRows, mem_zipIdx_iff_getElem?]

theorem keptRows_concat (row : Row) :
    keptRows keep (rows ++ [row]) = if keep row then keptRows keep rows ++ [(row, rows.length)]
      else keptRows keep rows := by
  cases kept : keep row <;> simp [keptRows, zipIdx_append, filter_append, kept]

theorem keptRows_pairwise (keep : Row → Bool) (rows : List Row) :
    (keptRows keep rows).Pairwise fun earlier later =>
      earlier.2 < later.2 := by
  have numbers : (rows.zipIdx.map Prod.snd).Pairwise (· < ·) := by
    simpa [zipIdx_map_snd, ← range_eq_range'] using pairwise_lt_range
  exact (pairwise_map.1 numbers).filter _

variable {change : Row → Row} {number : Nat}

theorem modify_concat_of_lt (row : Row) (inRange : number < rows.length) :
    (rows ++ [row]).modify number change = rows.modify number change ++ [row] := by
  apply ext_getElem?
  intro position
  rcases Nat.lt_or_ge position rows.length with before | behind
  · simp [getElem?_append_left, getElem?_modify, getElem_modify, before]
  · have other : number ≠ position := by omega
    simp [other, getElem?_append_right, behind]

theorem keptRows_modify (number : Nat) (sameOwner : ∀ row, keep (change row) = keep row) :
    keptRows keep (rows.modify number change) =
      (keptRows keep rows).map (changeEntry number change) := by
  have changed : (rows.modify number change).zipIdx =
    rows.zipIdx.map (changeEntry number change) := by
    apply ext_getElem?
    intro position
    by_cases here : number = position
    · subst here
      cases found : rows[number]? <;> simp [getElem?_zipIdx, found, changeEntry]
    · cases found : rows[position]? <;>
        simp [getElem?_zipIdx, found, changeEntry, here, Ne.symm here]
  simp only [keptRows, changed, filter_map]
  congr 1
  apply filter_congr
  intro entry _
  by_cases here : entry.2 = number <;> simp [changeEntry, here, sameOwner]

theorem map_changeEntry_of_forall_ne {entries : List (Row × Nat)}
    (others : ∀ entry ∈ entries, entry.2 ≠ number) :
    entries.map (changeEntry number change) = entries := by
  conv_rhs => rw [← map_id entries]
  apply map_congr_left
  intro entry member
  simp [changeEntry, others entry member]

theorem keptRows_modify_of_not_kept (sameOwner : ∀ row, keep (change row) = keep row)
    (notKept : ∀ row, rows[number]? = some row → keep row = false) :
    keptRows keep (rows.modify number change) = keptRows keep rows := by
  rw [keptRows_modify number sameOwner]
  apply map_changeEntry_of_forall_ne
  rintro ⟨row, position⟩ member rfl
  rcases mem_keptRows.1 member with ⟨found, kept⟩
  simp [notKept row found] at kept

variable {earlier : List (Row × Nat)}

theorem keptRows_modify_last {row : Row} (sameOwner : ∀ row, keep (change row) = keep row)
    (entries : keptRows keep rows = earlier ++ [(row, number)]) :
    keptRows keep (rows.modify number change) = earlier ++ [(change row, number)] := by
  have increasing := keptRows_pairwise keep rows
  rw [entries, pairwise_append] at increasing
  have others : ∀ entry ∈ earlier, entry.2 ≠ number := by
    intro entry member
    exact Nat.ne_of_lt (increasing.2.2 entry member (row, number) (by simp))
  rw [keptRows_modify number sameOwner, entries, map_append, map_changeEntry_of_forall_ne others]
  simp [changeEntry]

theorem getElem?_of_keptRows_last {row : Row}
    (entries : keptRows keep rows = earlier ++ [(row, number)]) :
    rows[number]? = some row ∧ keep row = true := by
  have member : (row, number) ∈ keptRows keep rows := by simp [entries]
  exact mem_keptRows.1 member

/-- The numbers of the rows that `keep` selects. -/
def keptNumbers (keep : Row → Bool) (rows : List Row) : List Nat :=
  (keptRows keep rows).map Prod.snd

theorem mem_keptNumbers :
    number ∈ keptNumbers keep rows ↔ ∃ row, rows[number]? = some row ∧ keep row = true := by
  unfold keptNumbers
  rw [mem_map]
  constructor
  · rintro ⟨⟨row, position⟩, member, rfl⟩
    exact ⟨row, mem_keptRows.1 member⟩
  · rintro ⟨row, atNumber, kept⟩
    exact ⟨(row, number), mem_keptRows.2 ⟨atNumber, kept⟩, rfl⟩

theorem keptNumbers_concat (row : Row) :
    keptNumbers keep (rows ++ [row]) = if keep row then keptNumbers keep rows ++ [rows.length]
      else keptNumbers keep rows := by
  unfold keptNumbers
  rw [keptRows_concat]
  split
  · rw [map_append]
    rfl
  · rfl

theorem keptNumbers_pairwise (keep : Row → Bool) (rows : List Row) :
    (keptNumbers keep rows).Pairwise (· < ·) :=
  pairwise_map.2 (keptRows_pairwise keep rows)

theorem keptNumbers_congr {keepOther : Row → Bool} {others : List Row}
    (sameRows : rows.map keep = others.map keepOther) :
    keptNumbers keep rows = keptNumbers keepOther others := by
  have asSelection : ∀ (select : Row → Bool) (entries : List Row), keptNumbers select entries =
    ((entries.map select).zipIdx.filter Prod.fst).map Prod.snd := by
    intro select entries
    unfold keptNumbers keptRows
    rw [zipIdx_map, filter_map, map_map]
    rfl
  rw [asSelection keep rows, asSelection keepOther others, sameRows]

theorem keptNumbers_modify_drop
    (drops : ∀ row, rows[number]? = some row → keep (change row) = false) :
    keptNumbers keep (rows.modify number change) =
      (keptNumbers keep rows).filter fun other => decide (other ≠ number) := by
  refine List.Perm.eq_of_pairwise (fun first _ _ _ before behind =>
    absurd (Nat.lt_trans before behind) (Nat.lt_irrefl first))
    (keptNumbers_pairwise keep _)
    ((keptNumbers_pairwise keep rows).filter _) ?_
  refine (perm_ext_iff_of_nodup ?_ ?_).2 ?_
  · exact (keptNumbers_pairwise keep _).imp Nat.ne_of_lt
  · exact ((keptNumbers_pairwise keep rows).imp Nat.ne_of_lt).filter _
  · intro position
    rw [mem_filter, mem_keptNumbers, mem_keptNumbers, getElem?_modify]
    by_cases here : number = position
    · subst here
      cases found : rows[number]? with
      | none => simp
      | some row => simp [drops row found]
    · simp [here, Ne.symm here]

theorem keptNumbers_modify_of_not_kept (before : ∀ row, rows[number]? = some row → keep row = false)
    (behind : ∀ row, rows[number]? = some row → keep (change row) = false) :
    keptNumbers keep (rows.modify number change) = keptNumbers keep rows := by
  rw [keptNumbers_modify_drop behind, filter_eq_self]
  intro other member
  rcases mem_keptNumbers.1 member with ⟨row, atOther, kept⟩
  rw [decide_eq_true_eq]
  rintro rfl
  simp [before row atOther] at kept

end SysAnalyzer.Foundation
