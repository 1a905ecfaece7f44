/-
  Subject:   UNORDERED REMOVAL from an array: the last element takes the place of the removed one.

  What is left is, up to order, the list without that element (`swapRemove_perm`); so a property
  of all elements, or of all pairs, survives a removal. For a scan that removes where it stands:
  what is before the place stays (`take_swapRemove`), what is behind it only changes its order
  (`drop_swapRemove`).
-/
import Mathlib.Data.List.Perm.Basic
import Mathlib.Data.List.Pairwise

variable {α : Type*}

def swapRemove (l : List α) (i : Nat) : List α :=
  match l.getLast? with
  | none => []
  | some a => (l.set i a).dropLast

/-- **Only the order tells a swap-removal from an erasure.** -/
theorem swapRemove_perm (l : List α) {i : Nat} (h : i < l.length) :
    (l[i] :: swapRemove l i).Perm l := by
  rcases List.eq_nil_or_concat' l with rfl | ⟨m, a, rfl⟩
  · exact absurd h (Nat.not_lt_zero i)
  have hl : (m ++ [a]).getLast? = some a := by simp
  rw [List.length_append, List.length_singleton] at h
  simp only [swapRemove, hl]
  rcases Nat.lt_or_ge i m.length with hi | hi
  · rw [List.set_append_left _ _ hi, List.dropLast_concat, List.getElem_append_left hi]
    calc (m[i] :: m.set i a).Perm (m[i] :: a :: m.eraseIdx i) :=
          (List.set_perm_cons_eraseIdx hi a).cons _
      _ |>.Perm (a :: m[i] :: m.eraseIdx i) := .swap _ _ _
      _ |>.Perm (a :: m) := (List.getElem_cons_eraseIdx_perm hi).cons a
      _ |>.Perm (m ++ [a]) := (List.perm_append_singleton a m).symm
  · have e : i = m.length := by omega
    subst e
    simp only [List.getElem_concat_length, List.set_append_right _ _ (Nat.le_refl _), Nat.sub_self,
      List.set_cons_zero, List.dropLast_concat]
    exact (List.perm_append_singleton a m).symm

theorem mem_of_mem_swapRemove {l : List α} {i : Nat} (h : i < l.length) {a : α}
    (ha : a ∈ swapRemove l i) : a ∈ l :=
  (swapRemove_perm l h).subset (.tail _ ha)

theorem length_swapRemove {l : List α} {i : Nat} (h : i < l.length) :
    (swapRemove l i).length + 1 = l.length :=
  (swapRemove_perm l h).length_eq

/-- What is before the place stays. -/
theorem take_swapRemove (l : List α) {i : Nat} (h : i < l.length) :
    (swapRemove l i).take i = l.take i := by
  rcases List.eq_nil_or_concat' l with rfl | ⟨m, a, rfl⟩
  · exact absurd h (Nat.not_lt_zero i)
  have hl : (m ++ [a]).getLast? = some a := by simp
  rw [List.length_append, List.length_singleton] at h
  simp only [swapRemove, hl, List.dropLast_eq_take, List.take_take, List.length_set,
    List.length_append, List.length_singleton, Nat.add_sub_cancel]
  rw [Nat.min_eq_left (by omega), List.take_set_of_le (Nat.le_refl i)]

/-- What is behind it moves up, the last element first. -/
theorem drop_swapRemove (l : List α) {i : Nat} (h : i < l.length) :
    ((swapRemove l i).drop i).Perm (l.drop (i + 1)) := by
  refine List.Perm.cons_inv (a := l[i]) ((List.perm_append_left_iff (l.take i)).1 ?_)
  calc (l.take i ++ l[i] :: (swapRemove l i).drop i).Perm
        (l[i] :: (l.take i ++ (swapRemove l i).drop i)) := List.perm_middle
    _ = l[i] :: swapRemove l i := by rw [← take_swapRemove l h, List.take_append_drop]
    _ |>.Perm l := swapRemove_perm l h
    _ = l.take i ++ l[i] :: l.drop (i + 1) := by
      rw [← List.drop_eq_getElem_cons h, List.take_append_drop]
