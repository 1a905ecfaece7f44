/-
  Subject:   SLOTS THAT ARE IN USE AS LONG AS SOMEBODY HOLDS A REFERENCE.

  * `RefCount used count n` -- a slot with its flag and its counter, of which `n` references are
    held: in use with that count, or free and held by nobody;
  * `fresh`, `retain`, `drop`, `release` -- the operations, with the number after each;
  * `refsTo` -- references to one slot; `sum_update` -- the number over a table of holders, of which
    one changes.
-/
import Mathlib.Algebra.BigOperators.Group.Finset.Basic

structure RefCount (used : Bool) (count n : Nat) : Prop where
  held : used = true → count = n ∧ 0 < n
  free : used = false → n = 0

namespace RefCount

variable {used : Bool} {count n : Nat}

theorem used_of_pos (h : RefCount used count n) (hn : 0 < n) : used = true := by
  cases hu : used with
  | true => rfl
  | false => exact absurd (h.free hu) hn.ne'

theorem count_eq (h : RefCount used count n) (hn : 0 < n) : count = n :=
  (h.held (h.used_of_pos hn)).1

theorem fresh (hn : 0 < n) : RefCount true n n := ⟨fun _ => ⟨rfl, hn⟩, nofun⟩

/-- One more reference to a slot in use. -/
theorem retain (h : RefCount used count n) (hu : used = true) : RefCount used (count + 1) (n + 1) :=
  ⟨fun _ => ⟨congrArg (· + 1) (h.held hu).1, n.succ_pos⟩, fun hf => nomatch hu.symm.trans hf⟩

/-- One reference of several is given back. -/
theorem drop (h : RefCount used count (n + 1)) (hn : 0 < n) : RefCount used (count - 1) n := by
  have hu := h.used_of_pos n.succ_pos
  refine ⟨fun _ => ⟨?_, hn⟩, fun hf => nomatch hu.symm.trans hf⟩
  rw [(h.held hu).1, Nat.add_sub_cancel]

/-- One reference is given back, and the slot is free with the last. -/
theorem release (h : RefCount used count (n + 1)) :
    RefCount (used && count - 1 ≠ 0) (count - 1) n := by
  have hu := h.used_of_pos n.succ_pos
  have hc : count - 1 = n := by rw [(h.held hu).1, Nat.add_sub_cancel]
  rw [hc, hu, Bool.true_and]
  refine ⟨fun hp => ⟨rfl, Nat.pos_of_ne_zero (of_decide_eq_true hp)⟩, fun hf => ?_⟩
  exact not_not.1 (of_decide_eq_false hf)

end RefCount

/-! ## The number of references -/

section Sum

open Function

variable {ι α : Type*} [DecidableEq ι]

/-- `n` references to `i`. -/
def refsTo (i : ι) (n : Nat) : ι → Nat := fun j => if j = i then n else 0

theorem refsTo_self (i : ι) (n : Nat) : refsTo i n i = n := if_pos rfl

theorem refsTo_ne {i j : ι} (h : j ≠ i) (n : Nat) : refsTo i n j = 0 := if_neg h

/-- A holder of a table is replaced. -/
theorem sum_update [Fintype ι] (f : α → Nat) (s : ι → α) (i : ι) (a : α) :
    ∑ j, f (update s i a j) + f (s i) = ∑ j, f (s j) + f a := by
  rw [← Finset.add_sum_erase Finset.univ _ (Finset.mem_univ i),
    ← Finset.add_sum_erase Finset.univ (fun j => f (s j)) (Finset.mem_univ i), update_self]
  have hrest : ∑ j ∈ Finset.univ.erase i, f (update s i a j) =
      ∑ j ∈ Finset.univ.erase i, f (s j) := by
    refine Finset.sum_congr rfl fun j hj => ?_
    rw [update_of_ne (Finset.ne_of_mem_erase hj)]
  rw [hrest]
  omega

end Sum
