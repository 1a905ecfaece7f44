/-
  Subject:   A STOCK WITH ONE MARK PER ITEM, AND SLOTS THAT HOLD ITEMS OF IT.

  * `Exact holds taken` -- the marked items are those that some slot holds;
  * `Exact.take`, `share`, `leave`, `give` -- a slot takes an unmarked item, joins the holders of
    one, leaves it to the others, or gives it back as its only holder;
  * `holders` -- how many slots hold an item; `marked` -- how many items of a range are marked.
-/
import Mathlib.Data.Fintype.Card

variable {ι β : Type*} [DecidableEq ι] [DecidableEq β]

/-- The marks say what is held. -/
def Exact (holds : ι → Option β) (taken : β → Bool) : Prop :=
  ∀ b, taken b = true ↔ ∃ i, holds i = some b

namespace Exact

open Function

variable {holds : ι → Option β} {taken : β → Bool} {i j : ι} {b : β}

section

variable (h : Exact holds taken)
include h

omit [DecidableEq ι] [DecidableEq β] in
theorem taken_of (hi : holds i = some b) : taken b = true := (h b).2 ⟨i, hi⟩

omit [DecidableEq ι] [DecidableEq β] in
theorem ne_of_clear (hb : taken b = false) (j : ι) : holds j ≠ some b := by
  intro hj
  rw [h.taken_of hj] at hb
  cases hb

/-- A slot without an item takes one that is not marked. -/
theorem take (hi : holds i = none) :
    Exact (update holds i (some b)) (update taken b true) := by
  intro c
  by_cases hc : c = b
  · subst hc
    rw [update_self]
    exact ⟨fun _ => ⟨i, update_self ..⟩, fun _ => rfl⟩
  rw [update_of_ne hc, h c]
  constructor
  · intro ⟨j, hj⟩
    refine ⟨j, ?_⟩
    rw [update_of_ne (fun e => by rw [e, hi] at hj; cases hj), hj]
  · intro ⟨j, hj⟩
    by_cases hji : j = i
    · rw [hji, update_self] at hj
      exact absurd (Option.some.inj hj).symm hc
    · exact ⟨j, by rwa [update_of_ne hji] at hj⟩

omit [DecidableEq β] in
/-- A slot without an item joins the holders of one. -/
theorem share (hi : holds i = none) (hj : holds j = some b) :
    Exact (update holds i (some b)) taken := by
  intro c
  rw [h c]
  constructor
  · intro ⟨k, hk⟩
    refine ⟨k, ?_⟩
    rw [update_of_ne (fun e => by rw [e, hi] at hk; cases hk), hk]
  · intro ⟨k, hk⟩
    by_cases hki : k = i
    · rw [hki, update_self] at hk
      exact ⟨j, hj.trans hk⟩
    · exact ⟨k, by rwa [update_of_ne hki] at hk⟩

omit [DecidableEq β] in
/-- A holder leaves its item to another one. -/
theorem leave (hji : j ≠ i) (hj : holds j = holds i) :
    Exact (update holds i none) taken := by
  intro c
  rw [h c]
  constructor
  · intro ⟨k, hk⟩
    by_cases hki : k = i
    · exact ⟨j, by rw [update_of_ne hji, hj, ← hki, hk]⟩
    · exact ⟨k, by rwa [update_of_ne hki]⟩
  · intro ⟨k, hk⟩
    by_cases hki : k = i
    · rw [hki, update_self] at hk
      cases hk
    · exact ⟨k, by rwa [update_of_ne hki] at hk⟩

/-- The only holder gives its item back. -/
theorem give (hi : holds i = some b) (honly : ∀ k, holds k = some b → k = i) :
    Exact (update holds i none) (update taken b false) := by
  intro c
  by_cases hc : c = b
  · subst hc
    rw [update_self]
    refine ⟨nofun, fun ⟨k, hk⟩ => ?_⟩
    by_cases hki : k = i
    · rw [hki, update_self] at hk
      cases hk
    · rw [update_of_ne hki] at hk
      exact absurd (honly k hk) hki
  rw [update_of_ne hc, h c]
  constructor
  · intro ⟨k, hk⟩
    refine ⟨k, ?_⟩
    rw [update_of_ne, hk]
    intro e
    rw [e, hi] at hk
    exact hc (Option.some.inj hk).symm
  · intro ⟨k, hk⟩
    by_cases hki : k = i
    · rw [hki, update_self] at hk
      cases hk
    · exact ⟨k, by rwa [update_of_ne hki] at hk⟩

end

end Exact

/-! ## How many hold an item -/

section Holders

open Function

variable [Fintype ι] {holds : ι → Option β} {i : ι} {b c : β}

def holders (holds : ι → Option β) (b : β) : Nat :=
  (Finset.univ.filter fun i => holds i = some b).card

omit [DecidableEq ι] in
theorem holders_pos (hi : holds i = some b) : 0 < holders holds b :=
  Finset.card_pos.2 ⟨i, Finset.mem_filter.2 ⟨Finset.mem_univ i, hi⟩⟩

omit [DecidableEq ι] in
/-- A single holder is the only one. -/
theorem eq_of_holders_one (h : holders holds b = 1) {i j : ι} (hi : holds i = some b)
    (hj : holds j = some b) : j = i := by
  refine Finset.card_le_one.1 h.le j ?_ i ?_
  · exact Finset.mem_filter.2 ⟨Finset.mem_univ j, hj⟩
  · exact Finset.mem_filter.2 ⟨Finset.mem_univ i, hi⟩

omit [DecidableEq ι] in
/-- Of several holders there is another one. -/
theorem exists_other (h : 1 < holders holds b) (i : ι) : ∃ j, j ≠ i ∧ holds j = some b := by
  obtain ⟨j, hj, hne⟩ := Finset.exists_mem_ne h i
  exact ⟨j, hne, (Finset.mem_filter.1 hj).2⟩

omit [DecidableEq ι] in
theorem holders_none (h : ∀ j, holds j ≠ some b) : holders holds b = 0 :=
  Finset.card_eq_zero.2 (Finset.filter_eq_empty_iff.2 fun j _ => h j)

theorem holders_update_some (hi : holds i = none) :
    holders (update holds i (some b)) c = holders holds c + if b = c then 1 else 0 := by
  unfold holders
  by_cases hbc : b = c
  · subst hbc
    rw [if_pos rfl, ← Finset.card_insert_of_notMem (a := i)]
    · congr 1
      ext j
      by_cases hj : j = i
      · simp [hj]
      · simp [hj, update_of_ne]
    · simp [hi]
  · rw [if_neg hbc, Nat.add_zero]
    congr 1
    ext j
    by_cases hj : j = i
    · simp [hj, hi, hbc]
    · simp [update_of_ne hj]

theorem holders_update_none (hi : holds i = some b) :
    holders holds c = holders (update holds i none) c + if b = c then 1 else 0 := by
  have hself : update (update holds i none) i (some b) = holds := by
    rw [update_idem, ← hi, update_eq_self]
  conv_lhs => rw [← hself]
  exact holders_update_some (update_self ..)

/-- What a slot held, and what it holds now. -/
theorem holders_update (holds : ι → Option β) (i : ι) (x : Option β) (c : β) :
    holders (update holds i x) c + (if holds i = some c then 1 else 0) =
      holders holds c + if x = some c then 1 else 0 := by
  have hclear : holders holds c =
      holders (update holds i none) c + if holds i = some c then 1 else 0 := by
    cases hi : holds i with
    | none =>
      rw [← hi, update_eq_self, hi]
      rfl
    | some b =>
      rw [holders_update_none hi]
      simp only [Option.some.injEq]
  have hset : holders (update holds i x) c =
      holders (update holds i none) c + if x = some c then 1 else 0 := by
    cases x with
    | none => rfl
    | some b =>
      have hfree : update holds i none i = none := update_self ..
      have h := holders_update_some (b := b) (c := c) hfree
      rw [update_idem] at h
      simp only [h, Option.some.injEq]
  omega

end Holders

/-! ## How many items are marked -/

section Marked

open Function

variable {taken : β → Bool} {B : Finset β} {b : β}

def marked (B : Finset β) (taken : β → Bool) : Nat := (B.filter fun b => taken b = true).card

theorem marked_set (hb : b ∈ B) (h : taken b = false) :
    marked B (update taken b true) = marked B taken + 1 := by
  unfold marked
  rw [← Finset.card_insert_of_notMem (a := b)]
  · congr 1
    ext c
    by_cases hc : c = b
    · simp [hc, hb]
    · simp [hc, update_of_ne]
  · simp [h]

theorem marked_clear (hb : b ∈ B) (h : taken b = true) :
    marked B taken = marked B (update taken b false) + 1 := by
  have hself : update (update taken b false) b true = taken := by
    rw [update_idem, ← h, update_eq_self]
  conv_lhs => rw [← hself]
  exact marked_set hb (update_self ..)

omit [DecidableEq β] in
theorem marked_lt (hb : b ∈ B) (h : taken b = false) : marked B taken < B.card := by
  refine Finset.card_lt_card (Finset.filter_ssubset.2 ⟨b, hb, ?_⟩)
  simp [h]

omit [DecidableEq β] in
theorem card_clear (B : Finset β) (taken : β → Bool) :
    (B.filter fun b => taken b = false).card + marked B taken = B.card := by
  rw [Nat.add_comm]
  have := B.card_filter_add_card_filter_not (fun b => taken b = true)
  simpa only [marked, Bool.not_eq_true] using this

end Marked
