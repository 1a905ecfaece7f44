/-
  Subject:   A FIXED TABLE OF SLOTS, each empty or with an entry, searched from the front for the
             entry with a given key.

  * `find`, `findFree` -- the first slot with the key, the first empty one; `look` -- the entry;
  * `OneEach` -- no two slots have entries with one key, so that the table is a map from keys;
  * `look_set`, `OneEach.set` -- the slot that was found is written or emptied;
    `look_add`, `OneEach.add` -- an empty one gets an entry whose key was not there.
-/
import Mathlib.Data.List.FinRange

variable {n : Nat} {α κ : Type*} [DecidableEq κ] (key : α → κ)

abbrev Slots (n : Nat) (α : Type*) := Fin n → Option α

namespace Slots

open Option

open Function

/-- The first slot with the key. -/
def find (t : Slots n α) (k : κ) : Option (Fin n) :=
  (List.finRange n).find? fun i => (t i).any fun a => key a = k

/-- The first empty slot. -/
def findFree (t : Slots n α) : Option (Fin n) := (List.finRange n).find? fun i => (t i).isNone

def look (t : Slots n α) (k : κ) : Option α := (t.find key k).bind t

def OneEach (t : Slots n α) : Prop :=
  ∀ i j a b, t i = some a → t j = some b → key a = key b → i = j

variable {key} {t : Slots n α} {k k' : κ} {i : Fin n} {a : α} {o : Option α}

theorem find_some (h : t.find key k = some i) : ∃ a, t i = some a ∧ key a = k := by
  have hi := List.find?_some h
  rw [any_eq_true] at hi
  obtain ⟨a, ha, hk⟩ := hi
  exact ⟨a, ha, of_decide_eq_true hk⟩

theorem find_none (h : t.find key k = none) (i : Fin n) : ∀ a, t i = some a → key a ≠ k := by
  intro a ha hk
  refine List.find?_eq_none.1 h i (List.mem_finRange i) ?_
  rw [ha]
  exact decide_eq_true hk

theorem find_isSome (ha : t i = some a) (hk : key a = k) : ∃ j, t.find key k = some j := by
  cases hf : t.find key k with
  | none => exact absurd hk (find_none hf i a ha)
  | some j => exact ⟨j, rfl⟩

theorem findFree_some (h : t.findFree = some i) : t i = none :=
  isNone_iff_eq_none.1 (List.find?_some h :)

theorem look_eq_some (h : t.look key k = some a) :
    ∃ i, t.find key k = some i ∧ t i = some a ∧ key a = k := by
  obtain ⟨i, hi, ha⟩ := bind_eq_some_iff.1 h
  obtain ⟨b, hb, hk⟩ := find_some hi
  rw [hb] at ha
  cases ha
  exact ⟨i, hi, hb, hk⟩

theorem look_eq_none : t.look key k = none ↔ t.find key k = none := by
  unfold look
  constructor
  · intro h
    cases hf : t.find key k with
    | none => rfl
    | some i =>
      obtain ⟨a, ha, -⟩ := find_some hf
      rw [hf, bind_some, ha] at h
      cases h
  · intro h
    rw [h]
    rfl

/-- **The entry with a key is the one in whatever slot has it.** -/
theorem OneEach.look_iff (h : OneEach key t) :
    t.look key k = some a ↔ ∃ i, t i = some a ∧ key a = k := by
  constructor
  · intro hl
    obtain ⟨i, -, ha, hk⟩ := look_eq_some hl
    exact ⟨i, ha, hk⟩
  · intro ⟨i, ha, hk⟩
    obtain ⟨j, hj⟩ := find_isSome ha hk
    obtain ⟨b, hb, hkb⟩ := find_some hj
    have hij : i = j := h i j a b ha hb (hk.trans hkb.symm)
    unfold look
    rw [hj, bind_some, ← hij, ha]

omit [DecidableEq κ] in
/-- An entry is replaced by one with its key, taken out, or put in where none had its key. -/
theorem OneEach.change (h : OneEach key t)
    (ho : ∀ a ∈ o, ∀ j b, j ≠ i → t j = some b → key b ≠ key a) :
    OneEach key (update t i o) := by
  intro j l a b ha hb hk
  by_cases hj : j = i
  · subst hj
    by_cases hl : l = j
    · exact hl.symm
    · rw [update_self] at ha
      rw [update_of_ne hl] at hb
      exact absurd hk.symm (ho a ha l b hl hb)
  rw [update_of_ne hj] at ha
  by_cases hl : l = i
  · subst hl
    rw [update_self] at hb
    exact absurd hk (ho b hb j a hj ha)
  · rw [update_of_ne hl] at hb
    exact h j l a b ha hb hk

section Set

variable (h : OneEach key t) (hf : t.find key k = some i) (ho : ∀ a ∈ o, key a = k)

include h hf ho

theorem OneEach.set : OneEach key (update t i o) := by
  obtain ⟨a, ha, hk⟩ := find_some hf
  refine h.change fun b hb j c hj hc hkc => ?_
  exact hj (h j i c a hc ha (hkc.trans ((ho b hb).trans hk.symm)))

theorem look_set : look key (update t i o) k' = if k' = k then o else t.look key k' := by
  obtain ⟨a, ha, hk⟩ := find_some hf
  have hset : OneEach key (update t i o) := h.set hf ho
  refine Option.ext fun b => ?_
  rw [hset.look_iff]
  split_ifs with hkk
  · subst hkk
    constructor
    · intro ⟨j, hb, hkb⟩
      by_cases hj : j = i
      · subst hj
        rwa [update_self] at hb
      · rw [update_of_ne hj] at hb
        exact absurd (h j i b a hb ha (hkb.trans hk.symm)) hj
    · intro hb
      exact ⟨i, by rw [update_self, hb], ho b hb⟩
  rw [h.look_iff]
  constructor
  · intro ⟨j, hb, hkb⟩
    by_cases hj : j = i
    · subst hj
      rw [update_self] at hb
      exact absurd (hkb.symm.trans (ho b hb)) hkk
    · rw [update_of_ne hj] at hb
      exact ⟨j, hb, hkb⟩
  · intro ⟨j, hb, hkb⟩
    refine ⟨j, ?_, hkb⟩
    rw [update_of_ne, hb]
    rintro rfl
    rw [ha] at hb
    cases hb
    exact hkk (hkb.symm.trans hk)

end Set

section Add

variable (h : OneEach key t) (hf : t.find key (key a) = none) (hi : t i = none)

include h hf

theorem OneEach.add : OneEach key (update t i (some a)) := by
  refine h.change fun b hb j c hj hc hkc => ?_
  cases hb
  exact find_none hf j c hc hkc

include hi

theorem look_add : look key (update t i (some a)) k' =
    if k' = key a then some a else t.look key k' := by
  have hadd : OneEach key (update t i (some a)) := h.add hf
  refine Option.ext fun b => ?_
  rw [hadd.look_iff]
  split_ifs with hkk
  · subst hkk
    constructor
    · intro ⟨j, hb, hkb⟩
      by_cases hj : j = i
      · subst hj
        rwa [update_self] at hb
      · rw [update_of_ne hj] at hb
        exact absurd hkb (find_none hf j b hb)
    · rintro ⟨⟩
      exact ⟨i, update_self .., rfl⟩
  rw [h.look_iff]
  constructor
  · intro ⟨j, hb, hkb⟩
    by_cases hj : j = i
    · subst hj
      rw [update_self] at hb
      cases hb
      exact absurd hkb.symm hkk
    · rw [update_of_ne hj] at hb
      exact ⟨j, hb, hkb⟩
  · intro ⟨j, hb, hkb⟩
    refine ⟨j, ?_, hkb⟩
    rw [update_of_ne, hb]
    rintro rfl
    rw [hi] at hb
    cases hb

end Add

end Slots
