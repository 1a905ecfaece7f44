/-
  Subject:   PATHS: words with a separator, their components, and when one lies under another.

  A path that begins with the separator has the components that stand between its separators; the
  path of one separator, the root, has none. Words and separators are those of any type.

  * `parts` -- the components;
  * `parts_prefix_iff` -- **the components of one path begin those of another exactly if the other
    is the same path, or goes on with a separator, or the first is the root**;
  * `length_le_iff` -- of two paths that another one lies under, the longer has more components.
-/
import Mathlib.Data.List.Infix

namespace Paths

open List

variable {α : Type*} {sep : α} {m m' p : List α}

/-- The path begins with the separator. -/
def Absolute (sep : α) (p : List α) : Prop := p.head? = some sep

/-- `p` is `m` or lies under it. -/
def IsUnder (sep : α) (m p : List α) : Prop := m = [sep] ∨ m = p ∨ m ++ [sep] <+: p

theorem Absolute.eq_cons (h : Absolute sep p) : ∃ l, p = sep :: l := by
  cases p with
  | nil => cases h
  | cons c l => exact ⟨l, congrArg (· :: l) (Option.some.inj h)⟩

theorem IsUnder.length_le (hm' : Absolute sep m') (h : IsUnder sep m m') :
    m.length ≤ m'.length := by
  obtain ⟨l, rfl⟩ := hm'.eq_cons
  rcases h with rfl | rfl | h
  · exact Nat.le_add_left _ _
  · exact Nat.le_refl _
  · have := h.length_le
    rw [length_append] at this
    omega

theorem IsUnder.length_lt (hm' : Absolute sep m') (h : IsUnder sep m m') (hne : m ≠ m') :
    m.length < m'.length := by
  obtain ⟨l, rfl⟩ := hm'.eq_cons
  rcases h with rfl | rfl | h
  · cases l with
    | nil => exact absurd rfl hne
    | cons c l => simp
  · exact absurd rfl hne
  · have := h.length_le
    rw [length_append, length_singleton] at this
    omega

variable [DecidableEq α]

instance (sep : α) (p : List α) : Decidable (Absolute sep p) :=
  inferInstanceAs (Decidable (_ = _))

/-- The components of a path that begins with the separator. -/
def parts (sep : α) (p : List α) : List (List α) := if p = [sep] then [] else p.tail.splitOn sep

theorem splitOn_cons (c : α) (l : List α) : (c :: l).splitOn sep =
    if c = sep then [] :: l.splitOn sep else (l.splitOn sep).modifyHead (List.cons c) := by
  simp only [List.splitOn, splitOnP_cons_eq_if_modifyHead, beq_iff_eq]

theorem splitOn_ne_nil (sep : α) (l : List α) : l.splitOn sep ≠ [] := splitOnP_ne_nil _ _

/-- **The components of `a` begin those of `b` exactly if `b` is `a` or goes on with a separator
    after it.** -/
theorem splitOn_prefix_iff (a b : List α) :
    a.splitOn sep <+: b.splitOn sep ↔ a = b ∨ a ++ [sep] <+: b := by
  induction a generalizing b with
  | nil =>
    cases b with
    | nil => simp
    | cons c b =>
      rw [splitOn_cons]
      by_cases hc : c = sep
      · simp [hc]
      · obtain ⟨h, t, ht⟩ := exists_cons_of_ne_nil (splitOn_ne_nil sep b)
        simp [hc, ht, Ne.symm hc, eq_comm]
  | cons x a ih =>
    obtain ⟨h, t, ht⟩ := exists_cons_of_ne_nil (splitOn_ne_nil sep a)
    rw [splitOn_cons]
    cases b with
    | nil =>
      by_cases hx : x = sep
      · simp [hx]
      · simp [hx, ht]
    | cons c b =>
      obtain ⟨h', t', ht'⟩ := exists_cons_of_ne_nil (splitOn_ne_nil sep b)
      have ih := ih b
      rw [splitOn_cons]
      by_cases hx : x = sep <;> by_cases hc : c = sep
      · simp only [hx, hc, if_true, cons_prefix_cons, true_and, ih, List.cons.injEq, cons_append]
      · simp only [hx, hc, if_true, if_false, ht', modifyHead_cons, cons_prefix_cons,
          List.cons.injEq, cons_append, Ne.symm hc, false_and, or_false, iff_false, not_and]
        simp
      · simp only [hx, hc, if_true, if_false, ht, modifyHead_cons, cons_prefix_cons,
          List.cons.injEq, cons_append, false_and, or_false, iff_false, not_and]
        simp
      rw [ht, ht'] at ih
      simp only [hx, hc, if_false, ht, ht', modifyHead_cons, cons_prefix_cons,
        List.cons.injEq, cons_append]
      rw [cons_prefix_cons] at ih
      constructor
      · rintro ⟨⟨rfl, hh⟩, htt⟩
        rcases ih.1 ⟨hh, htt⟩ with rfl | hp
        · exact .inl ⟨rfl, rfl⟩
        · exact .inr ⟨rfl, hp⟩
      · rintro (⟨rfl, hab⟩ | ⟨rfl, hp⟩)
        · exact ⟨⟨rfl, (ih.2 (.inl hab)).1⟩, (ih.2 (.inl hab)).2⟩
        · exact ⟨⟨rfl, (ih.2 (.inr hp)).1⟩, (ih.2 (.inr hp)).2⟩

/-- **Components and strings say the same.** -/
theorem parts_prefix_iff (hm : Absolute sep m) (hp : Absolute sep p) :
    parts sep m <+: parts sep p ↔ IsUnder sep m p := by
  obtain ⟨a, rfl⟩ := hm.eq_cons
  obtain ⟨b, rfl⟩ := hp.eq_cons
  by_cases ha : a = []
  · subst ha
    exact iff_of_true (by simp [parts]) (.inl rfl)
  have hne : sep :: a ≠ [sep] := fun h => ha (List.cons.inj h).2
  rw [parts, if_neg hne, IsUnder, or_iff_right hne]
  by_cases hb : b = []
  · subst hb
    simp [parts, ha]
  · have hne' : sep :: b ≠ [sep] := fun h => hb (List.cons.inj h).2
    rw [parts, if_neg hne', tail_cons, tail_cons, splitOn_prefix_iff]
    simp

/-- **Of two paths that another one lies under, the longer has more components.** -/
theorem length_le_iff (hm : Absolute sep m) (hm' : Absolute sep m')
    (h : parts sep m <+: parts sep p) (h' : parts sep m' <+: parts sep p) :
    m.length ≤ m'.length ↔ (parts sep m).length ≤ (parts sep m').length := by
  constructor
  · intro hlen
    by_contra hlt
    have hpre := prefix_of_prefix_length_le h' h (by omega)
    have hunder := (parts_prefix_iff hm' hm).1 hpre
    have := hunder.length_lt hm fun he => hlt (he ▸ Nat.le_refl _)
    omega
  · intro hlen
    have hpre := prefix_of_prefix_length_le h h' hlen
    exact ((parts_prefix_iff hm hm').1 hpre).length_le hm'

end Paths
