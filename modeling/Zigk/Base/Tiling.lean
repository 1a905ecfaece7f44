/-
  Subject:   TILINGS of an interval of numbers by the elements of a list.

  An element has a start and a size; in a tiling each element starts where the one before it
  ends. What an allocator with boundary tags does is splitting one tile and merging neighbours;
  that tiles do not overlap follows from the tiling itself (`Tiles.ordered`).
-/
import Mathlib.Data.List.Pairwise
import Mathlib.Data.Nat.ModEq
import Mathlib.Algebra.BigOperators.Group.List.Basic

section Tiling

variable {β : Type*} {start size : β → Nat}

/-- The elements of `l` lie one after the other from `a` to `b`. -/
def Tiles (start size : β → Nat) : Nat → List β → Nat → Prop
  | a, [], b => a = b
  | a, x :: l, b => start x = a ∧ Tiles start size (a + size x) l b

variable {a b : Nat} {l l₁ l₂ : List β} {x : β}

theorem tiles_append : Tiles start size a (l₁ ++ l₂) b ↔
    ∃ m, Tiles start size a l₁ m ∧ Tiles start size m l₂ b := by
  induction l₁ generalizing a with
  | nil =>
    constructor
    · intro h
      exact ⟨a, rfl, h⟩
    · rintro ⟨m, rfl, h⟩
      exact h
  | cons x l₁ ih =>
    constructor
    · rintro ⟨hx, h⟩
      obtain ⟨m, h₁, h₂⟩ := ih.mp h
      exact ⟨m, ⟨hx, h₁⟩, h₂⟩
    · rintro ⟨m, ⟨hx, h₁⟩, h₂⟩
      exact ⟨hx, ih.mpr ⟨m, h₁, h₂⟩⟩

/-- A tiling at one of its tiles. -/
theorem tiles_middle : Tiles start size a (l₁ ++ x :: l₂) b ↔
    Tiles start size a l₁ (start x) ∧ Tiles start size (start x + size x) l₂ b := by
  rw [tiles_append]
  constructor
  · rintro ⟨m, h₁, rfl, h₂⟩
    exact ⟨h₁, h₂⟩
  · rintro ⟨h₁, h₂⟩
    exact ⟨start x, h₁, rfl, h₂⟩

section

variable (h : Tiles start size a l b)
include h

theorem Tiles.sum : b = a + (l.map size).sum := by
  induction l generalizing a with
  | nil => exact h.symm
  | cons x l ih =>
    rw [ih h.2, List.map_cons, List.sum_cons, Nat.add_assoc]

theorem Tiles.le : a ≤ b := by
  have := h.sum
  omega

/-- Every tile lies in the interval. -/
theorem Tiles.inside (hx : x ∈ l) :
    a ≤ start x ∧ start x + size x ≤ b := by
  obtain ⟨l₁, l₂, rfl⟩ := List.append_of_mem hx
  obtain ⟨h₁, h₂⟩ := tiles_middle.mp h
  exact ⟨h₁.le, h₂.le⟩

/-- **Tiles do not overlap**: an earlier one ends before a later one starts. -/
theorem Tiles.ordered :
    l.Pairwise fun x y => start x + size x ≤ start y := by
  induction l generalizing a with
  | nil => exact List.Pairwise.nil
  | cons x l ih =>
    obtain ⟨rfl, h⟩ := h
    exact List.pairwise_cons.mpr ⟨fun y hy => (h.inside hy).1, ih h⟩

/-- Two tiles one of which lies whole before the other, or which are the same. -/
theorem Tiles.apart {y : β} (hx : x ∈ l) (hy : y ∈ l) :
    x = y ∨ start x + size x ≤ start y ∨ start y + size y ≤ start x := by
  obtain ⟨l₁, l₂, rfl⟩ := List.append_of_mem hx
  obtain ⟨h₁, h₂⟩ := tiles_middle.mp h
  rcases List.mem_append.mp hy with hy | hy
  · exact .inr (.inr (h₁.inside hy).2)
  · rcases List.mem_cons.mp hy with rfl | hy
    · exact .inl rfl
    · exact .inr (.inl (h₂.inside hy).1)

end

end Tiling
