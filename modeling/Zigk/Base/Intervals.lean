/-
  Subject:   SETS OF NUMBERS as unordered lists of half-open intervals.

  * `Covered` -- what a list of intervals covers;
  * `minus`, `covered_minus` -- an interval without a range: none, one or two intervals are left;
  * `Apart`, `Solid` -- no two intervals touch, none is empty; `apart_minus`, `solid_minus`;
    `Apart.interval_of_covered` -- a covered range lies in one of them;
  * `runs`, **`length_eq_runs`** -- an apart and solid list has one interval for each run of
    what it covers.
-/
import Mathlib.Data.List.Perm.Basic
import Mathlib.Data.List.Nodup
import Mathlib.Data.List.Pairwise

structure Span where
  start : Nat
  stop : Nat
deriving DecidableEq, Repr

namespace Span

open List

variable {I J : Span} {l l' : List Span} {a b x n : Nat}

def has (I : Span) (x : Nat) : Prop := I.start ≤ x ∧ x < I.stop

instance : Decidable (I.has x) := inferInstanceAs (Decidable (_ ∧ _))

def Covered (l : List Span) (x : Nat) : Prop := ∃ I ∈ l, I.has x

theorem covered_perm (h : l.Perm l') : Covered l x ↔ Covered l' x :=
  exists_congr fun _ => and_congr_left fun _ => h.mem_iff

/-- What is left of an interval without `[a, b)`. -/
def minus (a b : Nat) (I : Span) : List Span :=
  if a ≤ I.start ∧ I.stop ≤ b then []
  else if I.start < a ∧ b < I.stop then [⟨I.start, a⟩, ⟨b, I.stop⟩]
  else if a ≤ I.start ∧ I.start < b then [⟨b, I.stop⟩]
  else if a < I.stop ∧ I.stop ≤ b then [⟨I.start, a⟩]
  else [I]

/-- What is left lies in the interval, and is not empty unless the interval itself was. -/
theorem minus_inside (hab : a ≤ b) (h : J ∈ I.minus a b) :
    I.start ≤ J.start ∧ J.stop ≤ I.stop ∧ (J.start < J.stop ∨ J = I) := by
  unfold minus at h
  split_ifs at h with h1 h2 h3 h4
  · cases h
  · simp only [mem_cons, not_mem_nil, or_false] at h
    rcases h with rfl | rfl <;> refine ⟨?_, ?_, .inl ?_⟩ <;> dsimp only <;> omega
  · obtain rfl := mem_singleton.1 h
    refine ⟨?_, ?_, .inl ?_⟩ <;> dsimp only <;> omega
  · obtain rfl := mem_singleton.1 h
    refine ⟨?_, ?_, .inl ?_⟩ <;> dsimp only <;> omega
  · obtain rfl := mem_singleton.1 h
    exact ⟨Nat.le_refl _, Nat.le_refl _, .inr rfl⟩

theorem covered_minus_one (hab : a ≤ b) :
    Covered (I.minus a b) x ↔ I.has x ∧ ¬ (a ≤ x ∧ x < b) := by
  unfold minus Covered has
  split_ifs <;> simp only [mem_cons, not_mem_nil, or_false, exists_eq_left,
    exists_eq_or_imp, false_and, exists_false, false_iff] <;> omega

/-- **A range is taken out of every interval of the list.** -/
theorem covered_minus (hab : a ≤ b) :
    Covered (l.flatMap (minus a b)) x ↔ Covered l x ∧ ¬ (a ≤ x ∧ x < b) := by
  unfold Covered
  simp only [mem_flatMap]
  constructor
  · intro ⟨J, ⟨I, hI, hJ⟩, hx⟩
    obtain ⟨hx, hn⟩ := (covered_minus_one hab).1 ⟨J, hJ, hx⟩
    exact ⟨⟨I, hI, hx⟩, hn⟩
  · intro ⟨⟨I, hI, hx⟩, hn⟩
    obtain ⟨J, hJ, hx⟩ := (covered_minus_one hab).2 ⟨hx, hn⟩
    exact ⟨J, ⟨I, hI, hJ⟩, hx⟩

/-! ## Lists of which no two intervals touch -/

def Away (I J : Span) : Prop := I.stop < J.start ∨ J.stop < I.start

theorem Away.symm (h : I.Away J) : J.Away I := Or.symm h

def Apart (l : List Span) : Prop := l.Pairwise Away

def Solid (l : List Span) : Prop := ∀ I ∈ l, I.start < I.stop

theorem apart_perm (h : l.Perm l') : Apart l ↔ Apart l' := h.pairwise_iff Away.symm

theorem Apart.away (h : Apart l) (hI : I ∈ l) (hJ : J ∈ l) (hne : I ≠ J) : I.Away J :=
  haveI : Std.Symm Away := ⟨fun _ _ => Away.symm⟩
  List.Pairwise.forall h hI hJ hne

/-- A range that is covered lies in one of the intervals. -/
theorem Apart.interval_of_covered (ha : Apart l) (hab : a < b)
    (h : ∀ x, a ≤ x → x < b → Covered l x) : ∃ I ∈ l, I.start ≤ a ∧ b ≤ I.stop := by
  obtain ⟨I, hI, hIa⟩ := h a (Nat.le_refl a) hab
  unfold has at hIa
  refine ⟨I, hI, hIa.1, Nat.not_lt.1 fun hlt => ?_⟩
  -- the interval with the end of this one would touch it
  obtain ⟨J, hJ, hJx⟩ := h I.stop (Nat.le_of_lt hIa.2) hlt
  unfold has at hJx
  have hne : I ≠ J := by
    rintro rfl
    omega
  have haway := ha.away hI hJ hne
  unfold Away at haway
  omega

/-- Where all numbers from `a` on are covered, no interval starts behind `a`. -/
theorem Apart.start_le (ha : Apart l) (hs : Solid l) (hn : ∀ I ∈ l, I.stop ≤ n)
    (h : ∀ x, a ≤ x → x < n → Covered l x) (hI : I ∈ l) : I.start ≤ a := by
  by_contra hlt
  have hsolid := hs I hI
  have hle := hn I hI
  obtain ⟨J, hJ, hJx⟩ := h (I.start - 1) (by omega) (by omega)
  unfold has at hJx
  have hne : I ≠ J := by
    rintro rfl
    omega
  have haway := ha.away hI hJ hne
  unfold Away at haway
  omega

/-- Intervals that get shorter at their ends stay apart. -/
theorem Apart.shorten (ha : Apart l) {g : Span → Span} (hstart : ∀ I, (g I).start = I.start)
    (hstop : ∀ I, (g I).stop ≤ I.stop) : Apart (l.map g) := by
  unfold Apart at ha ⊢
  rw [pairwise_map]
  refine ha.imp fun {I J} haway => ?_
  have h1 := hstop I
  have h2 := hstop J
  unfold Away at haway ⊢
  rw [hstart, hstart]
  omega

/-- Taking a range out keeps the intervals apart, where it is not an empty one inside one of
    them. -/
theorem apart_minus (h : Apart l) (hab : a ≤ b)
    (hin : a = b → ∀ I ∈ l, ¬ (I.start < a ∧ b < I.stop)) : Apart (l.flatMap (minus a b)) := by
  unfold Apart at h ⊢
  rw [pairwise_flatMap]
  constructor
  · intro I hI
    have hne := fun e => hin e I hI
    unfold minus
    split_ifs with h1 h2
    · exact .nil
    · refine pairwise_pair.2 (.inl ?_)
      rcases Nat.lt_or_ge a b with hlt | hge
      · exact hlt
      · exact absurd h2 (hne (Nat.le_antisymm hab hge))
    all_goals exact pairwise_singleton _ _
  · refine h.imp fun haway => ?_
    intro I' hI' J' hJ'
    obtain ⟨h1, h2, -⟩ := minus_inside hab hI'
    obtain ⟨h3, h4, -⟩ := minus_inside hab hJ'
    unfold Away at haway ⊢
    omega

theorem solid_minus (hab : a ≤ b) (h : ∀ I ∈ l, I.start < I.stop ∨ a ≤ I.start ∧ I.stop ≤ b) :
    Solid (l.flatMap (minus a b)) := by
  intro J hJ
  obtain ⟨I, hI, hJ⟩ := mem_flatMap.1 hJ
  obtain ⟨-, -, hlt | rfl⟩ := minus_inside hab hJ
  · exact hlt
  rcases h J hI with hlt | hin
  · exact hlt
  · rw [minus, if_pos hin] at hJ
    cases hJ

/-! ## Runs -/

/-- How many runs of numbers below `n` with the property there are: the numbers at which one
    starts. -/
def runs (p : Nat → Bool) (n : Nat) : Nat :=
  ((List.range n).filter fun x => p x && (x == 0 || !p (x - 1))).length

theorem Solid.nodup_starts (hs : Solid l) (ha : Apart l) : (l.map start).Nodup := by
  unfold List.Nodup
  rw [pairwise_map]
  refine List.Pairwise.imp_of_mem (fun {I J} hI hJ haway => ?_) ha
  have h1 := hs I hI
  have h2 := hs J hJ
  unfold Away at haway
  omega

/-- **An apart list of solid intervals has one interval for each run of what it covers.** -/
theorem length_eq_runs {p : Nat → Bool} (ha : Apart l) (hs : Solid l)
    (hp : ∀ x, x < n → (p x = true ↔ Covered l x)) (hn : ∀ I ∈ l, I.stop ≤ n) : l.length = runs p n := by
  have hperm : (l.map start).Perm
      ((List.range n).filter fun x => p x && (x == 0 || !p (x - 1))) := by
    refine (perm_ext_iff_of_nodup (hs.nodup_starts ha) (nodup_range.filter _)).2
      fun x => ?_
    simp only [mem_map, mem_filter, mem_range, Bool.and_eq_true, Bool.or_eq_true,
      beq_iff_eq, Bool.not_eq_true', ← Bool.not_eq_true]
    constructor
    · intro ⟨I, hI, hx⟩
      have hlt := hs I hI
      have hle := hn I hI
      have hxn : x < n := by omega
      refine ⟨hxn, (hp x hxn).2 ⟨I, hI, by unfold has; omega⟩, ?_⟩
      rcases Nat.eq_zero_or_pos x with h0 | h0
      · exact .inl h0
      refine .inr fun hcov => ?_
      obtain ⟨J, hJ, hx'⟩ := (hp (x - 1) (by omega)).1 hcov
      -- an interval with the number before would touch this one
      have hne : I ≠ J := by
        rintro rfl
        unfold has at hx'
        omega
      have haway := ha.away hI hJ hne
      unfold has at hx'
      unfold Away at haway
      omega
    · intro ⟨hxn, hcov, hfirst⟩
      obtain ⟨I, hI, hx⟩ := (hp x hxn).1 hcov
      refine ⟨I, hI, ?_⟩
      unfold has at hx
      by_contra hne
      rcases hfirst with h0 | hnot
      · omega
      · exact hnot ((hp (x - 1) (by omega)).2 ⟨I, hI, by unfold has; omega⟩)
  rw [← l.length_map, hperm.length_eq]
  rfl

end Span
