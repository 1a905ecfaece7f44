/-
  Subject:   CIRCULAR BUFFERS of a fixed capacity with a write position and a read position.

  A ring keeps no count of its elements: what it holds is read off the two positions, so a ring
  that is written exactly full reads as empty. This file says what the operations do to the
  reading of a ring as a list:

  * `used`, `contents` -- the reading: the elements from the read position up to the write
    position;
  * `push`, `pushAll` -- writing; `used_pushAll` holds modulo the capacity for EVERY number of
    elements, `contents_pushAll` only while the capacity is not reached;
  * `slice` -- reading without consuming, from any offset; `advance`, `popAll` -- consuming.

  Both positions carry the proof that they lie inside the buffer.
-/
import Mathlib.Tactic.Linarith

variable {α : Type*} {cap : Nat}

structure RingBuf (α : Type*) (cap : Nat) where
  buf : Nat → α
  /-- Write position. -/
  head : Nat
  /-- Read position. -/
  tail : Nat
  head_lt : head < cap
  tail_lt : tail < cap

namespace RingBuf

open List

open Function

/-! ## 1. Operations -/

/-- The number of elements, as far as the two positions tell. -/
def used (r : RingBuf α cap) : Nat :=
  if r.head ≥ r.tail then r.head - r.tail else cap - r.tail + r.head

/-- The empty ring with both positions at the start of the buffer. -/
def empty [NeZero cap] (a : α) : RingBuf α cap :=
  ⟨fun _ => a, 0, 0, Nat.pos_of_ne_zero (NeZero.ne cap), Nat.pos_of_ne_zero (NeZero.ne cap)⟩

def push (r : RingBuf α cap) (a : α) : RingBuf α cap :=
  { r with
    buf := update r.buf r.head a
    head := (r.head + 1) % cap
    head_lt := Nat.mod_lt _ (Nat.zero_lt_of_lt r.head_lt) }

def pushAll (r : RingBuf α cap) : List α → RingBuf α cap
  | [] => r
  | a :: l => (r.push a).pushAll l

/-- The `len` elements from offset `off` after the read position on. -/
def slice (r : RingBuf α cap) (off len : Nat) : List α :=
  (List.range len).map fun i => r.buf ((r.tail + off + i) % cap)

def advance (r : RingBuf α cap) (n : Nat) : RingBuf α cap :=
  { r with
    tail := (r.tail + n) % cap
    tail_lt := Nat.mod_lt _ (Nat.zero_lt_of_lt r.tail_lt) }

/-- Reading `n` elements one by one, each time moving the read position on. -/
def popAll (r : RingBuf α cap) : Nat → List α × RingBuf α cap
  | 0 => ([], r)
  | n + 1 => (r.buf r.tail :: ((r.advance 1).popAll n).1, ((r.advance 1).popAll n).2)

/-- **The reading of a ring**: what lies between the read and the write position. -/
def contents (r : RingBuf α cap) : List α := r.slice 0 r.used

/-! ## 2. Counting -/

section

variable (r : RingBuf α cap)
include r

theorem used_lt : r.used < cap := by
  have h1 := r.head_lt
  have h2 := r.tail_lt
  unfold used
  split <;> omega

/-- The write position lies `used` places after the read position. -/
theorem head_eq : r.head = (r.tail + r.used) % cap := by
  have h1 := r.head_lt
  have h2 := r.tail_lt
  unfold used
  split
  · rw [Nat.add_sub_cancel' (by omega), Nat.mod_eq_of_lt h1]
  · rw [show r.tail + (cap - r.tail + r.head) = r.head + cap by omega, Nat.add_mod_right,
      Nat.mod_eq_of_lt h1]

/-- `used` is the only count below the capacity that the two positions allow. -/
theorem used_eq_of_head {n : Nat} (hn : n < cap)
    (h : r.head = (r.tail + n) % cap) : r.used = n := by
  have h1 := r.head_lt
  have h2 := r.tail_lt
  have key : r.head = r.tail + n ∨ r.head + cap = r.tail + n := by
    rcases Nat.lt_or_ge (r.tail + n) cap with hlt | hge
    · exact .inl (h.trans (Nat.mod_eq_of_lt hlt))
    · right
      rw [h, Nat.mod_eq_sub_mod hge, Nat.mod_eq_of_lt (by omega)]
      omega
  unfold used
  split <;> omega

@[simp] theorem tail_pushAll (l : List α) : (r.pushAll l).tail = r.tail := by
  induction l generalizing r with
  | nil => rfl
  | cons a l ih => exact ih (r.push a)

theorem pushAll_append (l l' : List α) :
    r.pushAll (l ++ l') = (r.pushAll l).pushAll l' := by
  induction l generalizing r with
  | nil => rfl
  | cons a l ih => exact ih (r.push a)

theorem head_pushAll (l : List α) :
    (r.pushAll l).head = (r.head + l.length) % cap := by
  induction l generalizing r with
  | nil => exact (Nat.mod_eq_of_lt r.head_lt).symm
  | cons a l ih =>
    rw [pushAll, ih, push, Nat.mod_add_mod, length_cons]
    congr 1
    omega

/-- **Writing counts modulo the capacity**: filling a ring to its last place empties its
    reading. -/
theorem used_pushAll (l : List α) :
    (r.pushAll l).used = (r.used + l.length) % cap := by
  have hc : 0 < cap := Nat.zero_lt_of_lt r.head_lt
  refine used_eq_of_head _ (Nat.mod_lt _ hc) ?_
  rw [head_pushAll, tail_pushAll, head_eq, Nat.mod_add_mod, Nat.add_mod_mod, Nat.add_assoc]

theorem used_pushAll_of_lt (l : List α) (h : r.used + l.length < cap) :
    (r.pushAll l).used = r.used + l.length := by
  rw [used_pushAll, Nat.mod_eq_of_lt h]

theorem used_pushAll_full (l : List α) (h : r.used + l.length = cap) :
    (r.pushAll l).used = 0 := by
  rw [used_pushAll, h, Nat.mod_self]

@[simp] theorem head_advance (n : Nat) : (r.advance n).head = r.head := rfl

theorem used_advance {n : Nat} (hn : n ≤ r.used) :
    (r.advance n).used = r.used - n := by
  have h := r.used_lt
  refine used_eq_of_head _ (by omega) ?_
  rw [head_advance, head_eq, advance, Nat.mod_add_mod]
  congr 1
  omega

/-- Consuming frees as many places as it consumes only up to what the ring holds. -/
theorem used_advance_add_iff (n : Nat) :
    (r.advance n).used + n = r.used ↔ n ≤ r.used := by
  constructor
  · intro h
    omega
  · intro h
    rw [used_advance r h]
    omega

theorem advance_advance (m n : Nat) :
    (r.advance m).advance n = r.advance (m + n) := by
  simp only [advance, Nat.mod_add_mod, Nat.add_assoc]

@[simp] theorem advance_zero : r.advance 0 = r := by
  simp only [advance, Nat.add_zero, Nat.mod_eq_of_lt r.tail_lt]

/-! ## 3. The list a ring stands for -/

@[simp] theorem length_slice (off len : Nat) : (r.slice off len).length = len := by
  simp [slice]

@[simp] theorem length_contents : r.contents.length = r.used := by
  simp [contents]

/-- A slice inside the reading is a piece of it. -/
theorem slice_eq {off len : Nat} (h : off + len ≤ r.used) :
    r.slice off len = (r.contents.drop off).take len := by
  refine ext_getElem ?_ fun i h1 h2 => ?_
  · simp only [length_slice, length_take, length_drop, length_contents]
    omega
  · simp [slice, contents, Nat.add_assoc]

/-- The places of a ring's reading differ from its write position. -/
theorem place_ne_head {i : Nat} (hi : i < r.used) :
    (r.tail + i) % cap ≠ r.head := by
  have h := r.used_lt
  intro e
  have := used_eq_of_head r (n := i) (by omega) e.symm
  omega

theorem contents_push (a : α) (h : r.used + 1 < cap) :
    (r.push a).contents = r.contents ++ [a] := by
  have hu : (r.push a).used = r.used + 1 := used_pushAll_of_lt r [a] h
  refine ext_getElem ?_ fun i h1 h2 => ?_
  · simp [hu]
  rw [length_contents, hu] at h1
  rcases Nat.lt_or_ge i r.used with hi | hi
  · rw [getElem_append_left (by rw [length_contents]; exact hi)]
    simp only [contents, slice, getElem_map, getElem_range, push, Nat.add_zero]
    rw [update_of_ne (place_ne_head r hi)]
  have e : i = r.used := by omega
  subst e
  rw [getElem_append_right (by rw [length_contents])]
  simp only [contents, slice, getElem_map, getElem_range, push, Nat.add_zero,
    ← head_eq, update_self, getElem_singleton]

/-- **Writing appends**, as long as one place stays free. -/
theorem contents_pushAll (l : List α) (h : r.used + l.length < cap) :
    (r.pushAll l).contents = r.contents ++ l := by
  induction l generalizing r with
  | nil => simp [pushAll]
  | cons a l ih =>
    rw [length_cons] at h
    have hu : (r.push a).used = r.used + 1 := used_pushAll_of_lt r [a] (by simp; omega)
    rw [pushAll, ih _ (by omega), contents_push r a (by omega), append_assoc]
    rfl

theorem contents_advance {n : Nat} (hn : n ≤ r.used) :
    (r.advance n).contents = r.contents.drop n := by
  refine ext_getElem ?_ fun i h1 h2 => ?_
  · simp [used_advance r hn]
  · simp only [contents, slice, advance, getElem_map, getElem_range, getElem_drop, Nat.add_zero]
    rw [Nat.mod_add_mod, Nat.add_assoc]

/-- Reading one by one reads a slice and consumes it. -/
theorem popAll_eq (n : Nat) : r.popAll n = (r.slice 0 n, r.advance n) := by
  induction n generalizing r with
  | zero => simp [popAll, slice]
  | succ n ih =>
    have hs : (r.advance 1).slice 0 n =
        (List.range n).map fun i => r.buf ((r.tail + 0 + (i + 1)) % cap) := by
      simp only [slice, advance, Nat.add_zero]
      refine map_congr_left fun i _ => ?_
      rw [Nat.mod_add_mod, show r.tail + 1 + i = r.tail + (i + 1) by omega]
    rw [popAll, ih, hs, advance_advance, Nat.add_comm 1 n]
    simp only [slice, range_succ_eq_map, map_cons, map_map]
    simp [Nat.mod_eq_of_lt r.tail_lt, Function.comp_def]

end

@[simp] theorem used_empty [NeZero cap] (a : α) : (empty a : RingBuf α cap).used = 0 := by
  simp [used, empty]

@[simp] theorem contents_empty [NeZero cap] (a : α) : (empty a : RingBuf α cap).contents = [] := by
  rw [contents, used_empty]
  rfl

end RingBuf
