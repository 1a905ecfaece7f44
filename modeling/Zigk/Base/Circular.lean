/-
  Subject:   CIRCULAR BUFFERS THAT ARE COPIED IN AT MOST TWO PIECES, with the count of their
             elements kept outside.

  * `slice` -- the reading: so many elements from a position on, around the end;
  * `copyFrom`, `copyTo` -- straight copies; `load`, `store` -- the copies in two pieces, up to the
    end of the buffer and from its start on;
  * **`load_eq_slice`** -- what is copied out is what is read;
  * **`slice_store`** -- what is copied in behind the contents is appended to them;
  * `slice_add` -- a reading falls into a first part and the rest.
-/
import Mathlib.Data.List.Basic

namespace Circular

open List

variable {α : Type*}

/-! ## 1. Operations -/

def slice (cap : Nat) (buf : Nat → α) (pos n : Nat) : List α :=
  (List.range n).map fun i => buf ((pos + i) % cap)

def copyFrom (buf : Nat → α) (pos n : Nat) : List α := (List.range n).map fun i => buf (pos + i)

def copyTo (buf : Nat → α) (pos : Nat) (data : List α) : Nat → α := fun i =>
  if pos ≤ i then (data[i - pos]?).getD (buf i) else buf i

def load (cap : Nat) (buf : Nat → α) (pos n : Nat) : List α :=
  let first := min n (cap - pos)
  if first < n then copyFrom buf pos first ++ copyFrom buf 0 (n - first) else copyFrom buf pos first

def store (cap : Nat) (buf : Nat → α) (pos : Nat) (data : List α) : Nat → α :=
  let first := min data.length (cap - pos)
  let buf' := copyTo buf pos (data.take first)
  if first < data.length then copyTo buf' 0 (data.drop first) else buf'

/-! ## 2. Reading -/

variable {cap pos n : Nat} {buf : Nat → α} {data : List α}

@[simp] theorem length_slice : (slice cap buf pos n).length = n := by simp [slice]

theorem getElem_slice {i : Nat} (h : i < (slice cap buf pos n).length) :
    (slice cap buf pos n)[i] = buf ((pos + i) % cap) := by
  simp [slice]

/-- A position counts modulo the capacity. -/
theorem slice_mod : slice cap buf (pos % cap) n = slice cap buf pos n := by
  unfold slice
  refine map_congr_left fun i _ => ?_
  rw [Nat.mod_add_mod]

theorem slice_add (m : Nat) :
    slice cap buf pos (n + m) = slice cap buf pos n ++ slice cap buf (pos + n) m := by
  unfold slice
  rw [range_add, map_append, map_map]
  congr 1
  refine map_congr_left fun i _ => ?_
  simp only [Function.comp_apply, Nat.add_assoc]

/-- Up to the end of the buffer a reading is a straight copy. -/
theorem slice_eq_copyFrom (h : pos + n ≤ cap) : slice cap buf pos n = copyFrom buf pos n := by
  unfold slice copyFrom
  refine map_congr_left fun i hi => ?_
  rw [Nat.mod_eq_of_lt]
  have := mem_range.1 hi
  omega

/-- **What is copied out is what is read.** -/
theorem load_eq_slice (hpos : pos < cap) (hn : n ≤ cap) :
    load cap buf pos n = slice cap buf pos n := by
  unfold load
  dsimp only
  split_ifs with hwrap
  · have hfirst : min n (cap - pos) = cap - pos := by omega
    rw [hfirst]
    have hsplit : n = (cap - pos) + (n - (cap - pos)) := by omega
    have hend : pos + (cap - pos) = cap := by omega
    have hwrapped : slice cap buf (cap % cap) (n - (cap - pos)) =
        slice cap buf cap (n - (cap - pos)) := slice_mod
    calc copyFrom buf pos (cap - pos) ++ copyFrom buf 0 (n - (cap - pos))
        = slice cap buf pos (cap - pos) ++ slice cap buf 0 (n - (cap - pos)) := by
          rw [slice_eq_copyFrom (by omega), slice_eq_copyFrom (by omega)]
      _ = slice cap buf pos (cap - pos) ++ slice cap buf (pos + (cap - pos)) (n - (cap - pos)) := by
          rw [hend, ← hwrapped, Nat.mod_self]
      _ = slice cap buf pos n := by rw [← slice_add, ← hsplit]
  · have hfirst : min n (cap - pos) = n := by omega
    rw [hfirst, slice_eq_copyFrom (by omega)]

/-! ## 3. Writing -/

theorem copyTo_of_lt {i : Nat} (h : i < pos) : copyTo buf pos data i = buf i :=
  if_neg (Nat.not_le.2 h)

theorem copyTo_of_ge {i : Nat} (h : pos + data.length ≤ i) : copyTo buf pos data i = buf i := by
  unfold copyTo
  rw [if_pos (by omega), getElem?_eq_none (by omega)]
  rfl

theorem copyTo_add {k : Nat} (h : k < data.length) : copyTo buf pos data (pos + k) = data[k] := by
  unfold copyTo
  rw [if_pos (Nat.le_add_right ..), Nat.add_sub_cancel_left, getElem?_eq_getElem h]
  rfl

/-- Where the `k`-th place from a position on lies. -/
theorem place_eq (hpos : pos < cap) {k : Nat} (hk : k < cap) :
    (pos + k) % cap = if pos + k < cap then pos + k else pos + k - cap := by
  split_ifs with h
  · exact Nat.mod_eq_of_lt h
  · rw [Nat.mod_eq_sub_mod (Nat.not_lt.1 h), Nat.mod_eq_of_lt (by omega)]

theorem store_at (hpos : pos < cap) (hd : data.length ≤ cap) {k : Nat} (hk : k < data.length) :
    store cap buf pos data ((pos + k) % cap) = data[k] := by
  rw [place_eq hpos (by omega)]
  unfold store
  split_ifs with hwrap hin hin
  · have hlen : k < (data.take (min data.length (cap - pos))).length := by
      rw [length_take]
      omega
    have hfar : 0 + (data.drop (min data.length (cap - pos))).length ≤ pos + k := by
      rw [length_drop]
      omega
    rw [copyTo_of_ge hfar, copyTo_add hlen, getElem_take]
  · have hplace : pos + k - cap = 0 + (k - (cap - pos)) := by omega
    have hlen : k - (cap - pos) < (data.drop (min data.length (cap - pos))).length := by
      rw [length_drop]
      omega
    rw [hplace, copyTo_add hlen, getElem_drop]
    congr 1
    omega
  · have hlen : k < (data.take (min data.length (cap - pos))).length := by
      rw [length_take]
      omega
    rw [copyTo_add hlen, getElem_take]
  · omega

/-- The places behind what is written keep their elements. -/
theorem store_other (hpos : pos < cap) {k : Nat} (hk : data.length ≤ k) (hcap : k < cap) :
    store cap buf pos data ((pos + k) % cap) = buf ((pos + k) % cap) := by
  have hle : (data.take (min data.length (cap - pos))).length ≤ min data.length (cap - pos) :=
    length_take_le ..
  rw [place_eq hpos hcap]
  unfold store
  split_ifs with hwrap hin hin
  · omega
  · have hdrop : 0 + (data.drop (min data.length (cap - pos))).length ≤ pos + k - cap := by
      rw [length_drop]
      omega
    rw [copyTo_of_ge hdrop, copyTo_of_lt (by omega)]
  · exact copyTo_of_ge (by omega)
  · exact copyTo_of_lt (by omega)

/-- **What is copied in behind the contents is appended to them**, as long as it fits. -/
theorem slice_store {len : Nat} (hcap : 0 < cap) (hfit : len + data.length ≤ cap) :
    slice cap (store cap buf ((pos + len) % cap) data) pos (len + data.length) =
      slice cap buf pos len ++ data := by
  have hlt : (pos + len) % cap < cap := Nat.mod_lt _ hcap
  rw [slice_add]
  congr 1
  · unfold slice
    refine map_congr_left fun i hi => ?_
    have hi := mem_range.1 hi
    have hplace : (pos + i) % cap = ((pos + len) % cap + (cap - len + i)) % cap := by
      rw [Nat.mod_add_mod]
      have hsum : pos + len + (cap - len + i) = pos + i + cap := by omega
      rw [hsum, Nat.add_mod_right]
    rw [hplace]
    exact store_other hlt (by omega) (by omega)
  · refine ext_getElem (by simp) fun i hi hi' => ?_
    have hplace : (pos + len + i) % cap = ((pos + len) % cap + i) % cap := (Nat.mod_add_mod ..).symm
    rw [getElem_slice, hplace]
    exact store_at hlt (by omega) hi'

/-- What is left after the first `n` elements were read. -/
theorem slice_rest {len : Nat} (h : n ≤ len) :
    slice cap buf pos len = slice cap buf pos n ++ slice cap buf ((pos + n) % cap) (len - n) := by
  rw [slice_mod, ← slice_add, Nat.add_sub_cancel' h]

end Circular
