/-
  Subject:   A DEVICE THAT IS READ AND WRITTEN IN WHOLE SECTORS, seen as one run of bytes.

  * `copyFrom_add`, `copyTo_append` -- straight copies fall into parts; `copyTo_copyFrom`;
    `copyTo_shift`;
  * `read`, `write` -- one sector; `overlay` -- data put into a buffer;
  * **`read_part`**, **`write_part`** -- a part of a sector, read or written through all of it, is a
    straight copy;
  * `readMany`, `writeMany` -- sectors one after the other; `readMany_eq`, `writeMany_eq`.
-/
import Zigk.Base.Circular

namespace Sectors

open Circular List

variable {α : Type*} {size lba off n m a : Nat} {disk : Nat → α} {data x y : List α}

/-! ## 1. Straight copies -/

@[simp] theorem length_copyFrom : (copyFrom disk a n).length = n := by simp [copyFrom]

theorem getElem?_copyFrom (i : Nat) :
    (copyFrom disk a n)[i]? = if i < n then some (disk (a + i)) else none := by
  unfold copyFrom
  rw [getElem?_map]
  split_ifs with h
  · rw [getElem?_range h, Option.map_some]
  · rw [getElem?_eq_none (by rw [length_range]; omega), Option.map_none]

theorem copyFrom_add : copyFrom disk a (n + m) = copyFrom disk a n ++ copyFrom disk (a + n) m := by
  unfold copyFrom
  rw [range_add, map_append, map_map]
  congr 1
  refine map_congr_left fun i _ => ?_
  rw [Function.comp_apply, Nat.add_assoc]

theorem drop_copyFrom : (copyFrom disk a (n + m)).drop n = copyFrom disk (a + n) m := by
  rw [copyFrom_add]
  exact drop_left' length_copyFrom

theorem take_copyFrom (h : n ≤ m) : (copyFrom disk a m).take n = copyFrom disk a n := by
  obtain ⟨k, rfl⟩ := Nat.exists_eq_add_of_le h
  rw [copyFrom_add]
  exact take_left' length_copyFrom

/-- A part of a copy. -/
theorem part_copyFrom (h : off + n ≤ m) :
    ((copyFrom disk a m).drop off).take n = copyFrom disk (a + off) n := by
  obtain ⟨k, rfl⟩ := Nat.exists_eq_add_of_le (Nat.le_of_add_right_le h)
  rw [drop_copyFrom]
  exact take_copyFrom (by omega)

theorem copyFrom_congr {disk' : Nat → α} (h : ∀ i, i < n → disk' (a + i) = disk (a + i)) :
    copyFrom disk' a n = copyFrom disk a n := by
  unfold copyFrom
  refine map_congr_left fun i hi => ?_
  exact h i (mem_range.1 hi)

@[simp] theorem copyTo_nil : copyTo disk a [] = disk := by
  funext i
  unfold copyTo
  split_ifs
  · rfl
  · rfl

/-- Behind one piece the next one. -/
theorem copyTo_append :
    copyTo (copyTo disk a x) (a + x.length) y = copyTo disk a (x ++ y) := by
  funext i
  by_cases hx : i < a + x.length
  · rw [copyTo_of_lt hx]
    unfold copyTo
    split_ifs with ha
    · rw [getElem?_append_left (by omega)]
    · rfl
  unfold copyTo
  have hi : x.length ≤ i - a := by omega
  rw [if_pos (by omega), if_pos (by omega), getElem?_append_right hi, getElem?_eq_none hi]
  have hsub : i - (a + x.length) = i - a - x.length := by omega
  rw [hsub, if_pos (by omega)]
  rfl

/-- What stood there is written back. -/
theorem copyTo_copyFrom : copyTo disk a (copyFrom disk a n) = disk := by
  funext i
  unfold copyTo
  split_ifs with ha
  · rw [getElem?_copyFrom]
    split_ifs with hi
    · have hadd : a + (i - a) = i := by omega
      rw [hadd]
      rfl
    · rfl
  · rfl

/-- The same data written to two runs of bytes that agree outside. -/
theorem copyTo_shift {bytes : Nat → α} (base : Nat)
    (h : ∀ i, i < n → ¬(a ≤ i ∧ i < a + data.length) → disk (base + i) = bytes i) {i : Nat}
    (hi : i < n) : copyTo disk (base + a) data (base + i) = copyTo bytes a data i := by
  by_cases hlt : i < a
  · rw [copyTo_of_lt hlt, copyTo_of_lt (by omega)]
    exact h i hi (by omega)
  by_cases hge : a + data.length ≤ i
  · rw [copyTo_of_ge hge, copyTo_of_ge (by omega)]
    exact h i hi (by omega)
  · obtain ⟨k, rfl⟩ := Nat.exists_eq_add_of_le (Nat.le_of_not_lt hlt)
    have hk : k < data.length := by omega
    rw [copyTo_add hk, ← Nat.add_assoc, copyTo_add hk]

/-! ## 2. One sector -/

def read (size : Nat) (disk : Nat → α) (lba : Nat) : List α := copyFrom disk (lba * size) size

def write (size : Nat) (disk : Nat → α) (lba : Nat) (buf : List α) : Nat → α :=
  copyTo disk (lba * size) (buf.take size)

/-- Data in a buffer, from a place on. -/
def overlay (buf : List α) (off : Nat) (data : List α) : List α :=
  buf.take off ++ data ++ buf.drop (off + data.length)

theorem read_part (h : off + n ≤ size) :
    ((read size disk lba).drop off).take n = copyFrom disk (lba * size + off) n :=
  part_copyFrom h

theorem length_overlay {buf : List α} (h : off + data.length ≤ buf.length) :
    (overlay buf off data).length = buf.length := by
  unfold overlay
  rw [length_append, length_append, length_take, length_drop]
  omega

theorem overlay_whole {buf : List α} (h : buf.length = data.length) :
    overlay buf 0 data = data := by
  unfold overlay
  rw [take_zero, nil_append, drop_eq_nil_of_le (by omega), append_nil]

theorem write_part (h : off + data.length ≤ size) :
    write size disk lba (overlay (read size disk lba) off data) =
      copyTo disk (lba * size + off) data := by
  obtain ⟨k, rfl⟩ := Nat.exists_eq_add_of_le h
  have hlen : (overlay (read (off + data.length + k) disk lba) off data).length =
      off + data.length + k :=
    (length_overlay (by unfold read; rw [length_copyFrom]; omega)).trans length_copyFrom
  unfold write
  rw [take_of_length_le (Nat.le_of_eq hlen)]
  unfold overlay read
  generalize lba * (off + data.length + k) = a
  -- the bytes before the part and those behind it are the old ones
  have hrest : copyFrom disk (a + (off + data.length)) k =
      copyFrom (copyTo disk (a + off) data) (a + (off + data.length)) k :=
    (copyFrom_congr fun i _ => copyTo_of_ge (by omega)).symm
  rw [take_copyFrom (by omega), drop_copyFrom, ← copyTo_append, ← copyTo_append, copyTo_copyFrom,
    length_append, length_copyFrom, hrest, copyTo_copyFrom]

/-- A part that is the whole sector need not be read before. -/
theorem write_whole (h : data.length = size) :
    write size disk lba data = copyTo disk (lba * size) data := by
  unfold write
  rw [take_of_length_le (Nat.le_of_eq h)]

/-! ## 3. Many sectors -/

def readMany (size : Nat) (disk : Nat → α) (lba : Nat) : Nat → List α
  | 0 => []
  | n + 1 => read size disk lba ++ readMany size disk (lba + 1) n

def writeMany (size : Nat) (disk : Nat → α) (lba : Nat) (buf : List α) : Nat → Nat → α
  | 0 => disk
  | n + 1 => writeMany size (write size disk lba buf) (lba + 1) (buf.drop size) n

theorem readMany_eq : readMany size disk lba n = copyFrom disk (lba * size) (n * size) := by
  induction n generalizing lba with
  | zero =>
    rw [Nat.zero_mul]
    rfl
  | succ n ih =>
    have hn : (n + 1) * size = size + n * size := by rw [Nat.succ_mul, Nat.add_comm]
    rw [readMany, ih, hn, copyFrom_add, Nat.succ_mul]
    rfl

theorem writeMany_eq {buf : List α} (h : buf.length = n * size) :
    writeMany size disk lba buf n = copyTo disk (lba * size) buf := by
  induction n generalizing disk lba buf with
  | zero =>
    rw [Nat.zero_mul] at h
    rw [length_eq_zero_iff.1 h, copyTo_nil]
    rfl
  | succ n ih =>
    rw [Nat.succ_mul] at h
    have htake : (buf.take size).length = size := by
      rw [length_take]
      omega
    have hdrop : (buf.drop size).length = n * size := by
      rw [length_drop]
      omega
    rw [writeMany, ih hdrop, Nat.succ_mul]
    unfold write
    calc copyTo (copyTo disk (lba * size) (buf.take size)) (lba * size + size) (buf.drop size)
        = copyTo (copyTo disk (lba * size) (buf.take size)) (lba * size + (buf.take size).length)
            (buf.drop size) := by rw [htake]
      _ = copyTo disk (lba * size) buf := by rw [copyTo_append, take_append_drop]

end Sectors
