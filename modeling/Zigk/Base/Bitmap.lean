/-
  Subject:   BITMAPS packed into bytes, low bit first.

  * `bit`, `setBit`, `clearBit` -- one bit by its number; `bit_setBit` and `bit_clearBit` say
    what an update does to every bit;
  * `clearBits` -- the set of clear bits. An update of one bit adds or removes one element, so a
    counter kept along stays its cardinality (`card_clearBits_setBit`, `card_clearBits_clearBit`);
  * `bit_slice`, `ext_bit` -- the bits of a part of a map; a map is given by its bits;
  * `exists_clear_of_ne_ones` -- a byte that is not all ones has a clear bit.
-/
import Mathlib.Data.BitVec

abbrev Bitmap := List (BitVec 8)

namespace Bitmap

open List

variable (m : Bitmap) (n k : Nat)

/-- The byte mask of bit `n`. -/
def mask : BitVec 8 := 1#8 <<< (n % 8)

/-- Bit `n`; past the end of the map every bit reads clear. -/
def bit : Bool := (m.getD (n / 8) 0#8 &&& mask n) != 0#8

def setBit : Bitmap := m.set (n / 8) (m.getD (n / 8) 0#8 ||| mask n)

def clearBit : Bitmap := m.set (n / 8) (m.getD (n / 8) 0#8 &&& ~~~ mask n)

theorem mask_getLsbD {i : Nat} : (mask n).getLsbD i = decide (i = n % 8) := by
  have hn : n % 8 < 8 := Nat.mod_lt _ (by decide)
  rw [mask, BitVec.getLsbD_shiftLeft, BitVec.getLsbD_one]
  by_cases h : i = n % 8
  · subst h
    simp [hn]
  · have : ¬ (i - n % 8 = 0 ∧ ¬ i < n % 8) := by omega
    simp only [decide_eq_false h]
    grind

theorem bit_eq_getLsbD : bit m n = (m.getD (n / 8) 0#8).getLsbD (n % 8) := by
  have hn : n % 8 < 8 := Nat.mod_lt _ (by decide)
  rw [bit, Bool.eq_iff_iff, bne_iff_ne]
  constructor
  · intro h
    by_contra hb
    refine h (BitVec.eq_of_getLsbD_eq fun i _ => ?_)
    rw [BitVec.getLsbD_and, mask_getLsbD]
    by_cases hi : i = n % 8
    · subst hi
      simpa using hb
    · simp [hi]
  · intro hb h
    have e := congrArg (fun v => v.getLsbD (n % 8)) h
    simp only [BitVec.getLsbD_and, mask_getLsbD, hb, decide_true, Bool.and_true,
      BitVec.getLsbD_zero] at e
    cases e

@[simp] theorem length_setBit : (setBit m n).length = m.length := length_set

@[simp] theorem length_clearBit : (clearBit m n).length = m.length := length_set

/-- Two numbers name the same bit of the same byte only if they are equal. -/
theorem mod_eq_iff (h : n / 8 = k / 8) : k % 8 = n % 8 ↔ k = n := by omega

variable {m n}

theorem getD_set_of_lt {v : BitVec 8} (h : n / 8 < m.length) :
    (m.set (n / 8) v).getD (k / 8) 0#8 = if n / 8 = k / 8 then v else m.getD (k / 8) 0#8 := by
  simp only [getD_eq_getElem?_getD, getElem?_set]
  by_cases hk : n / 8 = k / 8
  · rw [if_pos hk, if_pos hk, if_pos h]
    rfl
  · rw [if_neg hk, if_neg hk]

theorem bit_setBit (h : n / 8 < m.length) : bit (setBit m n) k = (decide (k = n) || bit m k) := by
  rw [bit_eq_getLsbD, bit_eq_getLsbD, setBit, getD_set_of_lt k h]
  by_cases hk : n / 8 = k / 8
  · rw [if_pos hk, BitVec.getLsbD_or, mask_getLsbD, hk, Bool.or_comm,
      decide_eq_decide.mpr (mod_eq_iff n k hk)]
  · have hne : k ≠ n := fun e => hk (e ▸ rfl)
    rw [if_neg hk, decide_eq_false hne, Bool.false_or]

theorem bit_clearBit (h : n / 8 < m.length) :
    bit (clearBit m n) k = (!decide (k = n) && bit m k) := by
  have hlt : k % 8 < 8 := Nat.mod_lt _ (by decide)
  rw [bit_eq_getLsbD, bit_eq_getLsbD, clearBit, getD_set_of_lt k h]
  by_cases hk : n / 8 = k / 8
  · rw [if_pos hk, BitVec.getLsbD_and, BitVec.getLsbD_not, mask_getLsbD, hk,
      decide_eq_decide.mpr (mod_eq_iff n k hk), decide_eq_true hlt, Bool.true_and, Bool.and_comm]
  · have hne : k ≠ n := fun e => hk (e ▸ rfl)
    rw [if_neg hk, decide_eq_false hne, Bool.not_false, Bool.true_and]

theorem bit_replicate_ones {len : Nat} (h : k / 8 < len) :
    bit (List.replicate len (BitVec.allOnes 8)) k = true := by
  have hlt : k % 8 < 8 := Nat.mod_lt _ (by decide)
  rw [bit_eq_getLsbD, getD_eq_getElem?_getD, getElem?_replicate, if_pos h,
    Option.getD_some, BitVec.getLsbD_allOnes, decide_eq_true hlt]

/-- A byte that is not all ones has a clear bit. -/
theorem exists_clear_of_ne_ones {i : Nat} (h : m.getD i 0#8 ≠ BitVec.allOnes 8) :
    ∃ b < 8, bit m (i * 8 + b) = false := by
  by_contra hne
  refine h (BitVec.eq_of_getLsbD_eq fun b hb => ?_)
  have hbit : bit m (i * 8 + b) = true := by
    by_contra hb'
    exact hne ⟨b, hb, by simpa using hb'⟩
  rw [bit_eq_getLsbD, show (i * 8 + b) / 8 = i by omega, show (i * 8 + b) % 8 = b by omega] at hbit
  rw [hbit, BitVec.getLsbD_allOnes, decide_eq_true hb]

theorem bit_of_ones {i b : Nat} (hb : b < 8) (h : m.getD i 0#8 = BitVec.allOnes 8) :
    bit m (i * 8 + b) = true := by
  rw [bit_eq_getLsbD, show (i * 8 + b) / 8 = i by omega, show (i * 8 + b) % 8 = b by omega, h,
    BitVec.getLsbD_allOnes, decide_eq_true hb]

/-! ## Parts -/

section Parts

variable {m' : Bitmap} {k : Nat}

theorem bit_append_left (h : k / 8 < m.length) : bit (m ++ m') k = bit m k := by
  rw [bit_eq_getLsbD, bit_eq_getLsbD, getD_eq_getElem?_getD, getElem?_append_left h,
    getD_eq_getElem?_getD]

theorem bit_append_right : bit (m ++ m') (m.length * 8 + k) = bit m' k := by
  have hdiv : (m.length * 8 + k) / 8 = m.length + k / 8 := by omega
  have hmod : (m.length * 8 + k) % 8 = k % 8 := by omega
  rw [bit_eq_getLsbD, bit_eq_getLsbD, hdiv, hmod, getD_eq_getElem?_getD,
    getElem?_append_right (Nat.le_add_right _ _), Nat.add_sub_cancel_left,
    getD_eq_getElem?_getD]

/-- The bits of `n` bytes of a map, from byte `a` on. -/
theorem bit_slice {a : Nat} (h : k / 8 < n) : bit ((m.drop a).take n) k = bit m (a * 8 + k) := by
  have hdiv : (a * 8 + k) / 8 = a + k / 8 := by omega
  have hmod : (a * 8 + k) % 8 = k % 8 := by omega
  rw [bit_eq_getLsbD, bit_eq_getLsbD, hdiv, hmod, getD_eq_getElem?_getD,
    getElem?_take_of_lt h, getElem?_drop, getD_eq_getElem?_getD]

theorem ext_bit (hlen : m.length = m'.length) (h : ∀ k, k / 8 < m.length → bit m k = bit m' k) :
    m = m' := by
  refine ext_getElem hlen fun i hi hi' => BitVec.eq_of_getLsbD_eq fun b hb => ?_
  have hdiv : (i * 8 + b) / 8 = i := by omega
  have hmod : (i * 8 + b) % 8 = b := by omega
  have := h (i * 8 + b) (by omega)
  rw [bit_eq_getLsbD, bit_eq_getLsbD, hdiv, hmod, getD_eq_getElem?_getD,
    getElem?_eq_getElem hi, getD_eq_getElem?_getD, getElem?_eq_getElem hi'] at this
  exact this
end Parts

/-! ## Counting -/

variable (m)

/-- The clear bits of the map. -/
def clearBits : Finset Nat := (Finset.range (8 * m.length)).filter fun i => bit m i = false

variable {m}

theorem mem_clearBits {i : Nat} : i ∈ clearBits m ↔ i / 8 < m.length ∧ bit m i = false := by
  rw [clearBits, Finset.mem_filter, Finset.mem_range]
  exact and_congr_left fun _ => by omega

theorem clearBits_setBit (h : n / 8 < m.length) :
    clearBits (setBit m n) = (clearBits m).erase n := by
  ext i
  simp only [mem_clearBits, Finset.mem_erase, length_setBit, bit_setBit i h]
  grind

theorem clearBits_clearBit (h : n / 8 < m.length) :
    clearBits (clearBit m n) = insert n (clearBits m) := by
  ext i
  simp only [mem_clearBits, Finset.mem_insert, length_clearBit, bit_clearBit i h]
  grind

theorem card_clearBits_setBit (h : n / 8 < m.length) (hb : bit m n = false) :
    (clearBits (setBit m n)).card + 1 = (clearBits m).card := by
  rw [clearBits_setBit h]
  exact Finset.card_erase_add_one (mem_clearBits.mpr ⟨h, hb⟩)

theorem card_clearBits_clearBit (h : n / 8 < m.length) (hb : bit m n = true) :
    (clearBits (clearBit m n)).card = (clearBits m).card + 1 := by
  rw [clearBits_clearBit h]
  refine Finset.card_insert_of_notMem fun hm => ?_
  rw [(mem_clearBits.mp hm).2] at hb
  cases hb

theorem clearBits_ones (len : Nat) :
    clearBits (List.replicate len (BitVec.allOnes 8)) = ∅ := by
  refine Finset.eq_empty_of_forall_notMem fun i hi => ?_
  obtain ⟨hlt, hb⟩ := mem_clearBits.mp hi
  rw [length_replicate] at hlt
  rw [bit_replicate_ones i hlt] at hb
  cases hb

end Bitmap
