/-
  Subject:   ONES' COMPLEMENT SUMS OF 16-BIT WORDS, and the words of a byte list.

  * `fold` -- the carries go around until the sum has 16 bits; **`fold_eq`** -- what is left is the
    sum modulo `0xFFFF`, with `0xFFFF` for zero unless all words are zero;
  * `words`, `oddByte` -- the big-endian words of a byte list, and the byte behind them as the upper
    half of one; `setWord` -- one word is replaced (`words_setWord`, `sum_words_setWord`).
-/
import Mathlib.Data.BitVec
import Mathlib.Algebra.BigOperators.Group.List.Basic

namespace OnesComplement

open List

/-! ## 1. Sums -/

def fold (sum : Nat) : Nat :=
  if 0xFFFF < sum then fold ((sum &&& 0xFFFF) + (sum >>> 16)) else sum
termination_by sum
decreasing_by
  rw [Nat.and_two_pow_sub_one_eq_mod _ 16, Nat.shiftRight_eq_div_pow]
  omega

/-- **A folded sum is the sum modulo `0xFFFF`, and zero only if nothing was added.** -/
theorem fold_eq (sum : Nat) : fold sum = if sum = 0 then 0 else (sum - 1) % 0xFFFF + 1 := by
  induction sum using Nat.strongRecOn with
  | ind sum ih =>
    unfold fold
    split_ifs with hbig hzero hzero
    · omega
    · rw [Nat.and_two_pow_sub_one_eq_mod _ 16, Nat.shiftRight_eq_div_pow, ih _ (by omega), if_neg]
      · omega
      · omega
    · omega
    · omega

theorem fold_le (sum : Nat) : fold sum ≤ 0xFFFF := by
  rw [fold_eq]
  split_ifs <;> omega

theorem fold_eq_ones {sum : Nat} : fold sum = 0xFFFF ↔ 0 < sum ∧ 0xFFFF ∣ sum := by
  rw [fold_eq]
  split_ifs with hzero
  · constructor
    · intro h
      cases h
    · omega
  constructor
  · omega
  · intro ⟨_, c, hc⟩
    omega

/-- Addition with end-around carry. -/
def add (w v : Nat) : Nat := fold (w + v)

theorem add_eq {w v : Nat} (hw : w ≤ 0xFFFF) (hv : 0 < v) (hlt : v < 0xFFFF) :
    add w v = if 0xFFFF < w + v then w + v - 0xFFFF else w + v := by
  unfold add
  rw [fold_eq, if_neg (by omega)]
  split_ifs <;> omega

/-! ## 2. Words -/

def words : List UInt8 → List Nat
  | a :: b :: l => (a.toNat <<< 8 ||| b.toNat) :: words l
  | _ => []

def oddByte : List UInt8 → List Nat
  | _ :: _ :: l => oddByte l
  | [a] => [a.toNat <<< 8]
  | [] => []

def wordAt (l : List UInt8) (k : Nat) : Nat := (words l).getD k 0

/-- Word `k` becomes `w`. -/
def setWord (l : List UInt8) (k : Nat) (w : BitVec 16) : List UInt8 :=
  (l.set (2 * k) (.ofNat (w.toNat / 256))).set (2 * k + 1) (.ofNat w.toNat)

variable {l : List UInt8} {k : Nat} {w : BitVec 16}

@[simp] theorem length_setWord (l : List UInt8) (k : Nat) (w : BitVec 16) :
    (setWord l k w).length = l.length := by
  unfold setWord
  rw [length_set, length_set]

theorem word_eq (a b : UInt8) : a.toNat <<< 8 ||| b.toNat = a.toNat * 256 + b.toNat := by
  have hb := b.toNat_lt
  rw [← Nat.shiftLeft_add_eq_or_of_lt (by omega), Nat.shiftLeft_eq]

theorem word_of (w : BitVec 16) :
    (UInt8.ofNat (w.toNat / 256)).toNat <<< 8 ||| (UInt8.ofNat w.toNat).toNat = w.toNat := by
  have hw := w.isLt
  rw [word_eq, UInt8.toNat_ofNat', UInt8.toNat_ofNat']
  omega

theorem length_words (l : List UInt8) : (words l).length = l.length / 2 := by
  fun_induction words with
  | case1 a b l ih =>
    rw [length_cons, ih, length_cons, length_cons]
    omega
  | case2 l h =>
    cases l with
    | nil => rfl
    | cons a l =>
      cases l with
      | nil => exact (Nat.div_eq_of_lt (Nat.lt_succ_self 1)).symm
      | cons b l => exact absurd rfl (h a b l)

theorem words_setWord (h : 2 * k + 1 < l.length) :
    words (setWord l k w) = (words l).set k w.toNat := by
  induction k generalizing l with
  | zero =>
    match l, h with
    | a :: b :: l, _ =>
      change (_ ||| _) :: words l = w.toNat :: words l
      rw [word_of]
  | succ k ih =>
    match l, h with
    | a :: b :: l, h =>
      have hset : setWord (a :: b :: l) (k + 1) w = a :: b :: setWord l k w := rfl
      rw [hset, words, words, set_cons_succ, ih]
      rw [length_cons, length_cons] at h
      omega

theorem oddByte_setWord (h : 2 * k + 1 < l.length) : oddByte (setWord l k w) = oddByte l := by
  induction k generalizing l with
  | zero =>
    match l, h with
    | a :: b :: l, _ => rfl
  | succ k ih =>
    match l, h with
    | a :: b :: l, h =>
      have hset : setWord (a :: b :: l) (k + 1) w = a :: b :: setWord l k w := rfl
      rw [hset, oddByte, oddByte, ih]
      rw [length_cons, length_cons] at h
      omega

theorem sum_set {l : List Nat} {k : Nat} (h : k < l.length) (v : Nat) :
    (l.set k v).sum + l.getD k 0 = l.sum + v := by
  induction l generalizing k with
  | nil => cases h
  | cons a l ih =>
    cases k with
    | zero =>
      rw [set_cons_zero, sum_cons, sum_cons, getD_cons_zero]
      omega
    | succ k =>
      have hl := ih (Nat.lt_of_succ_lt_succ h)
      rw [set_cons_succ, sum_cons, sum_cons, getD_cons_succ]
      omega

/-- **The sum changes with the word.** -/
theorem sum_words_setWord (h : 2 * k + 1 < l.length) :
    (words (setWord l k w)).sum + wordAt l k = (words l).sum + w.toNat := by
  rw [words_setWord h]
  refine sum_set ?_ _
  rw [length_words]
  omega

theorem wordAt_setWord (h : 2 * k + 1 < l.length) (j : Nat) :
    wordAt (setWord l k w) j = if j = k then w.toNat else wordAt l j := by
  have hk : k < (words l).length := by
    rw [length_words]
    omega
  unfold wordAt
  rw [words_setWord h, getD_eq_getElem?_getD, getElem?_set, getD_eq_getElem?_getD]
  split_ifs with h1 h2 h2
  · rfl
  · exact absurd h1.symm h2
  · exact absurd h2.symm h1
  · rfl

theorem mem_words_lt (l : List UInt8) : ∀ v ∈ words l, v ≤ 0xFFFF := by
  fun_induction words with
  | case1 a b l ih =>
    refine forall_mem_cons.2 ⟨?_, ih⟩
    have ha := a.toNat_lt
    have hb := b.toNat_lt
    rw [word_eq]
    omega
  | case2 => exact fun v hv => absurd hv not_mem_nil

theorem wordAt_le (l : List UInt8) (k : Nat) : wordAt l k ≤ 0xFFFF := by
  unfold wordAt
  rw [getD_eq_getElem?_getD]
  cases h : (words l)[k]? with
  | none => exact Nat.zero_le _
  | some v => exact mem_words_lt l v (mem_of_getElem? h)

theorem sum_words_le (l : List UInt8) : (words l).sum ≤ 0xFFFF * (l.length / 2) := by
  rw [← length_words]
  have hle := mem_words_lt l
  generalize words l = ws at hle
  induction ws with
  | nil => exact Nat.le_refl _
  | cons w ws ih =>
    have hw := hle w (mem_cons_self ..)
    have hws := ih fun v hv => hle v (mem_cons_of_mem w hv)
    rw [sum_cons, length_cons]
    omega

theorem sum_oddByte_le (l : List UInt8) : (oddByte l).sum ≤ 0xFF00 := by
  fun_induction oddByte with
  | case1 a b l ih => exact ih
  | case2 a =>
    have ha := a.toNat_lt
    rw [sum_singleton, Nat.shiftLeft_eq]
    omega
  | case3 => exact Nat.zero_le _

/-- An even number of bytes leaves no byte behind. -/
theorem oddByte_even (h : l.length % 2 = 0) : oddByte l = [] := by
  fun_induction oddByte with
  | case1 a b l ih =>
    refine ih ?_
    rw [length_cons, length_cons] at h
    omega
  | case2 a => cases h
  | case3 => rfl

end OnesComplement
