/-
  Subject:   A MEMORY OF BYTES, some of which cannot be accessed, and words in it.

  * `read`, `write`, `covers` -- ranges of bytes; `read_write`;
  * `Same` -- two memories agree on a range, the frame condition of whoever writes elsewhere;
  * `ofWords`, `toWords` -- words as bytes, low byte first; **`toWords_ofWords`**.
-/
import Mathlib.Data.BitVec

structure ByteMemory where
  byte : Nat → BitVec 8
  accessible : Nat → Bool

namespace ByteMemory

open List

variable {m m' m'' : ByteMemory} {a b n : Nat} {l : List (BitVec 8)}

/-- Every byte of the range can be accessed. -/
def covers (m : ByteMemory) (a n : Nat) : Bool := (List.range n).all fun i => m.accessible (a + i)

def read (m : ByteMemory) (a n : Nat) : List (BitVec 8) := (List.range n).map fun i => m.byte (a + i)

def write (m : ByteMemory) (a : Nat) (l : List (BitVec 8)) : ByteMemory :=
  { m with byte := fun x => if a ≤ x ∧ x < a + l.length then l.getD (x - a) 0 else m.byte x }

@[simp] theorem length_read (m : ByteMemory) (a n : Nat) : (m.read a n).length = n := by simp [read]

/-- What was written is read. -/
theorem read_write (m : ByteMemory) (a : Nat) (l : List (BitVec 8)) :
    (m.write a l).read a l.length = l := by
  refine ext_getElem (by simp) fun i h _ => ?_
  rw [length_read] at h
  simp [read, write, h]

/-- The two memories have the same bytes in a range, and the same ones can be accessed. -/
structure Same (m m' : ByteMemory) (a n : Nat) : Prop where
  byte : ∀ x, a ≤ x → x < a + n → m'.byte x = m.byte x
  accessible : ∀ x, a ≤ x → x < a + n → m'.accessible x = m.accessible x

theorem Same.refl (m : ByteMemory) (a n : Nat) : Same m m a n :=
  ⟨fun _ _ _ => rfl, fun _ _ _ => rfl⟩

theorem Same.trans (h : Same m m' a n) (h' : Same m' m'' a n) : Same m m'' a n :=
  ⟨fun x h1 h2 => (h'.byte x h1 h2).trans (h.byte x h1 h2),
    fun x h1 h2 => (h'.accessible x h1 h2).trans (h.accessible x h1 h2)⟩

theorem Same.read (h : Same m m' a n) : m'.read a n = m.read a n := by
  refine map_congr_left fun i hi => ?_
  exact h.byte _ (by omega) (by have := mem_range.mp hi; omega)

theorem Same.covers (h : Same m m' a n) : m'.covers a n = m.covers a n := by
  rw [Bool.eq_iff_iff]
  simp only [ByteMemory.covers, all_eq_true, mem_range]
  constructor <;> intro hc i hi
  · rw [← h.accessible _ (by omega) (by omega)]
    exact hc i hi
  · rw [h.accessible _ (by omega) (by omega)]
    exact hc i hi

/-- Writing elsewhere. -/
theorem Same.write (h : b + l.length ≤ a ∨ a + n ≤ b) : Same m (m.write b l) a n := by
  refine ⟨fun x h1 h2 => ?_, fun _ _ _ => rfl⟩
  have hx : ¬ (b ≤ x ∧ x < b + l.length) := by omega
  exact if_neg hx

/-! ## Words -/

/-- The bytes of a word, low byte first. -/
def wordBytes (w : BitVec 64) : List (BitVec 8) :=
  (List.range 8).map fun i => (w >>> (8 * i)).setWidth 8

def bytesWord (l : List (BitVec 8)) : BitVec 64 :=
  l.foldr (fun b w => w <<< 8 ||| b.setWidth 64) 0

def ofWords (l : List (BitVec 64)) : List (BitVec 8) := l.flatMap wordBytes

/-- The words of a list of bytes. -/
def toWords (l : List (BitVec 8)) (n : Nat) : List (BitVec 64) :=
  (List.range n).map fun i => bytesWord ((l.drop (8 * i)).take 8)

@[simp] theorem length_wordBytes (w : BitVec 64) : (wordBytes w).length = 8 := by simp [wordBytes]

@[simp] theorem length_ofWords (l : List (BitVec 64)) : (ofWords l).length = 8 * l.length := by
  induction l with
  | nil => rfl
  | cons w l ih => simp only [ofWords, flatMap_cons, length_append, length_wordBytes,
      length_cons] at ih ⊢; omega

theorem bytesWord_wordBytes (w : BitVec 64) : bytesWord (wordBytes w) = w := by
  refine BitVec.eq_of_getLsbD_eq fun i hi => ?_
  simp [bytesWord, wordBytes, range_succ]
  grind

theorem toWords_ofWords (l : List (BitVec 64)) : toWords (ofWords l) l.length = l := by
  induction l with
  | nil => rfl
  | cons w l ih =>
    have h0 : ((ofWords (w :: l)).drop (8 * 0)).take 8 = wordBytes w := by
      have e : ofWords (w :: l) = wordBytes w ++ ofWords l := rfl
      rw [e, Nat.mul_zero, drop_zero, take_append_of_le_length (by simp),
        take_of_length_le (by simp)]
    unfold toWords at ih ⊢
    rw [length_cons, range_succ_eq_map, map_cons, map_map, h0, bytesWord_wordBytes]
    -- the words after the first are those of the bytes after the first eight
    exact congrArg (w :: ·) ih

end ByteMemory
