/-
  Subject:   BIG-ENDIAN WORDS in byte lists: writing, reading, and that reading undoes writing.

  A read past the end of the list yields zero bytes, so a reader is a total function; a caller
  that checks lengths first never sees them.
-/
import Mathlib.Data.BitVec

namespace Bytes

open List

/-- The byte at place `i`, as a number. -/
def byteAt (l : List UInt8) (i : Nat) : Nat := (l.getD i 0).toNat

def be16 (l : List UInt8) (i : Nat) : Nat := byteAt l i * 256 + byteAt l (i + 1)

def be32 (l : List UInt8) (i : Nat) : BitVec 32 :=
  BitVec.ofNat 32 (((byteAt l i * 256 + byteAt l (i + 1)) * 256 + byteAt l (i + 2)) * 256 +
    byteAt l (i + 3))

/-- The four bytes of a word, most significant first. -/
def putBe32 (v : BitVec 32) : List UInt8 :=
  [.ofNat (v.toNat / 16777216), .ofNat (v.toNat / 65536), .ofNat (v.toNat / 256), .ofNat v.toNat]

@[simp] theorem length_putBe32 (v : BitVec 32) : (putBe32 v).length = 4 := rfl

theorem byteAt_append_right (l l' : List UInt8) (i : Nat) :
    byteAt (l ++ l') (l.length + i) = byteAt l' i := by
  simp [byteAt, getElem?_append_right]

theorem be32_append_right (l l' : List UInt8) (i : Nat) :
    be32 (l ++ l') (l.length + i) = be32 l' i := by
  simp only [be32, Nat.add_assoc, byteAt_append_right]

/-- **Reading undoes writing.** -/
@[simp] theorem be32_putBe32 (v : BitVec 32) (l : List UInt8) : be32 (putBe32 v ++ l) 0 = v := by
  have hv := v.isLt
  apply BitVec.eq_of_toNat_eq
  simp only [be32, byteAt, putBe32, cons_append, nil_append, getD_cons_zero,
    getD_cons_succ, UInt8.toNat_ofNat', BitVec.toNat_ofNat]
  omega

end Bytes
