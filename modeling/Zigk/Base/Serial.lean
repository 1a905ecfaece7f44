/-
  Subject:   SERIAL NUMBERS: places of an unbounded stream, numbered modulo `2 ^ w`.

  A protocol that numbers the places of a stream with `w`-bit words compares two numbers by the
  sign of their difference. This file says what that comparison means:

  * `place base n` -- the number of place `n` of a stream whose place `0` has the number `base`;
  * `dist a b` -- how far `b` lies ahead of `a`, as a natural number below `2 ^ w`;
  * `lt`, `le`, `gt`, `ge` -- comparison by sign, each with its reading as a bound on `dist`;
  * `place_inj_of_near` -- two places less than `2 ^ w` apart with one number are one place;
    `nearest` finds the place of a number that is nearest to a given one.

  Nothing here knows the protocol: `w` is arbitrary.
-/
import Mathlib.Data.BitVec
import Mathlib.Tactic.Linarith

namespace Serial

variable {w : Nat}

/-! ## 1. Places and distances -/

/-- The number of place `n` of the stream whose place `0` is numbered `base`. -/
def place (base : BitVec w) (n : Nat) : BitVec w := base + BitVec.ofNat w n

/-- How far `b` lies ahead of `a`. -/
def dist (a b : BitVec w) : Nat := (b - a).toNat

@[simp] theorem place_zero (base : BitVec w) : place base 0 = base := by
  simp [place]

theorem place_add (base : BitVec w) (m n : Nat) :
    place base (m + n) = place base m + BitVec.ofNat w n := by
  simp only [place, BitVec.ofNat_add, BitVec.add_assoc]

theorem place_place (base : BitVec w) (m n : Nat) :
    place (place base m) n = place base (m + n) := by
  rw [place_add]; rfl

theorem dist_lt (a b : BitVec w) : dist a b < 2 ^ w := (b - a).isLt

@[simp] theorem dist_self (a : BitVec w) : dist a a = 0 := by
  simp [dist]

theorem add_dist (a b : BitVec w) : a + BitVec.ofNat w (dist a b) = b := by
  rw [dist, BitVec.ofNat_toNat, BitVec.setWidth_eq, BitVec.add_comm, BitVec.sub_add_cancel]

theorem dist_eq_zero {a b : BitVec w} : dist a b = 0 ↔ a = b := by
  constructor
  · intro h
    have hab := add_dist a b
    rw [h] at hab
    simpa using hab
  · rintro rfl
    exact dist_self a

/-- The distance from a number to the one `n` places on is `n`, as long as `n` does not wrap. -/
theorem dist_add_ofNat (a : BitVec w) {n : Nat} (hn : n < 2 ^ w) :
    dist a (a + BitVec.ofNat w n) = n := by
  have e : a + BitVec.ofNat w n - a = BitVec.ofNat w n := by
    rw [BitVec.add_comm, BitVec.add_sub_cancel]
  rw [dist, e, BitVec.toNat_ofNat, Nat.mod_eq_of_lt hn]

/-- Two places of one stream, the later less than a full turn ahead. -/
theorem dist_place (base : BitVec w) {m n : Nat} (hmn : m ≤ n) (hn : n - m < 2 ^ w) :
    dist (place base m) (place base n) = n - m := by
  have e : place base n = place base m + BitVec.ofNat w (n - m) := by
    rw [← place_add, Nat.add_sub_cancel' hmn]
  rw [e, dist_add_ofNat _ hn]

/-- Two places less than a full turn apart with one number are one place. -/
theorem place_inj_of_near {base : BitVec w} {m n : Nat} (h : place base m = place base n)
    (h1 : m < n + 2 ^ w) (h2 : n < m + 2 ^ w) : m = n := by
  rcases Nat.le_total m n with hmn | hmn
  · have hd := dist_place base hmn (by omega)
    rw [h, dist_self] at hd
    omega
  · have hd := dist_place base hmn (by omega)
    rw [h, dist_self] at hd
    omega

/-- The way from a number to a farther one, after a nearer one. -/
theorem dist_sub {a b c : BitVec w} (h : dist a b ≤ dist a c) : dist b c = dist a c - dist a b := by
  have hb : b = place a (dist a b) := (add_dist a b).symm
  have hc : c = place a (dist a c) := (add_dist a c).symm
  have hlt := dist_lt a c
  have hd := dist_place a h (by omega)
  rwa [← hb, ← hc] at hd

/-- The way to a place `n` beyond another number, as long as it does not wrap. -/
theorem dist_place_add {a b : BitVec w} {n : Nat} (h : dist a b + n < 2 ^ w) :
    dist a (place b n) = dist a b + n := by
  have hb : place b n = place a (dist a b + n) := by
    rw [place_add, ← show b = place a (dist a b) from (add_dist a b).symm]
    rfl
  have hd := dist_place a (Nat.zero_le (dist a b + n)) (by omega)
  rwa [place_zero, ← hb] at hd

/-- There and back is a full turn. -/
theorem dist_swap {a b : BitVec w} (h : a ≠ b) : dist b a = 2 ^ w - dist a b := by
  have h0 : dist a b ≠ 0 := fun h0 => h (dist_eq_zero.mp h0)
  have hlt := dist_lt a b
  have hb : b = place a (dist a b) := (add_dist a b).symm
  have ha : b + BitVec.ofNat w (2 ^ w - dist a b) = a :=
    calc b + BitVec.ofNat w (2 ^ w - dist a b)
        = place (place a (dist a b)) (2 ^ w - dist a b) := by rw [← hb]; rfl
      _ = place a (2 ^ w) := by rw [place_place, Nat.add_sub_cancel' hlt.le]
      _ = a := by
        have h2 : BitVec.ofNat w (2 ^ w) = 0#w := by
          apply BitVec.eq_of_toNat_eq
          rw [BitVec.toNat_ofNat, BitVec.toNat_ofNat, Nat.mod_self, Nat.zero_mod]
        rw [place, h2, BitVec.add_zero]
  have hd := dist_add_ofNat b (n := 2 ^ w - dist a b) (by omega)
  rwa [ha] at hd

/-- The place of the number `s` that is nearest to place `r`, which has the number `n`. -/
def nearest (r : Nat) (n s : BitVec w) : Nat :=
  if 2 * dist n s < 2 ^ w then r + dist n s else r - dist s n

/-- A place less than half a turn away is the nearest one of its number. -/
theorem nearest_place {base : BitVec w} {r o : Nat} (h1 : 2 * r < 2 * o + 2 ^ w)
    (h2 : 2 * o < 2 * r + 2 ^ w) : nearest r (place base r) (place base o) = o := by
  unfold nearest
  rcases Nat.lt_or_ge o r with hlt | hge
  · have hd := dist_place base hlt.le (by omega)
    have hne : place base o ≠ place base r := fun e => by
      rw [e, dist_self] at hd
      omega
    have hs := dist_swap hne
    rw [if_neg (by omega)]
    omega
  · have hd := dist_place base hge (by omega)
    rw [if_pos (by omega)]
    omega

/-- A number less than half a turn ahead is the number of a place that much further on. -/
theorem nearest_ahead (r : Nat) (n : BitVec w) {m : Nat} (h : 2 * m < 2 ^ w) :
    nearest r n (place n m) = r + m := by
  have hd : dist n (place n m) = m := dist_add_ofNat n (by omega)
  rw [nearest, hd, if_pos h]

theorem nearest_self (r : Nat) (n : BitVec w) : nearest r n n = r := by
  have h := nearest_ahead r n (m := 0) (by have := Nat.two_pow_pos w; omega)
  rwa [place_zero] at h

/-! ## 2. Comparison by sign -/

/-- `a` before `b`: the signed difference is negative. -/
def lt (a b : BitVec w) : Bool := decide ((a - b).toInt < 0)

def le (a b : BitVec w) : Bool := decide ((a - b).toInt ≤ 0)

def gt (a b : BitVec w) : Bool := decide ((a - b).toInt > 0)

def ge (a b : BitVec w) : Bool := decide ((a - b).toInt ≥ 0)

/-- Not before: within half a turn ahead. -/
theorem ge_iff {a b : BitVec w} : ge a b = true ↔ 2 * dist b a < 2 ^ w := by
  simp only [ge, dist, decide_eq_true_eq]
  exact BitVec.toInt_pos_iff

theorem gt_iff {a b : BitVec w} : gt a b = true ↔ 0 < dist b a ∧ 2 * dist b a < 2 ^ w := by
  have hlt := (a - b).isLt
  simp only [gt, dist, decide_eq_true_eq, BitVec.toInt_eq_toNat_cond]
  split <;> omega

theorem le_iff {a b : BitVec w} : le a b = true ↔ dist b a = 0 ∨ 2 ^ w ≤ 2 * dist b a := by
  have h := gt_iff (a := a) (b := b)
  simp only [le, gt, decide_eq_true_eq] at h ⊢
  omega

end Serial
