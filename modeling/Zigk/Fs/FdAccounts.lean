/-
  Subject:   THE BOOKS OF THE FD TABLES.

  * `FdAccounting` -- the counts are those of the slots, and a descriptor lives as long as somebody
    refers to it; `slots`, `hands`, `dying` -- who does, and who is about to close it;
  * `Entry`, `Books` -- the same as equations, one for each descriptor and table;
  * `Books.place`, `share`, `take`, `unref`, `destroy`, ... -- one lemma for each thing that a call
    does;
  * **`fdAccounting`** -- in every run of calm steps; `fdAccounting_refuted` -- a descriptor that
    came into the slot while `dup2` had given the lock back.
-/
import Zigk.Fs.FdTable
import Mathlib.Data.Fintype.Prod

namespace Zigk.Fd

open Function List Option Bool FdTables FdCall

variable {T B D : Type}

/-! ## 1. What the books say -/

/-- The reference in the hand of a call, and the descriptor that a call is about to close. -/
def FdCall.hand : FdCall B D → Option D
  | .made fd => some fd
  | .unref fd _ => some fd
  | _ => none

def FdCall.doomed : FdCall B D → Option D
  | .destroy fd _ => some fd
  | _ => none

namespace FdTables

variable (s : FdTables T B D)

def inHand (t : T) : Option D := (s.calls t).bind hand

def inClose (t : T) : Option D := (s.calls t).bind doomed

/-- The (table, slot) pairs that refer to a descriptor, the calls that do, and those that are about
    to close it. -/
def slots [Fintype B] [DecidableEq D] (fd : D) : Nat := holders s.fds fd

def hands [Fintype T] [DecidableEq D] (fd : D) : Nat := holders s.inHand fd

def dying [Fintype T] [DecidableEq D] (fd : D) : Nat := holders s.inClose fd

def isOccupied (b : B) (i : FdSlot) : Bool := (s.fds (b, i)).isSome

def occupied (b : B) : Nat := marked Finset.univ (s.isOccupied b)

end FdTables

/-- What the tables satisfy. A call has the reference in its hand of a descriptor that it has not
    installed yet, or has just taken out of its slot. -/
structure FdAccounting [Fintype T] [Fintype B] [DecidableEq D] (s : FdTables T B D) : Prop where
  count : ∀ b, s.count b = s.occupied b
  refcount : ∀ fd, s.live fd = true → s.refcount fd = s.slots fd + s.hands fd
  /-- Nothing freed is referred to. -/
  live : ∀ fd, 0 < s.slots fd + s.hands fd → s.live fd = true
  /-- With the last reference one call is about to close the descriptor, and none before. -/
  last : ∀ fd, s.live fd = true → s.slots fd + s.hands fd = 0 → s.dying fd = 1
  early : ∀ fd, 0 < s.dying fd → s.live fd = true ∧ s.slots fd + s.hands fd = 0
  /-- What was made is closed once, or was freed uninstalled, or lives. -/
  once : ∀ fd, s.created fd = s.closed fd + s.abandoned fd + (s.live fd).toNat
  overwritten : s.overwritten = []

/-! ## 2. The equations -/

/-- The entry of one descriptor. -/
structure Entry (slots hands dying refcount created closed abandoned : Nat) (live : Bool) :
    Prop where
  refs : refcount = slots + hands
  alive : live.toNat = min refcount 1 + dying
  once : created = closed + abandoned + live.toNat

structure Books [Fintype T] [Fintype B] [DecidableEq D] (s : FdTables T B D) : Prop where
  count : ∀ b, s.count b = s.occupied b
  entry : ∀ fd, Entry (s.slots fd) (s.hands fd) (s.dying fd) (s.refcount fd) (s.created fd)
    (s.closed fd) (s.abandoned fd) (s.live fd)
  unused : ∀ b i, s.used b = false → s.fds (b, i) = none
  /-- Nobody else knows a descriptor that is not installed yet. -/
  fresh : ∀ t fd, s.calls t = some (.made fd) → s.refcount fd = 1
  overwritten : s.overwritten = []

theorem Books.accounting [Fintype T] [Fintype B] [DecidableEq D] {s : FdTables T B D}
    (h : Books s) : FdAccounting s where
  count := h.count
  refcount fd _ := (h.entry fd).refs
  live fd hp := by
    obtain ⟨hr, ha, -⟩ := h.entry fd
    cases hl : s.live fd with
    | true => rfl
    | false =>
      rw [hl, toNat_false] at ha
      omega
  last fd hl hz := by
    obtain ⟨hr, ha, -⟩ := h.entry fd
    rw [hl, toNat_true] at ha
    omega
  early fd hd := by
    obtain ⟨hr, ha, -⟩ := h.entry fd
    cases hl : s.live fd with
    | true =>
      rw [hl, toNat_true] at ha
      exact ⟨rfl, by omega⟩
    | false =>
      rw [hl, toNat_false] at ha
      omega
  once fd := (h.entry fd).once
  overwritten := h.overwritten

/-! ## 3. What the writes do to the numbers -/

section Writes

variable (s : FdTables T B D) (b : B) (i : FdSlot) (t : T) (x : D)

theorem inHand_update [DecidableEq T] (c : Option (FdCall B D)) :
    (s.setCall t c).inHand = update s.inHand t (c.bind hand) := by
  funext u
  change (update s.calls t c u).bind _ =
    update (fun v => (s.calls v).bind _) t _ u
  by_cases e : u = t
  · rw [e, update_self, update_self]
  · rw [update_of_ne e, update_of_ne e]

theorem inClose_update [DecidableEq T] (c : Option (FdCall B D)) :
    (s.setCall t c).inClose = update s.inClose t (c.bind doomed) := by
  funext u
  change (update s.calls t c u).bind _ =
    update (fun v => (s.calls v).bind _) t _ u
  by_cases e : u = t
  · rw [e, update_self, update_self]
  · rw [update_of_ne e, update_of_ne e]

theorem hands_setCall [Fintype T] [DecidableEq T] [DecidableEq D] (c : Option (FdCall B D)) :
    (s.setCall t c).hands x + (if s.inHand t = some x then 1 else 0) =
      s.hands x + if c.bind hand = some x then 1 else 0 := by
  unfold hands
  rw [inHand_update]
  exact holders_update ..

theorem dying_setCall [Fintype T] [DecidableEq T] [DecidableEq D] (c : Option (FdCall B D)) :
    (s.setCall t c).dying x + (if s.inClose t = some x then 1 else 0) =
      s.dying x + if c.bind doomed = some x then 1 else 0 := by
  unfold dying
  rw [inClose_update]
  exact holders_update ..

variable [DecidableEq B]

theorem slots_put [Fintype B] [DecidableEq D] (fd : D) (hfree : s.fds (b, i) = none) :
    (s.put b i fd).slots x = s.slots x + if fd = x then 1 else 0 :=
  holders_update_some hfree

theorem slots_clear [Fintype B] [DecidableEq D] {fd : D} (hfd : s.fds (b, i) = some fd) :
    s.slots x = (s.clear b i).slots x + if fd = x then 1 else 0 :=
  holders_update_none hfd

/-- The marks of a table after a write to one slot. -/
theorem isOccupied_update (y : Option D) (b' : B) :
    (fun j => (update s.fds (b, i) y (b', j)).isSome) =
      if b' = b then update (s.isOccupied b') i y.isSome else s.isOccupied b' := by
  funext j
  split_ifs with hb
  · subst hb
    by_cases hj : j = i
    · rw [hj, update_self, update_self]
    · have hne : (b', j) ≠ (b', i) := fun e => hj (congrArg Prod.snd e)
      rw [update_of_ne hj, update_of_ne hne]
      rfl
  · have hne : (b', j) ≠ (b, i) := fun e => hb (congrArg Prod.fst e)
    rw [update_of_ne hne]
    rfl

theorem count_put {fd : D} (h : ∀ b, s.count b = s.occupied b) (hfree : s.fds (b, i) = none)
    (b' : B) : (s.put b i fd).count b' = (s.put b i fd).occupied b' := by
  have hocc := isOccupied_update s b i (some fd) b'
  change update s.count b _ b' = marked Finset.univ
    fun j => (update s.fds (b, i) (some fd) (b', j)).isSome
  rw [hocc]
  by_cases hb : b' = b
  · subst hb
    have hclear : s.isOccupied b' i = false := by
      unfold isOccupied
      rw [hfree]
      rfl
    rw [if_pos rfl, update_self, h]
    exact (marked_set (Finset.mem_univ i) hclear).symm
  · rw [if_neg hb, update_of_ne hb, h]
    rfl

theorem count_clear {fd : D} (h : ∀ b, s.count b = s.occupied b) (hfd : s.fds (b, i) = some fd)
    (b' : B) : (s.clear b i).count b' = (s.clear b i).occupied b' := by
  have hocc := isOccupied_update s b i none b'
  change update s.count b _ b' = marked Finset.univ
    fun j => (update s.fds (b, i) none (b', j)).isSome
  rw [hocc]
  by_cases hb : b' = b
  · subst hb
    have hset : s.isOccupied b' i = true := by
      unfold isOccupied
      rw [hfd]
      rfl
    rw [if_pos rfl, update_self, h]
    have hm := marked_clear (Finset.mem_univ i) hset
    unfold occupied
    rw [hm]
    rfl
  · rw [if_neg hb, update_of_ne hb, h]
    rfl

end Writes

/-! ## 4. What a call does to the slots -/

theorem FdRest.call_quiet (rest : FdRest B D) :
    rest.call.bind hand = none ∧ rest.call.bind doomed = none := by
  cases rest with
  | done => exact ⟨rfl, rfl⟩
  | dup2 b old_fd new_fd fd => exact ⟨rfl, rfl⟩
  | closeAll b i => exact ⟨rfl, rfl⟩

variable {c : Option (FdCall B D)} {n : Nat}

theorem ne_made_of_quiet (hc : c.bind hand = none) (fd : D) :
    c ≠ some (.made fd) := by
  intro e
  rw [e] at hc
  cases hc

namespace Books

variable [Fintype T] [Fintype B] [DecidableEq D] {s : FdTables T B D} {b : B} {i : FdSlot} {t : T}
  {fd : D} {rest : FdRest B D}

/-- A descriptor that is not installed yet is in no slot, and in one hand. -/
theorem alone (h : Books s) {u : T} (hu : s.calls u = some (.made fd)) :
    s.slots fd = 0 ∧ ∀ t, s.inHand t = some fd → t = u := by
  have hr := (h.entry fd).refs
  rw [h.fresh u fd hu] at hr
  have hhand : s.inHand u = some fd := by
    unfold inHand
    rw [hu]
    rfl
  have hpos : 0 < s.hands fd := holders_pos hhand
  have hone : s.hands fd = 1 := by omega
  refine ⟨by omega, fun t ht => ?_⟩
  exact eq_of_holders_one hone hhand ht

end Books

section Look

variable {s : FdTables T B D} {b : B} {i : FdSlot} {t : T} {fd : D}

theorem slots_pos [Fintype B] [DecidableEq D] (s : FdTables T B D)
    (h : s.getLocked b n = some fd) : 0 < s.slots fd := by
  unfold getLocked at h
  split_ifs at h
  exact holders_pos h

theorem free_of_alloc (h : s.allocFdNumLocked b = some i) : s.fds (b, i) = none := by
  have hnone : (s.fds (b, i)).isNone = true :=
    find?_some (p := fun i => (s.fds (b, i)).isNone) h
  exact isNone_iff_eq_none.1 hnone

theorem quiet_of_idle (h : s.calls t = none) : s.inHand t = none ∧ s.inClose t = none := by
  unfold inHand inClose
  rw [h]
  exact ⟨rfl, rfl⟩

/-- Where a slot refers to something, there is a table. -/
theorem Books.used_of_getLocked [Fintype T] [Fintype B] [DecidableEq D] (h : Books s)
    (hfd : s.getLocked b n = some fd) : s.used b = true := by
  unfold getLocked at hfd
  split_ifs at hfd with hn
  cases hb : s.used b with
  | true => rfl
  | false =>
    rw [h.unused b _ hb] at hfd
    cases hfd

end Look

namespace Books

variable [Fintype T] [Fintype B] [DecidableEq D] {s : FdTables T B D} {b : B} {i : FdSlot} {t : T}
  {fd : D} {rest : FdRest B D}

section Slots

variable [DecidableEq B]

/-- A slot of a table that exists is written: the others are as they were. -/
theorem unused_put (h : Books s) (hb : s.used b = true) (y : Option D) (b' : B) (j : FdSlot)
    (hb' : s.used b' = false) : update s.fds (b, i) y (b', j) = none := by
  rw [update_of_ne]
  · exact h.unused b' j hb'
  intro e
  cases e
  rw [hb] at hb'
  cases hb'

/-- One slot more refers to a descriptor that a slot refers to. -/
theorem share (h : Books s) (hpos : 0 < s.slots fd) (hwrap : s.refcount fd + 1 < 2 ^ 32)
    (hb : s.used b = true) (hfree : s.fds (b, i) = none) : Books (s.share b i fd) where
  count := count_put s b i h.count hfree
  entry x := by
    have hslots := slots_put s b i x fd hfree
    obtain ⟨hr, ha, ho⟩ := h.entry x
    change Entry ((s.put b i fd).slots x) (s.hands x) (s.dying x)
      (update s.refcount fd ((s.refcount fd + 1) % 2 ^ 32) x) (s.created x) (s.closed x)
      (s.abandoned x) (s.live x)
    rw [hslots, Nat.mod_eq_of_lt hwrap]
    by_cases e : fd = x
    · subst e
      rw [update_self, if_pos rfl]
      constructor <;> omega
    · rw [update_of_ne (Ne.symm e), if_neg e]
      constructor <;> omega
  unused := h.unused_put hb _
  fresh u x hu := by
    change update s.refcount fd _ x = 1
    rw [update_of_ne]
    · exact h.fresh u x hu
    · intro e
      subst e
      exact absurd (h.alone hu).1 (Nat.ne_of_gt hpos)
  overwritten := by
    change (s.fds (b, i)).toList ++ s.overwritten = []
    rw [hfree, h.overwritten]
    rfl

theorem dup (h : Books s) (hb : s.used b = true)
    (hc : ∀ fd i, s.getLocked b n = some fd → s.allocFdNumLocked b = some i →
      s.refcount fd + 1 < 2 ^ 32) : Books (s.dup b n) := by
  unfold FdTables.dup
  cases hfd : s.getLocked b n with
  | none => exact h
  | some fd =>
    cases hi : s.allocFdNumLocked b with
    | none => exact h
    | some i => exact h.share (slots_pos s hfd) (hc fd i hfd hi) hb (free_of_alloc hi)

theorem initTable (h : Books s) (hb : s.used b = false) : Books (s.initTable b) := by
  have hfds : (s.initTable b).fds = s.fds := by
    funext p
    change (if p.1 = b then none else s.fds p) = s.fds p
    split_ifs with hp
    · exact (h.unused p.1 p.2 (hp ▸ hb)).symm
    · rfl
  have hfree : ∀ j, s.fds (b, j) = none := fun j => h.unused b j hb
  exact {
    count := fun b' => by
      have hocc : (s.initTable b).isOccupied b' = s.isOccupied b' := by
        unfold isOccupied
        rw [hfds]
      unfold occupied
      rw [hocc]
      change update s.count b 0 b' = s.occupied b'
      by_cases e : b' = b
      · subst e
        rw [update_self]
        have hclear : ∀ j, s.isOccupied b' j = false := by
          intro j
          unfold isOccupied
          rw [hfree]
          rfl
        unfold occupied marked
        simp only [hclear, false_eq_true, Finset.filter_false, Finset.card_empty]
      · rw [update_of_ne e]
        exact h.count b'
    entry := fun x => by
      have he := h.entry x
      unfold slots at he ⊢
      rw [hfds]
      exact he
    unused := fun b' j hb' => by
      rw [hfds]
      refine h.unused b' j ?_
      change update s.used b true b' = false at hb'
      by_cases e : b' = b
      · rw [e, update_self] at hb'
        cases hb'
      · rwa [update_of_ne e] at hb'
    fresh := h.fresh
    overwritten := h.overwritten }

/-- The slots of `clone`, one after the other: `l` are those that are still to come. -/
theorem cloneLoop {b' : B} (hne : b ≠ b') (l : List FdSlot) (hl : l.Nodup) (h : Books s)
    (hb : s.used b' = true) (hfree : ∀ j ∈ l, s.fds (b', j) = none)
    (hwrap : ∀ x, s.refcount x + l.countP (fun j => s.fds (b, j) = some x) < 2 ^ 32) :
    Books (l.foldl (fun s j => s.cloneSlot b b' j) s) := by
  induction l generalizing s with
  | nil => exact h
  | cons i l ih =>
    obtain ⟨hi, hl⟩ := nodup_cons.1 hl
    cases hfd : s.fds (b, i) with
    | none =>
      have hsame : s.cloneSlot b b' i = s := by
        unfold cloneSlot
        rw [hfd]
      change Books (l.foldl _ (s.cloneSlot b b' i))
      rw [hsame]
      refine ih hl h hb (fun j hj => hfree j (mem_cons_of_mem _ hj)) fun x => ?_
      refine Nat.lt_of_le_of_lt (Nat.add_le_add_left ?_ _) (hwrap x)
      rw [countP_cons]
      exact Nat.le_add_right _ _
    | some fd =>
      have hstep : s.cloneSlot b b' i = s.share b' i fd := by
        unfold cloneSlot
        rw [hfd]
      have hcount : ∀ x, (i :: l).countP (fun j => s.fds (b, j) = some x) =
          l.countP (fun j => s.fds (b, j) = some x) + if fd = x then 1 else 0 := by
        intro x
        rw [countP_cons, hfd]
        simp only [Option.some.injEq, decide_eq_true_eq]
      change Books (l.foldl _ (s.cloneSlot b b' i))
      rw [hstep]
      have hfdwrap := hwrap fd
      rw [hcount, if_pos rfl] at hfdwrap
      have hshare := h.share (holders_pos hfd) (by omega) hb (hfree i (mem_cons_self ..))
      refine ih hl hshare hb ?_ ?_
      · intro j hj
        change update s.fds (b', i) (some fd) (b', j) = none
        have hji : (b', j) ≠ (b', i) := fun e => hi ((Prod.mk.inj e).2 ▸ hj)
        rw [update_of_ne hji]
        exact hfree j (mem_cons_of_mem _ hj)
      intro x
      have hrow : ∀ j, (s.share b' i fd).fds (b, j) = s.fds (b, j) := fun j =>
        update_of_ne (fun e => hne (Prod.mk.inj e).1) ..
      have hx := hwrap x
      rw [hcount] at hx
      simp only [hrow]
      change update s.refcount fd _ x + _ < _
      by_cases e : fd = x
      · subst e
        rw [if_pos rfl] at hx
        rw [update_self, Nat.mod_eq_of_lt (by omega)]
        omega
      · rw [update_of_ne (Ne.symm e)]
        omega

theorem clone (h : Books s) {b' : B} (hb : s.used b = true) (hb' : s.used b' = false)
    (hwrap : ∀ x, s.refcount x + (List.finRange MAX_FDS).countP (fun j => s.fds (b, j) = some x) <
      2 ^ 32) : Books (s.clone b b') := by
  have hne : b ≠ b' := by
    intro e
    rw [e, hb'] at hb
    cases hb
  have hrow : ∀ j, (s.initTable b').fds (b, j) = s.fds (b, j) := fun j => if_neg hne
  refine cloneLoop hne _ (nodup_finRange _) (h.initTable hb') (update_self ..) ?_ ?_
  · exact fun j _ => if_pos rfl
  · simp only [hrow]
    exact hwrap

end Slots

/-! ## 5. What a call does with its reference -/

variable [DecidableEq T]

section

variable (h : Books s)
include h

/-- A call goes on; its count may change for a descriptor that somebody knew before. -/
theorem fresh_setCall (hc : ∀ fd, c ≠ some (.made fd))
    (hknown : s.inHand t = some fd ∨ 0 < s.slots fd) (n : Nat) (u : T) (x : D)
    (hu : update s.calls t c u = some (.made x)) :
    update s.refcount fd n x = 1 := by
  have hne : u ≠ t := by
    intro e
    rw [e, update_self] at hu
    exact hc x hu
  rw [update_of_ne hne] at hu
  rw [update_of_ne]
  · exact h.fresh u x hu
  intro e
  subst e
  obtain ⟨hnone, hhand⟩ := h.alone hu
  obtain ht | hpos := hknown
  · exact hne (hhand t ht).symm
  · exact absurd hnone (Nat.ne_of_gt hpos)

/-- A call goes on with nothing that is not installed. -/
theorem fresh_quiet (hc : ∀ fd, c ≠ some (.made fd)) (u : T) (x : D)
    (hu : update s.calls t c u = some (.made x)) : s.refcount x = 1 := by
  by_cases e : u = t
  · rw [e, update_self] at hu
    exact absurd hu (hc x)
  · rw [update_of_ne e] at hu
    exact h.fresh u x hu

/-- A call goes to a place where it has no reference. -/
theorem setCall (hh : s.inHand t = none)
    (hd : s.inClose t = none) (hc : c.bind hand = none) (hx : c.bind doomed = none) :
    Books (s.setCall t c) where
  count := h.count
  entry x := by
    have hhands := hands_setCall s t x c
    have hdying := dying_setCall s t x c
    rw [hh, hc] at hhands
    rw [hd, hx] at hdying
    have he := h.entry x
    rw [← Nat.add_right_cancel hhands, ← Nat.add_right_cancel hdying] at he
    exact he
  unused := h.unused
  fresh := h.fresh_quiet (ne_made_of_quiet hc)
  overwritten := h.overwritten

/-- A new descriptor is in the hand of the call that made it. -/
theorem create (ht : s.calls t = none) (hfd : s.live fd = false) :
    Books (s.create t fd) where
  count := h.count
  entry x := by
    have hhands := hands_setCall s t x (some (.made fd))
    have hdying := dying_setCall s t x (some (.made fd))
    simp only [inHand, inClose, ht, bind_none, bind_some,
      hand, doomed, reduceCtorEq, if_false, Option.some.injEq] at hhands hdying
    obtain ⟨hr, ha, ho⟩ := h.entry x
    change Entry (s.slots x) ((s.setCall t (some (.made fd))).hands x)
      ((s.setCall t (some (.made fd))).dying x) (update s.refcount fd 1 x)
      (update s.created fd (s.created fd + 1) x) (s.closed x) (s.abandoned x)
      (update s.live fd true x)
    by_cases e : fd = x
    · subst e
      rw [hfd, toNat_false] at ha ho
      simp only [update_self, if_true] at hhands ⊢
      constructor
      · omega
      · rw [toNat_true]
        omega
      · rw [toNat_true]
        omega
    · rw [if_neg e] at hhands
      simp only [update_of_ne (Ne.symm e)]
      constructor <;> omega
  unused := h.unused
  fresh u x hu := by
    change update s.calls t (some (.made fd)) u = _ at hu
    change update s.refcount fd 1 x = 1
    by_cases e : x = fd
    · rw [e, update_self]
    rw [update_of_ne e]
    by_cases eu : u = t
    · rw [eu, update_self] at hu
      cases hu
      exact absurd rfl e
    · rw [update_of_ne eu] at hu
      exact h.fresh u x hu
  overwritten := h.overwritten

/-- The call that made a descriptor frees it. -/
theorem abandon (ht : s.calls t = some (.made fd)) : Books (s.abandon t fd) where
  count := h.count
  entry x := by
    have hhands := hands_setCall s t x none
    have hdying := dying_setCall s t x none
    simp only [inHand, inClose, ht, bind_none, bind_some,
      hand, doomed, reduceCtorEq, if_false, Option.some.injEq] at hhands hdying
    have hfresh := h.fresh t fd ht
    obtain ⟨hr, ha, ho⟩ := h.entry x
    change Entry (s.slots x) ((s.setCall t none).hands x) ((s.setCall t none).dying x)
      (update s.refcount fd 0 x) (s.created x) (s.closed x)
      (update s.abandoned fd (s.abandoned fd + 1) x) (update s.live fd false x)
    by_cases e : fd = x
    · subst e
      have hle := toNat_le (s.live fd)
      simp only [update_self, if_true] at hhands ⊢
      constructor
      · omega
      · rw [toNat_false]
        omega
      · rw [toNat_false]
        omega
    · rw [if_neg e] at hhands
      simp only [update_of_ne (Ne.symm e)]
      constructor <;> omega
  unused := h.unused
  fresh := by
    refine h.fresh_setCall (c := none) nofun (.inl ?_) 0
    unfold inHand
    rw [ht]
    rfl
  overwritten := h.overwritten

/-- A reference out of a slot is given back; with the last one the call goes to close. -/
theorem unref (ht : s.calls t = some (.unref fd rest)) :
    Books (s.unref t fd rest) := by
  have hhand : s.inHand t = some fd := by
    unfold FdTables.inHand
    rw [ht]
    rfl
  have hclose : s.inClose t = none := by
    unfold FdTables.inClose
    rw [ht]
    rfl
  have hpos : 0 < s.hands fd := holders_pos hhand
  unfold FdTables.unref
  split_ifs with hlast
  · exact {
      count := h.count
      entry := fun x => by
        have hhands := hands_setCall s t x (some (.destroy fd rest))
        have hdying := dying_setCall s t x (some (.destroy fd rest))
        simp only [hhand, hclose, bind_some, hand, doomed, reduceCtorEq,
          if_false, Option.some.injEq] at hhands hdying
        obtain ⟨hr, ha, ho⟩ := h.entry x
        change Entry (s.slots x) ((s.setCall t (some (.destroy fd rest))).hands x)
          ((s.setCall t (some (.destroy fd rest))).dying x) (update s.refcount fd 0 x)
          (s.created x) (s.closed x) (s.abandoned x) (s.live x)
        by_cases e : fd = x
        · subst e
          simp only [update_self, if_true] at hhands hdying ⊢
          constructor <;> omega
        · rw [if_neg e] at hhands hdying
          rw [update_of_ne (Ne.symm e)]
          constructor <;> omega
      unused := h.unused
      fresh := h.fresh_setCall (c := some (.destroy fd rest)) (fun _ e => nomatch e) (.inl hhand) 0
      overwritten := h.overwritten }
  exact {
    count := h.count
    entry := fun x => by
      have hhands := hands_setCall s t x rest.call
      have hdying := dying_setCall s t x rest.call
      rw [hhand, rest.call_quiet.1] at hhands
      rw [hclose, rest.call_quiet.2] at hdying
      simp only [reduceCtorEq, if_false, Option.some.injEq] at hhands hdying
      obtain ⟨hr, ha, ho⟩ := h.entry x
      change Entry (s.slots x) ((s.setCall t rest.call).hands x) ((s.setCall t rest.call).dying x)
        (update s.refcount fd (s.refcount fd - 1) x) (s.created x) (s.closed x)
        (s.abandoned x) (s.live x)
      by_cases e : fd = x
      · subst e
        simp only [update_self, if_true] at hhands ⊢
        constructor <;> omega
      · rw [if_neg e] at hhands
        rw [update_of_ne (Ne.symm e)]
        constructor <;> omega
    unused := h.unused
    fresh := h.fresh_setCall (ne_made_of_quiet rest.call_quiet.1) (.inl hhand) _
    overwritten := h.overwritten }

/-- The call that was to close a descriptor does. -/
theorem destroy (ht : s.calls t = some (.destroy fd rest)) :
    Books (s.destroy t fd rest) where
  count := h.count
  entry x := by
    have hhands := hands_setCall s t x rest.call
    have hdying := dying_setCall s t x rest.call
    rw [rest.call_quiet.1] at hhands
    rw [rest.call_quiet.2] at hdying
    simp only [inHand, inClose, ht, bind_some, hand, doomed,
      reduceCtorEq, if_false, Option.some.injEq] at hhands hdying
    obtain ⟨hr, ha, ho⟩ := h.entry x
    change Entry (s.slots x) ((s.setCall t rest.call).hands x) ((s.setCall t rest.call).dying x)
      (s.refcount x) (s.created x) (update s.closed fd (s.closed fd + 1) x)
      (s.abandoned x) (update s.live fd false x)
    by_cases e : fd = x
    · subst e
      have hle := toNat_le (s.live fd)
      simp only [update_self, if_true] at hdying ⊢
      constructor
      · omega
      · rw [toNat_false]
        omega
      · rw [toNat_false]
        omega
    · rw [if_neg e] at hdying
      simp only [update_of_ne (Ne.symm e)]
      constructor <;> omega
  unused := h.unused
  fresh := h.fresh_quiet (ne_made_of_quiet rest.call_quiet.1)
  overwritten := h.overwritten

end

variable [DecidableEq B]

section

variable (h : Books s)
include h

/-- A new descriptor comes into its slot. -/
theorem place (ht : s.calls t = some (.made fd)) (hb : s.used b = true)
    (hfree : s.fds (b, i) = none) : Books ((s.put b i fd).setCall t none) where
  count := count_put s b i h.count hfree
  entry x := by
    have hslots := slots_put s b i x fd hfree
    have hhands := hands_setCall s t x none
    have hdying := dying_setCall s t x none
    simp only [inHand, inClose, ht, bind_none, bind_some,
      hand, doomed, reduceCtorEq, if_false, Option.some.injEq] at hhands hdying
    obtain ⟨hr, ha, ho⟩ := h.entry x
    change Entry ((s.put b i fd).slots x) ((s.setCall t none).hands x) ((s.setCall t none).dying x)
      (s.refcount x) (s.created x) (s.closed x) (s.abandoned x) (s.live x)
    rw [hslots]
    constructor <;> omega
  unused := h.unused_put hb _
  fresh := h.fresh_quiet nofun
  overwritten := by
    change (s.fds (b, i)).toList ++ s.overwritten = []
    rw [hfree, h.overwritten]
    rfl

/-- A slot is emptied, with its reference in the hand of the call. -/
theorem take (hh : s.inHand t = none) (hd : s.inClose t = none)
    (hfd : s.fds (b, i) = some fd) :
    Books ((s.clear b i).setCall t (some (.unref fd rest))) where
  count := count_clear s b i h.count hfd
  entry x := by
    have hslots := slots_clear s b i x hfd
    have hhands := hands_setCall s t x (some (.unref fd rest))
    have hdying := dying_setCall s t x (some (.unref fd rest))
    simp only [hh, hd, bind_some, hand, doomed, reduceCtorEq, if_false,
      Option.some.injEq] at hhands hdying
    obtain ⟨hr, ha, ho⟩ := h.entry x
    change Entry ((s.clear b i).slots x) ((s.setCall t (some (.unref fd rest))).hands x)
      ((s.setCall t (some (.unref fd rest))).dying x) (s.refcount x) (s.created x) (s.closed x)
      (s.abandoned x) (s.live x)
    constructor <;> omega
  unused b' j hb' := by
    change update s.fds (b, i) none (b', j) = none
    by_cases e : (b', j) = (b, i)
    · rw [e, update_self]
    · rw [update_of_ne e]
      exact h.unused b' j hb'
  fresh := h.fresh_quiet (fun _ e => nomatch e)
  overwritten := h.overwritten

/-! ## 6. The calls -/

theorem remove (hh : s.inHand t = none) (hd : s.inClose t = none) (n : Nat) :
    Books (s.remove b t n rest) := by
  unfold FdTables.remove
  split_ifs with hn
  · cases hfd : s.fds (b, ⟨n, hn⟩) with
    | none => exact h.setCall hh hd rest.call_quiet.1 rest.call_quiet.2
    | some fd => exact h.take hh hd hfd
  · exact h.setCall hh hd rest.call_quiet.1 rest.call_quiet.2

theorem allocAndInstall (ht : s.calls t = some (.made fd)) (hb : s.used b = true) :
    Books (s.allocAndInstall b t fd) := by
  unfold FdTables.allocAndInstall
  cases hi : s.allocFdNumLocked b with
  | none => exact h
  | some i => exact h.place ht hb (free_of_alloc hi)

theorem install (ht : s.calls t = some (.made fd)) (hb : s.used b = true)
    (hn : n < MAX_FDS) (hfree : s.fds (b, ⟨n, hn⟩) = none) :
    Books ((s.installLocked b n fd).setCall t none) := by
  unfold installLocked
  rw [dif_pos hn]
  exact h.place ht hb hfree

theorem dup2 (hb : s.used b = true) (ht : s.calls t = none) {old_fd new_fd : Nat}
    (hc : ∀ fd, s.getLocked b old_fd = some fd → s.getLocked b new_fd = none →
      s.refcount fd + 1 < 2 ^ 32) : Books (s.dup2 b t old_fd new_fd) := by
  unfold FdTables.dup2
  split_ifs with hn hsame
  · exact h
  · cases hfd : s.getLocked b old_fd with
    | none => exact h
    | some fd =>
      dsimp only
      cases hnew : s.fds (b, ⟨new_fd, hn⟩) with
      | none =>
        refine h.share (slots_pos s hfd) (hc fd hfd ?_) hb hnew
        unfold FdTables.getLocked
        rw [dif_pos hn]
        exact hnew
      | some existing => exact h.take (quiet_of_idle ht).1 (quiet_of_idle ht).2 hnew
  · exact h

theorem dup2Again {old_fd : Nat}
    (ht : s.calls t = some (.dup2 b old_fd i fd))
    (hc : s.getLocked b old_fd = some fd → s.fds (b, i) = none ∧ s.refcount fd + 1 < 2 ^ 32) :
    Books (s.dup2Again b t old_fd i fd) := by
  have hquiet : s.inHand t = none ∧ s.inClose t = none := by
    unfold FdTables.inHand FdTables.inClose
    rw [ht]
    exact ⟨rfl, rfl⟩
  unfold FdTables.dup2Again
  split_ifs with hsame
  · obtain ⟨hfree, hwrap⟩ := hc hsame
    have hshare := h.share (slots_pos s hsame) hwrap (h.used_of_getLocked hsame) hfree
    exact hshare.setCall hquiet.1 hquiet.2 rfl rfl
  · exact h.setCall hquiet.1 hquiet.2 rfl rfl

end

end Books

/-! ## 7. Runs -/

/-- How often a table refers to a descriptor. -/
def FdTables.inTable [DecidableEq D] (s : FdTables T B D) (b : B) (fd : D) : Nat :=
  (List.finRange MAX_FDS).countP fun i => s.fds (b, i) = some fd

/-- What is written is a free slot of the table, and no reference count wraps. -/
def FdCalm [DecidableEq D] (s : FdTables T B D) : FdInput T B D → Prop
  | .install t b fd_num => s.used b = true → (∃ fd, s.calls t = some (.made fd)) →
      ∃ h : fd_num < MAX_FDS, s.fds (b, ⟨fd_num, h⟩) = none
  | .dup b old_fd => ∀ fd i, s.getLocked b old_fd = some fd → s.allocFdNumLocked b = some i →
      s.refcount fd + 1 < 2 ^ 32
  | .dup2 _ b old_fd new_fd => ∀ fd, s.getLocked b old_fd = some fd →
      s.getLocked b new_fd = none → s.refcount fd + 1 < 2 ^ 32
  | .clone b _ => ∀ fd, s.refcount fd + s.inTable b fd < 2 ^ 32
  | .next t => ∀ b old_fd new_fd fd, s.calls t = some (.dup2 b old_fd new_fd fd) →
      s.getLocked b old_fd = some fd → s.fds (b, new_fd) = none ∧ s.refcount fd + 1 < 2 ^ 32
  | _ => True

namespace Books

variable [Fintype T] [Fintype B] [DecidableEq D] {s : FdTables T B D}

theorem withMade (h : Books s) {t : T} {f : D → FdTables T B D}
    (hf : ∀ fd, s.calls t = some (.made fd) → Books (f fd)) : Books (s.withMade t f) := by
  unfold FdTables.withMade
  split
  · next fd ht => exact hf fd ht
  · exact h

variable [DecidableEq T] [DecidableEq B]

theorem next (h : Books s) {t : T} {c : FdCall B D} (ht : s.calls t = some c)
    (hc : FdCalm s (.next t)) : Books (s.next t c) := by
  have hquiet : c.hand = none → c.doomed = none → s.inHand t = none ∧ s.inClose t = none := by
    intro hh hd
    unfold FdTables.inHand FdTables.inClose
    rw [ht]
    exact ⟨hh, hd⟩
  cases c with
  | made fd => exact h
  | unref fd rest => exact h.unref ht
  | destroy fd rest => exact h.destroy ht
  | dup2 b old_fd new_fd fd => exact h.dup2Again ht (hc b old_fd new_fd fd ht)
  | closeAll b i =>
    obtain ⟨hh, hd⟩ := hquiet rfl rfl
    unfold FdTables.next
    dsimp only
    split_ifs
    · exact h.setCall hh hd rfl rfl
    · exact h.setCall hh hd rfl rfl
    · exact h.setCall hh hd rfl rfl
  | closeSeen b i =>
    obtain ⟨hh, hd⟩ := hquiet rfl rfl
    exact h.remove hh hd i

/-- **Every calm step keeps the books.** -/
theorem step (h : Books s) {i : FdInput T B D} (hc : FdCalm s i) : Books (fdStep s i) := by
  have hidle : ∀ t, s.idle t = true → s.calls t = none := fun t =>
    isNone_iff_eq_none.1
  cases i with
  | create t fd =>
    unfold fdStep
    dsimp only
    split_ifs with hcan
    · exact h.create (hidle t hcan.1) hcan.2
    · exact h
  | abandon t => exact h.withMade fun fd ht => h.abandon ht
  | install t b fd_num =>
    unfold fdStep
    dsimp only
    split_ifs with hb
    · refine h.withMade fun fd ht => ?_
      obtain ⟨hn, hfree⟩ := hc hb ⟨fd, ht⟩
      exact h.install ht hb hn hfree
    · exact h
  | allocAndInstall t b =>
    unfold fdStep
    dsimp only
    split_ifs with hb
    · exact h.withMade fun fd ht => h.allocAndInstall ht hb
    · exact h
  | dup b old_fd =>
    unfold fdStep
    dsimp only
    split_ifs with hb
    · exact h.dup hb hc
    · exact h
  | dup2 t b old_fd new_fd =>
    unfold fdStep
    dsimp only
    split_ifs with hcan
    · exact h.dup2 hcan.1 (hidle t hcan.2) hc
    · exact h
  | close t b fd_num =>
    unfold fdStep
    dsimp only
    split_ifs with hcan
    · obtain ⟨hh, hd⟩ := quiet_of_idle (hidle t hcan.2)
      exact h.remove hh hd fd_num
    · exact h
  | clone b b' =>
    unfold fdStep
    dsimp only
    split_ifs with hcan
    · exact h.clone hcan.1 hcan.2 hc
    · exact h
  | closeAll t b =>
    unfold fdStep
    dsimp only
    split_ifs with hcan
    · obtain ⟨hh, hd⟩ := quiet_of_idle (hidle t hcan.2)
      exact h.setCall hh hd rfl rfl
    · exact h
  | next t =>
    unfold fdStep
    dsimp only
    cases ht : s.calls t with
    | none => exact h
    | some c => exact h.next ht hc

theorem start (h : (fdMachine T B D).start s) : Books s := by
  obtain ⟨used, rfl⟩ := h
  refine ⟨fun b => ?_, fun fd => ?_, fun _ _ _ => rfl, nofun, rfl⟩
  · unfold occupied marked isOccupied
    simp
  have hslots : ({ used := used } : FdTables T B D).slots fd = 0 := holders_none nofun
  have hhands : ({ used := used } : FdTables T B D).hands fd = 0 := holders_none nofun
  have hdying : ({ used := used } : FdTables T B D).dying fd = 0 := holders_none nofun
  rw [hslots, hhands, hdying]
  exact ⟨rfl, rfl, rfl⟩

end Books

variable [Fintype T] [Fintype B] [DecidableEq T] [DecidableEq B] [DecidableEq D]

/-- **The counts of the tables and of the descriptors are right**, in every run of calm steps: a
    descriptor is closed once, by the call that gives the last reference back. -/
theorem fdAccounting (s : FdTables T B D) (hs : (fdMachine T B D).Reach FdCalm s) :
    FdAccounting s := by
  have hbooks : Books s := hs.invariant (fun _ => Books.start) fun _ _ _ h hc => h.step hc
  exact hbooks.accounting

/-- One table and two threads; the first one makes two descriptors. -/
def oneTable : FdTables Bool Unit (Fin 3) := { used := fun _ => true }

theorem oneTable_start : (fdMachine Bool Unit (Fin 3)).start oneTable := ⟨fun _ => true, rfl⟩

def twoFiles : List (FdInput Bool Unit (Fin 3)) :=
  [.create true 0, .allocAndInstall true (), .create true 1, .allocAndInstall true ()]

/-- `dup2` over a descriptor, to its end. -/
theorem fdAccounting_dup2 : ∃ s : FdTables Bool Unit (Fin 3), FdAccounting s ∧ s.closed 1 = 1 ∧
    s.refcount 0 = 2 ∧ s.count () = 2 := by
  refine ⟨(fdMachine Bool Unit (Fin 3)).exec oneTable (twoFiles ++
    [.dup2 true () 0 1, .next true, .next true, .next true]), fdAccounting _ ?_, ?_⟩
  · refine (Machine.Reach.start oneTable_start).exec ?_
    refine ⟨trivial, trivial, trivial, trivial, ?_, ?_, ?_, ?_, trivial⟩
    · intro fd _ hfree
      exact absurd hfree (by decide +kernel)
    · intro b old_fd new_fd fd hcall
      cases hcall
    · intro b old_fd new_fd fd hcall
      cases hcall
    · intro b old_fd new_fd fd hcall _
      cases hcall
      decide +kernel
  · decide +kernel

/-- While `dup2` has given the lock back another thread installs a descriptor in the slot. -/
theorem fdAccounting_refuted : ¬∀ s : FdTables Bool Unit (Fin 3),
    (fdMachine Bool Unit (Fin 3)).Reachable s → (∀ t, s.calls t = none) → FdAccounting s := by
  intro h
  have hlaw := h _ (Machine.Reachable.exec (.start oneTable_start) (twoFiles ++
    [.create false 2, .dup2 true () 0 1, .allocAndInstall false (), .next true, .next true,
      .next true])) (by decide +kernel)
  have hcount := hlaw.count ()
  revert hcount
  decide +kernel

end Zigk.Fd
