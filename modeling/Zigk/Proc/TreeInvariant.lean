/-
  Subject:   THE PROCESS TREE IS A TREE, over every run of creations, forks, exits and waits.

  * `kin` -- the three pointers of all structs, as a forest of `Base/Siblings`;
  * `Relinked` -- two tables that differ in these pointers only; `addChildLocked_ok`,
    `removeChildLocked_ok`, `reparentFrom_ok` -- what the list operations do to the forest;
  * `findFrom_ok`, `findFrom_none` -- **the search for a PID ends, and misses no process**;
  * `TreeInv` -- the pointers spell one tree below init, PIDs differ, every process holds one
    reference; `Op.run_inv` -- the operations keep it and stop only where the source panics;
  * **`processTree`** -- in every run, child lists and parent pointers agree, nobody is above
    himself, everybody is below init, and PIDs are distinct.
-/
import Mathlib.Data.List.Perm.Subperm
import Zigk.Base.Machine
import Zigk.Base.Siblings
import Zigk.Proc.Tree

namespace Zigk.Proc.Tree

open Function List Except Option Bool

namespace ProcTable

/-! ## 1. Tables as forests -/

def kin (s : ProcTable) : Kin Nat where
  parent a := (s.procs a).bind Process.parent
  first a := (s.procs a).bind Process.firstChild
  next a := (s.procs a).bind Process.nextSibling

def Registered (s : ProcTable) (a : Nat) : Prop := (s.procs a).isSome

/-- A process without its place in the tree. -/
def data (x : Process) : Process := { x with parent := none, firstChild := none, nextSibling := none }

/-- Only the three pointers differ. -/
structure Relinked (s s' : ProcTable) : Prop where
  data (a : Nat) : (s'.procs a).map data = (s.procs a).map data
  allocated : s'.allocated = s.allocated
  initProcess : s'.initProcess = s.initProcess
  processCount : s'.processCount = s.processCount
  nextPid : s'.nextPid = s.nextPid

variable {s s' s'' : ProcTable} {a b c p q i : Nat} {x y : Process}

theorem registered_iff : s.Registered a ↔ ∃ x, s.procs a = some x := isSome_iff_exists

theorem Relinked.refl (s : ProcTable) : Relinked s s := ⟨fun _ => rfl, rfl, rfl, rfl, rfl⟩

theorem Relinked.trans (h : Relinked s s') (h' : Relinked s' s'') : Relinked s s'' :=
  ⟨fun a => (h'.data a).trans (h.data a), h'.allocated.trans h.allocated,
    h'.initProcess.trans h.initProcess, h'.processCount.trans h.processCount,
    h'.nextPid.trans h.nextPid⟩

theorem Relinked.registered (h : Relinked s s') : s'.Registered a ↔ s.Registered a := by
  have := congrArg Option.isSome (h.data a)
  rw [isSome_map, isSome_map] at this
  rw [Registered, Registered, this]

theorem Relinked.exists (h : Relinked s s') (hx : s'.procs a = some x) :
    ∃ y, s.procs a = some y ∧ ProcTable.data x = ProcTable.data y := by
  have := h.data a
  rw [hx] at this
  obtain ⟨y, hy, e⟩ := map_eq_some_iff.mp this.symm
  exact ⟨y, hy, e.symm⟩

@[simp] theorem get_of (h : s.procs a = some x) : s.get a = .ok x := by rw [get, h]

theorem modify_of (h : s.procs a = some x) (f : Process → Process) :
    s.modify a f = .ok (s.set a (f x)) := by
  rw [modify, get_of h]
  rfl

theorem set_procs (a : Nat) : (s.set p x).procs a = if a = p then some x else s.procs a :=
  update_apply ..

@[simp] theorem set_self : (s.set p x).procs p = some x := update_self ..

theorem set_ne (h : a ≠ p) : (s.set p x).procs a = s.procs a := update_of_ne h ..

/-- Writing other pointers into a struct. -/
theorem Relinked.set (hx : s.procs p = some x) (h : ProcTable.data y = ProcTable.data x) :
    Relinked s (s.set p y) := by
  refine ⟨fun a => ?_, rfl, rfl, rfl, rfl⟩
  rw [set_procs]
  split
  · next e => rw [e, hx, map_some, map_some, h]
  · rfl

theorem kin_parent (h : s.procs a = some x) : s.kin.parent a = x.parent := by
  show (s.procs a).bind _ = _
  rw [h]
  rfl

theorem kin_first (h : s.procs a = some x) : s.kin.first a = x.firstChild := by
  show (s.procs a).bind _ = _
  rw [h]
  rfl

theorem kin_next (h : s.procs a = some x) : s.kin.next a = x.nextSibling := by
  show (s.procs a).bind _ = _
  rw [h]
  rfl

/-! ## 2. Writing one pointer -/

section Pointers

variable {f : Process → Process}

theorem kin_set (s : ProcTable) (p : Nat) (y : Process) :
    (s.set p y).kin = ⟨update s.kin.parent p y.parent,
      update s.kin.first p y.firstChild, update s.kin.next p y.nextSibling⟩ := by
  have hp : ∀ (g : Process → Option Nat) a, ((s.set p y).procs a).bind g =
      update (fun a => (s.procs a).bind g) p (g y) a := fun g a => by
    rw [set_procs, update_apply]
    split <;> rfl
  exact Kin.ext (funext (hp _)) (funext (hp _)) (funext (hp _))

theorem modify_ok (h : s.Registered p) (hf : ∀ x, ProcTable.data (f x) = ProcTable.data x) :
    ∃ x s', s.procs p = some x ∧ s.modify p f = .ok s' ∧ Relinked s s' ∧
      s'.kin = ⟨update s.kin.parent p (f x).parent, update s.kin.first p (f x).firstChild,
        update s.kin.next p (f x).nextSibling⟩ := by
  obtain ⟨x, hx⟩ := registered_iff.mp h
  exact ⟨x, _, hx, modify_of hx f, Relinked.set hx (hf x), kin_set s p (f x)⟩

theorem update_parent (h : s.procs p = some x) :
    update s.kin.parent p x.parent = s.kin.parent := by
  rw [← kin_parent h, update_eq_self]

theorem update_first (h : s.procs p = some x) :
    update s.kin.first p x.firstChild = s.kin.first := by
  rw [← kin_first h, update_eq_self]

theorem update_next (h : s.procs p = some x) :
    update s.kin.next p x.nextSibling = s.kin.next := by
  rw [← kin_next h, update_eq_self]

theorem modifyParent_ok (h : s.Registered p) (v : Option Nat) :
    ∃ s', s.modify p (fun x => { x with parent := v }) = .ok s' ∧ Relinked s s' ∧
      s'.kin = { s.kin with parent := update s.kin.parent p v } := by
  obtain ⟨x, s', hx, e, hr, hk⟩ := modify_ok h (f := fun x => { x with parent := v }) fun _ => rfl
  exact ⟨s', e, hr, by rw [hk, update_first hx, update_next hx]⟩

theorem modifyFirst_ok (h : s.Registered p) (v : Option Nat) :
    ∃ s', s.modify p (fun x => { x with firstChild := v }) = .ok s' ∧ Relinked s s' ∧
      s'.kin = { s.kin with first := update s.kin.first p v } := by
  obtain ⟨x, s', hx, e, hr, hk⟩ :=
    modify_ok h (f := fun x => { x with firstChild := v }) fun _ => rfl
  exact ⟨s', e, hr, by rw [hk, update_parent hx, update_next hx]⟩

theorem modifyNext_ok (h : s.Registered p) (v : Option Nat) :
    ∃ s', s.modify p (fun x => { x with nextSibling := v }) = .ok s' ∧ Relinked s s' ∧
      s'.kin = { s.kin with next := update s.kin.next p v } := by
  obtain ⟨x, s', hx, e, hr, hk⟩ :=
    modify_ok h (f := fun x => { x with nextSibling := v }) fun _ => rfl
  exact ⟨s', e, hr, by rw [hk, update_parent hx, update_first hx]⟩

end Pointers

/-! ## 3. The child list of a process -/

theorem addChildLocked_ok (hq : s.Registered q) (hc : s.Registered c) :
    ∃ s', s.addChildLocked q c = .ok s' ∧ Relinked s s' ∧ s'.kin = s.kin.push q c := by
  obtain ⟨s₁, e₁, h₁, k₁⟩ := modifyParent_ok hc (some q)
  obtain ⟨y, hy⟩ := registered_iff.mp (h₁.registered.mpr hq)
  obtain ⟨s₂, e₂, h₂, k₂⟩ := modifyNext_ok (h₁.registered.mpr hc) y.firstChild
  have h₁₂ := h₁.trans h₂
  obtain ⟨s₃, e₃, h₃, k₃⟩ := modifyFirst_ok (h₁₂.registered.mpr hq) (some c)
  refine ⟨s₃, ?_, h₁₂.trans h₃, ?_⟩
  · rw [addChildLocked, e₁, ok_bind, get_of hy, ok_bind, e₂, ok_bind, e₃]
  · rw [k₃, k₂, ← kin_first hy, k₁]
    rfl

section Chains

variable {l : List Nat} {curr : Option Nat} {n : Nat}

/-- The loop of `removeChildLocked` stops at the sibling before the child. -/
theorem unlinkAfter_ok (h : Chain s.kin.next curr l) (hl : ∀ a ∈ l, s.Registered a) (hc : c ∈ l)
    (hcurr : curr ≠ some c) (hn : l.length ≤ n) :
    ∃ b ∈ l, s.kin.next b = some c ∧ ∃ s', s.unlinkAfter c n curr = .ok s' ∧ Relinked s s' ∧
      s'.kin = { s.kin with next := update s.kin.next b (s.kin.next c) } := by
  induction l generalizing curr n with
  | nil => cases hc
  | cons a l ih =>
    obtain ⟨rfl, h⟩ := h
    obtain ⟨n, rfl⟩ := Nat.exists_eq_succ_of_ne_zero (n := n) (by simp at hn; omega)
    obtain ⟨x, hx⟩ := registered_iff.mp (hl a (.head l))
    by_cases hac : x.nextSibling = some c
    · obtain ⟨y, hy⟩ := registered_iff.mp (hl c hc)
      obtain ⟨s', e, hr, hk⟩ := modifyNext_ok (hl a (.head l)) y.nextSibling
      refine ⟨a, .head l, (kin_next hx).trans hac, s', ?_, hr, by rw [hk, kin_next hy]⟩
      rw [unlinkAfter, get_of hx, ok_bind, if_pos hac, get_of hy, ok_bind, e]
    rw [kin_next hx] at h
    have hcl : c ∈ l := (mem_cons.mp hc).resolve_left fun e => hcurr (by rw [e])
    obtain ⟨b, hb, hbc, s', e, hr⟩ := ih h (fun a ha => hl a (.tail _ ha)) hcl hac
      (by simpa using hn)
    refine ⟨b, .tail a hb, hbc, s', ?_, hr⟩
    rw [unlinkAfter, get_of hx, ok_bind, if_neg hac, e]

end Chains

/-- The list of the addresses is one. -/
structure Counted (s : ProcTable) : Prop where
  nodup : s.allocated.Nodup
  mem (a : Nat) : a ∈ s.allocated ↔ s.Registered a

theorem Counted.length_le (h : s.Counted) {l : List Nat} (hn : l.Nodup)
    (hl : ∀ a ∈ l, s.Registered a) : l.length ≤ s.rounds :=
  (subperm_of_subset hn fun a ha => (h.mem a).mpr (hl a ha)).length_le

theorem Counted.relinked (h : s.Counted) (hs : Relinked s s') : s'.Counted :=
  ⟨hs.allocated ▸ h.nodup, fun a => by rw [hs.allocated, hs.registered, h.mem]⟩

theorem Relinked.forest {root : Nat → Prop} {kids : Nat → List Nat} {K : Kin Nat}
    (h : Relinked s s') (F : Forest K s.Registered root kids) : Forest K s'.Registered root kids := by
  have : s'.Registered = s.Registered := funext fun a => propext h.registered
  rw [this]
  exact F

section Forests

variable {root : Nat → Prop} {kids : Nat → List Nat}

theorem kids_registered (F : Forest s.kin s.Registered root kids) : ∀ a ∈ kids q, s.Registered a :=
  fun a ha => F.live_child ((F.mem q a).mp ha)

/-- **Taking a child out of the list makes it the root of a tree of its own.** -/
theorem removeChildLocked_ok (F : Forest s.kin s.Registered root kids) (hs : s.Counted)
    (h : s.kin.parent c = some q) :
    ∃ s', s.removeChildLocked q c = .ok s' ∧ Relinked s s' ∧
      Forest s'.kin s'.Registered (fun r => root r ∨ r = c)
        (update kids q ((kids q).erase c)) := by
  have hc := F.live_child h
  have hq := F.live_parent h
  obtain ⟨s₁, e₁, h₁, k₁⟩ := modifyParent_ok hc none
  obtain ⟨y, hy⟩ := registered_iff.mp (h₁.registered.mpr hq)
  have hfirst : s.kin.first q = y.firstChild := by rw [← kin_first hy, k₁]
  rw [removeChildLocked, e₁, ok_bind, get_of hy, ok_bind]
  by_cases hyc : y.firstChild = some c
  · obtain ⟨x, hx⟩ := registered_iff.mp (h₁.registered.mpr hc)
    obtain ⟨s₂, e₂, h₂, k₂⟩ := modifyFirst_ok (h₁.registered.mpr hq) x.nextSibling
    have h₁₂ := h₁.trans h₂
    obtain ⟨s₃, e₃, h₃, k₃⟩ := modifyNext_ok (h₁₂.registered.mpr hc) none
    refine ⟨s₃, ?_, h₁₂.trans h₃, (h₁₂.trans h₃).forest ?_⟩
    · rw [if_pos hyc, get_of hx, ok_bind, e₂]
      exact e₃
    · rw [k₃, k₂, ← kin_next hx, k₁]
      exact F.cutFirst (hfirst.trans hyc)
  have hch : Chain s₁.kin.next y.firstChild (kids q) := by
    rw [k₁, ← hfirst]
    exact F.chain q
  have hl : ∀ a ∈ kids q, s₁.Registered a := fun a ha =>
    h₁.registered.mpr (kids_registered F a ha)
  have hlen : (kids q).length ≤ s₁.rounds := (hs.relinked h₁).length_le (F.nodup q) hl
  obtain ⟨b, hb, hbc, s₂, e₂, h₂, k₂⟩ := unlinkAfter_ok hch hl ((F.mem q c).mpr h) hyc hlen
  have h₁₂ := h₁.trans h₂
  obtain ⟨s₃, e₃, h₃, k₃⟩ := modifyNext_ok (h₁₂.registered.mpr hc) none
  refine ⟨s₃, ?_, h₁₂.trans h₃, (h₁₂.trans h₃).forest ?_⟩
  · rw [if_neg hyc, e₂]
    exact e₃
  · rw [k₃, k₂, k₁]
    rw [k₁] at hbc
    exact F.cutAfter hb hbc

end Forests

/-! ## 4. The end of a process -/

section Reparenting

variable {l : List Nat} {child : Option Nat} {n : Nat}

/-- The loop hands the children over in the order of the list. -/
theorem reparentFrom_ok (h : Chain s.kin.next child l) (hn : l.Nodup) (hl : ∀ a ∈ l, s.Registered a)
    (hi : s.Registered i) (hlen : l.length ≤ n) :
    ∃ s', s.reparentFrom i n child = .ok s' ∧ Relinked s s' ∧ s'.kin = s.kin.hand i l := by
  induction l generalizing child n s with
  | nil =>
    cases (show child = none from h)
    exact ⟨s, by rw [reparentFrom], Relinked.refl s, rfl⟩
  | cons a l ih =>
    obtain ⟨rfl, h⟩ := h
    obtain ⟨n, rfl⟩ := Nat.exists_eq_succ_of_ne_zero (n := n) (by simp at hlen; omega)
    obtain ⟨hal, hn⟩ := nodup_cons.mp hn
    obtain ⟨x, hx⟩ := registered_iff.mp (hl a (.head l))
    obtain ⟨s₁, e₁, h₁, k₁⟩ := modifyNext_ok (hl a (.head l)) none
    obtain ⟨s₂, e₂, h₂, k₂⟩ := addChildLocked_ok (h₁.registered.mpr hi)
      (h₁.registered.mpr (hl a (.head l)))
    have hk : s₂.kin = s.kin.push i a := by
      rw [k₂, k₁, Kin.push, Kin.push, update_idem]
    have h₁₂ := h₁.trans h₂
    have hch : Chain s₂.kin.next x.nextSibling l := by
      rw [← kin_next hx, hk]
      refine (Chain.congr fun b hb => ?_).mpr h
      rw [Kin.push_next, if_neg]
      rintro rfl
      exact hal hb
    obtain ⟨s₃, e₃, h₃, k₃⟩ := ih hch hn (fun b hb => h₁₂.registered.mpr (hl b (.tail a hb)))
      (h₁₂.registered.mpr hi) (by simpa using hlen)
    refine ⟨s₃, ?_, h₁₂.trans h₃, by rw [k₃, hk, Kin.hand_cons]⟩
    rw [reparentFrom, get_of hx, ok_bind, e₁, ok_bind, e₂, ok_bind, e₃]

end Reparenting

section Destroying

variable {kids : Nat → List Nat}

/-- The trees of init and of a process that was taken out. -/
abbrev Detached (s : ProcTable) (p : Nat) : Nat → Prop := fun r => s.initProcess = some r ∨ r = p

theorem detached_eq (h : s'.initProcess = s.initProcess) : s'.Detached p = s.Detached p := by
  funext r
  show (s'.initProcess = some r ∨ r = p) = _
  rw [h]

theorem reparentChildren_ok (F : Forest s.kin s.Registered (s.Detached p) kids) (hs : s.Counted)
    (hi : s.initProcess = some i) (hne : i ≠ p) :
    ∃ s' kids', s.reparentChildren p = .ok s' ∧ Relinked s s' ∧ kids' p = [] ∧
      Forest s'.kin s'.Registered (s'.Detached p) kids' := by
  have hp := F.root_live (.inr rfl)
  have hir := F.root_live (.inl hi)
  have hpi : ¬ s.kin.Rooted p i := fun h => by
    rcases Relation.ReflTransGen.cases_tail h with e | ⟨q, -, hq⟩
    · exact hne e
    · rw [Kin.Above, F.root_parent (.inl hi)] at hq
      cases hq
  have hF := F.adopt (.inr rfl) hir hpi
  obtain ⟨x, hx⟩ := registered_iff.mp hp
  rw [reparentChildren, get_of hx, ok_bind]
  by_cases hfirst : x.firstChild = none
  · have hk : kids p = [] := by
      have := F.chain p
      rw [kin_first hx, hfirst] at this
      exact Chain.none_iff.mp this
    exact ⟨s, kids, by rw [if_pos hfirst]; rfl, Relinked.refl s, hk, F⟩
  have hch : Chain s.kin.next x.firstChild (kids p) := by
    rw [← kin_first hx]
    exact F.chain p
  obtain ⟨s₁, e₁, h₁, k₁⟩ := reparentFrom_ok hch (F.nodup p) (kids_registered F) hir
    (hs.length_le (F.nodup p) (kids_registered F))
  obtain ⟨s₂, e₂, h₂, k₂⟩ := modifyFirst_ok (h₁.registered.mpr hp) none
  have h₁₂ := h₁.trans h₂
  have hd : s₂.Detached p = s.Detached p := detached_eq h₁₂.initProcess
  have hk : s₂.kin = (s.kin.hand i (kids p)).clearFirst p := by
    rw [k₂, k₁]
    rfl
  refine ⟨s₂, _, ?_, h₁₂, ?_, hd ▸ hk ▸ h₁₂.forest hF⟩
  · rw [if_neg hfirst]
    simp only [hi]
    rw [if_pos hne, e₁, ok_bind, clearFirstChild, e₂]
  · exact update_self ..

theorem free_kin (s : ProcTable) (p : Nat) : (s.free p).kin = s.kin.forget p := by
  have hp : ∀ (g : Process → Option Nat) a, ((s.free p).procs a).bind g =
      update (fun a => (s.procs a).bind g) p none a := fun g a => by
    show (update s.procs p none a).bind g = _
    rw [update_apply, update_apply]
    split <;> rfl
  exact Kin.ext (funext (hp _)) (funext (hp _)) (funext (hp _))

theorem free_registered (s : ProcTable) (p : Nat) :
    (s.free p).Registered = fun a => s.Registered a ∧ a ≠ p := by
  funext a
  refine propext ?_
  show (update s.procs p none a).isSome ↔ _
  by_cases h : a = p
  · simp [h]
  · simp [h, Registered]

/-- What is left when `p` is destroyed. -/
structure Destroyed (s : ProcTable) (p : Nat) (s' : ProcTable) : Prop where
  gone : s'.procs p = none
  data (a : Nat) (h : a ≠ p) : (s'.procs a).map data = (s.procs a).map data
  allocated : s'.allocated = s.allocated.erase p
  initProcess : s'.initProcess = s.initProcess
  processCount : s'.processCount = if s.processCount = 0 then 0 else s.processCount - 1
  nextPid : s'.nextPid = s.nextPid

theorem Destroyed.registered (h : Destroyed s p s') : s'.Registered a ↔ s.Registered a ∧ a ≠ p := by
  by_cases ha : a = p
  · subst ha
    simp [Registered, h.gone]
  have := congrArg Option.isSome (h.data a ha)
  rw [isSome_map, isSome_map] at this
  rw [Registered, this]
  simp [Registered, ha]

theorem Destroyed.counted (h : Destroyed s p s') (hs : s.Counted) : s'.Counted := by
  refine ⟨h.allocated ▸ hs.nodup.erase p, fun a => ?_⟩
  rw [h.allocated, hs.nodup.mem_erase_iff, hs.mem, h.registered]
  exact and_comm

theorem leaveParent_ok (hs : s.Counted) (hi : s.initProcess = some i) (hne : i ≠ p)
    (hp : s.Registered p)
    (hF : (∃ kids, Forest s.kin s.Registered (s.Detached p) kids) ∨
      ∃ kids, Forest s.kin s.Registered (fun r => s.initProcess = some r) kids) :
    ∃ s' kids, s.leaveParent p = .ok s' ∧ Relinked s s' ∧
      Forest s'.kin s'.Registered (s'.Detached p) kids := by
  obtain ⟨x, hx⟩ := registered_iff.mp hp
  rw [leaveParent, get_of hx, ok_bind, ← kin_parent hx]
  rcases hF with ⟨kids, F⟩ | ⟨kids, F⟩
  · rw [F.root_parent (.inr rfl)]
    exact ⟨s, kids, rfl, Relinked.refl s, F⟩
  rcases F.root_or_child hp with h | ⟨q, hq⟩
  · exact absurd (Option.some.inj (hi.symm.trans h)) hne
  rw [hq]
  obtain ⟨s', e, h, F'⟩ := removeChildLocked_ok F hs hq
  refine ⟨s', update kids q ((kids q).erase p), e, h, ?_⟩
  rw [detached_eq h.initProcess]
  exact F'

/-- **A process is destroyed: its children go to init, wherever it stood in the tree.** -/
theorem destroyProcess_ok (hs : s.Counted) (hi : s.initProcess = some i) (hne : i ≠ p)
    (hp : s.Registered p)
    (hF : (∃ kids, Forest s.kin s.Registered (s.Detached p) kids) ∨
      ∃ kids, Forest s.kin s.Registered (fun r => s.initProcess = some r) kids) :
    ∃ s', s.destroyProcess p = .ok s' ∧ Destroyed s p s' ∧
      ∃ kids, Forest s'.kin s'.Registered (fun r => s'.initProcess = some r) kids := by
  obtain ⟨x, hx⟩ := registered_iff.mp hp
  generalize hs₁ : s.set p { x with state := .Dead } = s₁
  have e₁ : s.modify p (fun x => { x with state := .Dead }) = .ok s₁ := by rw [modify_of hx, hs₁]
  have hk₁ : s₁.kin = s.kin := by
    rw [← hs₁, kin_set, update_parent hx, update_first hx, update_next hx]
  have hr₁ : s₁.Registered = s.Registered := by
    funext a
    rw [← hs₁, Registered, set_procs, Registered]
    split
    · next e => simp [e, hx]
    · rfl
  have hd₁ : ∀ a, a ≠ p → s₁.procs a = s.procs a := fun a ha => by rw [← hs₁, set_ne ha]
  have hc₁ : s₁.Counted := by
    refine ⟨hs₁ ▸ hs.nodup, fun a => ?_⟩
    rw [hr₁, ← hs.mem, ← hs₁]
    rfl
  have hi₁ : s₁.initProcess = s.initProcess := by rw [← hs₁]; rfl
  obtain ⟨s₂, kids, e₂, h₂, F₂⟩ := leaveParent_ok hc₁ (hi₁.trans hi) hne (hr₁ ▸ hp)
    (by rw [hk₁, hr₁, detached_eq hi₁, hi₁]; exact hF)
  obtain ⟨s₃, kids', e₃, h₃, hk, F₃⟩ := reparentChildren_ok F₂ (hc₁.relinked h₂)
    (h₂.initProcess.trans (hi₁.trans hi)) hne
  have h₂₃ := h₂.trans h₃
  have F₄ := F₃.drop (.inr rfl) hk
  rw [← free_kin, ← free_registered] at F₄
  have hrun : s.destroyProcess p = .ok { s₃.free p with
      processCount := if s₃.processCount = 0 then 0 else s₃.processCount - 1 } := by
    rw [destroyProcess, e₁, ok_bind, e₂, ok_bind, e₃]
    rfl
  refine ⟨_, hrun, ⟨update_self .., fun a ha => ?_, ?_, ?_, ?_, ?_⟩, kids', ?_⟩
  · show (update s₃.procs p none a).map _ = _
    rw [update_of_ne ha, h₂₃.data, hd₁ a ha]
  · show s₃.allocated.erase p = _
    rw [h₂₃.allocated, ← hs₁]
    rfl
  · exact h₂₃.initProcess.trans hi₁
  · show (if s₃.processCount = 0 then (0 : BitVec 32) else s₃.processCount - 1) = _
    rw [h₂₃.processCount, ← hs₁]
    rfl
  · exact h₂₃.nextPid.trans (by rw [← hs₁]; rfl)
  · refine Eq.mp (congrArg (fun r => Forest _ _ r _) ?_) F₄
    funext r
    refine propext ⟨fun h => h.1.resolve_right h.2, fun h => ⟨.inl h, ?_⟩⟩
    rintro rfl
    exact hne (Option.some.inj ((h₂₃.initProcess.trans (hi₁.trans hi)).symm.trans h))

end Destroying

/-! ## 5. The search for a PID -/

section Searching

variable {kids : Nat → List Nat} {t : BitVec 32} {n : Nat} {child : Option Nat}

/-- **The search ends.** What it has passed on the way to `child` are different structs, each of a
    smaller rank than the next, so that the rounds suffice. -/
theorem findFrom_ok (hs : s.Counted) {rank : Nat → ℕ ×ₗ ℕ} (hrank : ∀ a b, s.Registered a →
      (s.kin.first a = some b ∨ s.kin.next a = some b) → rank a < rank b)
    (hlive : ∀ a b, s.Registered a → (s.kin.first a = some b ∨ s.kin.next a = some b) →
      s.Registered b)
    {passed : List Nat} (hn : passed.Nodup) (hp : ∀ a ∈ passed, s.Registered a)
    (hc : ∀ c, child = some c → s.Registered c ∧ ∀ a ∈ passed, rank a < rank c)
    (hlen : s.rounds ≤ passed.length + n) : ∃ r, s.findFrom t n child = .ok r := by
  induction n generalizing child passed with
  | zero =>
    cases child with
    | none => exact ⟨none, by rw [findFrom]⟩
    | some c =>
      obtain ⟨hreg, hlt⟩ := hc c rfl
      have := hs.length_le (l := c :: passed)
        (nodup_cons.mpr ⟨fun h => lt_irrefl _ (hlt c h), hn⟩)
        (forall_mem_cons.mpr ⟨hreg, hp⟩)
      simp only [length_cons] at this
      omega
  | succ n ih =>
    cases child with
    | none => exact ⟨none, by rw [findFrom]⟩
    | some c =>
      obtain ⟨hreg, hlt⟩ := hc c rfl
      obtain ⟨x, hx⟩ := registered_iff.mp hreg
      have hn' : (c :: passed).Nodup :=
        nodup_cons.mpr ⟨fun h => lt_irrefl _ (hlt c h), hn⟩
      have hp' := forall_mem_cons.mpr ⟨hreg, hp⟩
      have hon : ∀ v, (s.kin.first c = v ∨ s.kin.next c = v) → ∀ d, v = some d →
          s.Registered d ∧ ∀ a ∈ c :: passed, rank a < rank d := by
        rintro v hv d rfl
        refine ⟨hlive c d hreg hv, forall_mem_cons.mpr ⟨hrank c d hreg hv, fun a ha => ?_⟩⟩
        exact (hlt a ha).trans (hrank c d hreg hv)
      have hlen' : s.rounds ≤ (c :: passed).length + n := by
        simp only [length_cons]
        omega
      obtain ⟨r₁, e₁⟩ := ih hn' hp' (hon _ (.inl (kin_first hx))) hlen'
      obtain ⟨r₂, e₂⟩ := ih hn' hp' (hon _ (.inr (kin_next hx))) hlen'
      rw [findFrom, get_of hx, ok_bind]
      split
      · exact ⟨some c, rfl⟩
      rw [e₁, ok_bind]
      cases r₁ with
      | some a => exact ⟨some a, rfl⟩
      | none => exact ⟨r₂, e₂⟩

/-- **A search that finds nothing has met no process with the PID.** -/
theorem findFrom_none (h : s.findFrom t n child = .ok none) (ha : s.kin.Meets child a)
    (hx : s.procs a = some x) : x.pid ≠ t := by
  induction n generalizing child with
  | zero =>
    cases child with
    | none => cases ha
    | some c => cases h
  | succ n ih =>
    cases child with
    | none => cases ha
    | some c =>
      rw [findFrom] at h
      obtain ⟨y, hy, h⟩ := (bind_ok_iff _ _).mp h
      split at h
      · cases h
      next hne =>
        obtain ⟨r₁, e₁, h⟩ := (bind_ok_iff _ _).mp h
        cases r₁ with
        | some b => cases h
        | none =>
          have hyc : s.procs c = some y := by
            rw [get] at hy
            split at hy
            · next hz => rw [hz, Except.ok.inj hy]
            · cases hy
          cases ha with
          | here =>
            cases hx.symm.trans hyc
            exact hne
          | child ha =>
            rw [kin_first hyc] at ha
            exact ih e₁ ha
          | sibling ha =>
            rw [kin_next hyc] at ha
            exact ih h ha

/-- Everything is in the tree of init. -/
abbrev Whole (s : ProcTable) (kids : Nat → List Nat) : Prop :=
  Forest s.kin s.Registered (fun r => s.initProcess = some r) kids

theorem link_registered (F : s.Whole kids) {d : Nat} (hc : s.Registered c)
    (h : s.kin.first c = some d ∨ s.kin.next c = some d) : s.Registered d := by
  rcases h with h | h
  · exact F.live_child ((F.mem c d).mp ((F.chain c).head_mem h))
  rcases F.root_or_child hc with hr | ⟨q, hq⟩
  · rw [F.root_next hr] at h
    cases h
  · exact F.live_child ((F.mem q d).mp ((F.chain q).next_mem ((F.mem q c).mpr hq) h))

theorem findProcessByPidLocked_ok (F : s.Whole kids) (hs : s.Counted) (t : BitVec 32) :
    ∃ r, s.findProcessByPidLocked t = .ok r := by
  rw [findProcessByPidLocked]
  split
  · next i hi =>
      have hreg : s.Registered i := F.root_live hi
      obtain ⟨x, hx⟩ := registered_iff.mp hreg
      rw [get_of hx, ok_bind]
      split
      · exact ⟨some i, rfl⟩
      obtain ⟨rank, hrank⟩ := F.exists_rank
      refine findFrom_ok hs hrank (fun a b => link_registered F) nodup_nil
        (fun a ha => nomatch ha) (fun c hc => ⟨?_, fun a ha => nomatch ha⟩) (by simp)
      exact link_registered F hreg (.inl ((kin_first hx).trans hc))
  · exact ⟨none, rfl⟩

theorem findProcessByPidLocked_none (F : s.Whole kids) (h : s.findProcessByPidLocked t = .ok none)
    (hx : s.procs a = some x) : x.pid ≠ t := by
  obtain ⟨i, hi, hroot⟩ := F.rooted (registered_iff.mpr ⟨x, hx⟩)
  obtain ⟨y, hy⟩ := registered_iff.mp (F.root_live hi)
  rw [findProcessByPidLocked] at h
  simp only [hi] at h
  rw [get_of hy, ok_bind] at h
  split at h
  · cases h
  next hne =>
    by_cases hai : a = i
    · subst hai
      cases hx.symm.trans hy
      exact hne
    · refine findFrom_none h ?_ hx
      rw [← kin_first hy]
      exact F.found hroot hai

/-- The numbers that `allocatePid` gives out are not in use; the only other end is its panic. -/
theorem allocatePidFrom_ok (F : s.Whole kids) (hs : s.Counted) (n : Nat) :
    allocatePidFrom n s = .error (.panic "Process: PID space exhausted" []) ∨
      ∃ next pid, allocatePidFrom n s = .ok ({ s with nextPid := next }, pid) ∧
        ∀ a x, s.procs a = some x → x.pid ≠ pid := by
  induction n generalizing s with
  | zero => exact .inl rfl
  | succ n ih =>
    rw [allocatePidFrom]
    generalize hcand : (if s.nextPid = 0 then (1 : BitVec 32) else s.nextPid) = candidate
    generalize hs' : ({ s with nextPid := candidate + 1 } : ProcTable) = s'
    have F' : s'.Whole kids := hs' ▸ F
    have hc' : s'.Counted := hs' ▸ ⟨hs.nodup, hs.mem⟩
    obtain ⟨r, e⟩ := findProcessByPidLocked_ok F' hc' candidate
    rw [e, ok_bind]
    cases r with
    | none =>
      refine .inr ⟨candidate + 1, candidate, by rw [hs']; rfl, fun a x hx => ?_⟩
      exact findProcessByPidLocked_none F' e (by rw [← hs']; exact hx)
    | some b =>
      rcases ih F' hc' with h | ⟨next, pid, h, hp⟩
      · exact .inl h
      · refine .inr ⟨next, pid, by rw [← hs'] at h; rw [← hs']; exact h, fun a x hx => ?_⟩
        exact hp a x (by rw [← hs']; exact hx)

end Searching

/-! ## 6. The invariant -/

/-- No PID is used twice. -/
def DistinctPids (s : ProcTable) : Prop :=
  ∀ a b x y, s.procs a = some x → s.procs b = some y → x.pid = y.pid → a = b

/-- **One tree below init, with different PIDs, and one reference to every process.** -/
structure TreeInv (s : ProcTable) : Prop where
  whole : ∃ kids, s.Whole kids
  counted : s.Counted
  pids : s.DistinctPids
  refs (a : Nat) (x : Process) : s.procs a = some x → x.refcount = 1

theorem DistinctPids.of_back (h : s.DistinctPids)
    (hb : ∀ a x, s'.procs a = some x → ∃ y, s.procs a = some y ∧ x.pid = y.pid) :
    s'.DistinctPids := by
  intro a b x y hx hy e
  obtain ⟨x', hx', ex⟩ := hb a x hx
  obtain ⟨y', hy', ey⟩ := hb b y hy
  exact h a b x' y' hx' hy' (by rw [← ex, ← ey, e])

theorem boot_inv : TreeInv boot where
  whole := ⟨fun _ => [],
    { chain := fun _ => Chain.none_iff.mpr rfl
      nodup := fun _ => nodup_nil
      mem := fun _ _ => ⟨(fun h => nomatch h), fun h => nomatch h⟩
      live_child := fun h => nomatch h
      live_parent := fun h => nomatch h
      root_live := fun h => nomatch h
      root_parent := fun _ => rfl
      root_next := fun _ => rfl
      rooted := fun h => nomatch h }⟩
  counted := ⟨nodup_nil, fun _ => ⟨(fun h => nomatch h), fun h => nomatch h⟩⟩
  pids _ _ _ _ h := nomatch h
  refs _ _ h := nomatch h

/-- Neither `next_pid` nor the count is part of the tree. -/
theorem TreeInv.withCounters (h : TreeInv s) (n k : BitVec 32) :
    TreeInv { s with nextPid := n, processCount := k } :=
  ⟨h.whole, ⟨h.counted.nodup, h.counted.mem⟩, h.pids, h.refs⟩

/-- A struct gets other data, but neither other pointers nor another PID. -/
theorem set_whole {kids : Nat → List Nat} {root : Nat → Prop} (hx : s.procs p = some x)
    (hp : y.parent = x.parent) (hf : y.firstChild = x.firstChild) (hn : y.nextSibling = x.nextSibling)
    (F : Forest s.kin s.Registered root kids) :
    Forest (s.set p y).kin (s.set p y).Registered root kids := by
  have hr : (s.set p y).Registered = s.Registered := by
    funext a
    rw [Registered, set_procs, Registered]
    split
    · next e => simp [e, hx]
    · rfl
  rw [kin_set, hp, hf, hn, update_parent hx, update_first hx, update_next hx, hr]
  exact F

theorem set_counted (hx : s.procs p = some x) (hs : s.Counted) : (s.set p y).Counted := by
  refine ⟨hs.nodup, fun a => ?_⟩
  show a ∈ s.allocated ↔ _
  rw [hs.mem, Registered, Registered, set_procs]
  split
  · next e => simp [e, hx]
  · rfl

theorem set_pids (h : s.DistinctPids) (hx : s.procs p = some x) (hpid : y.pid = x.pid) :
    (s.set p y).DistinctPids := by
  refine h.of_back fun a z hz => ?_
  rw [set_procs] at hz
  split at hz
  · next e =>
      cases hz
      exact ⟨x, e ▸ hx, hpid⟩
  · exact ⟨z, hz, rfl⟩

theorem TreeInv.set (h : TreeInv s) (hx : s.procs p = some x) (hp : y.parent = x.parent)
    (hf : y.firstChild = x.firstChild) (hn : y.nextSibling = x.nextSibling) (hpid : y.pid = x.pid)
    (hr : y.refcount = 1) : TreeInv (s.set p y) := by
  obtain ⟨kids, F⟩ := h.whole
  refine ⟨⟨kids, set_whole hx hp hf hn F⟩, set_counted hx h.counted, set_pids h.pids hx hpid,
    fun a z hz => ?_⟩
  rw [set_procs] at hz
  split at hz
  · cases hz
    exact hr
  · exact h.refs a z hz

theorem Relinked.pids (h : Relinked s s') (hp : s.DistinctPids) : s'.DistinctPids := by
  refine hp.of_back fun a x hx => ?_
  obtain ⟨y, hy, e⟩ := h.exists hx
  exact ⟨y, hy, (congrArg Process.pid e :)⟩

theorem Relinked.refcount (h : Relinked s s') (hx : s'.procs a = some x) :
    ∃ y, s.procs a = some y ∧ x.refcount = y.refcount := by
  obtain ⟨y, hy, e⟩ := h.exists hx
  exact ⟨y, hy, (congrArg Process.refcount e :)⟩

/-! ## 7. The operations keep it -/

section Keeping

/-- What an operation leaves behind: a table with the invariant, or one of the panics. -/
def Keeps (r : Except Trap ProcTable) : Prop :=
  (∃ s', r = .ok s' ∧ TreeInv s') ∨ r = .error (.panic "Process: PID space exhausted" []) ∨
    r = .error .integerOverflow

theorem alloc_procs (s : ProcTable) (a b : Nat) (x : Process) :
    (s.alloc a x).procs b = if b = a then some x else s.procs b := set_procs b

/-- A struct with a PID of its own and without pointers is placed and stands alone. -/
theorem alloc_lone {kids : Nat → List Nat} (F : s.Whole kids) (ha : s.procs a = none)
    (hx : x.parent = none ∧ x.firstChild = none ∧ x.nextSibling = none) :
    Forest (s.alloc a x).kin (s.alloc a x).Registered (fun r => s.initProcess = some r ∨ r = a)
      kids ∧ (s.alloc a x).kin.first a = none := by
  have hnone : ∀ g : Process → Option Nat, (s.procs a).bind g = none := fun g => by rw [ha]; rfl
  have hk : (s.alloc a x).kin = s.kin := by
    show (s.set a x).kin = _
    rw [kin_set, hx.1, hx.2.1, hx.2.2]
    refine Kin.ext ?_ ?_ ?_
    · exact update_eq_self_iff.mpr (hnone _).symm
    · exact update_eq_self_iff.mpr (hnone _).symm
    · exact update_eq_self_iff.mpr (hnone _).symm
  have hr : (s.alloc a x).Registered = fun b => s.Registered b ∨ b = a := by
    funext b
    refine propext ?_
    rw [Registered, alloc_procs, Registered]
    split
    · next e => simp [e]
    · next e => simp [e]
  have hna : ¬ s.Registered a := by rw [Registered, ha]; exact false_ne_true
  rw [hk, hr]
  exact ⟨F.lone hna (hnone _), hnone _⟩

theorem alloc_counted (hs : s.Counted) (ha : s.procs a = none) : (s.alloc a x).Counted := by
  have hna : ¬ s.Registered a := by rw [Registered, ha]; exact false_ne_true
  refine ⟨nodup_cons.mpr ⟨fun h => hna ((hs.mem a).mp h), hs.nodup⟩, fun b => ?_⟩
  show b ∈ a :: s.allocated ↔ _
  rw [mem_cons, hs.mem, Registered, Registered, alloc_procs]
  split
  · next e => simp [e]
  · next e => simp [e]

theorem alloc_pids (h : s.DistinctPids) (hpid : ∀ b y, s.procs b = some y → y.pid ≠ x.pid) :
    (s.alloc a x).DistinctPids := by
  intro b c y z hy hz e
  rw [alloc_procs] at hy hz
  split at hy
  · next hb =>
      split at hz
      · next hc => rw [hb, hc]
      · cases hy
        exact absurd e.symm (hpid c z hz)
  · split at hz
    · cases hz
      exact absurd e (hpid b y hy)
    · exact h b c y z hy hz e

theorem alloc_refs (h : TreeInv s) (hx : x.refcount = 1) :
    ∀ b y, (s.alloc a x).procs b = some y → y.refcount = 1 := by
  intro b y hy
  rw [alloc_procs] at hy
  split at hy
  · cases hy
    exact hx
  · exact h.refs b y hy

/-- **A new child.** -/
theorem newChild_ok (h : TreeInv s) (ha : s.procs a = none) (hq : s.Registered q)
    (hx : x.parent = none ∧ x.firstChild = none ∧ x.nextSibling = none) (hr : x.refcount = 1)
    (hpid : ∀ b y, s.procs b = some y → y.pid ≠ x.pid) :
    ∃ s', (s.alloc a x).addChild q a = .ok s' ∧ TreeInv s' := by
  obtain ⟨kids, F⟩ := h.whole
  obtain ⟨F₁, hfirst⟩ := alloc_lone F ha hx
  have hne : q ≠ a := by
    rintro rfl
    rw [Registered, ha] at hq
    exact false_ne_true hq
  have hq₁ : (s.alloc a x).Registered q := by
    rw [Registered, alloc_procs, if_neg hne]
    exact hq
  obtain ⟨s', e, hs', hk⟩ := addChildLocked_ok hq₁ (F₁.root_live (.inr rfl))
  refine ⟨s', e, ⟨update kids q (a :: kids q), ?_⟩,
    (alloc_counted h.counted ha).relinked hs', hs'.pids (alloc_pids h.pids hpid), fun b y hy => ?_⟩
  rotate_left
  · obtain ⟨z, hz, e⟩ := hs'.refcount hy
    rw [e, alloc_refs h hr b z hz]
  have F₂ := F₁.push (.inr rfl) hq₁ fun hr => hne (F₁.rooted_leaf hfirst hr)
  rw [← hk] at F₂
  refine Eq.mp (congrArg (fun r => Forest _ _ r _) ?_) (hs'.forest F₂)
  funext r
  rw [hs'.initProcess]
  refine propext ⟨fun h => h.1.resolve_right h.2, fun h => ⟨.inl h, ?_⟩⟩
  rintro rfl
  have := F.root_live h
  rw [Registered, ha] at this
  exact false_ne_true this

/-- The very first process. -/
theorem firstProcess_ok (h : TreeInv s) (ha : s.procs a = none) (hi : s.initProcess = none)
    (hx : x.parent = none ∧ x.firstChild = none ∧ x.nextSibling = none) (hr : x.refcount = 1)
    (hpid : ∀ b y, s.procs b = some y → y.pid ≠ x.pid) :
    TreeInv { s.alloc a x with initProcess := some a } := by
  obtain ⟨kids, F⟩ := h.whole
  obtain ⟨F₁, -⟩ := alloc_lone F ha hx
  have hc : (s.alloc a x).Counted := alloc_counted h.counted ha
  refine ⟨⟨kids, Eq.mp (congrArg (fun r => Forest _ _ r _) ?_) F₁⟩, ⟨hc.nodup, hc.mem⟩,
    alloc_pids h.pids hpid, alloc_refs h hr⟩
  funext r
  refine propext ⟨fun h => ?_, fun h => .inr (Option.some.inj h).symm⟩
  rcases h with h | rfl
  · rw [hi] at h
    cases h
  · rfl

theorem enterTree_ok (h : TreeInv s) (ha : s.procs a = none) {parent : Option Nat}
    (hp : ∀ q, parent = some q → s.Registered q)
    (hx : x.parent = none ∧ x.firstChild = none ∧ x.nextSibling = none) (hr : x.refcount = 1)
    (hpid : ∀ b y, s.procs b = some y → y.pid ≠ x.pid) :
    ∃ s', (s.alloc a x).enterTree a parent = .ok s' ∧ TreeInv s' := by
  unfold enterTree
  split
  · next q => exact newChild_ok h ha (hp q rfl) hx hr hpid
  · next i hi =>
      obtain ⟨kids, F⟩ := h.whole
      exact newChild_ok h ha (F.root_live hi) hx hr hpid
  · next hi => exact ⟨_, rfl, firstProcess_ok h ha hi hx hr hpid⟩

theorem createProcess_keeps (h : TreeInv s) (ha : s.procs a = none) {parent : Option Nat}
    (hp : ∀ q, parent = some q → s.Registered q) : Keeps (s.createProcess a parent) := by
  obtain ⟨kids, F⟩ := h.whole
  rw [createProcess, allocatePid]
  rcases allocatePidFrom_ok F h.counted (s.processCount.toNat + 2) with e | ⟨n, pid, e, hpid⟩
  · rw [e]
    exact .inr (.inl rfl)
  obtain ⟨s', e', h'⟩ := enterTree_ok (x := { pid := pid, pgid := pid, sid := pid })
    (h.withCounters n s.processCount) ha hp ⟨rfl, rfl, rfl⟩ rfl hpid
  refine .inl ⟨_, ?_, h'.withCounters s'.nextPid (s'.processCount + 1)⟩
  rw [e, ok_bind]
  exact (bind_ok_iff _ _).mpr ⟨s', e', rfl⟩

theorem forkProcess_keeps (h : TreeInv s) (ha : s.procs a = none) (hq : s.Registered q) :
    Keeps (s.forkProcess a q) := by
  obtain ⟨kids, F⟩ := h.whole
  obtain ⟨y, hy⟩ := registered_iff.mp hq
  rw [forkProcess, allocatePid]
  rcases allocatePidFrom_ok F h.counted (s.processCount.toNat + 2) with e | ⟨n, pid, e, hpid⟩
  · rw [e]
    exact .inr (.inl rfl)
  obtain ⟨s', e', h'⟩ := newChild_ok (x := { pid := pid, pgid := y.pgid, sid := y.sid })
    (h.withCounters n s.processCount) ha hq ⟨rfl, rfl, rfl⟩ rfl hpid
  refine .inl ⟨_, ?_, h'.withCounters s'.nextPid (s'.processCount + 1)⟩
  rw [e, ok_bind]
  refine (bind_ok_iff _ _).mpr ⟨y, get_of hy, ?_⟩
  exact (bind_ok_iff _ _).mpr ⟨s', e', rfl⟩

theorem forkProcessUnfinished_keeps (h : TreeInv s) : Keeps s.forkProcessUnfinished := by
  obtain ⟨kids, F⟩ := h.whole
  rw [forkProcessUnfinished, allocatePid]
  rcases allocatePidFrom_ok F h.counted (s.processCount.toNat + 2) with e | ⟨n, pid, e, -⟩
  · rw [e]
    exact .inr (.inl rfl)
  · rw [e]
    exact .inl ⟨_, rfl, h.withCounters n s.processCount⟩

theorem Destroyed.exists (h : Destroyed s p s') (hx : s'.procs a = some x) :
    a ≠ p ∧ ∃ y, s.procs a = some y ∧ ProcTable.data x = ProcTable.data y := by
  have ha : a ≠ p := by
    rintro rfl
    rw [h.gone] at hx
    cases hx
  have := h.data a ha
  rw [hx] at this
  obtain ⟨y, hy, e⟩ := map_eq_some_iff.mp this.symm
  exact ⟨ha, y, hy, e.symm⟩

theorem Destroyed.inv {kids : Nat → List Nat} (h : Destroyed s p s') (hs : s.Counted)
    (hp : s.DistinctPids) (hr : ∀ a x, a ≠ p → s.procs a = some x → x.refcount = 1)
    (F : s'.Whole kids) : TreeInv s' := by
  refine ⟨⟨kids, F⟩, h.counted hs, hp.of_back fun a x hx => ?_, fun a x hx => ?_⟩
  · obtain ⟨-, y, hy, e⟩ := h.exists hx
    exact ⟨y, hy, (congrArg Process.pid e :)⟩
  · obtain ⟨ha, y, hy, e⟩ := h.exists hx
    rw [show x.refcount = y.refcount from (congrArg Process.refcount e :), hr a y ha hy]

theorem destroyProcess_keeps (h : TreeInv s) (hp : s.Registered p) (hi : s.initProcess ≠ some p) :
    Keeps (s.destroyProcess p) := by
  obtain ⟨kids, F⟩ := h.whole
  obtain ⟨i, hi', -⟩ := F.rooted hp
  have hne : i ≠ p := by
    rintro rfl
    exact hi hi'
  obtain ⟨s', e, hd, kids', F'⟩ := destroyProcess_ok h.counted hi' hne hp (.inr ⟨kids, F⟩)
  exact .inl ⟨s', e, hd.inv h.counted h.pids (fun a x _ => h.refs a x) F'⟩

theorem threadExit_keeps (h : TreeInv s) (hp : s.Registered p) (status : BitVec 32) :
    Keeps (s.threadExit p status) := by
  obtain ⟨x, hx⟩ := registered_iff.mp hp
  rw [threadExit, get_of hx, ok_bind]
  split
  · exact .inl ⟨_, rfl, h.set hx rfl rfl rfl rfl (h.refs p x hx)⟩
  · exact .inl ⟨s, rfl, h⟩

theorem exit_keeps (h : TreeInv s) (hp : s.Registered p) (status : BitVec 32) :
    Keeps (s.exit p status) := by
  obtain ⟨x, hx⟩ := registered_iff.mp hp
  have hr := h.refs p x hx
  rw [exit, get_of hx, ok_bind, if_pos (by rw [hr]; rfl), exitWithStatus, modify_of hx]
  have h' := h.set (y := { x with exitStatus := status, state := .Zombie }) hx rfl rfl rfl rfl hr
  refine threadExit_keeps h' ?_ status
  rw [Registered, set_self]
  rfl

section Scanning

variable {l : List Nat} {child : Option Nat} {n : Nat} {isMatch : Process → Except Trap Bool}

/-- The scan of a child list ends, with a child of the list if with any. -/
theorem scanFrom_ok (takes : Process → Bool) (hm : ∀ x, isMatch x = .error .integerOverflow ∨ ∃ b, isMatch x = .ok b)
    (h : Chain s.kin.next child l) (hl : ∀ a ∈ l, s.Registered a) (hn : l.length ≤ n) (any : Bool) :
    s.scanFrom isMatch takes n child any = .error .integerOverflow ∨
      ∃ r any', s.scanFrom isMatch takes n child any = .ok (r, any') ∧ ∀ c, r = some c → c ∈ l := by
  induction l generalizing child n any with
  | nil =>
    cases (show child = none from h)
    exact .inr ⟨none, any, by rw [scanFrom], fun c hc => nomatch hc⟩
  | cons a l ih =>
    obtain ⟨rfl, h⟩ := h
    obtain ⟨n, rfl⟩ := Nat.exists_eq_succ_of_ne_zero (n := n) (by simp at hn; omega)
    obtain ⟨x, hx⟩ := registered_iff.mp (hl a (.head l))
    rw [kin_next hx] at h
    have later : ∀ any, s.scanFrom isMatch takes n x.nextSibling any = .error .integerOverflow ∨
        ∃ r any', s.scanFrom isMatch takes n x.nextSibling any = .ok (r, any') ∧
          ∀ c, r = some c → c ∈ a :: l := fun any => by
      rcases ih h (fun b hb => hl b (.tail a hb)) (by simpa using hn) any with e | ⟨r, a', e, hr⟩
      · exact .inl e
      · exact .inr ⟨r, a', e, fun c hc => .tail a (hr c hc)⟩
    rw [scanFrom, get_of hx, ok_bind]
    rcases hm x with e | ⟨b, e⟩
    · rw [e]
      exact .inl rfl
    rw [e, ok_bind]
    split
    · split
      · exact .inr ⟨some a, true, rfl, fun c hc => Option.some.inj hc ▸ .head l⟩
      · exact later true
    · exact later any

theorem wait4Matches_or (x : Process) (t : BitVec 32) (y : Process) :
    wait4Matches x t y = .error .integerOverflow ∨ ∃ b, wait4Matches x t y = .ok b := by
  rw [wait4Matches]
  split_ifs
  · exact .inr ⟨_, rfl⟩
  · exact .inr ⟨_, rfl⟩
  · exact .inr ⟨_, rfl⟩
  · exact .inl rfl
  · exact .inr ⟨_, rfl⟩

/-- **A claimed zombie is destroyed at once**: it held one reference. -/
theorem claim_keeps (h : TreeInv s) (hc : s.kin.parent c = some q) :
    ∃ s', s.removeChildLocked q c = .ok s' ∧ Keeps (s'.reap c) := by
  obtain ⟨kids, F⟩ := h.whole
  obtain ⟨s₁, e₁, h₁, F₁⟩ := removeChildLocked_ok F h.counted hc
  refine ⟨s₁, e₁, .inl ?_⟩
  obtain ⟨x, hx⟩ := registered_iff.mp (h₁.registered.mpr (F.live_child hc))
  obtain ⟨y, hy, hxy⟩ := h₁.refcount hx
  have hr : x.refcount = 1 := by rw [hxy, h.refs c y hy]
  generalize hs₂ : s₁.set c { x with refcount := 0 } = s₂
  have e₂ : s₁.unref c = .ok (s₂, true) := by
    rw [unref, get_of hx, ok_bind, hr, ← hs₂]
    rfl
  obtain ⟨i, hi, -⟩ := F.rooted (F.live_child hc)
  have hi₁ : s₁.initProcess = some i := h₁.initProcess.trans hi
  have hic : i ≠ c := by
    rintro rfl
    rw [F.root_parent hi] at hc
    cases hc
  have hF : Forest s₂.kin s₂.Registered (s₂.Detached c)
      (update kids q ((kids q).erase c)) := by
    have hd : s₂.Detached c = s.Detached c := detached_eq (by rw [← hs₂]; exact h₁.initProcess)
    rw [hd, ← hs₂]
    exact set_whole hx rfl rfl rfl F₁
  have hc₂ : s₂.Counted := hs₂ ▸ set_counted hx (h.counted.relinked h₁)
  obtain ⟨s₃, e₃, hd, kids', F₃⟩ := destroyProcess_ok hc₂ (by rw [← hs₂]; exact hi₁) hic
    (hF.root_live (.inr rfl)) (.inl ⟨_, hF⟩)
  refine ⟨s₃, ?_, hd.inv hc₂ (hs₂ ▸ set_pids (h₁.pids h.pids) hx rfl) (fun a z ha hz => ?_) F₃⟩
  · rw [reap, e₂]
    exact e₃
  · rw [← hs₂, set_ne ha] at hz
    obtain ⟨w, hw, e⟩ := h₁.refcount hz
    rw [e, h.refs a w hw]

end Scanning

end Keeping

/-! ## 8. Runs -/

/-- One round of `sys_wait4`: the scan, and the end of the zombie that it claimed. -/
def wait4Round (s : ProcTable) (self : Nat) (targetPid : BitVec 32) : Except Trap ProcTable := do
  let (s, zombie, _) ← s.wait4Scan self targetPid
  match zombie with
  | some c => s.reap c
  | none => return s

/-- One round of `sys_waitid`; under WNOWAIT the zombie stays. -/
def waitidRound (s : ProcTable) (self : Nat) (idtype id options : BitVec 64) :
    Except Trap ProcTable := do
  let (s, zombie, _) ← s.waitidScan self idtype id options
  match zombie with
  | some c => if options &&& WNOWAIT = 0 then s.reap c else return s
  | none => return s

/-- The calls, each with the process that makes it. -/
inductive Op where
  | create (a : Nat) (parent : Option Nat)
  | fork (a parent : Nat)
  /-- `forkProcess` that fails after it took a PID. -/
  | forkUnfinished
  /-- `sys_fork` whose thread could not be made gives up the process `forkProcess` made. -/
  | forkAborted (child : Nat)
  | exit (p : Nat) (status : BitVec 32)
  /-- A signal ends the thread of `p`. -/
  | kill (p : Nat) (status : BitVec 32)
  | wait4 (p : Nat) (targetPid : BitVec 32)
  | waitid (p : Nat) (idtype id options : BitVec 64)
  deriving DecidableEq, Repr

namespace Op

/-- Structs are placed at free addresses, and processes that make calls exist. -/
def Possible (s : ProcTable) : Op → Prop
  | create a parent => s.procs a = none ∧ ∀ q ∈ parent, s.Registered q
  | fork a parent => s.procs a = none ∧ s.Registered parent
  | forkUnfinished => True
  | forkAborted child => s.Registered child ∧ s.initProcess ≠ some child
  | exit p _ | kill p _ | wait4 p _ | waitid p _ _ _ => s.Registered p

instance (s : ProcTable) (a : Nat) : Decidable (s.Registered a) :=
  inferInstanceAs (Decidable ((s.procs a).isSome = true))

instance (s : ProcTable) (o : Op) : Decidable (o.Possible s) := by
  cases o <;> unfold Possible <;> infer_instance

def run (s : ProcTable) : Op → Except Trap ProcTable
  | create a parent => s.createProcess a parent
  | fork a parent => s.forkProcess a parent
  | forkUnfinished => s.forkProcessUnfinished
  | forkAborted child => s.destroyProcess child
  | exit p status => s.exit p status
  | kill p status => s.threadExit p status
  | wait4 p targetPid => s.wait4Round p targetPid
  | waitid p idtype id options => s.waitidRound p idtype id options

end Op

/-- After a panic nothing happens any more. -/
def treeMachine : Machine (Except Trap ProcTable) Op where
  start s := s = .ok boot
  step s o := s.bind fun s => if o.Possible s then o.run s else .ok s

theorem wait4Round_keeps (h : TreeInv s) (hp : s.Registered p) (t : BitVec 32) :
    Keeps (s.wait4Round p t) := by
  obtain ⟨kids, F⟩ := h.whole
  obtain ⟨x, hx⟩ := registered_iff.mp hp
  have hch := F.chain p
  rw [kin_first hx] at hch
  rw [wait4Round, wait4Scan, get_of hx, ok_bind]
  rcases scanFrom_ok (fun x => x.state = .Zombie) (wait4Matches_or x t) hch (kids_registered F) (h.counted.length_le (F.nodup p)
      (kids_registered F)) false with e | ⟨r, any, e, hr⟩
  · rw [e]
    exact .inr (.inr rfl)
  rw [e]
  cases r with
  | none => exact .inl ⟨s, rfl, h⟩
  | some c =>
    obtain ⟨s', e', hk⟩ := claim_keeps h ((F.mem p c).mp (hr c rfl))
    simp only [e', ok_bind]
    exact hk

theorem waitidRound_keeps (h : TreeInv s) (hp : s.Registered p) (idtype id options : BitVec 64) :
    Keeps (s.waitidRound p idtype id options) := by
  obtain ⟨kids, F⟩ := h.whole
  obtain ⟨x, hx⟩ := registered_iff.mp hp
  have hch := F.chain p
  rw [kin_first hx] at hch
  rw [waitidRound, waitidScan, get_of hx, ok_bind]
  have hm : ∀ y, Except.ok (waitidMatches x idtype id y) = Except.error Trap.integerOverflow ∨
      ∃ b, Except.ok (ε := Trap) (waitidMatches x idtype id y) = .ok b := fun y => .inr ⟨_, rfl⟩
  rcases scanFrom_ok (fun x => options &&& WEXITED ≠ 0 ∧ x.state = .Zombie) hm hch (kids_registered F) (h.counted.length_le (F.nodup p)
      (kids_registered F)) false with e | ⟨r, any, e, hr⟩
  · rw [e]
    exact .inr (.inr rfl)
  rw [e]
  cases r with
  | none => exact .inl ⟨s, rfl, h⟩
  | some c =>
    obtain ⟨s', e', hk⟩ := claim_keeps h ((F.mem p c).mp (hr c rfl))
    by_cases hw : options &&& WNOWAIT = 0
    · simp only [hw, if_true, e', ok_bind]
      exact hk
    · simp only [hw, if_false]
      exact .inl ⟨s, rfl, h⟩

/-- **Every call keeps the invariant, or ends in one of the two panics.** -/
theorem Op.run_keeps (h : TreeInv s) (o : Op) (ho : o.Possible s) : Keeps (o.run s) := by
  cases o with
  | create a parent => exact createProcess_keeps h ho.1 ho.2
  | fork a parent => exact forkProcess_keeps h ho.1 ho.2
  | forkUnfinished => exact forkProcessUnfinished_keeps h
  | forkAborted child => exact destroyProcess_keeps h ho.1 ho.2
  | exit p status => exact exit_keeps h ho status
  | kill p status => exact threadExit_keeps h ho status
  | wait4 p t => exact wait4Round_keeps h ho t
  | waitid p idtype id options => exact waitidRound_keeps h ho idtype id options

theorem reachable_keeps {st : Except Trap ProcTable} (h : treeMachine.Reachable st) : Keeps st := by
  refine h.invariant (fun st h0 => ?_) fun st o _ hi _ => ?_
  · rw [show st = .ok boot from h0]
    exact .inl ⟨boot, rfl, boot_inv⟩
  rcases hi with ⟨s, rfl, hs⟩ | rfl | rfl
  · show Keeps (if o.Possible s then o.run s else .ok s)
    split
    · next ho => exact o.run_keeps hs ho
    · exact .inl ⟨s, rfl, hs⟩
  · exact .inr (.inl rfl)
  · exact .inr (.inr rfl)

/-- `p` stands in the child list of `q`. -/
def InChildList (s : ProcTable) (q p : Nat) : Prop :=
  ∃ y l, s.procs q = some y ∧ Chain s.kin.next y.firstChild l ∧ p ∈ l

/-- **What a process tree is.** -/
structure IsTree (s : ProcTable) : Prop where
  /-- The child list of `q` comes to its end, and has `p` once if `q` is the parent of `p`, and
      else not at all. -/
  agree (q : Nat) (y : Process) : s.procs q = some y → ∃ l, Chain s.kin.next y.firstChild l ∧
    ∀ p, l.count p = if s.kin.parent p = some q then 1 else 0
  /-- Parents exist. -/
  parent (p q : Nat) : s.kin.parent p = some q → s.Registered q
  acyclic (p : Nat) : ¬ Relation.TransGen s.kin.Above p p
  reachable (p : Nat) : s.Registered p →
    ∃ i, s.initProcess = some i ∧ Relation.ReflTransGen s.InChildList i p
  pids : s.DistinctPids

theorem TreeInv.isTree (h : TreeInv s) : s.IsTree := by
  obtain ⟨kids, F⟩ := h.whole
  refine ⟨fun q y hy => ⟨kids q, kin_first hy ▸ F.chain q, fun p => ?_⟩,
    fun p q hq => F.live_parent hq, F.acyclic, fun p hp => ?_, h.pids⟩
  · split
    · next hp => exact count_eq_one_of_mem (F.nodup q) ((F.mem q p).mpr hp)
    · next hp => exact count_eq_zero_of_not_mem fun h => hp ((F.mem q p).mp h)
  obtain ⟨i, hi, hp⟩ := F.rooted hp
  refine ⟨i, hi, Relation.ReflTransGen.mono (fun q c hc => ?_) _ _ hp⟩
  obtain ⟨y, hy⟩ := registered_iff.mp (F.live_parent hc)
  exact ⟨y, kids q, hy, kin_first hy ▸ F.chain q, (F.mem q c).mpr hc⟩

/-- **THE PROCESS TREE IS A TREE**, after any sequence of calls; a sequence stops early only where
    the source panics: no PID is left, or wait4 negates the least i32. -/
theorem processTree (ops : List Op) : (∃ s, treeMachine.exec (.ok boot) ops = .ok s ∧ s.IsTree) ∨
      treeMachine.exec (.ok boot) ops = .error (.panic "Process: PID space exhausted" []) ∨
      treeMachine.exec (.ok boot) ops = .error .integerOverflow := by
  have h : treeMachine.Reachable (.ok boot) := .start rfl
  exact (reachable_keeps (h.exec ops)).imp_left fun ⟨s, e, hs⟩ => ⟨s, e, hs.isTree⟩

/-- A grandchild of init goes to init when its parent is reaped. -/
example : ((treeMachine.exec (.ok boot) [.create 1 none, .fork 2 1, .fork 3 2, .exit 2 0,
    .wait4 1 (-1)]).toOption.bind fun s => s.procs 3).bind Process.parent = some 1 := by
  decide +kernel

end ProcTable

end Zigk.Proc.Tree
