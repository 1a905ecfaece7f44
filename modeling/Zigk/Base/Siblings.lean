/-
  Subject:   FORESTS KEPT IN PARENT, FIRST-CHILD AND NEXT-SIBLING POINTERS.

  Every node has a pointer to its parent, one to its first child and one to its next sibling; the
  children of a node are READ off the pointers:

  * `Seg next p l q`, `Chain next p l` -- following `next` from `p` passes the elements of `l`
    and arrives at `q` (at the end);
  * `Kin.push`, `Kin.cutFirst`, `Kin.cutAfter`, `Kin.hand` -- a child is put in front, the first
    child or the one behind `b` is taken out, all children of one node are handed to another;
  * `Forest K live root kids` -- the pointers spell the lists `kids`, parent pointers and lists
    agree, and every node but those of `root` has a parent; `Forest.push`, `Forest.cut`,
    `Forest.adopt`, `Forest.drop` -- **each operation keeps it**;
  * `Forest.acyclic` -- no node is above itself; `Forest.rank_lt` -- along first-child and
    next-sibling pointers no node is met twice, so that **a search along them ends**;
  * `Forest.found` -- below a root such a search meets every node of its tree.
-/
import Mathlib.Data.List.Nodup
import Mathlib.Data.Prod.Lex
import Mathlib.Order.WellFounded

variable {α : Type*}

/-! ## 1. Segments of singly linked lists -/

def Seg (next : α → Option α) : Option α → List α → Option α → Prop
  | p, [], q => p = q
  | p, a :: l, q => p = some a ∧ Seg next (next a) l q

def Chain (next : α → Option α) (p : Option α) (l : List α) : Prop := Seg next p l none

namespace Chain

variable {next next' : α → Option α} {p q : Option α} {l l' : List α} {a b c : α}

theorem seg_append {l₁ l₂ : List α} :
    Seg next p (l₁ ++ l₂) q ↔ ∃ r, Seg next p l₁ r ∧ Seg next r l₂ q := by
  induction l₁ generalizing p with
  | nil => simp [Seg]
  | cons a l₁ ih => simp [Seg, ih, and_assoc]

theorem seg_congr (h : ∀ a ∈ l, next' a = next a) : Seg next' p l q ↔ Seg next p l q := by
  induction l generalizing p with
  | nil => rfl
  | cons a l ih => simp only [Seg, h a (.head l), ih fun b hb => h b (.tail a hb)]

/-- A chain depends on the pointers of its own elements only. -/
theorem congr (h : ∀ a ∈ l, next' a = next a) : Chain next' p l ↔ Chain next p l := seg_congr h

theorem none_iff : Chain next none l ↔ l = [] := by
  cases l with
  | nil => simp [Chain, Seg]
  | cons a l => simp [Chain, Seg]

theorem some_iff : Chain next (some a) l ↔ ∃ l', l = a :: l' ∧ Chain next (next a) l' := by
  cases l with
  | nil => simp [Chain, Seg]
  | cons b l =>
    constructor
    · rintro ⟨h, hc⟩
      cases h
      exact ⟨l, rfl, hc⟩
    · rintro ⟨l', h, hc⟩
      cases h
      exact ⟨rfl, hc⟩

theorem head_mem (h : Chain next p l) (hp : p = some a) : a ∈ l := by
  subst hp
  obtain ⟨l', rfl, -⟩ := some_iff.mp h
  exact .head l'

/-- Behind an element of a chain stands another one of it, or the end. -/
theorem next_mem (h : Chain next p l) (ha : a ∈ l) (hn : next a = some b) : b ∈ l := by
  induction l generalizing p with
  | nil => cases ha
  | cons c l ih =>
    rcases List.mem_cons.mp ha with rfl | ha
    · exact .tail _ (head_mem h.2 hn)
    · exact .tail _ (ih h.2 ha)

/-- Two neighbours: the list at the place where `b` stands before `c`. -/
theorem split_at (h : Chain next p l) (hb : b ∈ l) (hn : next b = some c) :
    ∃ l₁ l₂, l = l₁ ++ b :: c :: l₂ := by
  obtain ⟨l₁, l₂, rfl⟩ := List.append_of_mem hb
  obtain ⟨r, -, -, h₂⟩ := seg_append.mp h
  obtain ⟨l₃, rfl, -⟩ := some_iff.mp (hn ▸ h₂ : Chain next (some c) l₂)
  exact ⟨l₁, l₃, rfl⟩

theorem idxOf_next [DecidableEq α] (h : Chain next p l) (hl : l.Nodup) (hb : b ∈ l)
    (hn : next b = some c) : l.idxOf b < l.idxOf c := by
  obtain ⟨l₁, l₂, rfl⟩ := h.split_at hb hn
  have hb₁ : b ∉ l₁ := fun hb₁ => (List.nodup_append.mp hl).2.2 b hb₁ b (.head _) rfl
  have hc₁ : c ∉ l₁ := fun hc₁ => (List.nodup_append.mp hl).2.2 c hc₁ c (.tail _ (.head _)) rfl
  have hbc : b ≠ c := fun e => (List.nodup_cons.mp (List.nodup_append.mp hl).2.1).1 (e ▸ .head _)
  rw [List.idxOf_append_of_notMem hb₁, List.idxOf_append_of_notMem hc₁, List.idxOf_cons_self,
    List.idxOf_cons_ne _ hbc]
  omega

/-- Taking the first element out leaves the chain from its successor on. -/
theorem erase_first [DecidableEq α] (h : Chain next (some c) l) (hl : l.Nodup)
    (hn : ∀ a, a ≠ c → next' a = next a) : Chain next' (next c) (l.erase c) := by
  obtain ⟨l', rfl, h'⟩ := some_iff.mp h
  rw [List.erase_cons_head]
  exact (congr fun a ha => hn a fun e => (List.nodup_cons.mp hl).1 (e ▸ ha)).mpr h'

/-- Taking out the element behind `b`. -/
theorem erase_after [DecidableEq α] (h : Chain next p l) (hl : l.Nodup) (hb : b ∈ l)
    (hbc : next b = some c) (hb' : next' b = next c)
    (hn : ∀ a, a ≠ b → a ≠ c → next' a = next a) : Chain next' p (l.erase c) := by
  obtain ⟨l₁, l₂, rfl⟩ := h.split_at hb hbc
  obtain ⟨hl₁, hl₂, hd⟩ := List.nodup_append.mp hl
  obtain ⟨hbl, hcl⟩ := List.nodup_cons.mp hl₂
  have hc₁ : c ∉ l₁ := fun hc₁ => hd c hc₁ c (.tail _ (.head _)) rfl
  have hne : b ≠ c := fun e => hbl (e ▸ .head _)
  rw [List.erase_append_right _ hc₁, List.erase_cons_tail (by simpa using hne), List.erase_cons_head]
  obtain ⟨r, h₁, hr, -, h₂⟩ := seg_append.mp h
  refine seg_append.mpr ⟨r, (seg_congr fun a ha => hn a ?_ ?_).mpr h₁, hr, ?_⟩
  · exact fun e => hd a ha b (.head _) e
  · exact fun e => hc₁ (e ▸ ha)
  rw [hb']
  refine (seg_congr fun a ha => hn a ?_ ?_).mpr h₂
  · exact fun e => hbl (e ▸ .tail _ ha)
  · exact fun e => (List.nodup_cons.mp hcl).1 (e ▸ ha)

end Chain

/-! ## 2. Nodes and their pointers -/

@[ext] structure Kin (α : Type*) where
  parent : α → Option α
  first : α → Option α
  next : α → Option α

namespace Kin

open Function

section Operations

variable [DecidableEq α]

/-- `c` becomes the first child of `q`. -/
def push (K : Kin α) (q c : α) : Kin α where
  parent := update K.parent c (some q)
  first := update K.first q (some c)
  next := update K.next c (K.first q)

/-- The first child `c` of `q` is taken out. -/
def cutFirst (K : Kin α) (q c : α) : Kin α where
  parent := update K.parent c none
  first := update K.first q (K.next c)
  next := update K.next c none

/-- The child `c` behind its sibling `b` is taken out. -/
def cutAfter (K : Kin α) (b c : α) : Kin α where
  parent := update K.parent c none
  first := K.first
  next := update (update K.next b (K.next c)) c none

/-- The nodes of `l` become children of `i`, one after the other. -/
def hand (K : Kin α) (i : α) (l : List α) : Kin α := l.foldl (fun K c => K.push i c) K

/-- The pointer to the first child of `p` is cleared. -/
def clearFirst (K : Kin α) (p : α) : Kin α := { K with first := update K.first p none }

/-- The node `p` is gone. -/
def forget (K : Kin α) (p : α) : Kin α where
  parent := update K.parent p none
  first := update K.first p none
  next := update K.next p none

section

variable (K : Kin α)
include K

theorem push_parent (q c a : α) :
    (K.push q c).parent a = if a = c then some q else K.parent a := update_apply ..

theorem push_first (q c a : α) :
    (K.push q c).first a = if a = q then some c else K.first a := update_apply ..

theorem push_next (q c a : α) :
    (K.push q c).next a = if a = c then K.first q else K.next a := update_apply ..

theorem cutFirst_first (q c a : α) :
    (K.cutFirst q c).first a = if a = q then K.next c else K.first a := update_apply ..

theorem cutAfter_next (b c a : α) :
    (K.cutAfter b c).next a = if a = c then none else if a = b then K.next c else K.next a := by
  show update (update K.next b (K.next c)) c none a = _
  rw [update_apply, update_apply]

theorem clearFirst_first (p a : α) :
    (K.clearFirst p).first a = if a = p then none else K.first a := update_apply ..

theorem forget_parent (p a : α) :
    (K.forget p).parent a = if a = p then none else K.parent a := update_apply ..

theorem forget_first (p a : α) :
    (K.forget p).first a = if a = p then none else K.first a := update_apply ..

theorem forget_next (p a : α) :
    (K.forget p).next a = if a = p then none else K.next a := update_apply ..

theorem hand_cons (i c : α) (l : List α) : K.hand i (c :: l) = (K.push i c).hand i l := rfl

theorem hand_parent (i : α) (l : List α) (a : α) :
    (K.hand i l).parent a = if a ∈ l then some i else K.parent a := by
  induction l generalizing K with
  | nil => simp [hand]
  | cons c l ih =>
    rw [hand_cons, ih, push_parent]
    by_cases hl : a ∈ l
    · simp [hl]
    · by_cases hc : a = c <;> simp [hl, hc]

theorem hand_first {i a : α} (h : a ≠ i) (l : List α) :
    (K.hand i l).first a = K.first a := by
  induction l generalizing K with
  | nil => rfl
  | cons c l ih => rw [hand_cons, ih, push_first, if_neg h]

theorem hand_next {a : α} (i : α) {l : List α} (h : a ∉ l) :
    (K.hand i l).next a = K.next a := by
  induction l generalizing K with
  | nil => rfl
  | cons c l ih =>
    obtain ⟨hc, hl⟩ := not_or.mp fun e => h (List.mem_cons.mpr e)
    rw [hand_cons, ih _ hl, push_next, if_neg hc]

end

/-- Handing the nodes of `l` over turns them round and puts them before the children there. -/
theorem hand_chain {K : Kin α} {i : α} {l k : List α} (hl : l.Nodup) (hd : ∀ a ∈ l, a ∉ k)
    (h : Chain K.next (K.first i) k) :
    Chain (K.hand i l).next ((K.hand i l).first i) (l.reverse ++ k) := by
  induction l generalizing K k with
  | nil => exact h
  | cons c l ih =>
    obtain ⟨hcl, hl⟩ := List.nodup_cons.mp hl
    rw [List.reverse_cons, List.append_assoc, hand_cons]
    refine ih (K := K.push i c) (k := c :: k) hl (fun a ha hk => ?_) ?_
    · rcases List.mem_cons.mp hk with rfl | hk
      · exact hcl ha
      · exact hd a (.tail c ha) hk
    rw [push_first, if_pos rfl]
    refine ⟨rfl, ?_⟩
    rw [push_next, if_pos rfl]
    refine (Chain.congr fun a ha => ?_).mpr h
    rw [push_next, if_neg]
    rintro rfl
    exact hd a (.head l) ha

end Operations

/-! ## 3. Forests -/

def Above (K : Kin α) (q p : α) : Prop := K.parent p = some q

/-- `p` stands in the tree of `r`. -/
def Rooted (K : Kin α) (r p : α) : Prop := Relation.ReflTransGen K.Above r p

/-- Following first-child and next-sibling pointers from `p` on meets the node. -/
inductive Meets (K : Kin α) : Option α → α → Prop where
  | here (a : α) : Meets K (some a) a
  | child {c a : α} (h : Meets K (K.first c) a) : Meets K (some c) a
  | sibling {c a : α} (h : Meets K (K.next c) a) : Meets K (some c) a

variable {K : Kin α} {p : Option α} {a c : α} {l : List α}

theorem Meets.trans (h : K.Meets p c) (h' : K.Meets (K.first c) a) : K.Meets p a := by
  induction h with
  | here => exact .child h'
  | child _ ih => exact .child (ih h')
  | sibling _ ih => exact .sibling (ih h')

theorem Meets.of_chain (h : Chain K.next p l) (ha : a ∈ l) : K.Meets p a := by
  induction l generalizing p with
  | nil => cases ha
  | cons c l ih =>
    obtain ⟨rfl, h⟩ := h
    rcases List.mem_cons.mp ha with rfl | ha
    · exact .here _
    · exact .sibling (ih h ha)

end Kin

/-- The pointers spell a forest on the nodes `live`, with the trees of the nodes `root`, and
    `kids q` are the children of `q` in the order of the pointers. -/
structure Forest (K : Kin α) (live root : α → Prop) (kids : α → List α) : Prop where
  chain (q : α) : Chain K.next (K.first q) (kids q)
  nodup (q : α) : (kids q).Nodup
  mem (q p : α) : p ∈ kids q ↔ K.parent p = some q
  live_child {p q : α} : K.parent p = some q → live p
  live_parent {p q : α} : K.parent p = some q → live q
  root_live {r : α} : root r → live r
  root_parent {r : α} : root r → K.parent r = none
  root_next {r : α} : root r → K.next r = none
  rooted {p : α} : live p → ∃ r, root r ∧ K.Rooted r p

namespace Forest

open Function

open Kin

variable {K K' : Kin α} {live root : α → Prop} {kids : α → List α} {p q r c i a b : α}

section

variable (F : Forest K live root kids)
include F

/-- A node is a root or the child of a node. -/
theorem root_or_child (h : live p) :
    root p ∨ ∃ q, K.parent p = some q := by
  obtain ⟨r, hr, hp⟩ := F.rooted h
  rcases Relation.ReflTransGen.cases_tail hp with rfl | ⟨q, -, hq⟩
  · exact .inl hr
  · exact .inr ⟨q, hq⟩

/-- A root is nobody's child. -/
theorem root_notMem (h : root r) (q : α) : r ∉ kids q := fun hr => by
  have := (F.mem q r).mp hr
  rw [F.root_parent h] at this
  cases this

theorem wellFounded : WellFounded K.Above := by
  refine ⟨fun p => ?_⟩
  by_cases h : live p
  · obtain ⟨r, hr, hp⟩ := F.rooted h
    clear h
    induction hp with
    | refl => exact ⟨r, fun y hy => by rw [Above, F.root_parent hr] at hy; cases hy⟩
    | tail _ hq ih =>
      refine ⟨_, fun y hy => ?_⟩
      cases hq.symm.trans hy
      exact ih
  · exact ⟨p, fun y hy => absurd (F.live_child hy) h⟩

/-- **No node stands above itself.** -/
theorem acyclic (p : α) : ¬ Relation.TransGen K.Above p p :=
  fun h => F.wellFounded.transGen.irrefl.irrefl p h

theorem exists_depth :
    ∃ d : α → ℕ, ∀ q p, K.parent p = some q → d p = d q + 1 := by
  let d := F.wellFounded.fix (C := fun _ => ℕ) fun p ih =>
    match h : K.parent p with
    | none => 0
    | some q => ih q h + 1
  refine ⟨d, fun q p h => ?_⟩
  show F.wellFounded.fix _ p = _
  rw [F.wellFounded.fix_eq]
  split
  · next h' => rw [h'] at h; cases h
  · next q' h' =>
      cases h'.symm.trans h
      rfl

/-- **Nodes can be numbered so that both pointers lead to a greater number.** -/
theorem exists_rank [DecidableEq α] :
    ∃ rank : α → ℕ ×ₗ ℕ, ∀ a b, live a → (K.first a = some b ∨ K.next a = some b) →
      rank a < rank b := by
  obtain ⟨d, hd⟩ := F.exists_depth
  refine ⟨fun p => toLex (d p, match K.parent p with
    | none => 0
    | some q => (kids q).idxOf p), fun a b ha h => ?_⟩
  rw [Prod.Lex.toLex_lt_toLex]
  rcases h with h | h
  · have hb := (F.mem a b).mp ((F.chain a).head_mem h)
    exact .inl (by show d a < d b; have := hd a b hb; omega)
  rcases F.root_or_child ha with hr | ⟨q, hq⟩
  · rw [F.root_next hr] at h
    cases h
  have ha' := (F.mem q a).mpr hq
  have hb := (F.mem q b).mp ((F.chain q).next_mem ha' h)
  refine .inr ⟨?_, ?_⟩
  · show d a = d b
    rw [hd q a hq, hd q b hb]
  · simp only [hq, hb]
    exact (F.chain q).idxOf_next (F.nodup q) ha' h

/-- **Below a root a search along the pointers meets every node of its tree.** -/
theorem found (h : K.Rooted r p) (hne : p ≠ r) :
    K.Meets (K.first r) p := by
  induction h with
  | refl => exact absurd rfl hne
  | @tail q p h hq ih =>
    have hp := Meets.of_chain (F.chain q) ((F.mem q p).mpr hq)
    by_cases hqr : q = r
    · exact hqr ▸ hp
    · exact (ih hqr).trans hp

end

/-! ## 4. The operations keep a forest -/

section Operations

variable [DecidableEq α]

section

variable (F : Forest K live root kids)
include F

omit [DecidableEq α] in
/-- A new node stands alone. -/
theorem lone (ha : ¬ live a) (hn : K.next a = none) :
    Forest K (fun b => live b ∨ b = a) (fun r => root r ∨ r = a) kids where
  chain := F.chain
  nodup := F.nodup
  mem := F.mem
  live_child h := .inl (F.live_child h)
  live_parent h := .inl (F.live_parent h)
  root_live h := h.imp_left F.root_live
  root_parent {r} h := by
    rcases h with h | rfl
    · exact F.root_parent h
    · exact Option.eq_none_iff_forall_ne_some.mpr fun q hq => ha (F.live_child hq)
  root_next {r} h := by
    rcases h with h | rfl
    · exact F.root_next h
    · exact hn
  rooted {p} h := by
    rcases h with h | rfl
    · obtain ⟨r, hr, hp⟩ := F.rooted h
      exact ⟨r, .inl hr, hp⟩
    · exact ⟨p, .inr rfl, .refl⟩

omit [DecidableEq α] in
/-- Below a node without children is nobody else. -/
theorem rooted_leaf (ha : K.first a = none) (h : K.Rooted a p) :
    p = a := by
  have hk : kids a = [] := by
    have := F.chain a
    rw [ha] at this
    exact Chain.none_iff.mp this
  rcases Relation.ReflTransGen.cases_head h with e | ⟨b, hb, -⟩
  · exact e.symm
  · have := (F.mem a b).mpr hb
    rw [hk] at this
    cases this

/-- A root `c` becomes a child of a node of another tree. -/
theorem push (hc : root c) (hq : live q) (hqc : ¬ K.Rooted c q) :
    Forest (K.push q c) live (fun r => root r ∧ r ≠ c) (update kids q (c :: kids q)) where
  chain q' := by
    by_cases h : q' = q
    · subst h
      rw [update_self, push_first, if_pos rfl]
      refine ⟨rfl, ?_⟩
      rw [push_next, if_pos rfl]
      refine (Chain.congr fun a ha => ?_).mpr (F.chain q')
      rw [push_next, if_neg]
      rintro rfl
      exact F.root_notMem hc q' ha
    · rw [update_of_ne h, push_first, if_neg h]
      refine (Chain.congr fun a ha => ?_).mpr (F.chain q')
      rw [push_next, if_neg]
      rintro rfl
      exact F.root_notMem hc q' ha
  nodup q' := by
    by_cases h : q' = q
    · subst h
      rw [update_self]
      exact List.nodup_cons.mpr ⟨F.root_notMem hc q', F.nodup q'⟩
    · rw [update_of_ne h]
      exact F.nodup q'
  mem q' p := by
    rw [push_parent, update_apply]
    by_cases hp : p = c
    · subst hp
      rw [if_pos rfl]
      by_cases h : q' = q
      · simp [h]
      · rw [if_neg h]
        exact ⟨fun h' => absurd h' (F.root_notMem hc q'), fun h' => absurd (Option.some.inj h').symm h⟩
    · rw [if_neg hp, ← F.mem]
      split
      · next h => rw [h, List.mem_cons, or_iff_right hp]
      · rfl
  live_child {p q'} h := by
    rw [push_parent] at h
    split at h
    · next hp => exact hp ▸ F.root_live hc
    · exact F.live_child h
  live_parent {p q'} h := by
    rw [push_parent] at h
    split at h
    · cases h
      exact hq
    · exact F.live_parent h
  root_live h := F.root_live h.1
  root_parent h := by rw [push_parent, if_neg h.2, F.root_parent h.1]
  root_next h := by rw [push_next, if_neg h.2, F.root_next h.1]
  rooted {p} hp := by
    have up : ∀ a b, K.Above a b → (K.push q c).Above a b := fun a b h => by
      rw [Above, push_parent, if_neg]
      · exact h
      · rintro rfl
        rw [Above, F.root_parent hc] at h
        cases h
    obtain ⟨r', hr', hq'⟩ := F.rooted hq
    obtain ⟨r, hr, hp⟩ := F.rooted hp
    by_cases hrc : r = c
    · subst hrc
      refine ⟨r', ⟨hr', fun e => hqc (e ▸ hq')⟩, ?_⟩
      have hqr : (K.push q r).Above q r := by rw [Above, push_parent, if_pos rfl]
      exact ((Relation.ReflTransGen.mono up _ _ hq').tail hqr).trans (Relation.ReflTransGen.mono up _ _ hp)
    · exact ⟨r, ⟨hr, hrc⟩, Relation.ReflTransGen.mono up _ _ hp⟩

/-- A child `c` of `q` is taken out and becomes a root, whatever way the pointers are mended. -/
theorem cut (hc : K.parent c = some q)
    (hp : K'.parent = update K.parent c none) (hn : K'.next c = none)
    (hq : Chain K'.next (K'.first q) ((kids q).erase c))
    (hf : ∀ a, a ≠ q → K'.first a = K.first a) (hx : ∀ a, a ∉ kids q → K'.next a = K.next a) :
    Forest K' live (fun r => root r ∨ r = c) (update kids q ((kids q).erase c)) where
  chain q' := by
    by_cases h : q' = q
    · subst h
      rw [update_self]
      exact hq
    rw [update_of_ne h, hf q' h]
    refine (Chain.congr fun a ha => hx a fun ha' => h ?_).mpr (F.chain q')
    have h₁ := (F.mem q' a).mp ha
    exact Option.some.inj (h₁.symm.trans ((F.mem q a).mp ha'))
  nodup q' := by
    rw [update_apply]
    split
    · exact (F.nodup q).erase c
    · exact F.nodup q'
  mem q' p := by
    rw [hp, update_apply, update_apply]
    by_cases hpc : p = c
    · subst hpc
      rw [if_pos rfl]
      split
      · exact ⟨fun h => absurd h (F.nodup q).not_mem_erase, fun h => nomatch h⟩
      · next h =>
          refine ⟨fun h' => absurd ?_ h, fun h => nomatch h⟩
          exact Option.some.inj (((F.mem q' p).mp h').symm.trans hc)
    · rw [if_neg hpc, ← F.mem]
      split
      · next h => rw [h, List.mem_erase_of_ne hpc]
      · rfl
  live_child {p q'} h := by
    rw [hp, update_apply] at h
    split at h
    · cases h
    · exact F.live_child h
  live_parent {p q'} h := by
    rw [hp, update_apply] at h
    split at h
    · cases h
    · exact F.live_parent h
  root_live h := by
    rcases h with h | rfl
    · exact F.root_live h
    · exact F.live_child hc
  root_parent {r} h := by
    rw [hp, update_apply]
    split
    · rfl
    · next hr => exact F.root_parent (h.resolve_right hr)
  root_next {r} h := by
    rcases h with h | rfl
    · rw [hx r (F.root_notMem h q), F.root_next h]
    · exact hn
  rooted {p} h := by
    obtain ⟨r, hr, h⟩ := F.rooted h
    induction h with
    | refl => exact ⟨r, .inl hr, .refl⟩
    | @tail q' p _ hq' ih =>
      by_cases hpc : p = c
      · exact ⟨p, .inr hpc, .refl⟩
      obtain ⟨r', hr', h'⟩ := ih (F.live_parent hq')
      refine ⟨r', hr', h'.tail ?_⟩
      rw [Above, hp, update_of_ne hpc]
      exact hq'

theorem cutFirst (h : K.first q = some c) :
    Forest (K.cutFirst q c) live (fun r => root r ∨ r = c)
      (update kids q ((kids q).erase c)) := by
  have hch := F.chain q
  rw [h] at hch
  have hc := (F.mem q c).mp (Chain.head_mem hch rfl)
  refine F.cut hc rfl (update_self ..) ?_ (fun a ha => update_of_ne ha ..)
    fun a ha => update_of_ne ?_ ..
  · rw [cutFirst_first, if_pos rfl]
    have hn : ∀ a, a ≠ c → (K.cutFirst q c).next a = K.next a := fun a ha =>
      update_of_ne ha ..
    exact hch.erase_first (F.nodup q) hn
  · rintro rfl
    exact ha ((F.mem q a).mpr hc)

theorem cutAfter (hb : b ∈ kids q) (h : K.next b = some c) :
    Forest (K.cutAfter b c) live (fun r => root r ∨ r = c)
      (update kids q ((kids q).erase c)) := by
  have hc := (F.chain q).next_mem hb h
  have hbc : b ≠ c := by
    rintro rfl
    have := (F.chain q).idxOf_next (F.nodup q) hb h
    omega
  have hnext : ∀ a, a ≠ b → a ≠ c → (K.cutAfter b c).next a = K.next a := fun a hab hac => by
    rw [cutAfter_next, if_neg hac, if_neg hab]
  refine F.cut ((F.mem q c).mp hc) rfl (update_self ..) ?_ (fun a ha => rfl)
    fun a ha => hnext a ?_ ?_
  · refine (F.chain q).erase_after (F.nodup q) hb h ?_ hnext
    rw [cutAfter_next, if_neg hbc, if_pos rfl]
  · rintro rfl
    exact ha hb
  · rintro rfl
    exact ha hc

/-- All children of the root `p` are handed to a node `i` of another tree. -/
theorem adopt (hp : root p) (hi : live i) (hpi : ¬ K.Rooted p i) :
    Forest ((K.hand i (kids p)).clearFirst p) live root
      (update (update kids i ((kids p).reverse ++ kids i)) p []) := by
  have hne : i ≠ p := by
    rintro rfl
    exact hpi .refl
  have hd : ∀ q, q ≠ p → ∀ a ∈ kids q, a ∉ kids p := fun q hq a ha ha' =>
    hq (Option.some.inj (((F.mem q a).mp ha).symm.trans ((F.mem p a).mp ha')))
  have hpar : ∀ a, ((K.hand i (kids p)).clearFirst p).parent a =
      if a ∈ kids p then some i else K.parent a := hand_parent K i (kids p)
  refine
    { chain := fun q => ?_, nodup := fun q => ?_, mem := fun q a => ?_, live_child := fun {a q} h => ?_,
      live_parent := fun {a q} h => ?_, root_live := F.root_live, root_parent := fun {r} h => ?_,
      root_next := fun {r} h => ?_, rooted := fun {a} h => ?_ }
  · by_cases hq : q = p
    · subst hq
      rw [update_self]
      rw [clearFirst_first, if_pos rfl]
      exact Chain.none_iff.mpr rfl
    rw [update_of_ne hq, clearFirst_first, if_neg hq]
    by_cases hqi : q = i
    · subst hqi
      rw [update_self]
      exact hand_chain (F.nodup p) (fun a ha ha' => hd q hq a ha' ha) (F.chain q)
    · rw [update_of_ne hqi, hand_first K hqi]
      exact (Chain.congr fun a ha => hand_next K i (hd q hq a ha)).mpr (F.chain q)
  · rw [update_apply]
    split
    · exact List.nodup_nil
    rw [update_apply]
    split
    · refine List.nodup_append.mpr ⟨List.nodup_reverse.mpr (F.nodup p), F.nodup i, ?_⟩
      rintro a ha b hb rfl
      exact hd i hne a hb (List.mem_reverse.mp ha)
    · exact F.nodup q
  · rw [hpar, update_apply, update_apply]
    by_cases ha : a ∈ kids p
    · rw [if_pos ha]
      split
      · next h => subst h; exact ⟨(fun h => nomatch h), fun h => absurd (Option.some.inj h) hne⟩
      next hq =>
        split
        · next h => simp [h, ha]
        · next h =>
            exact ⟨fun h' => absurd ha (hd q hq a h'), fun h' => absurd (Option.some.inj h').symm h⟩
    · rw [if_neg ha, ← F.mem]
      split
      · next h => subst h; exact ⟨(fun h => nomatch h), fun h => absurd h ha⟩
      · split
        · next h => simp [h, ha]
        · rfl
  · rw [hpar] at h
    split at h
    · next ha => exact F.live_child ((F.mem p a).mp ha)
    · exact F.live_child h
  · rw [hpar] at h
    split at h
    · cases h
      exact hi
    · exact F.live_parent h
  · rw [hpar, if_neg (F.root_notMem h p), F.root_parent h]
  · show (K.hand i (kids p)).next r = none
    rw [hand_next K i (F.root_notMem h p), F.root_next h]
  · -- first the way to `i`, which does not pass `p`; the children of `p` hang on it
    have stay : ∀ r b, K.Rooted r b → ¬ K.Rooted p b →
        ((K.hand i (kids p)).clearFirst p).Rooted r b := fun r b h hb => by
      induction h with
      | refl => exact .refl
      | @tail q b _ hq ih =>
        refine (ih fun h => hb (h.tail hq)).tail ?_
        rw [Above, hpar, if_neg]
        · exact hq
        · intro h'
          exact hb (.tail .refl ((F.mem p b).mp h'))
    obtain ⟨ri, hri, h₀⟩ := F.rooted hi
    have hi' := stay ri i h₀ hpi
    obtain ⟨r, hr, h⟩ := F.rooted h
    induction h with
    | refl => exact ⟨r, hr, .refl⟩
    | @tail q b _ hq ih =>
      by_cases hb : b ∈ kids p
      · exact ⟨ri, hri, hi'.tail (by rw [Above, hpar, if_pos hb])⟩
      · obtain ⟨r', hr', h'⟩ := ih (F.live_parent hq)
        exact ⟨r', hr', h'.tail (by rw [Above, hpar, if_neg hb]; exact hq)⟩

/-- A root without children goes. -/
theorem drop (hp : root p) (hk : kids p = []) :
    Forest (K.forget p) (fun a => live a ∧ a ≠ p) (fun r => root r ∧ r ≠ p) kids := by
  have hpar : ∀ a, (K.forget p).parent a = K.parent a := fun a => by
    rw [forget_parent]
    split
    · next h => rw [h, F.root_parent hp]
    · rfl
  have hchild : ∀ {a q}, K.parent a = some q → a ≠ p := fun h e => by
    rw [e, F.root_parent hp] at h
    cases h
  have hparent : ∀ {a q}, K.parent a = some q → q ≠ p := fun {a q} h e => by
    have := (F.mem p a).mpr (e ▸ h)
    rw [hk] at this
    cases this
  have hnext : ∀ a, a ≠ p → (K.forget p).next a = K.next a := fun a h => by
    rw [forget_next, if_neg h]
  refine
    { chain := fun q => ?_, nodup := F.nodup, mem := fun q a => ?_,
      live_child := fun {a q} h => ?_, live_parent := fun {a q} h => ?_,
      root_live := fun h => ⟨F.root_live h.1, h.2⟩,
      root_parent := fun {r} h => by rw [hpar, F.root_parent h.1],
      root_next := fun {r} h => by rw [hnext r h.2, F.root_next h.1], rooted := fun {a} h => ?_ }
  · by_cases hq : q = p
    · subst hq
      rw [hk]
      rw [forget_first, if_pos rfl]
      exact Chain.none_iff.mpr rfl
    · rw [forget_first, if_neg hq]
      refine (Chain.congr fun a ha => hnext a ?_).mpr (F.chain q)
      exact hchild ((F.mem q a).mp ha)
  · rw [hpar, F.mem]
  · rw [hpar] at h
    exact ⟨F.live_child h, hchild h⟩
  · rw [hpar] at h
    exact ⟨F.live_parent h, hparent h⟩
  · obtain ⟨r, hr, hra⟩ := F.rooted h.1
    have hrp : r ≠ p := by
      rintro rfl
      rcases Relation.ReflTransGen.cases_head hra with e | ⟨b, hb, -⟩
      · exact h.2 e.symm
      · exact hparent hb rfl
    exact ⟨r, ⟨hr, hrp⟩, Relation.ReflTransGen.mono (fun b c hbc => (hpar c).trans hbc) _ _ hra⟩

end

end Operations

end Forest
