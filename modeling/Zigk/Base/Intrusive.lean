/-
  Subject:   INTRUSIVE DOUBLY LINKED LISTS: the links live in the elements, one head and one tail
             pointer outside.

  The links are kept field by field (`next` and `prev` as maps over the pointers), so that an
  update of one element's field is a point update and every other element is untouched by
  definition. A list is READ off the links:

  * `Chain L b l a` -- the elements of `l` are chained in this order, with `b` before the first
    and `a` after the last;
  * `Linked L l` -- head, tail and both link fields together spell `l`, without repetition;
  * `linked_insertTail`, `linked_insertHead`, `linked_remove` -- **insertion appends or prepends,
    removal erases**;
  * `chain_congr` -- elements outside the list do not matter.
-/
import Mathlib.Data.List.Nodup

structure Links (P : Type*) where
  head : Option P
  tail : Option P
  next : P → Option P
  prev : P → Option P

namespace Links

open List

open Function

variable {P : Type*}

/-- No element at all. -/
def empty : Links P := ⟨none, none, fun _ => none, fun _ => none⟩

/-! ## 1. Operations -/

section Operations

variable [DecidableEq P]

def setNext (L : Links P) (p : P) (n : Option P) : Links P :=
  { L with next := update L.next p n }

def setPrev (L : Links P) (p : P) (b : Option P) : Links P :=
  { L with prev := update L.prev p b }

/-- Insertion at the tail. -/
def insertTail (L : Links P) (p : P) : Links P :=
  let L := L.setNext p none
  let L := L.setPrev p L.tail
  let L := match L.tail with
    | some t => L.setNext t (some p)
    | none => { L with head := some p }
  { L with tail := some p }

/-- Insertion at the head. -/
def insertHead (L : Links P) (p : P) : Links P :=
  let L := L.setPrev p none
  let L := L.setNext p L.head
  let L := match L.head with
    | some q => L.setPrev q (some p)
    | none => { L with tail := some p }
  { L with head := some p }

/-- Removal through the links of the element itself. -/
def remove (L : Links P) (p : P) : Links P :=
  let L := match L.prev p with
    | some b => L.setNext b (L.next p)
    | none => { L with head := L.next p }
  let L := match L.next p with
    | some n => L.setPrev n (L.prev p)
    | none => { L with tail := L.prev p }
  (L.setNext p none).setPrev p none

/-- The first element `p` leaves. -/
def popHead (L : Links P) (p : P) : Links P :=
  let L := { L with head := L.next p }
  let L := match L.head with
    | some n => L.setPrev n none
    | none => { L with tail := none }
  (L.setNext p none).setPrev p none

/-- The last element `p` leaves. -/
def popTail (L : Links P) (p : P) : Links P :=
  let L := { L with tail := L.prev p }
  let L := match L.tail with
    | some b => L.setNext b none
    | none => { L with head := none }
  (L.setNext p none).setPrev p none

end Operations

/-! ## 2. Reading the links -/

def Chain (L : Links P) : Option P → List P → Option P → Prop
  | _, [], _ => True
  | b, p :: l, a => L.prev p = b ∧ L.next p = l.head?.or a ∧ L.Chain (some p) l a

structure Linked (L : Links P) (l : List P) : Prop where
  head : L.head = l.head?
  tail : L.tail = l.getLast?
  chain : L.Chain none l none
  nodup : l.Nodup

/-- What is found by following the links from the head. -/
inductive Reaches (L : Links P) : P → Prop where
  | head {p : P} (h : L.head = some p) : L.Reaches p
  | next {p q : P} (h : L.Reaches p) (hn : L.next p = some q) : L.Reaches q

variable {L L' : Links P} {b a : Option P} {l : List P} {p : P}

theorem linked_empty : (empty : Links P).Linked [] := ⟨rfl, rfl, trivial, nodup_nil⟩

/-- A chain depends on the links of its own elements only. -/
theorem chain_congr (hn : ∀ p ∈ l, L'.next p = L.next p) (hp : ∀ p ∈ l, L'.prev p = L.prev p) :
    L'.Chain b l a ↔ L.Chain b l a := by
  induction l generalizing b with
  | nil => rfl
  | cons q l ih =>
    simp only [Chain, hn q (.head _), hp q (.head _)]
    rw [ih (fun p h => hn p (.tail _ h)) (fun p h => hp p (.tail _ h))]

/-- The head and tail pointers are no part of a chain. -/
theorem chain_ends {h t : Option P} :
    (⟨h, t, L.next, L.prev⟩ : Links P).Chain b l a ↔ L.Chain b l a := by
  refine chain_congr (fun _ _ => ?_) fun _ _ => ?_ <;> rfl

variable {l₁ l₂ : List P} {n : Option P}

theorem chain_append : L.Chain b (l₁ ++ l₂) a ↔
      L.Chain b l₁ (l₂.head?.or a) ∧ L.Chain (l₁.getLast?.or b) l₂ a := by
  induction l₁ generalizing b with
  | nil => simp [Chain]
  | cons q l₁ ih =>
    have hl : (q :: l₁).getLast?.or b = l₁.getLast?.or (some q) := by
      cases l₁ with
      | nil => simp
      | cons r l₁ => simp [getLast?_cons]
    have hh : (l₁ ++ l₂).head?.or a = l₁.head?.or (l₂.head?.or a) := by
      rw [head?_append, Option.or_assoc]
    simp only [cons_append, Chain, ih, hl, hh, and_assoc]

/-- In the middle of a chain the links are the neighbours. -/
theorem chain_middle : L.Chain b (l₁ ++ p :: l₂) a ↔
      L.Chain b l₁ (some p) ∧ L.prev p = l₁.getLast?.or b ∧ L.next p = l₂.head?.or a ∧
        L.Chain (some p) l₂ a := by
  simp [chain_append, Chain]

section Updates

variable [DecidableEq P]

theorem chain_setNext_of_notMem (h : p ∉ l) : (L.setNext p n).Chain b l a ↔ L.Chain b l a :=
  chain_congr (fun q hq => update_of_ne (fun e => h (by rwa [← e])) _ _) fun _ _ => rfl

theorem chain_setPrev_of_notMem (h : p ∉ l) : (L.setPrev p n).Chain b l a ↔ L.Chain b l a :=
  chain_congr (fun _ _ => rfl) fun q hq => update_of_ne (fun e => h (by rwa [← e])) _ _

/-- A new element after the last one: only the last element's `next` has to change. -/
theorem chain_setNext_last {t : P} (h : L.Chain b (l ++ [t]) a)
    (hd : (l ++ [t]).Nodup) : (L.setNext t n).Chain b (l ++ [t]) n := by
  have ht : t ∉ l := fun hm => (nodup_append.mp hd).2.2 t hm t (by simp) rfl
  rw [chain_middle] at h ⊢
  obtain ⟨h1, h2, -, -⟩ := h
  exact ⟨(chain_setNext_of_notMem ht).mpr h1, h2, by simp [setNext], trivial⟩

/-- A new element before the first one: only the first element's `prev` has to change. -/
theorem chain_setPrev_first {q : P} {b' : Option P} (h : L.Chain b (q :: l) a)
    (hd : (q :: l).Nodup) : (L.setPrev q b').Chain b' (q :: l) a := by
  have hq : q ∉ l := (nodup_cons.mp hd).1
  obtain ⟨-, h2, h3⟩ := h
  exact ⟨by simp [setPrev], h2, (chain_setPrev_of_notMem hq).mpr h3⟩

/-! ## 3. What the operations do to the reading -/

/-- **Insertion at the tail appends.** -/
theorem linked_insertTail (h : L.Linked l) (hp : p ∉ l) : (L.insertTail p).Linked (l ++ [p]) := by
  have hd : (l ++ [p]).Nodup := by
    rw [nodup_append]
    exact ⟨h.nodup, nodup_singleton p, fun a ha c hc => by
      rw [mem_singleton.mp hc]
      exact fun e => hp (e ▸ ha)⟩
  rcases eq_nil_or_concat' l with rfl | ⟨l₀, t, rfl⟩
  · have ht : L.tail = none := h.tail
    simp only [insertTail, setNext, setPrev, ht]
    exact ⟨by simp, by simp, by simp [Chain], hd⟩
  have ht : L.tail = some t := by rw [h.tail]; simp
  have htp : t ≠ p := fun e => hp (by simp [e])
  simp only [insertTail, setNext, setPrev, ht]
  refine ⟨?_, by simp, ?_, hd⟩
  · show L.head = _
    rw [h.head]
    cases l₀ <;> simp
  rw [chain_append]
  refine ⟨?_, by simp [Chain, update_of_ne (Ne.symm htp)]⟩
  have hc := chain_setNext_last (n := some p) h.chain h.nodup
  have hqp : ∀ q ∈ l₀ ++ [t], q ≠ p := fun q hq e => hp (by rwa [← e])
  refine (chain_congr (fun q hq => ?_) fun q hq => ?_).mpr hc
  · simp only [setNext, update_apply, hqp q hq, if_false]
  · exact update_of_ne (hqp q hq) _ _

/-- **Insertion at the head prepends.** -/
theorem linked_insertHead (h : L.Linked l) (hp : p ∉ l) : (L.insertHead p).Linked (p :: l) := by
  have hd : (p :: l).Nodup := nodup_cons.mpr ⟨hp, h.nodup⟩
  cases l with
  | nil =>
    have hh : L.head = none := h.head
    simp only [insertHead, setNext, setPrev, hh]
    exact ⟨by simp, by simp, by simp [Chain], hd⟩
  | cons q l =>
    have hh : L.head = some q := h.head
    have hqp : q ≠ p := fun e => hp (e ▸ mem_cons_self)
    simp only [insertHead, setNext, setPrev, hh]
    refine ⟨by simp, ?_, ?_, hd⟩
    · show L.tail = _
      rw [h.tail, getLast?_cons_cons]
    refine ⟨by simp [update_of_ne hqp.symm], by simp, ?_⟩
    have hc : (L.setPrev q (some p)).Chain (some p) (q :: l) none :=
      chain_setPrev_first h.chain h.nodup
    have hne : ∀ r ∈ q :: l, r ≠ p := fun r hr e => hp (by rwa [← e])
    refine (chain_congr (fun r hr => ?_) fun r hr => ?_).mpr hc
    · exact update_of_ne (hne r hr) _ _
    · simp only [setPrev, update_apply, hne r hr, if_false]

/-- Taking one element out of the middle: its neighbours are linked to each other. -/
theorem chain_bridge (h : L.Chain none (l₁ ++ p :: l₂) none) (hd : (l₁ ++ p :: l₂).Nodup) :
    (L.remove p).Chain none (l₁ ++ l₂) none ∧
      (L.remove p).head = (if l₁ = [] then l₂.head? else L.head) ∧
      (L.remove p).tail = (if l₂ = [] then l₁.getLast? else L.tail) := by
  obtain ⟨h1, hb, hn, h2⟩ := chain_middle.mp h
  rw [Option.or_none] at hb hn
  obtain ⟨hd1, hd2, hdis⟩ := nodup_append.mp hd
  have hp1 : p ∉ l₁ := fun hm => hdis p hm p (.head _) rfl
  have hp2 : p ∉ l₂ := (nodup_cons.mp hd2).1
  have hl2 : l₂.Nodup := (nodup_cons.mp hd2).2
  have h12 : ∀ q ∈ l₁, q ∉ l₂ := fun q hq hm => hdis q hq q (.tail _ hm) rfl
  -- The four shapes of the neighbourhood: each side is either an end of the list or not.
  rcases eq_nil_or_concat' l₁ with rfl | ⟨m₁, s, rfl⟩
  · cases l₂ with
    | nil =>
      simp only [getLast?_nil, head?_nil] at hb hn
      simp [remove, setNext, setPrev, hb, hn, Chain]
    | cons q l₂ =>
      simp only [getLast?_nil, head?_cons] at hb hn
      simp only [remove, hb, hn]
      refine ⟨?_, by simp [setNext, setPrev], by simp [setNext, setPrev]⟩
      rw [nil_append, chain_setPrev_of_notMem hp2, chain_setNext_of_notMem hp2]
      exact chain_setPrev_first (chain_ends.mpr h2) hl2
  have hs : (m₁ ++ [s]).getLast? = some s := by simp
  have hne : m₁ ++ [s] ≠ [] := by simp
  rw [hs] at hb
  have hps : p ≠ s := fun e => hp1 (by simp [e])
  cases l₂ with
  | nil =>
    simp only [head?_nil] at hn
    have hn' : (L.setNext s none).next p = none := by
      rw [setNext]
      simp only [update_of_ne hps, hn]
    simp only [remove, hb, hn, hn']
    refine ⟨?_, by simp [setNext, setPrev], by simp [setNext, setPrev, hb]⟩
    rw [append_nil, chain_setPrev_of_notMem hp1, chain_setNext_of_notMem hp1]
    exact chain_ends.mpr (chain_setNext_last h1 hd1)
  | cons q l₂ =>
    simp only [head?_cons] at hn
    have hn' : (L.setNext s (some q)).next p = some q := by
      rw [setNext]
      simp only [update_of_ne hps, hn]
    have hb' : (L.setNext s (some q)).prev p = some s := hb
    simp only [remove, hb, hn, hn', hb']
    refine ⟨?_, by simp [setNext, setPrev], by simp [setNext, setPrev]⟩
    have hpl : p ∉ (m₁ ++ [s]) ++ q :: l₂ := by
      simp only [mem_append, not_or]
      exact ⟨by simpa [not_or] using hp1, hp2⟩
    rw [chain_setPrev_of_notMem hpl, chain_setNext_of_notMem hpl, chain_append]
    constructor
    · rw [chain_setPrev_of_notMem (fun hm => h12 q hm (.head _))]
      exact chain_setNext_last h1 hd1
    · rw [hs]
      refine chain_setPrev_first (b := some p) ?_ hl2
      rw [chain_setNext_of_notMem (h12 s (by simp))]
      exact h2

/-- **Removal erases.** -/
theorem linked_remove (h : L.Linked l) (hp : p ∈ l) : (L.remove p).Linked (l.erase p) := by
  obtain ⟨l₁, l₂, rfl⟩ := append_of_mem hp
  have hp1 : p ∉ l₁ := fun hm => (nodup_append.mp h.nodup).2.2 p hm p (.head _) rfl
  have he : (l₁ ++ p :: l₂).erase p = l₁ ++ l₂ := by
    rw [erase_append_right _ hp1, erase_cons_head]
  obtain ⟨hc, hh, ht⟩ := chain_bridge h.chain h.nodup
  rw [he]
  refine ⟨?_, ?_, hc, he ▸ h.nodup.erase p⟩
  · rw [hh, h.head]
    cases l₁ <;> simp
  rw [ht, h.tail]
  rcases eq_nil_or_concat' l₂ with rfl | ⟨m, s, rfl⟩
  · simp
  · simp [getLast?_cons]

end Updates

/-- The links of an element lead to elements. -/
theorem linked_neighbours (h : L.Linked l) (hp : p ∈ l) {q : P}
    (hq : L.next p = some q ∨ L.prev p = some q) : q ∈ l := by
  obtain ⟨l₁, l₂, rfl⟩ := append_of_mem hp
  obtain ⟨-, hb, hn, -⟩ := chain_middle.mp h.chain
  rw [Option.or_none] at hb hn
  rcases hq with hq | hq
  · rw [hn] at hq
    exact mem_append_right _ (mem_cons_of_mem _ (mem_of_head? hq))
  · rw [hb] at hq
    exact mem_append_left _ (mem_of_getLast? hq)

/-- An element without a predecessor is the first one. -/
theorem linked_prev_none (h : L.Linked l) (hp : p ∈ l) : L.prev p = none ↔ L.head = some p := by
  obtain ⟨l₁, l₂, rfl⟩ := append_of_mem hp
  obtain ⟨-, hb, -, -⟩ := chain_middle.mp h.chain
  rw [hb, Option.or_none, h.head]
  rcases eq_nil_or_concat' l₁ with rfl | ⟨m, s, rfl⟩
  · simp
  have hs : s ≠ p := fun e =>
    (nodup_append.mp h.nodup).2.2 s (by simp) p (.head _) e
  cases m with
  | nil => simpa using hs
  | cons r m =>
    have hr : r ≠ p := fun e =>
      (nodup_append.mp h.nodup).2.2 r (by simp) p (.head _) e
    simpa using hr

section Pops

variable [DecidableEq P]

/-- Popping the head is removing it. -/
theorem popHead_eq_remove (hp : L.prev p = none) : L.popHead p = L.remove p := by
  unfold popHead remove
  simp only [hp]

/-- Popping the tail is removing it. -/
theorem popTail_eq_remove (hp : L.next p = none) : L.popTail p = L.remove p := by
  unfold popTail remove
  cases hb : L.prev p with
  | none => simp only [hp, hb]
  | some b => simp [hp, hb, setNext, update_apply]

/-! What the operations leave alone: the links of every element outside the list. -/

theorem insertTail_outside (h : L.Linked l) {x : P} (hx : x ∉ l) (hne : x ≠ p) :
    (L.insertTail p).next x = L.next x ∧ (L.insertTail p).prev x = L.prev x := by
  unfold insertTail
  cases ht : L.tail with
  | none => simp [setNext, setPrev, ht, update_of_ne hne]
  | some t =>
    have hxt : x ≠ t := fun e => hx (e ▸ mem_of_getLast? (h.tail.symm.trans ht))
    simp [setNext, setPrev, ht, update_of_ne hxt, update_of_ne hne]

theorem remove_outside (h : L.Linked l) (hp : p ∈ l) {x : P} (hx : x ∉ l) :
    (L.remove p).next x = L.next x ∧ (L.remove p).prev x = L.prev x := by
  have hne : x ≠ p := fun e => hx (e ▸ hp)
  have hb : ∀ b, L.prev p = some b → x ≠ b := fun b hb e =>
    hx (e ▸ linked_neighbours h hp (.inr hb))
  have hn : ∀ n, L.next p = some n → x ≠ n := fun n hn e =>
    hx (e ▸ linked_neighbours h hp (.inl hn))
  have hkey : ∀ b, update L.next b (L.next p) p = L.next p := fun b => by
    by_cases e : p = b
    · rw [← e, update_self]
    · exact update_of_ne e _ _
  unfold remove
  cases hpb : L.prev p with
  | none =>
    cases hpn : L.next p with
    | none => simp [setNext, setPrev, hpn, update_of_ne hne]
    | some n =>
      simp [setNext, setPrev, hpn, update_of_ne hne, update_of_ne (hn n hpn)]
  | some b =>
    have hxb := hb b hpb
    simp only [setNext, hkey]
    cases hpn : L.next p with
    | none => simp [setPrev, update_of_ne hne, update_of_ne hxb]
    | some n =>
      simp [setPrev, update_of_ne hne, update_of_ne hxb, update_of_ne (hn n hpn)]

/-- A removed element has no links. -/
theorem remove_self (L : Links P) (p : P) :
    (L.remove p).next p = none ∧ (L.remove p).prev p = none :=
  ⟨update_self _ _ _, update_self _ _ _⟩

end Pops

/-- Only elements are found. -/
theorem linked_reaches (h : L.Linked l) (hr : L.Reaches p) : p ∈ l := by
  induction hr with
  | head hp => exact mem_of_head? (h.head.symm.trans hp)
  | next _ hn ih => exact linked_neighbours h ih (.inl hn)

/-- From the first element on, all are found. -/
theorem chain_reaches (h : L.Chain b l a) (hh : ∀ q, l.head? = some q → L.Reaches q) (hp : p ∈ l) :
    L.Reaches p := by
  induction l generalizing b with
  | nil => exact (not_mem_nil hp).elim
  | cons q l ih =>
    obtain ⟨-, hn, hc⟩ := h
    have hq : L.Reaches q := hh q rfl
    rcases mem_cons.mp hp with rfl | hp
    · exact hq
    · refine ih hc (fun r hr => hq.next ?_) hp
      rw [hn, hr]
      rfl

theorem linked_reaches_iff (h : L.Linked l) : L.Reaches p ↔ p ∈ l :=
  ⟨linked_reaches h, chain_reaches h.chain fun _ hq => .head (h.head.trans hq)⟩

/-- What another owner does to the links of its own elements leaves the list alone. -/
theorem linked_congr (h : L.Linked l) (hh : L'.head = L.head) (ht : L'.tail = L.tail)
    (hn : ∀ p ∈ l, L'.next p = L.next p) (hp : ∀ p ∈ l, L'.prev p = L.prev p) : L'.Linked l :=
  ⟨hh.trans h.head, ht.trans h.tail, (chain_congr hn hp).mpr h.chain, h.nodup⟩

end Links
