/-
  Subject:   SEVERAL INTRUSIVE QUEUES OVER THE SAME ELEMENTS: every queue has its head, tail and
             count, all of them share the link fields of the elements.

  * `append`, `popFirst`, `popLast`, `remove`, `holds` -- the operations, as edits of the links;
  * `Reads M L` -- the queues spell the lists `L`: every queue is linked and counted, no element is
    in two of them, an element in none has no links;
  * `Reads.append`, `Reads.remove`, `Reads.popFirst`, `Reads.popLast` -- **each operation does to
    the lists what its name says**, as long as an element that is appended is in no queue and one
    that is removed is in the queue it is removed from;
  * `Reads.holds_iff` -- the test "no predecessor and not the head" decides membership.
-/
import Zigk.Base.Intrusive

structure Queues (Q P : Type*) where
  head : Q → Option P
  tail : Q → Option P
  count : Q → Nat
  next : P → Option P
  prev : P → Option P

namespace Queues

open List Links

open Function

variable {Q P : Type*}

def empty : Queues Q P := ⟨fun _ => none, fun _ => none, fun _ => 0, fun _ => none, fun _ => none⟩

/-- The queue `q` with the shared links. -/
def links (M : Queues Q P) (q : Q) : Links P := ⟨M.head q, M.tail q, M.next, M.prev⟩

section Operations

variable [DecidableEq Q]

/-- The links and the count of `q` after an operation on it. -/
def put (M : Queues Q P) (q : Q) (l : Links P) (n : Nat) : Queues Q P :=
  { head := update M.head q l.head
    tail := update M.tail q l.tail
    count := update M.count q n
    next := l.next
    prev := l.prev }

variable [DecidableEq P]

def append (M : Queues Q P) (q : Q) (p : P) : Queues Q P :=
  M.put q ((M.links q).insertTail p) (M.count q + 1)

def remove (M : Queues Q P) (q : Q) (p : P) : Queues Q P :=
  M.put q ((M.links q).remove p) (M.count q - 1)

def popFirst (M : Queues Q P) (q : Q) : Queues Q P × Option P :=
  match M.head q with
  | some p => (M.put q ((M.links q).popHead p) (M.count q - 1), some p)
  | none => (M, none)

def popLast (M : Queues Q P) (q : Q) : Queues Q P × Option P :=
  match M.tail q with
  | some p => (M.put q ((M.links q).popTail p) (M.count q - 1), some p)
  | none => (M, none)

/-- The element has a predecessor or is the head of `q`. -/
def holds (M : Queues Q P) (q : Q) (p : P) : Bool :=
  !(decide (M.prev p = none) && decide (M.head q ≠ some p))

end Operations

/-! ## 1. Reading the queues -/

structure Reads (M : Queues Q P) (L : Q → List P) : Prop where
  linked : ∀ q, (M.links q).Linked (L q)
  count : ∀ q, M.count q = (L q).length
  apart : ∀ {q q' p}, p ∈ L q → p ∈ L q' → q = q'
  loose : ∀ p, (∀ q, p ∉ L q) → M.prev p = none

variable {M : Queues Q P} {L : Q → List P} {q : Q} {p : P}

theorem reads_empty : (empty : Queues Q P).Reads fun _ => [] :=
  ⟨fun _ => linked_empty, fun _ => rfl, fun h => (not_mem_nil h).elim, fun _ _ => rfl⟩

theorem Reads.nodup (h : M.Reads L) (q : Q) : (L q).Nodup := (h.linked q).nodup

variable [DecidableEq Q] [DecidableEq P]

section

variable (h : M.Reads L)
include h

/-- An operation on `q` that touches the links of `q`'s elements only, and maybe of one loose
    element. -/
theorem Reads.put {l : Links P} {n : Nat} {L' : List P} (hl : l.Linked L')
    (hn : n = L'.length) (hout : ∀ q' ≠ q, ∀ x ∈ L q', x ∉ L')
    (hlinks : ∀ x, x ∉ L q → x ∉ L' → l.next x = M.next x ∧ l.prev x = M.prev x)
    (hgone : ∀ x ∈ L q, x ∉ L' → l.prev x = none) :
    (M.put q l n).Reads (update L q L') := by
  have hother : ∀ q' ≠ q, ∀ x ∈ L q', l.next x = M.next x ∧ l.prev x = M.prev x :=
    fun q' hne x hx => hlinks x (fun hq => hne (h.apart hx hq)) (hout q' hne x hx)
  refine ⟨fun q' => ?_, fun q' => ?_, fun {q₁ q₂ x} h₁ h₂ => ?_, fun x hx => ?_⟩
  · by_cases e : q' = q
    · subst e
      rw [update_self]
      refine linked_congr hl ?_ ?_ (fun _ _ => rfl) fun _ _ => rfl
      · exact update_self _ _ _
      · exact update_self _ _ _
    rw [update_of_ne e]
    refine linked_congr (h.linked q') ?_ ?_ (fun x hx => (hother q' e x hx).1)
      fun x hx => (hother q' e x hx).2
    · exact update_of_ne e _ _
    · exact update_of_ne e _ _
  · change update M.count q n q' = _
    by_cases e : q' = q
    · rw [e, update_self, update_self, hn]
    · rw [update_of_ne e, update_of_ne e, h.count]
  · by_cases e₁ : q₁ = q <;> by_cases e₂ : q₂ = q
    · rw [e₁, e₂]
    · rw [e₁, update_self] at h₁
      rw [update_of_ne e₂] at h₂
      exact absurd h₁ (hout q₂ e₂ x h₂)
    · rw [e₂, update_self] at h₂
      rw [update_of_ne e₁] at h₁
      exact absurd h₂ (hout q₁ e₁ x h₁)
    · rw [update_of_ne e₁] at h₁
      rw [update_of_ne e₂] at h₂
      exact h.apart h₁ h₂
  · have hx' : x ∉ L' := by simpa using hx q
    change l.prev x = none
    by_cases hq : x ∈ L q
    · exact hgone x hq hx'
    rw [(hlinks x hq hx').2]
    refine h.loose x fun q' hin => ?_
    by_cases e : q' = q
    · exact hq (e ▸ hin)
    · have hno := hx q'
      rw [update_of_ne e] at hno
      exact hno hin

/-- **Appending a loose element.** -/
theorem Reads.append (hp : ∀ q, p ∉ L q) :
    (M.append q p).Reads (update L q (L q ++ [p])) := by
  refine h.put (linked_insertTail (h.linked q) (hp q)) ?_ (fun q' hne x hx hin => ?_)
    (fun x hx hx' => ?_) fun x hx hx' => ?_
  · rw [length_append, h.count]
    rfl
  · rcases mem_append.mp hin with hin | hin
    · exact hne (h.apart hx hin)
    · rw [mem_singleton.mp hin] at hx
      exact hp q' hx
  · exact insertTail_outside (h.linked q) hx fun e => hx' (by simp [e])
  · exact absurd (mem_append_left _ hx) hx'

/-- **Removing an element of the queue.** -/
theorem Reads.remove (hp : p ∈ L q) :
    (M.remove q p).Reads (update L q ((L q).erase p)) := by
  have hlinked := linked_remove (h.linked q) hp
  refine h.put hlinked ?_ (fun q' hne x hx hin => ?_) (fun x hx _ => ?_) fun x hx hx' => ?_
  · rw [length_erase_of_mem hp, h.count]
  · exact hne (h.apart hx (mem_of_mem_erase hin))
  · exact remove_outside (h.linked q) hp hx
  have hxp : x = p := by
    by_contra hne
    exact hx' ((mem_erase_of_ne hne).mpr hx)
  rw [hxp]
  exact (remove_self _ p).2

/-- An element that was removed is in no queue. -/
theorem Reads.out_of_erase (hp : p ∈ L q) (q' : Q) :
    p ∉ update L q ((L q).erase p) q' := by
  intro hq
  by_cases e : q' = q
  · rw [e, update_self] at hq
    exact (h.nodup _).not_mem_erase hq
  · rw [update_of_ne e] at hq
    exact e (h.apart hq hp)

/-- **Popping the first element.** -/
theorem Reads.popFirst {l : List P} (hl : L q = p :: l) :
    M.popFirst q = (M.remove q p, some p) ∧ (M.popFirst q).1.Reads (update L q l) := by
  have hlq : (M.links q).Linked (p :: l) := hl ▸ h.linked q
  have hhead : M.head q = some p := hlq.head
  have heq : M.popFirst q = (M.remove q p, some p) := by
    unfold Queues.popFirst Queues.remove
    rw [hhead]
    simp only
    rw [popHead_eq_remove hlq.chain.1]
  have hr := h.remove (q := q) (p := p) (by rw [hl]; exact .head _)
  rw [hl, erase_cons_head] at hr
  exact ⟨heq, by rw [heq]; exact hr⟩

theorem Reads.popFirst_nil (hl : L q = []) : M.popFirst q = (M, none) := by
  have hhead : M.head q = none := (h.linked q).head.trans (by rw [hl]; rfl)
  unfold Queues.popFirst
  rw [hhead]

/-- **Popping the last element.** -/
theorem Reads.popLast {l : List P} (hl : L q = l ++ [p]) :
    M.popLast q = (M.remove q p, some p) ∧ (M.popLast q).1.Reads (update L q l) := by
  have hlq : (M.links q).Linked (l ++ [p]) := hl ▸ h.linked q
  have htail : M.tail q = some p := hlq.tail.trans (by simp)
  obtain ⟨-, -, hn, -⟩ := chain_middle.mp hlq.chain
  have hp : p ∉ l := fun hm => (nodup_append.mp hlq.nodup).2.2 p hm p (.head _) rfl
  have heq : M.popLast q = (M.remove q p, some p) := by
    unfold Queues.popLast Queues.remove
    rw [htail]
    simp only
    rw [popTail_eq_remove hn]
  have hr := h.remove (q := q) (p := p) (by rw [hl]; simp)
  rw [hl, erase_append_right _ hp, erase_cons_head, append_nil] at hr
  exact ⟨heq, by rw [heq]; exact hr⟩

theorem Reads.popLast_nil (hl : L q = []) : M.popLast q = (M, none) := by
  have htail : M.tail q = none := (h.linked q).tail.trans (by rw [hl]; rfl)
  unfold Queues.popLast
  rw [htail]

omit [DecidableEq Q] in
/-- **The test for membership**, for an element of `q` or of no queue. -/
theorem Reads.holds_iff (hp : ∀ q', p ∈ L q' → q' = q) :
    M.holds q p = true ↔ p ∈ L q := by
  unfold holds
  by_cases hin : p ∈ L q
  · have hprev : M.prev p = none ↔ M.head q = some p := linked_prev_none (h.linked q) hin
    by_cases hh : M.head q = some p
    · simp [hh, hin]
    · simp [hprev, hh, hin]
  have hno : ∀ q', p ∉ L q' := fun q' hm => hin (hp q' hm ▸ hm)
  have hprev := h.loose p hno
  have hhead : M.head q ≠ some p := fun e =>
    hin (mem_of_head? ((h.linked q).head.symm.trans e))
  simp [hprev, hhead, hin]

end

end Queues
