/-
  Subject:   SINGLY LINKED LISTS with a head and a tail pointer outside.

  As with the doubly linked lists a list is READ off the links:

  * `Path next a l e` -- from `a` the elements of `l` follow one another, and after them comes `e`;
  * `Spells F l` -- head, tail and links together spell `l`, without repetition;
  * `link` -- the one write all operations come from: the element after `prev` is now `p`;
  * `spells_append`, `spells_unlink`, `spells_pushFront` -- **an element at the end, an element
    taken out behind the one before it, an element in front**;
  * `spells_congr` -- elements outside the list do not matter.
-/
import Mathlib.Data.List.Nodup

structure Forward (P : Type*) where
  head : Option P
  tail : Option P
  next : P → Option P

namespace Forward

open List

open Function

variable {P : Type*}

/-! ## 1. Operations -/

section Operations

variable [DecidableEq P]

def setNext (F : Forward P) (p : P) (n : Option P) : Forward P :=
  { F with next := update F.next p n }

/-- What comes after `prev`, or at the head, is now `n`. -/
def link (F : Forward P) (prev n : Option P) : Forward P :=
  match prev with
  | some b => F.setNext b n
  | none => { F with head := n }

def append (F : Forward P) (p : P) : Forward P :=
  { (F.setNext p none).link F.tail (some p) with tail := some p }

/-- The element `p` leaves; `prev` is the one before it. -/
def unlink (F : Forward P) (prev : Option P) (p : P) : Forward P :=
  let F := F.link prev (F.next p)
  { F with tail := if F.tail = some p then prev else F.tail }

def pushFront (F : Forward P) (p : P) : Forward P :=
  let F := F.setNext p F.head
  { F with head := some p, tail := F.tail.or (some p) }

end Operations

/-! ## 2. Reading the links -/

def Path (next : P → Option P) : Option P → List P → Option P → Prop
  | a, [], e => a = e
  | a, p :: l, e => a = some p ∧ Path next (next p) l e

structure Spells (F : Forward P) (l : List P) : Prop where
  path : Path F.next F.head l none
  tail : F.tail = l.getLast?
  nodup : l.Nodup

variable {F F' : Forward P} {next next' : P → Option P} {a e : Option P} {l l₁ l₂ : List P} {p : P}

theorem path_append :
    Path next a (l₁ ++ l₂) e ↔ ∃ m, Path next a l₁ m ∧ Path next m l₂ e := by
  induction l₁ generalizing a with
  | nil => simp [Path]
  | cons q l₁ ih => simp [Path, ih, and_assoc]

/-- A path depends on the links of its own elements only. -/
theorem path_congr (h : ∀ p ∈ l, next' p = next p) : Path next' a l e ↔ Path next a l e := by
  induction l generalizing a with
  | nil => rfl
  | cons q l ih =>
    simp only [Path, h q mem_cons_self]
    rw [ih fun p hp => h p (mem_cons_of_mem _ hp)]

theorem path_head (h : Path next a (p :: l) e) : a = some p := h.1

theorem spells_congr (h : F.Spells l) (hh : F'.head = F.head) (ht : F'.tail = F.tail)
    (hn : ∀ p ∈ l, F'.next p = F.next p) : F'.Spells l where
  path := hh ▸ (path_congr hn).2 h.path
  tail := ht.trans h.tail
  nodup := h.nodup

theorem spells_empty (next : P → Option P) : (⟨none, none, next⟩ : Forward P).Spells [] :=
  ⟨rfl, rfl, nodup_nil⟩

/-! ## 3. What the operations do to the reading -/

section Updates

variable [DecidableEq P]

/-- A path is continued differently behind its last element. -/
theorem path_link {n : Option P} (h : Path F.next F.head l e) (hd : l.Nodup) :
    Path (F.link l.getLast? n).next (F.link l.getLast? n).head l n := by
  rcases eq_nil_or_concat' l with rfl | ⟨l₀, b, rfl⟩
  · rfl
  have hb : b ∉ l₀ := fun hm => (nodup_append.mp hd).2.2 b hm b (by simp) rfl
  obtain ⟨m, hm, hp⟩ := path_append.1 h
  rw [getLast?_append, getLast?_singleton, Option.some_or]
  refine path_append.2 ⟨m, ?_, hp.1, update_self _ _ _⟩
  refine (path_congr fun q hq => ?_).2 hm
  exact update_of_ne (fun e => hb (by rwa [← e])) _ _

/-- The links outside the path stay. -/
theorem link_next {n : Option P} (hp : p ∉ l) : (F.link l.getLast? n).next p = F.next p := by
  rcases eq_nil_or_concat' l with rfl | ⟨l₀, b, rfl⟩
  · rfl
  · rw [getLast?_append, getLast?_singleton, Option.some_or]
    exact update_of_ne (fun e => hp (by simp [e])) _ _

@[simp] theorem link_tail (F : Forward P) (prev n : Option P) : (F.link prev n).tail = F.tail := by
  cases prev <;> rfl

theorem spells_setNext {n : Option P} (h : F.Spells l) (hp : p ∉ l) : (F.setNext p n).Spells l :=
  spells_congr h rfl rfl fun q hq => update_of_ne (fun e : q = p => hp (e ▸ hq)) _ _

/-- **Insertion at the tail appends.** -/
theorem spells_append (h : F.Spells l) (hp : p ∉ l) : (F.append p).Spells (l ++ [p]) where
  path := by
    have hs := spells_setNext (n := none) h hp
    have hl := path_link (n := some p) hs.path h.nodup
    rw [append, h.tail]
    refine path_append.2 ⟨some p, hl, rfl, ?_⟩
    show ((F.setNext p none).link l.getLast? (some p)).next p = none
    rw [link_next hp]
    exact update_self _ _ _
  tail := by simp [append]
  nodup := nodup_append.2 ⟨h.nodup, nodup_singleton p, fun q hq r hr e => by
    rw [mem_singleton] at hr
    exact hp (hr ▸ e ▸ hq)⟩

/-- **An element is taken out behind the one before it.** -/
theorem spells_unlink (h : F.Spells (l₁ ++ p :: l₂)) :
    (F.unlink l₁.getLast? p).Spells (l₁ ++ l₂) := by
  obtain ⟨m, h₁, rfl, h₂⟩ := path_append.1 h.path
  obtain ⟨hd₁, hd₂, hdis⟩ := nodup_append.1 h.nodup
  obtain ⟨hp₂, hd₂⟩ := nodup_cons.1 hd₂
  have hout : ∀ q ∈ l₂, q ∉ l₁ := fun q hq hm => hdis q hm q (mem_cons_of_mem _ hq) rfl
  have hpath : Path (F.link l₁.getLast? (F.next p)).next (F.link l₁.getLast? (F.next p)).head
      (l₁ ++ l₂) none :=
    path_append.2 ⟨_, path_link h₁ hd₁, (path_congr fun q hq => link_next (hout q hq)).2 h₂⟩
  have hnodup : (l₁ ++ l₂).Nodup :=
    nodup_append.2 ⟨hd₁, hd₂, fun a ha b hb => hdis a ha b (mem_cons_of_mem _ hb)⟩
  have htail : F.tail = (p :: l₂).getLast? := by
    rw [h.tail, getLast?_append]
    simp [getLast?_cons]
  simp only [unlink, link_tail, htail]
  cases l₂ with
  | nil =>
    rw [getLast?_singleton, if_pos rfl]
    exact ⟨hpath, by rw [append_nil], hnodup⟩
  | cons q l₂ =>
    have hne : (p :: q :: l₂).getLast? ≠ some p := fun e =>
      hp₂ (mem_of_getLast? (getLast?_cons_cons ▸ e))
    rw [if_neg hne]
    refine ⟨hpath, ?_, hnodup⟩
    rw [getLast?_cons_cons, getLast?_append]
    simp [getLast?_cons]

/-- **Insertion at the head prepends.** -/
theorem spells_pushFront (h : F.Spells l) (hp : p ∉ l) : (F.pushFront p).Spells (p :: l) where
  path := by
    refine ⟨rfl, ?_⟩
    have hn : (F.pushFront p).next p = F.head := update_self _ _ _
    rw [hn]
    exact (spells_setNext h hp).path
  tail := by
    show F.tail.or (some p) = _
    rw [h.tail, getLast?_cons]
    cases l.getLast? <;> rfl
  nodup := nodup_cons.2 ⟨hp, h.nodup⟩

end Updates

end Forward
