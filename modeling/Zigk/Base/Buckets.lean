/-
  Subject:   HASH TABLES WHOSE BUCKETS ARE SINGLY LINKED LISTS THROUGH THEIR CELLS.

  A table gives every bucket its first cell and every cell its next one. What it holds is READ off
  the links:

  * `Buckets.Threads T hash L chain` -- **the lists `chain` are spelled by the links, and they hold
    exactly the cells of `L`, each once and in the bucket of its hash**;
  * `Threads.push`, `Threads.cutFirst`, `Threads.cutAfter` -- a cell is put in front of its bucket,
    or taken out of it: the set grows or shrinks by that cell and by nothing else;
  * `Threads.congr` -- links and hashes of cells outside the set do not matter.
-/
import Zigk.Base.Siblings

/-- The links of a table with buckets in `β` and cells in `α`. -/
@[ext] structure Buckets (α β : Type*) where
  head : β → Option α
  next : α → Option α

namespace Buckets

open Function List

variable {α β : Type*}

section Operations

variable [DecidableEq α] [DecidableEq β]

/-- `a` goes in front of the bucket `b`. -/
def push (T : Buckets α β) (b : β) (a : α) : Buckets α β where
  head := update T.head b (some a)
  next := update T.next a (T.head b)

/-- The first cell `a` of the bucket `b` is taken out. -/
def cutFirst (T : Buckets α β) (b : β) (a : α) : Buckets α β where
  head := update T.head b (T.next a)
  next := update T.next a none

/-- The cell `a` behind `p` is taken out. -/
def cutAfter (T : Buckets α β) (p a : α) : Buckets α β where
  head := T.head
  next := update (update T.next p (T.next a)) a none

end Operations

structure Threads (T : Buckets α β) (hash : α → β) (L : α → Prop) (chain : β → List α) : Prop where
  spells (b : β) : Chain T.next (T.head b) (chain b)
  nodup (b : β) : (chain b).Nodup
  mem (b : β) (a : α) : a ∈ chain b ↔ L a ∧ hash a = b

/-- The table holds the cells of `L`. -/
def Holds (T : Buckets α β) (hash : α → β) (L : α → Prop) : Prop := ∃ chain, T.Threads hash L chain

namespace Threads

variable {T T' : Buckets α β} {hash hash' : α → β} {L L' : α → Prop} {chain : β → List α} {a p : α}
  {b : β}

theorem congr (h : T.Threads hash L chain) (hh : T'.head = T.head)
    (hn : ∀ a, L a → T'.next a = T.next a) (hb : ∀ a, L a → hash' a = hash a)
    (hL : ∀ a, L' a ↔ L a) : T'.Threads hash' L' chain := by
  refine ⟨fun b => ?_, h.nodup, fun b a => ?_⟩
  · rw [hh]
    exact (Chain.congr fun a ha => hn a ((h.mem b a).mp ha).1).mpr (h.spells b)
  · rw [h.mem, hL]
    exact and_congr_right fun ha => by rw [hb a ha]

/-- The empty table. -/
theorem empty (hh : ∀ b, T.head b = none) (hL : ∀ a, ¬ L a) : T.Threads hash L fun _ => [] :=
  ⟨hh, fun _ => nodup_nil, fun b a => by simp [hL a]⟩

/-- The first cell of a bucket is in the table. -/
theorem head_mem (h : T.Threads hash L chain) (hb : T.head b = some a) : L a ∧ hash a = b :=
  (h.mem b a).mp ((h.spells b).head_mem hb)

theorem notMem_other (h : T.Threads hash L chain) (hb : b ≠ hash a) : a ∉ chain b :=
  fun hm => hb ((h.mem b a).mp hm).2.symm

variable [DecidableEq α] [DecidableEq β]

section

variable (h : T.Threads hash L chain)
include h

theorem push (ha : ¬ L a) :
    (T.push (hash a) a).Threads hash (fun c => c = a ∨ L c)
      (update chain (hash a) (a :: chain (hash a))) := by
  have hout : ∀ b, a ∉ chain b := fun b hab => ha ((h.mem b a).mp hab).1
  have hkeep : ∀ b p, Chain (T.push (hash a) a).next p (chain b) ↔ Chain T.next p (chain b) :=
    fun b p => Chain.congr fun c hc =>
      update_of_ne (fun e => hout b (e ▸ hc) : c ≠ a) _ _
  refine ⟨fun b => ?_, fun b => ?_, fun b c => ?_⟩
  · by_cases hb : b = hash a
    · subst hb
      rw [update_self]
      refine ⟨update_self .., ?_⟩
      have hn : (T.push (hash a) a).next a = T.head (hash a) := update_self ..
      rw [hn]
      exact (hkeep _ _).mpr (h.spells _)
    · have hd : (T.push (hash a) a).head b = T.head b := update_of_ne hb _ _
      rw [update_of_ne hb, hd]
      exact (hkeep _ _).mpr (h.spells b)
  · by_cases hb : b = hash a
    · subst hb
      rw [update_self]
      exact nodup_cons.mpr ⟨hout _, h.nodup _⟩
    · rw [update_of_ne hb]
      exact h.nodup b
  by_cases hb : b = hash a
  · subst hb
    rw [update_self, mem_cons, h.mem]
    constructor
    · rintro (rfl | ⟨hc, e⟩)
      · exact ⟨.inl rfl, rfl⟩
      · exact ⟨.inr hc, e⟩
    · rintro ⟨rfl | hc, e⟩
      · exact .inl rfl
      · exact .inr ⟨hc, e⟩
  · rw [update_of_ne hb, h.mem]
    constructor
    · exact fun ⟨hc, e⟩ => ⟨.inr hc, e⟩
    · rintro ⟨rfl | hc, e⟩
      · exact absurd e.symm hb
      · exact ⟨hc, e⟩

/-- The lists after a cell is gone. -/
theorem erased (ha : L a) (hc : ∀ b, b ≠ hash a → Chain T'.next (T'.head b) (chain b))
    (he : Chain T'.next (T'.head (hash a)) ((chain (hash a)).erase a)) :
    T'.Threads hash (fun c => L c ∧ c ≠ a)
      (update chain (hash a) ((chain (hash a)).erase a)) := by
  refine ⟨fun b => ?_, fun b => ?_, fun b c => ?_⟩
  · by_cases hb : b = hash a
    · subst hb
      rwa [update_self]
    · rw [update_of_ne hb]
      exact hc b hb
  · by_cases hb : b = hash a
    · subst hb
      rw [update_self]
      exact (h.nodup _).erase a
    · rw [update_of_ne hb]
      exact h.nodup b
  · by_cases hb : b = hash a
    · subst hb
      rw [update_self, (h.nodup _).mem_erase_iff, h.mem]
      tauto
    rw [update_of_ne hb, h.mem]
    refine ⟨fun ⟨hc, e⟩ => ⟨⟨hc, ?_⟩, e⟩, fun ⟨⟨hc, _⟩, e⟩ => ⟨hc, e⟩⟩
    rintro rfl
    exact hb e.symm

theorem cutFirst (hf : T.head (hash a) = some a) :
    (T.cutFirst (hash a) a).Threads hash (fun c => L c ∧ c ≠ a)
      (update chain (hash a) ((chain (hash a)).erase a)) := by
  have hn : ∀ c, c ≠ a → (T.cutFirst (hash a) a).next c = T.next c :=
    fun c hc => update_of_ne hc _ _
  refine h.erased (h.head_mem hf).1 (fun b hb => ?_) ?_
  · have hd : (T.cutFirst (hash a) a).head b = T.head b := update_of_ne hb _ _
    rw [hd]
    exact (Chain.congr fun c hc => hn c fun e => h.notMem_other hb (e ▸ hc)).mpr (h.spells b)
  · have hd : (T.cutFirst (hash a) a).head (hash a) = T.next a := update_self ..
    rw [hd]
    exact Chain.erase_first (hf ▸ h.spells (hash a)) (h.nodup _) hn

theorem cutAfter (hp : p ∈ chain (hash a)) (hpa : T.next p = some a) :
    (T.cutAfter p a).Threads hash (fun c => L c ∧ c ≠ a)
      (update chain (hash a) ((chain (hash a)).erase a)) := by
  have hn : ∀ c, c ≠ p → c ≠ a → (T.cutAfter p a).next c = T.next c := by
    intro c hcp hca
    show update (update T.next p (T.next a)) a none c = _
    rw [update_of_ne hca, update_of_ne hcp]
  have ham : a ∈ chain (hash a) := (h.spells _).next_mem hp hpa
  have hne : p ≠ a := by
    rintro rfl
    have := (h.spells _).idxOf_next (h.nodup _) hp hpa
    exact lt_irrefl _ this
  refine h.erased ((h.mem _ a).mp ham).1 (fun b hb => ?_) ?_
  · refine (Chain.congr fun c hc => hn c ?_ ?_).mpr (h.spells b)
    · rintro rfl
      exact hb (((h.mem b c).mp hc).2.symm.trans ((h.mem _ c).mp hp).2)
    · rintro rfl
      exact h.notMem_other hb hc
  · refine Chain.erase_after (h.spells _) (h.nodup _) hp hpa ?_ hn
    show update (update T.next p (T.next a)) a none p = _
    rw [update_of_ne hne, update_self]

end

end Threads

end Buckets
