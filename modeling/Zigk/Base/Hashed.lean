/-
  Subject:   HASH TABLES whose buckets are lists, of elements that have at most one key each.

  * `Hashed` -- every element is in the bucket of its key's hash, once, and no two have one key;
  * `Hashed.insert`, `Hashed.sublist`, `Hashed.congr` -- an element goes in front of its bucket,
    some are taken out, and keys outside the table do not matter;
  * `find_key` -- what the search for a key in its bucket finds.
-/
import Mathlib.Data.List.Nodup

variable {α β κ : Type*} {hash : κ → β} {key key' : α → Option κ} {t t' : β → List α} {a c : α}
  {k : κ} {b b' : β}

def InTable (t : β → List α) (a : α) : Prop := ∃ b, a ∈ t b

structure Hashed (hash : κ → β) (key : α → Option κ) (t : β → List α) : Prop where
  home : ∀ b, ∀ a ∈ t b, ∃ k, key a = some k ∧ hash k = b
  nodup : ∀ b, (t b).Nodup
  once : ∀ a c, InTable t a → InTable t c → key a = key c → a = c

namespace Hashed

open List

open Function

section

variable (h : Hashed hash key t)
include h

theorem bucket_eq (hb : a ∈ t b) (hb' : a ∈ t b') : b = b' := by
  obtain ⟨k, hk, rfl⟩ := h.home b a hb
  obtain ⟨k', hk', rfl⟩ := h.home b' a hb'
  rw [hk] at hk'
  cases hk'
  rfl

theorem key_some (ha : InTable t a) : ∃ k, key a = some k := by
  obtain ⟨b, hb⟩ := ha
  obtain ⟨k, hk, -⟩ := h.home b a hb
  exact ⟨k, hk⟩

theorem congr (hk : ∀ a, InTable t a → key' a = key a) :
    Hashed hash key' t := by
  refine ⟨fun b a ha => ?_, h.nodup, fun a c ha hc he => ?_⟩
  · rw [hk a ⟨b, ha⟩]
    exact h.home b a ha
  · rw [hk a ha, hk c hc] at he
    exact h.once a c ha hc he

/-- Elements are taken out. -/
theorem sublist (hs : ∀ b, (t' b).Sublist (t b)) : Hashed hash key t' := by
  have hin : ∀ a, InTable t' a → InTable t a := fun a ⟨b, hb⟩ => ⟨b, (hs b).subset hb⟩
  exact ⟨fun b a ha => h.home b a ((hs b).subset ha), fun b => (h.nodup b).sublist (hs b),
    fun a c ha hc he => h.once a c (hin a ha) (hin c hc) he⟩

/-- An element is in the table with its key if and only if the search for the key finds it. -/
theorem find_key {p : α → Bool} (hp : ∀ a, p a = true ↔ key a = some k) :
    (t (hash k)).find? p = some a ↔ InTable t a ∧ key a = some k := by
  constructor
  · intro hf
    exact ⟨⟨_, mem_of_find?_eq_some hf⟩, (hp a).1 (find?_some hf)⟩
  · intro ⟨⟨b, hb⟩, hk⟩
    obtain ⟨k', hk', rfl⟩ := h.home b a hb
    rw [hk] at hk'
    cases hk'
    cases hf : (t (hash k)).find? p with
    | none => exact absurd ((hp a).2 hk) (find?_eq_none.1 hf a hb)
    | some c =>
      have hkc := (hp c).1 (find?_some hf)
      rw [h.once c a ⟨_, mem_of_find?_eq_some hf⟩ ⟨_, hb⟩ (hkc.trans hk.symm)]

theorem find_none {p : α → Bool} (hp : ∀ a, p a = true ↔ key a = some k)
    (hf : (t (hash k)).find? p = none) (ha : InTable t a) : key a ≠ some k := by
  intro hk
  rw [(h.find_key hp).2 ⟨ha, hk⟩] at hf
  cases hf

end

variable [DecidableEq β]

theorem inTable_update : InTable (update t b (a :: t b)) c ↔ c = a ∨ InTable t c := by
  constructor
  · intro ⟨b', hb'⟩
    by_cases hb : b' = b
    · subst hb
      rw [update_self, mem_cons] at hb'
      exact hb'.imp_right fun hc => ⟨b', hc⟩
    · rw [update_of_ne hb] at hb'
      exact .inr ⟨b', hb'⟩
  · rintro (rfl | ⟨b', hb'⟩)
    · exact ⟨b, by rw [update_self]; exact mem_cons_self⟩
    refine ⟨b', ?_⟩
    by_cases hb : b' = b
    · subst hb
      rw [update_self]
      exact mem_cons_of_mem _ hb'
    · rwa [update_of_ne hb]

/-- An element goes into the bucket of its key. -/
theorem insert (h : Hashed hash key t) (hk : key a = some k) (ha : ¬ InTable t a)
    (hone : ∀ c, InTable t c → key c ≠ some k) :
    Hashed hash key (update t (hash k) (a :: t (hash k))) := by
  refine ⟨fun b c hc => ?_, fun b => ?_, fun c d hc hd he => ?_⟩
  · by_cases hb : b = hash k
    · subst hb
      rw [update_self, mem_cons] at hc
      rcases hc with rfl | hc
      · exact ⟨k, hk, rfl⟩
      · exact h.home _ c hc
    · rw [update_of_ne hb] at hc
      exact h.home b c hc
  · by_cases hb : b = hash k
    · subst hb
      rw [update_self]
      exact nodup_cons.2 ⟨fun hm => ha ⟨_, hm⟩, h.nodup _⟩
    · rw [update_of_ne hb]
      exact h.nodup b
  · rw [inTable_update] at hc hd
    rcases hc with rfl | hc <;> rcases hd with rfl | hd
    · rfl
    · exact absurd (he.symm.trans hk) (hone d hd)
    · exact absurd (he.trans hk) (hone c hc)
    · exact h.once c d hc hd he

end Hashed
