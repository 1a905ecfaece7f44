/-
  Subject:   WHAT A PROCESS HAS MAPPED, AND WHAT IT IS CHARGED FOR.

  * `Ordered` lists -- kept by every operation on the VMAs; `freeFrom_free`;
  * `addressSpaceCharged` -- **in runs of such calls the VMAs that they made are within the limit,
    and `rss_current` is their bytes**; `addressSpaceCharged_refuted`.
-/
import Zigk.Mm.AddressSpace

namespace Zigk.Mm.Areas

open List Option Area

variable {l : List Area} {v w : Area} {a b n r : Nat} {m : Maker}

/-! ## 1. Lists that are in order -/

theorem Ordered.tail (h : Ordered (v :: l)) : Ordered l :=
  ⟨(pairwise_cons.1 h.apart).2, fun w hw => h.solid w (mem_cons_of_mem _ hw)⟩

theorem Ordered.head (h : Ordered (v :: l)) (hw : w ∈ l) : v.stop ≤ w.start :=
  (pairwise_cons.1 h.apart).1 w hw

theorem Ordered.cons (h : Ordered l) (hv : v.start < v.stop) (hl : ∀ w ∈ l, v.stop ≤ w.start) :
    Ordered (v :: l) :=
  ⟨pairwise_cons.2 ⟨hl, h.apart⟩, forall_mem_cons.2 ⟨hv, h.solid⟩⟩

/-- `[a, b)` touches no VMA of the list. -/
def Free (a b : Nat) (l : List Area) : Prop := ∀ v ∈ l, v.stop ≤ a ∨ b ≤ v.start

theorem mem_insertVma : w ∈ insertVma v l ↔ w = v ∨ w ∈ l := by
  induction l with
  | nil => simp [insertVma]
  | cons c l ih =>
    unfold insertVma
    split
    · exact mem_cons
    · rw [mem_cons, ih, mem_cons]
      exact or_left_comm

theorem Ordered.insertVma (h : Ordered l) (hv : v.start < v.stop) (hf : Free v.start v.stop l) :
    Ordered (insertVma v l) := by
  induction l with
  | nil => exact Ordered.cons ⟨.nil, nofun⟩ hv nofun
  | cons c l ih =>
    have hc := h.solid c mem_cons_self
    have hfree := hf c mem_cons_self
    unfold Areas.insertVma
    split
    · have hle : v.stop ≤ c.start := by omega
      refine h.cons hv (forall_mem_cons.2 ⟨hle, fun w hw => ?_⟩)
      have := h.head hw
      omega
    refine (ih h.tail fun w hw => hf w (mem_cons_of_mem _ hw)).cons hc fun w hw => ?_
    rcases mem_insertVma.1 hw with rfl | hw
    · omega
    · exact h.head hw

theorem freeFrom_ge (h : Ordered l) (hs : ∀ v ∈ l, a ≤ v.stop) (hr : freeFrom n a l = some r) :
    a ≤ r := by
  induction l generalizing a with
  | nil =>
    unfold freeFrom at hr
    split at hr
    · cases hr
    split at hr
    · cases hr
      exact le_rfl
    · cases hr
  | cons v l ih =>
    unfold freeFrom at hr
    split at hr
    · cases hr
    split at hr
    · cases hr
      exact le_rfl
    have hnext : v.stop ≤ r := by
      refine ih h.tail (fun w hw => ?_) hr
      have := h.head hw
      have := h.solid w (mem_cons_of_mem _ hw)
      omega
    exact (hs v mem_cons_self).trans hnext

/-- **A range that `findFreeRange` finds** is free. -/
theorem freeFrom_free (h : Ordered l) (hr : freeFrom n a l = some r) : Free r (r + n) l := by
  induction l generalizing a with
  | nil => exact nofun
  | cons v l ih =>
    unfold freeFrom at hr
    split at hr
    · cases hr
    split at hr
    · rename_i hle
      cases hr
      refine forall_mem_cons.2 ⟨.inr hle, fun w hw => .inr ?_⟩
      have := h.head hw
      have := h.solid v mem_cons_self
      omega
    · refine forall_mem_cons.2 ⟨.inl ?_, ih h.tail hr⟩
      refine freeFrom_ge h.tail (fun w hw => ?_) hr
      have := h.head hw
      have := h.solid w (mem_cons_of_mem _ hw)
      omega

/-- What is left lies in what was there. -/
def Inside (l l' : List Area) : Prop := ∀ w ∈ l', ∃ v ∈ l, v.start ≤ w.start ∧ w.stop ≤ v.stop

theorem Ordered.cons_inside {l' : List Area} (h : Ordered (v :: l)) (h' : Ordered l')
    (hin : Inside l l') (hw : w.start < w.stop) (hle : w.stop ≤ v.stop) : Ordered (w :: l') := by
  refine h'.cons hw fun u hu => ?_
  obtain ⟨c, hc, hstart, -⟩ := hin u hu
  have := h.head hc
  omega

theorem unmapVmas_ordered (granted : Bool) (h : Ordered l) (hab : a < b) :
    Ordered (unmapVmas granted a b l).1 ∧ Inside l (unmapVmas granted a b l).1 := by
  induction l with
  | nil => exact ⟨h, nofun⟩
  | cons v l ih =>
    obtain ⟨hrest, hin⟩ := ih h.tail
    have hv := h.solid v mem_cons_self
    have hin' : Inside (v :: l) (unmapVmas granted a b l).1 := fun w hw =>
      let ⟨c, hc, hle⟩ := hin w hw
      ⟨c, mem_cons_of_mem _ hc, hle⟩
    have hpiece : ∀ w : Area, v.start ≤ w.start → w.start < w.stop → w.stop ≤ v.stop →
        Ordered (w :: (unmapVmas granted a b l).1) ∧
          Inside (v :: l) (w :: (unmapVmas granted a b l).1) := fun w hs hw hle =>
      ⟨h.cons_inside hrest hin hw hle, forall_mem_cons.2 ⟨⟨v, mem_cons_self, hs, hle⟩, hin'⟩⟩
    unfold unmapVmas
    split
    · rename_i ho
      obtain ⟨hlt, hgt⟩ : v.start < b ∧ a < v.stop := by
        simpa only [overlaps, Bool.and_eq_true, decide_eq_true_eq] using ho
      split
      · exact ⟨hrest, hin'⟩
      split
      · exact hpiece { v with start := min b v.stop } (by dsimp only; omega)
          (by dsimp only; omega) le_rfl
      split
      · exact hpiece { v with stop := max a v.start } le_rfl (by dsimp only; omega)
          (by dsimp only; omega)
      split
      · obtain ⟨hleft, hinleft⟩ := hpiece { v with stop := a } le_rfl (by dsimp only; omega)
          (by dsimp only; omega)
        refine ⟨hleft.insertVma (by dsimp only; omega) (forall_mem_cons.2 ⟨.inl ?_, ?_⟩),
          fun w hw => ?_⟩
        · exact hab.le
        · intro w hw
          obtain ⟨c, hc, hstart, -⟩ := hin w hw
          have := h.head hc
          exact .inr (this.trans hstart)
        · rcases mem_insertVma.1 hw with rfl | hw
          · exact ⟨v, mem_cons_self, by dsimp only; omega, le_rfl⟩
          · exact hinleft w hw
      · exact ⟨h, fun w hw => ⟨w, hw, le_rfl, le_rfl⟩⟩
    · exact hpiece v le_rfl hv le_rfl

variable {p : Area → Bool} {f : Area → List Area}

theorem mem_replaceFirst (h : w ∈ replaceFirst p f l) :
    w ∈ l ∨ ∃ v, l.find? p = some v ∧ w ∈ f v := by
  induction l with
  | nil => exact .inl h
  | cons v l ih =>
    unfold replaceFirst at h
    split at h
    · rename_i hp
      rcases mem_append.1 h with hw | hw
      · exact .inr ⟨v, find?_cons_of_pos hp, hw⟩
      · exact .inl (mem_cons_of_mem _ hw)
    rename_i hp
    rcases mem_cons.1 h with rfl | hw
    · exact .inl mem_cons_self
    · rcases ih hw with hw | ⟨c, hc, hw⟩
      · exact .inl (mem_cons_of_mem _ hw)
      · exact .inr ⟨c, (find?_cons_of_neg hp).trans hc, hw⟩

/-- **One VMA is cut, extended up to where the next begins, or removed.** -/
theorem Ordered.replaceFirst (h : Ordered l)
    (hf : ∀ v, l.find? p = some v → f v = [] ∨ ∃ w, f v = [w] ∧ w.start = v.start ∧
      w.start < w.stop ∧ ∀ u ∈ l, v.stop ≤ u.start → w.stop ≤ u.start) :
    Ordered (replaceFirst p f l) := by
  induction l with
  | nil => exact h
  | cons v l ih =>
    unfold Areas.replaceFirst
    split
    · rename_i hp
      rcases hf v (find?_cons_of_pos hp) with hnil | ⟨w, hw, hstart, hlt, hstop⟩
      · rw [hnil]
        exact h.tail
      · rw [hw]
        exact h.tail.cons hlt fun u hu => hstop u (mem_cons_of_mem _ hu) (h.head hu)
    rename_i hp
    have hrest : ∀ c, l.find? p = some c → f c = [] ∨ ∃ w, f c = [w] ∧ w.start = c.start ∧
        w.start < w.stop ∧ ∀ u ∈ l, c.stop ≤ u.start → w.stop ≤ u.start := fun c hc => by
      rcases hf c ((find?_cons_of_neg hp).trans hc) with hnil | ⟨w, hw, hstart, hlt, hstop⟩
      · exact .inl hnil
      · exact .inr ⟨w, hw, hstart, hlt, fun u hu => hstop u (mem_cons_of_mem _ hu)⟩
    refine (ih h.tail hrest).cons (h.solid v mem_cons_self) fun w hw => ?_
    rcases mem_replaceFirst hw with hw | ⟨c, hc, hw⟩
    · exact h.head hw
    have hhead := h.head (mem_of_find?_eq_some hc)
    rcases hrest c hc with hnil | ⟨u, hu, hstart, -⟩
    · rw [hnil] at hw
      cases hw
    · rw [hu, mem_singleton] at hw
      rw [hw, hstart]
      exact hhead

theorem Ordered.restop (h : Ordered l) (hf : l.find? p = some v)
    (hn : v.start < n) (hroom : ∀ u ∈ l, v.stop ≤ u.start → n ≤ u.start) :
    Ordered (Areas.replaceFirst p (fun v => [{ v with stop := n }]) l) := by
  refine h.replaceFirst fun c hc => ?_
  cases hf.symm.trans hc
  exact .inr ⟨_, rfl, rfl, hn, hroom⟩

/-! ## 2. Bytes -/

/-- The bytes of a VMA, if it counts for `m`. -/
def Area.bytes (m : Maker) (v : Area) : Nat := if v.made = m then v.size else 0

/-- **The bytes of the VMAs that were made by `m`.** -/
def madeBytes (m : Maker) (l : List Area) : Nat := (l.map (bytes m)).sum

/-- How many of them are in `[a, b)`. -/
def madeIn (m : Maker) (a b : Nat) (l : List Area) : Nat :=
  (l.map fun v => if v.made = m then min b v.stop - max a v.start else 0).sum

theorem madeBytes_cons : madeBytes m (v :: l) = v.bytes m + madeBytes m l := by
  rw [madeBytes, map_cons, sum_cons]
  rfl

theorem madeBytes_singleton : madeBytes m [v] = v.bytes m := madeBytes_cons

theorem madeIn_cons : madeIn m a b (v :: l) =
    (if v.made = m then min b v.stop - max a v.start else 0) + madeIn m a b l := by
  rw [madeIn, map_cons, sum_cons]
  rfl

theorem madeBytes_insertVma : madeBytes m (insertVma v l) = v.bytes m + madeBytes m l := by
  induction l with
  | nil => exact madeBytes_cons
  | cons c l ih =>
    unfold insertVma
    split
    · exact madeBytes_cons
    · rw [madeBytes_cons, ih, madeBytes_cons]
      omega

theorem madeBytes_append {l' : List Area} :
    madeBytes m (l ++ l') = madeBytes m l + madeBytes m l' := by
  rw [madeBytes, map_append, sum_append]
  rfl

theorem madeBytes_replaceFirst (hv : l.find? p = some v) :
    madeBytes m (replaceFirst p f l) + v.bytes m = madeBytes m l + madeBytes m (f v) := by
  induction l with
  | nil => cases hv
  | cons c l ih =>
    unfold replaceFirst
    by_cases hp : p c
    · rw [find?_cons_of_pos hp] at hv
      cases hv
      rw [if_pos hp, madeBytes_append, madeBytes_cons]
      omega
    rw [find?_cons_of_neg hp] at hv
    have := ih hv
    rw [if_neg hp, madeBytes_cons, madeBytes_cons]
    omega

theorem replaceFirst_none (h : l.find? p = none) :
    replaceFirst p f l = l := by
  induction l with
  | nil => rfl
  | cons c l ih =>
    obtain ⟨hc, hl⟩ := find?_eq_none.1 h |> forall_mem_cons.1
    unfold replaceFirst
    rw [if_neg hc, ih (find?_eq_none.2 hl)]

/-- **What is unmapped** of the bytes that count are the ones in the range. -/
theorem madeBytes_unmapVmas (granted : Bool) (hab : a < b) (h : Ordered l)
    (hok : (unmapVmas granted a b l).2 = true) :
    madeBytes m (unmapVmas granted a b l).1 + madeIn m a b l = madeBytes m l := by
  induction l with
  | nil => rfl
  | cons v l ih =>
    have hv := h.solid v mem_cons_self
    have hrest := ih h.tail
    -- a VMA is what is left of it and what is in the range
    have hpiece : ∀ kept : Nat, kept + (min b v.stop - max a v.start) = v.size →
        (if v.made = m then kept else 0) +
          (if v.made = m then min b v.stop - max a v.start else 0) = v.bytes m := by
      intro kept hk
      unfold bytes
      split
      · exact hk
      · rfl
    rw [madeIn_cons, madeBytes_cons]
    unfold unmapVmas at hok ⊢
    unfold size at hpiece
    by_cases ho : v.overlaps a b
    · obtain ⟨hlt, hgt⟩ : v.start < b ∧ a < v.stop := by
        simpa only [overlaps, Bool.and_eq_true, decide_eq_true_eq] using ho
      rw [if_pos ho] at hok ⊢
      by_cases hfull : a ≤ v.start ∧ b ≥ v.stop
      · rw [if_pos hfull] at hok ⊢
        have := hrest hok
        have := hpiece 0 (by omega)
        rw [ite_self] at this
        omega
      rw [if_neg hfull] at hok ⊢
      by_cases hleft : a ≤ v.start
      · rw [if_pos hleft] at hok ⊢
        have := hrest hok
        have := hpiece (v.stop - min b v.stop) (by omega)
        rw [madeBytes_cons, bytes, size]
        dsimp only
        omega
      rw [if_neg hleft] at hok ⊢
      by_cases hright : b ≥ v.stop
      · rw [if_pos hright] at hok ⊢
        have := hrest hok
        have := hpiece (max a v.start - v.start) (by omega)
        rw [madeBytes_cons, bytes, size]
        dsimp only
        omega
      rw [if_neg hright] at hok ⊢
      cases granted with
      | false => cases hok
      | true =>
        have := hrest hok
        have := hpiece ((a - v.start) + (v.stop - b)) (by omega)
        rw [if_pos rfl, madeBytes_insertVma, madeBytes_cons]
        unfold bytes size
        dsimp only
        unfold bytes size at this
        by_cases hm : v.made = m
        · simp only [hm, if_true] at *
          omega
        · simp only [hm, if_false] at *
          omega
    · rw [if_neg ho] at hok ⊢
      have hout : ¬ (v.start < b ∧ a < v.stop) := by
        simpa only [overlaps, Bool.and_eq_true, decide_eq_true_eq] using ho
      have := hrest hok
      have := hpiece (v.stop - v.start) (by omega)
      rw [madeBytes_cons]
      unfold bytes size at this ⊢
      omega

/-- A hole that cannot be made is refused, and then nothing has changed: the VMA around it is the
    only one in the range. -/
theorem unmapVmas_refused (granted : Bool) (h : Ordered l)
    (hr : (unmapVmas granted a b l).2 = false) :
    (unmapVmas granted a b l).1 = l ∧ granted = false ∧ ∃ v ∈ l, v.start < a ∧ b < v.stop := by
  induction l with
  | nil => cases hr
  | cons v l ih =>
    have hhead := fun w (hw : w ∈ l) => h.head hw
    unfold unmapVmas at hr ⊢
    by_cases ho : v.overlaps a b
    · have hgt : v.start < b ∧ a < v.stop := by
        simpa only [overlaps, Bool.and_eq_true, decide_eq_true_eq] using ho
      -- behind a VMA that is cut there is none around the range
      have hno : (unmapVmas granted a b l).2 = true := by
        by_contra hne
        obtain ⟨-, -, w, hw, hlt, -⟩ := ih h.tail (Bool.eq_false_iff.2 hne)
        have := hhead w hw
        omega
      rw [if_pos ho] at hr ⊢
      split at hr
      · rw [hno] at hr
        cases hr
      split at hr
      · rw [hno] at hr
        cases hr
      split at hr
      · rw [hno] at hr
        cases hr
      split at hr
      · rw [hno] at hr
        cases hr
      · rename_i hfull hleft hright hgranted
        rw [if_neg hfull, if_neg hleft, if_neg hright, if_neg hgranted]
        exact ⟨rfl, Bool.eq_false_iff.2 hgranted, v, mem_cons_self, by omega, by omega⟩
    · rw [if_neg ho] at hr ⊢
      obtain ⟨hsame, hgranted, w, hw, hsplit⟩ := ih h.tail hr
      exact ⟨congrArg (v :: ·) hsame, hgranted, w, mem_cons_of_mem _ hw, hsplit⟩

theorem unmapVmas_split (h : Ordered l) (hab : a < b) (hv : v ∈ l) (hlt : v.start < a)
    (hgt : b < v.stop) : (unmapVmas false a b l).2 = false := by
  induction l with
  | nil => cases hv
  | cons c l ih =>
    unfold unmapVmas
    rcases mem_cons.1 hv with rfl | hv
    · have ho : v.overlaps a b = true := by
        simp only [overlaps, Bool.and_eq_true, decide_eq_true_eq]
        omega
      rw [if_pos ho, if_neg (by omega), if_neg (by omega), if_neg (by omega)]
      rfl
    have hc := h.head hv
    have ho : ¬ c.overlaps a b = true := by
      simp only [overlaps, Bool.and_eq_true, decide_eq_true_eq]
      omega
    rw [if_neg ho]
    exact ih h.tail hv

/-! ## 3. Accounts -/

/-- The list is in order, and the process is charged for what the calls made, within its limit. -/
structure Charged (s : AddressSpace) : Prop where
  ordered : Ordered s.vmas
  rss : s.rss_current = madeBytes .memory s.vmas
  limit : madeBytes .memory s.vmas ≤ s.rlimit_as

namespace Charged

variable {s : AddressSpace} {l' : List Area}

theorem insert_size (h : Charged s) (hv : v.start < v.stop) (hf : Free v.start v.stop s.vmas)
    (hm : v.made = .memory) (hn : v.size = n) (hl : s.rss_current + n ≤ s.rlimit_as) :
    Charged { s.setVmas (insertVma v s.vmas) with rss_current := s.rss_current + n } := by
  have hbytes : madeBytes .memory (insertVma v s.vmas) = s.rss_current + n := by
    rw [madeBytes_insertVma, bytes, if_pos hm, hn, h.rss, Nat.add_comm]
  exact ⟨h.ordered.insertVma hv hf, hbytes.symm, hbytes.trans_le hl⟩

/-- **A charge that goes down by what is gone.** The code subtracts `n`, but never below zero. -/
theorem lose (h : Charged s) (ho : Ordered l') {k : Nat}
    (hb : madeBytes .memory l' + k = madeBytes .memory s.vmas)
    (hk : k = min n s.rss_current) :
    Charged { s.setVmas l' with rss_current := s.rss_current - n } := by
  have hrss := h.rss
  have hlimit := h.limit
  refine ⟨ho, ?_, ?_⟩
  · dsimp only [AddressSpace.setVmas]
    omega
  · dsimp only [AddressSpace.setVmas]
    omega

theorem same (h : Charged s) (ho : Ordered l')
    (hb : madeBytes .memory l' = madeBytes .memory s.vmas) :
    Charged (s.setVmas l') :=
  ⟨ho, h.rss.trans hb.symm, hb.trans_le h.limit⟩

end Charged

theorem alignForward_ok {m : Nat} (h : alignForward n = .ok m) : m = roundUp n := by
  unfold alignForward pageAlignUp at h
  split at h
  · rename_i hm
    cases h
    split at hm
    · exact (Option.some.inj hm).symm
    · cases hm
  · cases h

/-- A call that did not stop went on with the rounded number. -/
theorem alignForward_bind {β : Type} {f : Nat → Except Trap β} {x : β}
    (h : (do let m ← alignForward n; f m) = .ok x) : f (roundUp n) = .ok x := by
  obtain ⟨m, hm, h⟩ := (Except.bind_ok_iff _ _).1 h
  rwa [alignForward_ok hm] at h

theorem roundUp_pos (h : n ≠ 0) : 0 < roundUp n := by
  unfold roundUp pageAlignDown PAGE_SIZE
  omega

theorem findOverlappingVma_none (h : findOverlappingVma a b l = none) : Free a b l := by
  intro v hv
  have hno := find?_eq_none.1 h v hv
  simp only [overlaps, Bool.and_eq_true, decide_eq_true_eq] at hno
  omega

theorem overlaps_of_find (h : findOverlappingVma a b l = some v) :
    v ∈ l ∧ v.start < b ∧ a < v.stop := by
  have ho := find?_some h
  simp only [overlaps, Bool.and_eq_true, decide_eq_true_eq] at ho
  exact ⟨mem_of_find?_eq_some h, ho⟩

/-! ## 4. The calls -/

variable {res : Except Errno Nat} {file : Except Errno (Nat → Region)} {old_brk new_brk : Nat}

namespace AddressSpace

variable {s s' : AddressSpace} {addr len prot flags : Nat} {mem : Memory}

theorem mapAddr_free (h : Ordered s.vmas) (ha : s.mapAddr addr n flags = .ok a) :
    Free a (a + n) s.vmas := by
  unfold mapAddr at ha
  split at ha
  · split at ha
    · cases ha
    split at ha
    · cases ha
    split at ha
    · cases ha
    split at ha
    · cases ha
    · rename_i hno
      cases ha
      exact findOverlappingVma_none (not_isSome_iff_eq_none.1 hno)
  · cases hf : s.findFreeRange n with
    | none =>
      rw [hf] at ha
      cases ha
    | some r =>
      rw [hf] at ha
      cases ha
      exact freeFrom_free h hf

/-- `UserVmm.mmap` fails, or a new VMA lies where nothing was. -/
theorem mmap_cases (hm : s.mmap addr len prot flags mem = .ok (s', res)) :
    (s' = s ∧ ∃ e, res = .error e) ∨
      ∃ a, len ≠ 0 ∧ s.mapAddr addr (roundUp len) flags = .ok a ∧ res = .ok a ∧ s' = s.setVmas
          (insertVma ⟨a, a + roundUp len, prot, flags, .Anonymous, .memory⟩ s.vmas) := by
  unfold mmap at hm
  split at hm
  · cases hm
    exact .inl ⟨rfl, _, rfl⟩
  split at hm
  · cases hm
    exact .inl ⟨rfl, _, rfl⟩
  rename_i hlen
  replace hm := alignForward_bind hm
  cases ha : s.mapAddr addr (roundUp len) flags with
  | error e =>
    rw [ha] at hm
    cases hm
    exact .inl ⟨rfl, _, rfl⟩
  | ok a =>
    rw [ha] at hm
    dsimp only at hm
    split at hm
    · cases hm
      exact .inr ⟨a, hlen, rfl, rfl, rfl⟩
    · cases hm
      exact .inl ⟨rfl, _, rfl⟩

/-- `exceeds` in the other direction. -/
theorem fits (h : ¬ s.exceeds n = true) : s.rss_current + n ≤ s.rlimit_as := by
  simp only [exceeds, Bool.or_eq_true, decide_eq_true_eq] at h
  omega

/-! ### mmap -/

/-- A mapping of a file is charged with what the file wants to map; the limit was checked for what
    the caller asked for. If it is mapped, it has to fit. -/
def Maps (s : AddressSpace) (r : Region) (mem : Memory) : Prop :=
  r.hasPhys = true → r.actual_size ≠ 0 → (s.findFreeRange (roundUp r.actual_size)).isSome = true →
    mem.pages = true → mem.vma = true → s.rss_current + roundUp r.actual_size ≤ s.rlimit_as

theorem charged_mmapFile {aligned_len : Nat} (h : Charged s)
    (hfits : ∀ f, file = .ok f → s.Maps (f aligned_len) mem)
    (hm : s.mmapFile aligned_len prot file mem = .ok (s', res)) : Charged s' := by
  unfold mmapFile at hm
  cases file with
  | error e =>
    cases hm
    exact h
  | ok f =>
    have hlimit := hfits f rfl
    dsimp only at hm
    split at hm
    · cases hm
      exact h
    split at hm
    · cases hm
      exact h
    rename_i hphys hsize
    replace hm := alignForward_bind hm
    have hpos := roundUp_pos hsize
    cases hf : s.findFreeRange (roundUp (f aligned_len).actual_size) with
    | none =>
      rw [hf] at hm
      cases hm
      exact h
    | some a =>
      rw [hf] at hm
      dsimp only at hm
      split at hm
      · cases hm
        exact h
      split at hm
      · cases hm
        exact h
      rename_i hpages hvma
      cases hm
      refine h.insert_size (Nat.lt_add_of_pos_right hpos) (freeFrom_free h.ordered hf) rfl
        (Nat.add_sub_cancel_left ..) ?_
      exact hlimit (by simpa using hphys) hsize (hf ▸ rfl) (by simpa using hpages)
        (by simpa using hvma)

theorem charged_mmap (h : Charged s)
    (hfits : len ≠ 0 → s.exceeds (roundUp len) = false → flags &&& MAP_ANONYMOUS = 0 →
      ∀ f, file = .ok f → s.Maps (f (roundUp len)) mem)
    (hm : s.sys_mmap addr len prot flags file mem = .ok (s', res)) : Charged s' := by
  unfold sys_mmap at hm
  split at hm
  · cases hm
    exact h
  rename_i hlen
  replace hm := alignForward_bind hm
  split at hm
  · cases hm
    exact h
  rename_i hlimit
  split at hm
  · obtain ⟨⟨s₁, r⟩, hcall, hm⟩ := (Except.bind_ok_iff _ _).1 hm
    rcases mmap_cases hcall with ⟨rfl, e, rfl⟩ | ⟨a, hlen, ha, rfl, rfl⟩
    · cases e <;> cases hm <;> exact h
    · cases hm
      exact h.insert_size (Nat.lt_add_of_pos_right (roundUp_pos hlen))
        (mapAddr_free h.ordered ha) rfl (Nat.add_sub_cancel_left ..) (fits hlimit)
  · rename_i hanon
    exact charged_mmapFile h (hfits hlen (by simpa using hlimit) (not_not.1 hanon)) hm

/-! ### munmap -/

/-- What there is to count of `[addr, addr + len)` is all of it, or all that the process is charged
    for. -/
def Unmaps (s : AddressSpace) (addr len : Nat) (mem : Memory) : Prop :=
  (mem.vma = false ∧ ∃ v ∈ s.vmas, v.start < addr ∧ addr + len < v.stop) ∨
    madeIn .memory addr (addr + len) s.vmas = min len s.rss_current

theorem charged_munmap (h : Charged s)
    (hu : isPageAligned addr = true → len ≠ 0 → addr ≤ maxInt - roundUp len →
      s.Unmaps addr (roundUp len) mem)
    (hm : s.sys_munmap addr len mem = .ok (s', res)) : Charged s' := by
  unfold sys_munmap at hm
  obtain ⟨⟨s₁, r⟩, hcall, hm⟩ := (Except.bind_ok_iff _ _).1 hm
  unfold munmapLocked at hcall
  split at hcall
  · cases hcall
    cases hm
    exact h
  rename_i haligned
  split at hcall
  · cases hcall
    cases hm
    exact h
  rename_i hlen
  replace hcall := alignForward_bind hcall
  have hpos := roundUp_pos hlen
  split at hcall
  · cases hcall
    cases hm
    exact h
  rename_i hroom
  have hab : addr < addr + roundUp len := by omega
  have hwhen := hu (by simpa using haligned) hlen (by omega)
  obtain ⟨hordered, -⟩ := unmapVmas_ordered mem.vma h.ordered hab
  have hbytes := madeBytes_unmapVmas (m := .memory) mem.vma hab h.ordered
  have hsame : (unmapVmas mem.vma addr (addr + roundUp len) s.vmas).2 = false → _ :=
    fun hr => (unmapVmas_refused mem.vma h.ordered hr).1
  cases hr : unmapVmas mem.vma addr (addr + roundUp len) s.vmas with
  | mk vmas done =>
    rw [hr] at hcall hordered hbytes hsame
    cases done with
    | false =>
      cases hsame rfl
      cases hcall
      cases hm
      exact h
    | true =>
      cases hcall
      replace hm := alignForward_bind hm
      cases hm
      rcases hwhen with ⟨hmem, v, hv, hlt, hgt⟩ | hwhen
      · have hsplit := unmapVmas_split h.ordered hab hv hlt hgt
        rw [hmem] at hr
        rw [hr] at hsplit
        cases hsplit
      · exact h.lose hordered (hbytes rfl) hwhen

/-! ### mremap -/

/-- `mremap` charges nothing and frees nothing, so that what counts may not change: a cut takes no
    more than the range, an extended VMA does not count, and a VMA that moves counts as much as the
    new one. -/
def RemapsVma (s : AddressSpace) (v : Area) (old_addr old_size new_size flags : Nat)
    (mem : Memory) : Prop :=
  if new_size ≤ old_size then v.made = .memory → v.stop = old_addr + new_size
  else if s.canGrowInPlace (old_addr + old_size) (old_addr + new_size) then
    mem.pages = true → v.made ≠ .memory
  else flags &&& 1 ≠ 0 → (s.findFreeRange new_size).isSome = true → mem.pages = true →
    v.bytes .memory = if mem.vma then new_size else 0

def Remaps (s : AddressSpace) (old_addr old_size new_size flags : Nat) (mem : Memory) : Prop :=
  ∀ v, s.vmas.find? (fun v => v.contains old_addr) = some v → old_addr + old_size ≤ v.stop →
    s.RemapsVma v old_addr old_size new_size flags mem

/-- A VMA that ends elsewhere, and does not count if it does. -/
theorem charged_restop (h : Charged s) (hf : s.vmas.find? p = some v)
    (hn : v.start < n) (hroom : ∀ u ∈ s.vmas, v.stop ≤ u.start → n ≤ u.start)
    (hm : v.made = .memory → v.stop = n) :
    Charged (s.setVmas (replaceFirst p (fun v => [{ v with stop := n }]) s.vmas)) := by
  have hbytes := madeBytes_replaceFirst (m := .memory) (f := fun v => [{ v with stop := n }]) hf
  refine h.same (h.ordered.restop hf hn hroom) ?_
  rw [madeBytes_singleton] at hbytes
  unfold bytes size at hbytes
  by_cases hmade : v.made = .memory
  · rw [hm hmade] at hbytes
    exact Nat.add_right_cancel hbytes
  · rw [if_neg hmade, if_neg hmade] at hbytes
    exact hbytes

/-- A VMA that moves: the old one goes as a whole. -/
theorem charged_moved (h : Charged s)
    (hf : s.vmas.find? p = some v) (hpos : 0 < n) (hfree : Free a (a + n) s.vmas)
    (hb : v.bytes .memory = if mem.vma then n else 0) (hm : (if !mem.vma then
        pure (s.setVmas (replaceFirst p (fun _ => []) s.vmas), .error .ENOMEM)
      else pure (s.setVmas (insertVma ⟨a, a + n, v.prot, v.flags, .Anonymous, .memory⟩
        (replaceFirst p (fun _ => []) s.vmas)), .ok a) :
          Except Trap (AddressSpace × Except Errno Nat)) = .ok (s', res)) : Charged s' := by
  have hbytes := madeBytes_replaceFirst (m := .memory) (f := fun _ => []) hf
  have hrest : Ordered (replaceFirst p (fun _ => []) s.vmas) :=
    h.ordered.replaceFirst fun _ _ => .inl rfl
  have hnil : madeBytes .memory [] = 0 := rfl
  split at hm
  · rename_i hmem
    cases hm
    rw [if_neg (by simpa using hmem)] at hb
    exact h.same hrest (by omega)
  rename_i hmem
  cases hm
  rw [if_pos (by simpa using hmem)] at hb
  refine h.same (hrest.insertVma (Nat.lt_add_of_pos_right hpos) fun w hw => ?_) ?_
  · rcases mem_replaceFirst hw with hw | ⟨c, -, hw⟩
    · exact hfree w hw
    · cases hw
  have hsize : bytes .memory ⟨a, a + n, v.prot, v.flags, .Anonymous, .memory⟩ = n :=
    Nat.add_sub_cancel_left ..
  rw [madeBytes_insertVma, hsize]
  omega

theorem charged_mremap {old_addr old_size new_size : Nat} (h : Charged s) (hnew : new_size ≠ 0)
    (hr : isPageAligned old_addr = true → old_addr ≤ maxInt - roundUp old_size →
      old_addr ≤ maxInt - roundUp new_size →
      s.Remaps old_addr (roundUp old_size) (roundUp new_size) flags mem)
    (hm : s.mremap old_addr old_size new_size flags mem = .ok (s', res)) : Charged s' := by
  unfold mremap at hm
  split at hm
  · cases hm
    exact h
  rename_i haligned
  replace hm := alignForward_bind hm
  replace hm := alignForward_bind hm
  have hpos := roundUp_pos hnew
  generalize roundUp old_size = ao at *
  generalize roundUp new_size = an at *
  split at hm
  · cases hm
    exact h
  split at hm
  · cases hm
    exact h
  rename_i hroomOld hroomNew
  replace hr := hr (by simpa using haligned) (by omega) (by omega)
  cases hf : s.vmas.find? fun v => v.contains old_addr with
  | none =>
    rw [hf] at hm
    cases hm
    exact h
  | some v =>
    rw [hf] at hm
    have hv := mem_of_find?_eq_some hf
    have hin := find?_some hf
    simp only [Area.contains, Bool.and_eq_true, decide_eq_true_eq] at hin
    dsimp only at hm
    split at hm
    · cases hm
      exact h
    rename_i hcovers
    replace hr := hr v hf (by omega)
    unfold RemapsVma at hr
    have hstart : v.start < old_addr + an := by omega
    split at hm
    · rename_i hle
      rw [if_pos hle] at hr
      cases hm
      exact charged_restop h hf hstart (fun u _ hu => by omega) hr
    rename_i hlt
    rw [if_neg hlt] at hr
    split at hm
    · rename_i hgrow
      rw [if_pos hgrow] at hr
      split at hm
      · cases hm
        exact h
      rename_i hpages
      cases hm
      have hmade := hr (by simpa using hpages)
      simp only [canGrowInPlace, Bool.and_eq_true, isNone_iff_eq_none] at hgrow
      have hfree := findOverlappingVma_none hgrow.1
      refine charged_restop h hf hstart (fun u hu hstop => ?_) (by simp [hmade])
      have := hfree u hu
      have := h.ordered.solid u hu
      omega
    rename_i hgrow
    rw [if_neg hgrow] at hr
    split at hm
    · cases hm
      exact h
    rename_i hmove
    cases ha : s.findFreeRange an with
    | none =>
      rw [ha] at hm
      cases hm
      exact h
    | some a =>
      rw [ha] at hm
      dsimp only at hm
      split at hm
      · cases hm
        exact h
      · rename_i hpages
        replace hr := hr hmove (ha ▸ rfl) (by simpa using hpages)
        exact charged_moved h hf hpos (freeFrom_free h.ordered ha) hr hm

/-! ### brk -/

/-- The VMA that `brk` extends. -/
def heapArea (s : AddressSpace) (old_brk : Nat) : Option Area :=
  (findOverlappingVma (old_brk - 1) old_brk s.vmas).filter fun v =>
    v.stop = old_brk ∧ v.prot = PROT_READ ||| PROT_WRITE ∧ v.flags = MAP_PRIVATE ||| MAP_ANONYMOUS

/-- The whole pages that `brk` adds fit, and a VMA that it extends counts. The ones that it gives
    back are all of the first VMA in the range, and count. -/
def Breaks (s : AddressSpace) (old_brk new_brk : Nat) (mem : Memory) : Prop :=
  (old_brk < new_brk → findOverlappingVma old_brk new_brk s.vmas = none → mem.pages = true →
    (mem.vma = true ∨ (s.heapArea old_brk).isSome = true) →
    s.rss_current + (new_brk - old_brk) ≤ s.rlimit_as ∧
      ∀ v ∈ s.heapArea old_brk, v.made = .memory) ∧
  (new_brk < old_brk →
    ((findOverlappingVma new_brk old_brk s.vmas).elim 0 fun v =>
      if v.made = .memory then v.stop - max new_brk v.start else 0) =
        min (old_brk - new_brk) s.rss_current)

theorem charged_heapVma (h : Charged s) (hlt : old_brk < new_brk)
    (hfree : Free old_brk new_brk s.vmas)
    (hfits : mem.vma = true → s.rss_current + (new_brk - old_brk) ≤ s.rlimit_as)
    (hm : s.heapVma old_brk new_brk mem = (s', .ok ())) :
    Charged { s' with rss_current := s'.rss_current + (new_brk - old_brk) } := by
  unfold heapVma at hm
  split at hm
  · rename_i hvma
    cases hm
    exact h.insert_size hlt hfree rfl rfl (hfits hvma)
  · cases hm

theorem charged_expandHeap (h : Charged s) (hlt : old_brk < new_brk)
    (hb : s.Breaks old_brk new_brk mem) (hnone : findOverlappingVma old_brk new_brk s.vmas = none)
    (hm : s.expandHeap old_brk new_brk mem = (s', .ok ())) :
    Charged { s' with rss_current := s'.rss_current + (new_brk - old_brk) } := by
  have hfree := findOverlappingVma_none hnone
  unfold expandHeap at hm
  rw [if_neg (by omega)] at hm
  split at hm
  · cases hm
  rename_i hpages
  replace hb := hb.1 hlt hnone (by simpa using hpages)
  have hcheck : (if old_brk > 0 then old_brk - 1 else 0) = old_brk - 1 := by
    split <;> omega
  rw [hcheck] at hm
  dsimp only at hm
  cases hf : findOverlappingVma (old_brk - 1) old_brk s.vmas with
  | none =>
    rw [hf] at hm
    exact charged_heapVma h hlt hfree (fun hvma => (hb (.inl hvma)).1) hm
  | some v =>
    rw [hf] at hm
    dsimp only at hm
    split at hm
    · rename_i hlike
      have harea : s.heapArea old_brk = some v := by
        unfold heapArea
        rw [hf, Option.filter_some, if_pos (decide_eq_true hlike)]
      obtain ⟨hfits, hmade⟩ := hb (.inr (harea ▸ rfl))
      obtain ⟨hv, hstart, -⟩ := overlaps_of_find hf
      have hcounts := hmade v harea
      have hbytes := madeBytes_replaceFirst (m := .memory)
        (f := fun v => [{ v with stop := new_brk }]) hf
      rw [madeBytes_singleton, bytes, bytes, if_pos hcounts, if_pos hcounts, size,
        size, hlike.1] at hbytes
      have hrss := h.rss
      cases hm
      refine ⟨h.ordered.restop hf (hstart.trans hlt) fun u hu hstop => ?_, ?_, ?_⟩
      · have := hfree u hu
        have := h.ordered.solid u hu
        omega
      · dsimp only [setVmas] at hbytes ⊢
        omega
      · dsimp only [setVmas] at hbytes ⊢
        omega
    · exact charged_heapVma h hlt hfree (fun hvma => (hb (.inl hvma)).1) hm

theorem expandHeap_error {e : Errno}
    (hm : s.expandHeap old_brk new_brk mem = (s', .error e)) : s' = s := by
  have hheap : ∀ {s'}, s.heapVma old_brk new_brk mem = (s', .error e) → s' = s := fun hm => by
    unfold heapVma at hm
    split at hm
    · cases hm
    · cases hm
      rfl
  unfold expandHeap at hm
  split at hm
  · cases hm
  split at hm
  · cases hm
    rfl
  dsimp only at hm
  split at hm
  · split at hm
    · cases hm
    · exact hheap hm
  · exact hheap hm

theorem charged_shrinkHeap (h : Charged s) (hlt : new_brk < old_brk)
    (hb : s.Breaks old_brk new_brk mem) :
    Charged { s.shrinkHeap old_brk new_brk with
      rss_current := (s.shrinkHeap old_brk new_brk).rss_current - (old_brk - new_brk) } := by
  have hloss := hb.2 hlt
  unfold shrinkHeap
  rw [if_neg (by omega)]
  cases hf : findOverlappingVma new_brk old_brk s.vmas with
  | none =>
    rw [hf] at hloss
    rw [replaceFirst_none hf]
    exact h.lose h.ordered rfl hloss
  | some v =>
    rw [hf] at hloss
    obtain ⟨hv, hstart, hstop⟩ := overlaps_of_find hf
    have hbytes := madeBytes_replaceFirst (m := .memory)
      (f := fun v => if v.start ≥ new_brk then [] else [{ v with stop := new_brk }]) hf
    refine h.lose (h.ordered.replaceFirst fun c hc => ?_) ?_ hloss
    · cases hf.symm.trans hc
      split
      · exact .inl rfl
      · rename_i hlow
        exact .inr ⟨_, rfl, rfl, Nat.lt_of_not_le hlow, fun u _ hu => by dsimp only; omega⟩
    dsimp only [elim_some] at hbytes ⊢
    unfold bytes size at hbytes
    by_cases hlow : v.start ≥ new_brk
    · have hnil : madeBytes .memory [] = 0 := rfl
      rw [if_pos hlow, hnil] at hbytes
      rw [Nat.max_eq_right hlow]
      exact hbytes
    rw [if_neg hlow, madeBytes_singleton, bytes, size] at hbytes
    rw [Nat.max_eq_left (Nat.le_of_not_le hlow)]
    by_cases hm : v.made = .memory
    · simp only [hm, if_true] at hbytes ⊢
      omega
    · simp only [hm, if_false] at hbytes ⊢
      exact hbytes

theorem charged_brk {brk : Nat} (h : Charged s)
    (hb : brk ≠ 0 → s.heap_start ≤ brk → roundUp brk ≤ USER_SPACE_END →
      ¬ (brk > s.heap_break ∧ s.exceeds (brk - s.heap_break) = true) →
      s.Breaks (roundUp s.heap_break) (roundUp brk) mem)
    (hm : s.sys_brk brk mem = .ok (s', res)) : Charged s' := by
  unfold sys_brk at hm
  split at hm
  · cases hm
    exact h
  split at hm
  · cases hm
    exact h
  split at hm
  · cases hm
    exact h
  split at hm
  · cases hm
    exact h
  rename_i hbrk hlow hhigh hlimit
  replace hm := alignForward_bind hm
  replace hm := alignForward_bind hm
  split at hm
  · cases hm
    exact h
  rename_i hend
  replace hb := hb hbrk (by omega) (by omega) hlimit
  generalize roundUp s.heap_break = old at *
  generalize roundUp brk = new at *
  split at hm
  · rename_i hgrow
    split at hm
    · cases hm
      exact h
    rename_i hnone
    cases he : s.expandHeap old new mem with
    | mk s₁ r =>
      rw [he] at hm
      cases r with
      | error e =>
        cases hm
        rwa [expandHeap_error he]
      | ok u =>
        cases hm
        have := charged_expandHeap h hgrow hb (not_isSome_iff_eq_none.1 hnone) he
        exact ⟨this.ordered, this.rss, this.limit⟩
  · split at hm
    · rename_i hshrink
      cases hm
      have := charged_shrinkHeap h hshrink hb
      exact ⟨this.ordered, this.rss, this.limit⟩
    · cases hm
      exact ⟨h.ordered, h.rss, h.limit⟩

/-! ## 5. Runs -/

/-- **What a call must be like for its accounting to be right.** -/
def Keeps (s : AddressSpace) : MemoryCall → Prop
  | .mmap _ len _ flags file mem => len ≠ 0 → s.exceeds (roundUp len) = false →
    flags &&& MAP_ANONYMOUS = 0 → ∀ f, file = .ok f → s.Maps (f (roundUp len)) mem
  | .munmap addr len mem => isPageAligned addr = true → len ≠ 0 → addr ≤ maxInt - roundUp len →
    s.Unmaps addr (roundUp len) mem
  | .mremap old_addr old_size new_size flags mem => old_size ≠ 0 → new_size ≠ 0 →
    isPageAligned old_addr = true → flags = flags &&& MREMAP_MAYMOVE →
    old_addr ≤ maxInt - roundUp old_size → old_addr ≤ maxInt - roundUp new_size →
    s.Remaps old_addr (roundUp old_size) (roundUp new_size) flags mem
  | .brk brk mem => brk ≠ 0 → s.heap_start ≤ brk → roundUp brk ≤ USER_SPACE_END →
    ¬ (brk > s.heap_break ∧ s.exceeds (brk - s.heap_break) = true) →
    s.Breaks (roundUp s.heap_break) (roundUp brk) mem

instance Maps.decidable {r : Region} : Decidable (s.Maps r mem) :=
  inferInstanceAs (Decidable (_ → _ → _ → _ → _ → _))

instance Unmaps.decidable : Decidable (s.Unmaps addr len mem) :=
  inferInstanceAs (Decidable (_ ∨ _))

instance RemapsVma.decidable {old_addr old_size new_size : Nat} :
    Decidable (s.RemapsVma v old_addr old_size new_size flags mem) := by
  unfold RemapsVma
  split
  · infer_instance
  · split <;> infer_instance

instance Remaps.decidable {old_addr old_size new_size : Nat} :
    Decidable (s.Remaps old_addr old_size new_size flags mem) :=
  inferInstanceAs (Decidable (∀ v ∈ s.vmas.find? fun v => v.contains old_addr,
    old_addr + old_size ≤ v.stop → s.RemapsVma v old_addr old_size new_size flags mem))

instance Breaks.decidable {old_brk new_brk : Nat} : Decidable (s.Breaks old_brk new_brk mem) :=
  inferInstanceAs (Decidable (_ ∧ _))

instance Keeps.decidable : (c : MemoryCall) → Decidable (s.Keeps c)
  | .mmap _ len _ flags (.ok f) mem =>
    decidable_of_iff (len ≠ 0 → s.exceeds (roundUp len) = false → flags &&& MAP_ANONYMOUS = 0 →
        s.Maps (f (roundUp len)) mem)
      ⟨fun h hl hx ha _ he => Except.ok.inj he ▸ h hl hx ha, fun h hl hx ha => h hl hx ha f rfl⟩
  | .mmap _ _ _ _ (.error _) _ => .isTrue fun _ _ _ _ he => nomatch he
  | .munmap _ _ _ => inferInstanceAs (Decidable (_ → _ → _ → _))
  | .mremap _ _ _ _ _ => inferInstanceAs (Decidable (_ → _ → _ → _ → _ → _ → _))
  | .brk _ _ => inferInstanceAs (Decidable (_ → _ → _ → _ → _))

theorem truncate_mayMove (h : flags = flags &&& MREMAP_MAYMOVE) : truncate flags = flags := by
  have hle : flags ≤ MREMAP_MAYMOVE := h ▸ Nat.and_le_right
  exact Nat.mod_eq_of_lt (hle.trans_lt (by decide))

/-- **Every such call keeps the accounts.** -/
theorem charged_call {c : MemoryCall} (h : Charged s) (hk : s.Keeps c)
    (hm : s.call c = .ok (s', res)) : Charged s' := by
  cases c with
  | mmap addr len prot flags file mem => exact charged_mmap h hk hm
  | munmap addr len mem => exact charged_munmap h hk hm
  | mremap old_addr old_size new_size flags mem =>
    change s.sys_mremap old_addr old_size new_size flags mem = _ at hm
    unfold sys_mremap at hm
    split at hm
    · cases hm
      exact h
    split at hm
    · cases hm
      exact h
    split at hm
    · cases hm
      exact h
    split at hm
    · cases hm
      exact h
    rename_i hsizes _ _ hflags
    rw [not_not] at hflags
    rw [truncate_mayMove hflags] at hm
    rw [not_or] at hsizes
    dsimp only [Keeps] at hk
    refine charged_mremap h hsizes.2 ?_ hm
    intro hal hold hnew
    generalize s.Remaps old_addr (roundUp old_size) (roundUp new_size) flags mem = P at *
    exact hk hsizes.1 hsizes.2 hal hflags hold hnew
  | brk brk mem => exact charged_brk h hk hm

end AddressSpace

/-- The condition on the single calls of a run. -/
def AddressSpace.KeepsIn (r : Except Trap AddressSpace) (c : MemoryCall) : Prop :=
  ∀ s, r = .ok s → s.Keeps c

instance AddressSpace.KeepsIn.decidable : (r : Except Trap AddressSpace) → (c : MemoryCall) →
    Decidable (KeepsIn r c)
  | .ok s, c => decidable_of_iff (s.Keeps c) ⟨fun h _ he => Except.ok.inj he ▸ h, fun h => h s rfl⟩
  | .error _, _ => .isTrue fun _ he => nomatch he

/-- **The limit of a process.** In every run whose calls are such, the VMAs that they made are
    within `rlimit_as`, and `rss_current` is the number of their bytes. -/
theorem addressSpaceCharged {r : Except Trap AddressSpace}
    (h : memoryCalls.Reach AddressSpace.KeepsIn r) :
    ∀ s, r = .ok s → madeBytes .memory s.vmas ≤ s.rlimit_as ∧
      s.rss_current = madeBytes .memory s.vmas := by
  suffices hcharged : ∀ s, r = .ok s → Charged s from
    fun s hs => ⟨(hcharged s hs).limit, (hcharged s hs).rss⟩
  refine h.invariant (I := fun r => ∀ s, r = .ok s → Charged s) ?_ ?_
  · intro r ⟨s, hr, hordered, hmade, hrss⟩ s' hs'
    cases hr.symm.trans hs'
    have hzero : madeBytes .memory s.vmas = 0 := List.sum_eq_zero_iff_forall_eq_nat.2 fun n hn => by
      obtain ⟨v, hv, rfl⟩ := mem_map.1 hn
      rw [bytes, if_neg (hmade v hv)]
    exact ⟨hordered, hrss.trans hzero.symm, hzero.trans_le (Nat.zero_le _)⟩
  intro r c _ hr hk s' hs'
  cases r with
  | error e => cases hs'
  | ok s =>
    change Prod.fst <$> s.call c = .ok s' at hs'
    cases hc : s.call c with
    | error e =>
      rw [hc] at hs'
      cases hs'
    | ok x =>
      rw [hc] at hs'
      cases hs'
      exact AddressSpace.charged_call (hr s rfl) (hk s rfl) hc

/-- A process that may have four pages. -/
def smallSpace : AddressSpace where
  vmas := [⟨0x7FFF_0000_0000, 0x7FFF_0010_0000, PROT_READ ||| PROT_WRITE, MAP_PRIVATE,
    .Anonymous, .other⟩]
  mmap_base := USER_MMAP_START
  heap_start := 0x10000
  heap_break := 0x10000
  rlimit_as := 4 * PAGE_SIZE

theorem smallSpace_start : memoryCalls.start (.ok smallSpace) :=
  ⟨smallSpace, rfl, ⟨by simp [smallSpace], by decide⟩, by decide, rfl⟩

/-- Two pages are mapped, and the second one is given back; the heap grows by two and shrinks by
    one. -/
def smallCalls : List MemoryCall :=
  [.mmap 0 8192 3 MAP_ANONYMOUS (.error .EBADF) ⟨true, true⟩,
    .munmap (USER_MMAP_START + 4096) 4096 ⟨true, true⟩,
    .brk 0x12000 ⟨true, true⟩,
    .brk 0x11000 ⟨true, true⟩]

theorem addressSpaceCharged_small :
    (memoryCalls.exec (.ok smallSpace) smallCalls).toOption.map (·.rss_current) =
      some (2 * PAGE_SIZE) ∧
    ∀ s, memoryCalls.exec (.ok smallSpace) smallCalls = .ok s →
      madeBytes .memory s.vmas ≤ s.rlimit_as ∧ s.rss_current = madeBytes .memory s.vmas :=
  ⟨by decide +kernel, addressSpaceCharged
    (Machine.Reach.exec (.start smallSpace_start) (by decide +kernel))⟩

/-- A process at its limit unmaps pages that it does not have, and maps four more. -/
def driftCalls : List MemoryCall :=
  [.mmap 0 16384 3 MAP_ANONYMOUS (.error .EBADF) ⟨true, true⟩, .munmap 0x20000 16384 ⟨true, true⟩,
    .mmap 0 16384 3 MAP_ANONYMOUS (.error .EBADF) ⟨true, true⟩]

/-- **Any process is within its limit** -- no. -/
theorem addressSpaceCharged_refuted : ¬ ∀ r, memoryCalls.Reachable r → ∀ s, r = .ok s →
      madeBytes .memory s.vmas ≤ s.rlimit_as ∧ s.rss_current = madeBytes .memory s.vmas := by
  intro h
  have hrun := h _ (Machine.Reach.exec (.start smallSpace_start) (l := driftCalls)
    (Machine.Along.of_forall (fun _ _ => trivial) _ _))
  have hall : (memoryCalls.exec (.ok smallSpace) driftCalls).toOption.all
      (fun s => madeBytes .memory s.vmas ≤ s.rlimit_as) = true := by
    cases he : memoryCalls.exec (.ok smallSpace) driftCalls with
    | error e => rfl
    | ok s => exact decide_eq_true (hrun s he).1
  exact absurd hall (by decide +kernel)

end Zigk.Mm.Areas
