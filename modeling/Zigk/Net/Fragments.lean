/-
  Subject:   THE FRAGMENTS OF A PAYLOAD, and a context that receives them in any order.

  * `Pieces`, `fragmentsFrom` -- the sender: pieces of the sizes that are demanded, one after the
    other; `Sent`, **`Pieces.sent`** -- what a receiver needs of them, whatever their order;
  * `Receives` -- a context with some of them: its holes are apart, and as many as the gaps
    (`Receives.left_length`);
  * **`Receives.accept`** -- the next fragment is stored, and the last that comes completes the
    payload, if there is room for the gaps.
-/
import Zigk.Net.ReassemblySound

namespace Zigk.Reassembly

open List ReassemblyEntry Fragment

open Span (Covered Apart Solid minus)

/-! ## 1. The fragments of a payload -/

/-- The fragment with the bytes `p` at place `a`. -/
def fragment (key : FragmentKey) (a : Nat) (moreFragments : Bool) (p : List UInt8) : Fragment :=
  ⟨key, UInt16.ofNat (a / 8), moreFragments, p⟩

/-- The pieces, sent one after the other from place `a` on. -/
def fragmentsFrom (key : FragmentKey) : Nat → List (List UInt8) → List Fragment
  | _, [] => []
  | a, p :: l => fragment key a (!l.isEmpty) p :: fragmentsFrom key (a + p.length) l

/-- A payload in pieces that may be sent as fragments. -/
structure Pieces (payload : List UInt8) (pieces : List (List UInt8)) : Prop where
  flatten : pieces.flatten = payload
  aligned : ∀ p ∈ pieces.dropLast, p.length % 8 = 0
  first : ∀ p ∈ pieces.head?, MIN_FIRST_FRAGMENT_SIZE ≤ p.length
  middle : ∀ p ∈ pieces.tail.dropLast, MIN_FRAGMENT_SIZE ≤ p.length

variable {key : FragmentKey} {payload p : List UInt8} {pieces l l₁ l₂ : List (List UInt8)} {a : Nat}
  {f : Fragment} {x : Nat}

theorem mem_fragmentsFrom : f ∈ fragmentsFrom key a l ↔
    ∃ l₁ p l₂, l = l₁ ++ p :: l₂ ∧ f = fragment key (a + l₁.flatten.length) (!l₂.isEmpty) p := by
  induction l generalizing a with
  | nil => simp [fragmentsFrom]
  | cons q l ih =>
    rw [fragmentsFrom, mem_cons, ih]
    constructor
    · rintro (rfl | ⟨l₁, p, l₂, rfl, rfl⟩)
      · exact ⟨[], q, l, rfl, rfl⟩
      · refine ⟨q :: l₁, p, l₂, rfl, ?_⟩
        rw [flatten_cons, length_append, Nat.add_assoc]
    · intro ⟨l₁, p, l₂, hl, hf⟩
      cases l₁ with
      | nil =>
        cases hl
        exact .inl hf
      | cons q' l₁ =>
        rw [cons_append, List.cons.injEq] at hl
        obtain ⟨rfl, rfl⟩ := hl
        refine .inr ⟨l₁, p, l₂, rfl, ?_⟩
        rw [hf, flatten_cons, length_append, Nat.add_assoc]

theorem start_fragment {m : Bool} (h8 : a % 8 = 0) (ha : a ≤ MAX_IP_PACKET_SIZE) :
    (fragment key a m p).start = a := by
  have hm : MAX_IP_PACKET_SIZE = 65535 := rfl
  unfold start fragment
  rw [UInt16.toNat_ofNat', Nat.mod_eq_of_lt (by omega)]
  omega

/-- What the fragments of a payload have, in whatever order they come. -/
structure Sent (key : FragmentKey) (payload : List UInt8) (fs : List Fragment) : Prop where
  keys : ∀ f ∈ fs, f.key = key
  ends : ∀ f ∈ fs, f.stop ≤ payload.length
  big : ∀ f ∈ fs, ReassemblyEntry.BigEnough f
  last : ∀ f ∈ fs, f.moreFragments = false → f.stop = payload.length
  hasLast : ∃ f ∈ fs, f.moreFragments = false
  once : fs.Pairwise fun f g => ∀ x, ¬ (f.has x ∧ g.has x)
  oneLast : fs.Pairwise fun f g => f.moreFragments = true ∨ g.moreFragments = true
  covers : ∀ x b, payload[x]? = some b → ∃ f ∈ fs, f.has x ∧ f.byteAt x = b

theorem Sent.perm {fs gs : List Fragment} (h : Sent key payload fs) (hp : gs.Perm fs) :
    Sent key payload gs where
  keys f hf := h.keys f (hp.subset hf)
  ends f hf := h.ends f (hp.subset hf)
  big f hf := h.big f (hp.subset hf)
  last f hf := h.last f (hp.subset hf)
  hasLast := by
    obtain ⟨f, hf, hm⟩ := h.hasLast
    exact ⟨f, hp.symm.subset hf, hm⟩
  once := (hp.pairwise_iff fun hfg x hx => hfg x hx.symm).2 h.once
  oneLast := (hp.pairwise_iff Or.symm).2 h.oneLast
  covers x b hb := by
    obtain ⟨f, hf, hx⟩ := h.covers x b hb
    exact ⟨f, hp.symm.subset hf, hx⟩

/-- The piece with a byte of the payload. -/
theorem piece_at {b : UInt8} (h : l.flatten[x]? = some b) :
    ∃ l₁ p l₂, l = l₁ ++ p :: l₂ ∧ l₁.flatten.length ≤ x ∧
      p[x - l₁.flatten.length]? = some b := by
  induction l generalizing x with
  | nil => cases h
  | cons q l ih =>
    rw [flatten_cons] at h
    rcases Nat.lt_or_ge x q.length with hx | hx
    · rw [getElem?_append_left hx] at h
      exact ⟨[], q, l, rfl, Nat.zero_le _, h⟩
    rw [getElem?_append_right hx] at h
    obtain ⟨l₁, p, l₂, rfl, hle, hb⟩ := ih h
    refine ⟨q :: l₁, p, l₂, rfl, ?_, ?_⟩
    · rw [flatten_cons, length_append]
      omega
    · rwa [flatten_cons, length_append, ← Nat.sub_sub]

namespace Pieces

variable (h : Pieces payload pieces) (hT : payload.length ≤ MAX_IP_PACKET_SIZE)

include h

theorem length (hp : pieces = l₁ ++ p :: l₂) :
    l₁.flatten.length + (p.length + l₂.flatten.length) = payload.length := by
  rw [← h.flatten, hp, flatten_append, flatten_cons, length_append, length_append]

theorem aligned_before (hp : pieces = l₁ ++ p :: l₂) : l₁.flatten.length % 8 = 0 := by
  have hall : ∀ q ∈ l₁, q.length % 8 = 0 := by
    intro q hq
    refine h.aligned q ?_
    rw [hp, dropLast_append_of_ne_nil (cons_ne_nil _ _)]
    exact mem_append_left _ hq
  clear hp
  induction l₁ with
  | nil => rfl
  | cons q l₁ ih =>
    have hq := hall q mem_cons_self
    have hl := ih fun q hq => hall q (mem_cons_of_mem _ hq)
    rw [flatten_cons, length_append]
    omega

include hT

variable (key) in
theorem start (hp : pieces = l₁ ++ p :: l₂) {m : Bool} :
    (fragment key l₁.flatten.length m p).start = l₁.flatten.length := by
  have hl := h.length hp
  exact start_fragment (h.aligned_before hp) (by omega)

theorem big (hp : pieces = l₁ ++ p :: l₂) :
    ReassemblyEntry.BigEnough (fragment key l₁.flatten.length (!l₂.isEmpty) p) := by
  have hs := h.start key hT hp (m := !l₂.isEmpty)
  cases l₁ with
  | nil =>
    refine ⟨fun _ => h.first p (by rw [hp]; rfl), fun h0 => absurd rfl h0⟩
  | cons q l₁ =>
    have hq : 0 < q.length := Nat.lt_of_lt_of_le (by decide) (h.first q (by rw [hp]; rfl))
    constructor
    · intro h0
      unfold Fragment.start at hs
      rw [h0, flatten_cons, length_append] at hs
      simp only [UInt16.toNat_zero, Nat.zero_mul] at hs
      omega
    · intro _ hm
      have hne : l₂ ≠ [] := by
        rintro rfl
        cases hm
      refine h.middle p ?_
      rw [hp, cons_append, tail_cons,
        dropLast_append_of_ne_nil (cons_ne_nil _ _), dropLast_cons_of_ne_nil hne]
      exact mem_append_right _ mem_cons_self

variable (key) in
/-- The fragments from one piece on, against those before. -/
theorem pairwise (hp : pieces = l₁ ++ l₂) : (fragmentsFrom key l₁.flatten.length l₂).Pairwise
      fun f g => f.stop ≤ g.start ∧ f.moreFragments = true := by
  induction l₂ generalizing l₁ with
  | nil => exact .nil
  | cons p l₂ ih =>
    have hp' : pieces = (l₁ ++ [p]) ++ l₂ := by rw [hp, append_assoc]; rfl
    have hlen : (l₁ ++ [p]).flatten.length = l₁.flatten.length + p.length := by
      rw [flatten_append, length_append, flatten_singleton]
    have hih := ih hp'
    rw [hlen] at hih
    refine pairwise_cons.2 ⟨fun g hg => ?_, hih⟩
    rw [← hlen] at hg
    obtain ⟨l₃, q, l₄, rfl, rfl⟩ := mem_fragmentsFrom.1 hg
    have hq : pieces = (l₁ ++ [p] ++ l₃) ++ q :: l₄ := by
      rw [hp']
      simp only [append_assoc]
    have hsq := h.start key hT hq (m := !l₄.isEmpty)
    rw [flatten_append, length_append] at hsq
    have hsp := h.start key hT hp (m := !(l₃ ++ q :: l₄).isEmpty)
    rw [hsq, stop, hsp, hlen]
    refine ⟨?_, ?_⟩
    · show l₁.flatten.length + p.length ≤ l₁.flatten.length + p.length + l₃.flatten.length
      omega
    · show (!(l₃ ++ q :: l₄).isEmpty) = true
      cases l₃ <;> rfl

theorem sent (h0 : 0 < payload.length) : Sent key payload (fragmentsFrom key 0 pieces) where
  keys f hf := by
    obtain ⟨l₁, p, l₂, -, rfl⟩ := mem_fragmentsFrom.1 hf
    rfl
  ends f hf := by
    obtain ⟨l₁, p, l₂, hp, rfl⟩ := mem_fragmentsFrom.1 hf
    have hl := h.length hp
    rw [Nat.zero_add, stop, h.start key hT hp]
    show l₁.flatten.length + p.length ≤ payload.length
    omega
  big f hf := by
    obtain ⟨l₁, p, l₂, hp, rfl⟩ := mem_fragmentsFrom.1 hf
    rw [Nat.zero_add]
    exact h.big hT hp
  last f hf hm := by
    obtain ⟨l₁, p, l₂, hp, rfl⟩ := mem_fragmentsFrom.1 hf
    have hl := h.length hp
    obtain rfl : l₂ = [] := by
      cases l₂ with
      | nil => rfl
      | cons => cases hm
    rw [Nat.zero_add, stop, h.start key hT hp]
    show l₁.flatten.length + p.length = payload.length
    simpa using hl
  hasLast := by
    have hne : pieces ≠ [] := by
      rintro rfl
      rw [← h.flatten] at h0
      cases h0
    refine ⟨_, mem_fragmentsFrom.2 ⟨_, _, [], (dropLast_append_getLast hne).symm, rfl⟩, rfl⟩
  once := by
    refine (h.pairwise key hT (nil_append _).symm).imp fun hfg x hx => ?_
    have h1 := hx.1.2
    have h2 := hx.2.1
    omega
  oneLast := (h.pairwise key hT (nil_append _).symm).imp fun hfg => .inl hfg.2
  covers x b hb := by
    rw [← h.flatten] at hb
    obtain ⟨l₁, p, l₂, hp, hle, hx⟩ := piece_at hb
    obtain ⟨hlt, rfl⟩ := List.getElem?_eq_some_iff.1 hx
    refine ⟨_, mem_fragmentsFrom.2 ⟨l₁, p, l₂, hp, rfl⟩, ?_⟩
    have hs := h.start key hT hp (m := !l₂.isEmpty)
    rw [Nat.zero_add]
    refine ⟨⟨by rwa [hs], ?_⟩, ?_⟩
    · rw [stop, hs]
      show x < l₁.flatten.length + p.length
      omega
    rw [byteAt, hs]
    show p.getD (x - l₁.flatten.length) 0 = _
    rw [getD_eq_getElem?_getD, hx]
    rfl

end Pieces

/-! ## 2. Gaps -/

/-- No fragment of the list has the place, or tells an end before it. -/
def missing (l : List Fragment) (x : Nat) : Bool :=
  l.all fun f => !decide (f.has x) && (f.moreFragments || decide (x < f.stop))

/-- How many gaps the fragments leave, with the one behind them while the end is not known. -/
def gapCount (l : List Fragment) : Nat := Span.runs (missing l) MAX_IP_PACKET_SIZE

theorem missing_iff {l : List Fragment} : missing l x = true ↔
    ∀ f ∈ l, ¬ f.has x ∧ (f.moreFragments = true ∨ x < f.stop) := by
  simp [missing]

theorem gapCount_perm {l l' : List Fragment} (h : l.Perm l') : gapCount l = gapCount l' := by
  unfold gapCount
  congr 1
  funext x
  exact h.all_eq

/-- Each gap but the first begins where a fragment ends. -/
theorem gapCount_le (l : List Fragment) : gapCount l ≤ l.length + 1 := by
  unfold gapCount Span.runs
  have hlen : l.length + 1 = (0 :: l.map stop).length := by
    rw [length_cons, length_map]
  rw [hlen]
  refine (subperm_of_subset (nodup_range.filter _) fun x hx => ?_).length_le
  simp only [mem_filter, Bool.and_eq_true, Bool.or_eq_true, beq_iff_eq, Bool.not_eq_true',
    ← Bool.not_eq_true, missing_iff] at hx
  obtain ⟨-, hmiss, h0 | hnot⟩ := hx
  · exact h0 ▸ mem_cons_self
  refine mem_cons_of_mem _ ?_
  push Not at hnot
  obtain ⟨f, hf, hhas⟩ := hnot
  refine mem_map.2 ⟨f, hf, ?_⟩
  obtain ⟨hn, hend⟩ := hmiss f hf
  unfold has at hn hhas
  have hstop := f.start_le_stop
  by_cases hlt : f.start ≤ x - 1 ∧ x - 1 < f.stop
  · omega
  obtain ⟨hm, hle⟩ := hhas hlt
  rcases hend with hm' | hlt'
  · exact absurd hm' hm
  · omega

theorem ReassemblyEntry.BigEnough.start_lt_stop (h : ReassemblyEntry.BigEnough f)
    (hm : f.moreFragments = true) : f.start < f.stop := by
  unfold stop
  by_cases h0 : f.fragOffset = 0
  · have hl : 20 ≤ f.payload.length := h.1 h0
    omega
  · have hl : 256 ≤ f.payload.length := h.2 h0 hm
    omega

/-! ## 3. A context that receives the fragments of one payload -/

/-- The context has the fragments of the list, and waits for others of the payload. -/
structure Receives (payload : List UInt8) (e : ReassemblyEntry) (l : List Fragment) : Prop where
  sound : Sound e l
  apart : Apart e.holes
  solid : Solid e.holes
  known : ∀ f ∈ l, f.moreFragments = false → e.totalLen = payload.length
  unknown : (∀ f ∈ l, f.moreFragments = true) → e.totalLen = 0

theorem receives_init (t : UInt64) : Receives payload (.init key t) [] where
  sound := sound_init key t
  apart := pairwise_singleton _ _
  solid I hI := by
    obtain rfl := mem_singleton.1 hI
    show 0 < 65535
    omega
  known f hf := nomatch hf
  unknown _ := rfl

section Step

variable {l rest : List Fragment} {e e' : ReassemblyEntry}
  (hsent : Sent key payload (l ++ f :: rest)) (h0 : 0 < payload.length)
  (hT : payload.length < MAX_IP_PACKET_SIZE) (hr : Receives payload e l)

include hsent

theorem Sent.apart_left (hx : f.has x) : ∀ g ∈ l, ¬ g.has x :=
  fun g hg hgx => (pairwise_append.1 hsent.once).2.2 g hg f mem_cons_self x ⟨hgx, hx⟩

theorem Sent.more_left (hm : f.moreFragments = false) : ∀ g ∈ l, g.moreFragments = true := by
  intro g hg
  rcases (pairwise_append.1 hsent.oneLast).2.2 g hg f mem_cons_self with h | h
  · exact h
  · rw [hm] at h
    cases h

/-- The last fragment does not cut any other one. -/
theorem Sent.keepsEnd : KeepsEndOf l f := by
  intro hm _ _ g hg
  rw [hsent.last f mem_append_cons_self hm]
  exact .inr (hsent.ends g (mem_append_left _ hg))

include h0 hr

omit hsent in
theorem Receives.window_cases :
    ((∀ g ∈ l, g.moreFragments = true) ∧ e.window = MAX_IP_PACKET_SIZE) ∨
      ((∃ g ∈ l, g.moreFragments = false) ∧ e.window = payload.length) := by
  unfold window
  by_cases hl : ∀ g ∈ l, g.moreFragments = true
  · exact .inl ⟨hl, if_pos (hr.unknown hl)⟩
  push Not at hl
  obtain ⟨g, hg, hm⟩ := hl
  have hm' : g.moreFragments = false := Bool.not_eq_true _ ▸ hm
  rw [hr.known g hg hm', if_neg (by omega)]
  exact .inr ⟨⟨g, hg, hm'⟩, rfl⟩

include hT

/-- **The holes are what is missing.** -/
theorem Receives.covered :
    Covered e.holes x ↔ x < MAX_IP_PACKET_SIZE ∧ missing l x = true := by
  rw [hr.sound.gaps, missing_iff]
  have hends : ∀ g ∈ l, g.moreFragments = false → g.stop = payload.length :=
    fun g hg => hsent.last g (mem_append_left _ hg)
  rcases hr.window_cases h0 with ⟨hl, hw⟩ | ⟨⟨g, hg, hm⟩, hw⟩
  · rw [hw]
    exact and_congr_right fun _ => forall₂_congr fun g hg => by simp [hl g hg]
  rw [hw]
  constructor
  · intro ⟨hx, hn⟩
    refine ⟨Nat.lt_trans hx hT, fun g hg => ⟨hn g hg, ?_⟩⟩
    cases hmg : g.moreFragments with
    | true => exact .inl rfl
    | false => exact .inr (by rw [hends g hg hmg]; exact hx)
  · intro ⟨_, hn⟩
    refine ⟨?_, fun g hg => (hn g hg).1⟩
    rcases (hn g hg).2 with hm' | hlt
    · rw [hm] at hm'
      cases hm'
    · rwa [hends g hg hm] at hlt

/-- The fragment's place is free; behind the last fragment everything is. -/
theorem Receives.free (hx : f.has x ∨
    (f.moreFragments = false ∧ payload.length ≤ x ∧ x < MAX_IP_PACKET_SIZE)) :
    Covered e.holes x := by
  rw [hr.sound.gaps]
  rcases hx with hx | ⟨hm, hle, hlt⟩
  · have hstop := hsent.ends f mem_append_cons_self
    have hx2 := hx.2
    refine ⟨?_, hsent.apart_left hx⟩
    rcases hr.window_cases h0 with ⟨-, hw⟩ | ⟨-, hw⟩ <;> omega
  have hl := hsent.more_left hm
  refine ⟨?_, fun g hg hgx => ?_⟩
  · unfold window
    rw [if_pos (hr.unknown hl)]
    exact hlt
  · have hend := hsent.ends g (mem_append_left _ hg)
    have hx2 := hgx.2
    omega

/-- **A hole has room for the fragment.** -/
theorem Receives.inside :
    ∃ I ∈ e.holesFor f, I.start ≤ f.start ∧ f.stop ≤ I.stop := by
  have hbig := hsent.big f mem_append_cons_self
  unfold holesFor
  cases hm : f.moreFragments with
  | true =>
    rw [if_pos rfl]
    refine hr.apart.interval_of_covered (hbig.start_lt_stop hm) fun x h1 h2 => ?_
    exact hr.free hsent h0 hT (.inl ⟨h1, h2⟩)
  | false =>
    have hend := hsent.last f mem_append_cons_self hm
    -- the place behind the last fragment is in the same hole
    obtain ⟨I, hI, hstart, hstop⟩ := hr.apart.interval_of_covered
      (Nat.lt_succ_of_le f.start_le_stop) fun x h1 h2 => by
        refine hr.free hsent h0 hT ?_
        by_cases hx : x < f.stop
        · exact .inl ⟨h1, hx⟩
        · exact .inr ⟨hm, by omega, by omega⟩
    rw [if_neg Bool.false_ne_true]
    refine ⟨_, mem_map_of_mem hI, ?_⟩
    split_ifs
    · exact ⟨hstart, Nat.le_refl _⟩
    · exact ⟨hstart, Nat.le_of_succ_le hstop⟩

/-- What there is behind the end of the payload is in one hole, which the last fragment cuts. -/
theorem Receives.start_le {I : Hole} (hm : f.moreFragments = false) (hI : I ∈ e.holes) :
    I.start ≤ payload.length := by
  refine hr.apart.start_le hr.solid (n := MAX_IP_PACKET_SIZE) (fun J hJ => ?_)
    (fun x h1 h2 => ?_) hI
  · have hw := hr.sound.within J hJ
    unfold window at hw
    rwa [if_pos (hr.unknown (hsent.more_left hm))] at hw
  · exact hr.free hsent h0 hT (.inr ⟨hm, h1, h2⟩)

omit hsent h0 hT in
theorem Receives.holesFor_apart : Apart (e.holesFor f) := by
  unfold holesFor
  split_ifs
  · exact hr.apart
  refine hr.apart.shorten (fun I => ?_) fun I => ?_
  · split_ifs <;> rfl
  · split_ifs with h
    · exact Nat.le_of_lt h
    · exact Nat.le_refl _

/-- Before the fragment is taken out of them, the holes are solid, but for one that begins where
    the last fragment ends. -/
theorem Receives.holesFor_solid {I : Hole} (hI : I ∈ e.holesFor f) :
    I.start < I.stop ∨ (f.start ≤ I.start ∧ I.stop ≤ f.stop) := by
  cases hm : f.moreFragments with
  | true =>
    unfold holesFor at hI
    rw [hm, if_pos rfl] at hI
    exact .inl (hr.solid I hI)
  | false =>
    have hend := hsent.last f mem_append_cons_self hm
    have hstop := f.start_le_stop
    unfold holesFor at hI
    rw [hm, if_neg Bool.false_ne_true] at hI
    obtain ⟨J, hJ, rfl⟩ := mem_map.1 hI
    have hle := hr.start_le hsent h0 hT hm hJ
    have hsolid := hr.solid J hJ
    by_cases hs : J.stop > f.stop
    · rw [if_pos hs]
      show J.start < f.stop ∨ f.start ≤ J.start ∧ f.stop ≤ f.stop
      omega
    · rw [if_neg hs]
      exact .inl hsolid

omit hsent h0 hT in
/-- A hole is split only by a fragment before the last, and then no other one is touched. -/
theorem Receives.splits : ReassemblyEntry.Splits (e.holesFor f) f.start f.stop := by
  intro ⟨I, hI, hs⟩ J hJ hnil
  have hin : f.start ≤ J.start ∧ J.stop ≤ f.stop := by
    unfold minus at hnil
    split_ifs at hnil with h1
    exact h1
  cases hm : f.moreFragments with
  | false =>
    have hcut := (holesFor_stop hI).2 hm
    omega
  | true =>
    have hne : I ≠ J := by
      rintro rfl
      omega
    have haway := hr.holesFor_apart.away hI hJ hne
    have hsolid : J.start < J.stop := by
      unfold holesFor at hJ
      rw [hm, if_pos rfl] at hJ
      exact hr.solid J hJ
    unfold Span.Away at haway
    omega

/-- The holes that the fragment leaves, as intervals. -/
theorem Receives.left_apart : Apart ((e.holesFor f).flatMap (minus f.start f.stop)) ∧
      Solid ((e.holesFor f).flatMap (minus f.start f.stop)) := by
  refine ⟨Span.apart_minus hr.holesFor_apart f.start_le_stop fun heq I hI hs => ?_,
    Span.solid_minus f.start_le_stop fun I hI => hr.holesFor_solid hsent h0 hT hI⟩
  -- an empty fragment is the last one, and no hole reaches beyond it
  have hm : f.moreFragments = false := by
    by_contra hm
    have hlt := (hsent.big f mem_append_cons_self).start_lt_stop (Bool.not_eq_false _ ▸ hm)
    omega
  have hcut := (holesFor_stop hI).2 hm
  omega

/-- There are as many of them as there are gaps then. -/
theorem Receives.left_length :
    ((e.holesFor f).flatMap (minus f.start f.stop)).length = gapCount (f :: l) := by
  obtain ⟨hapart, hsolid⟩ := hr.left_apart hsent h0 hT
  refine Span.length_eq_runs hapart hsolid (fun x hx => ?_) fun I hI => ?_
  · rw [Span.covered_minus f.start_le_stop, covered_holesFor,
      hr.covered hsent h0 hT, missing_iff, missing_iff, forall_mem_cons]
    show (¬ f.has x ∧ _) ∧ _ ↔ ((_ ∧ _) ∧ _) ∧ ¬ f.has x
    cases f.moreFragments <;> simp [hx] <;> tauto
  obtain ⟨J, hJ, hIJ⟩ := mem_flatMap.1 hI
  have hle := (Span.minus_inside f.start_le_stop hIJ).2.1
  obtain ⟨⟨K, hK, hJK⟩, -⟩ := holesFor_stop hJ
  have hw := hr.sound.within K hK
  rcases hr.window_cases h0 with ⟨-, hw'⟩ | ⟨-, hw'⟩ <;> omega

/-- **The context with the fragment** waits for the others. -/
theorem Receives.taken (hkey : e.key = key) (ht : ReassemblyEntry.Taken e f e') :
    Receives payload e' (f :: l) := by
  obtain ⟨hapart, hsolid⟩ := hr.left_apart hsent h0 hT
  refine ⟨ht.sound hr.sound ?_ hsent.keepsEnd, (Span.apart_perm ht.holes).2 hapart,
    fun I hI => hsolid I (ht.holes.subset hI), fun g hg hm => ?_, fun hall => ?_⟩
  · rw [hkey]
    exact hsent.keys f mem_append_cons_self
  · rw [ht.totalLen]
    split_ifs with hmf
    · rcases mem_cons.1 hg with rfl | hg
      · rw [hm] at hmf
        cases hmf
      · exact hr.known g hg hm
    · exact hsent.last f mem_append_cons_self (Bool.not_eq_true _ ▸ hmf)
  · rw [forall_mem_cons] at hall
    rw [ht.totalLen, if_pos hall.1]
    exact hr.unknown hall.2

end Step

/-- The fragments that have come, and those that are still to come. -/
theorem Sent.next {l rest : List Fragment} (h : Sent key payload (l ++ f :: rest)) :
    Sent key payload ((f :: l) ++ rest) :=
  h.perm perm_middle.symm

variable {l rest : List Fragment} {e : ReassemblyEntry}

theorem Receives.complete (hsent : Sent key payload l) (h0 : 0 < payload.length)
    (hr : Receives payload e l) : e.isComplete = true ∧ e.buffer.first e.totalLen = payload := by
  obtain ⟨f, hf, hm⟩ := hsent.hasLast
  have ht : e.totalLen = payload.length := hr.known f hf hm
  have hw : e.window = payload.length := by
    unfold window
    rw [ht, if_neg (by omega)]
  have hc : e.isComplete = true := by
    unfold isComplete
    simp only [Bool.and_eq_true, decide_eq_true_eq, Bool.not_eq_true', any_eq_false]
    refine ⟨by omega, fun I hI _ => ?_⟩
    -- where a hole begins there is a byte of some fragment
    have hsolid := hr.solid I hI
    obtain ⟨hlt, hn⟩ := (hr.sound.gaps I.start).1 ⟨I, hI, Nat.le_refl _, hsolid⟩
    rw [hw] at hlt
    obtain ⟨g, hg, hx, -⟩ := hsent.covers I.start _ (getElem?_eq_getElem hlt)
    exact hn g hg hx
  refine ⟨hc, ext_getElem? fun x => ?_⟩
  cases hx : payload[x]? with
  | none =>
    rw [getElem?_first, if_neg]
    rw [List.getElem?_eq_none_iff] at hx
    omega
  | some b =>
    obtain ⟨g, hg, hgx, rfl⟩ := hsent.covers x b hx
    exact (hr.sound.reassembled hc).contains g hg x hgx

theorem Receives.incomplete (hsent : Sent key payload (l ++ f :: rest)) (h0 : 0 < payload.length)
    (hT : payload.length < MAX_IP_PACKET_SIZE) (hr : Receives payload e l) :
    e.isComplete = false := by
  unfold isComplete
  rw [Bool.and_eq_false_iff, Bool.not_eq_false', any_eq_true, decide_eq_false_iff_not, not_not]
  by_cases hl : ∀ g ∈ l, g.moreFragments = true
  · exact .inl (hr.unknown hl)
  push Not at hl
  obtain ⟨g, hg, hm⟩ := hl
  have ht : e.totalLen = payload.length := hr.known g hg (Bool.not_eq_true _ ▸ hm)
  have hmf : f.moreFragments = true := by
    rcases (pairwise_append.1 hsent.oneLast).2.2 g hg f mem_cons_self with h | h
    · exact absurd h hm
    · exact h
  have hlt := (hsent.big f mem_append_cons_self).start_lt_stop hmf
  have hle := hsent.ends f mem_append_cons_self
  obtain ⟨I, hI, hx⟩ := hr.free hsent h0 hT (.inl ⟨Nat.le_refl _, hlt⟩)
  refine .inr ⟨I, hI, decide_eq_true ?_⟩
  rw [ht]
  exact Nat.lt_of_le_of_lt hx.1 (Nat.lt_of_lt_of_le hlt hle)

/-- **A fragment for the context**: it is stored while others are to come, and the last that comes
    completes the datagram. -/
theorem Receives.accept (hsent : Sent key payload (l ++ f :: rest)) (h0 : 0 < payload.length)
    (hT : payload.length < MAX_IP_PACKET_SIZE) (hr : Receives payload e l) (he : e.used = true)
    (hkey : e.key = key) (hgap : gapCount (f :: l) ≤ MAX_HOLES) :
    ∃ e', (rest = [] ∧ e.accept f available = (e', .complete payload) ∧ e'.used = false) ∨
      (rest ≠ [] ∧ e.accept f available = (e', .stored) ∧ e'.used = true ∧ e'.key = key ∧
        Receives payload e' (f :: l)) := by
  have hstop := hsent.ends f mem_append_cons_self
  have hle := f.start_le_stop
  have hroom := hgap
  rw [← hr.left_length hsent h0 hT] at hroom
  have hstart : f.start < MAX_IP_PACKET_SIZE := Nat.lt_of_le_of_lt (Nat.le_trans hle hstop) hT
  have hbound : f.stop ≤ MAX_IP_PACKET_SIZE := Nat.le_of_lt (Nat.lt_of_le_of_lt hstop hT)
  have hpool : available = ⟨true, true⟩ := rfl
  obtain ⟨e', ht, hacc⟩ := accept_taken he hpool hstart hbound
    (hsent.big f mem_append_cons_self) (hr.inside hsent h0 hT) hr.splits hroom
  have hr' := hr.taken hsent h0 hT hkey ht
  have hnext := hsent.next
  cases rest with
  | nil =>
    rw [append_nil] at hnext
    obtain ⟨hc, hp⟩ := hr'.complete hnext h0
    rcases hacc with ⟨hn, -⟩ | ⟨-, hacc⟩
    · rw [hc] at hn
      cases hn
    · exact ⟨e'.drop, .inl ⟨rfl, by rw [hacc, hp], rfl⟩⟩
  | cons g rest =>
    have hn := hr'.incomplete hnext h0 hT
    rcases hacc with ⟨-, hacc⟩ | ⟨hc, -⟩
    · exact ⟨e', .inr ⟨cons_ne_nil _ _, hacc, ht.used, ht.key.trans hkey, hr'⟩⟩
    · rw [hn] at hc
      cases hc

end Zigk.Reassembly
