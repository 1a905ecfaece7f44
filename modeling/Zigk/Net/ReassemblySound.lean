/-
  Subject:   A REASSEMBLED DATAGRAM against the fragments that were accepted into its context.

  Beside the cache runs the list of the fragments stored for each slot (`accepted`). In every state
  a context's holes are exactly what its fragments have not covered (`Sound.gaps`), and no byte is
  covered twice (`Sound.once`), since a fragment is stored only where a hole has room for it.

  What is missing is a check of the length: a last fragment sets it anew, also below a fragment
  that is there already, and cuts off the holes behind it. So the datagram can be complete without
  that fragment:

  * **`reassemblySound`** -- in every run of such steps each datagram has all its fragments, each
    byte from exactly one of them, and no context more than `MAX_HOLES` holes.
-/
import Zigk.Net.ReassemblySteps

namespace Zigk.Reassembly

open Function List ReassemblyEntry
open Span (Covered minus covered_perm covered_minus minus_inside)

/-! ## 1. Contexts and their fragments -/

/-- The two have a byte of the datagram in common. -/
def Fragment.Overlaps (f g : Fragment) : Prop := max f.start g.start < min f.stop g.stop

instance (f g : Fragment) : Decidable (f.Overlaps g) := inferInstanceAs (Decidable (_ < _))

theorem Fragment.overlaps_has {f g : Fragment} (h : f.Overlaps g) : ∃ x, f.has x ∧ g.has x := by
  unfold Fragment.Overlaps at h
  exact ⟨max f.start g.start, ⟨by omega, by omega⟩, ⟨by omega, by omega⟩⟩

/-- As far as a context receives: to the end of the datagram, once it is known. -/
def ReassemblyEntry.window (e : ReassemblyEntry) : Nat :=
  if e.totalLen = 0 then MAX_IP_PACKET_SIZE else e.totalLen

/-- The context of an entry into which the fragments of the list were accepted. -/
structure Sound (e : ReassemblyEntry) (l : List Fragment) : Prop where
  few : e.holes.length ≤ MAX_HOLES
  gaps : ∀ x, Covered e.holes x ↔ x < e.window ∧ ∀ g ∈ l, ¬ g.has x
  within : ∀ h ∈ e.holes, h.stop ≤ e.window
  total : e.totalLen ≤ e.buffer.len
  once : ∀ x, (l.filter fun g => g.has x).length ≤ 1
  keys : ∀ g ∈ l, g.key = e.key
  ends : ∀ g ∈ l, ∀ x, g.has x → x < e.window
  long : ∀ g ∈ l, g.stop ≤ e.buffer.len
  bytes : ∀ g ∈ l, ∀ x, g.has x → e.buffer.byte x = g.byteAt x

/-- The last fragment does not end before a byte of the ones that are there, unless it is not
    accepted: for its size, or since it overlaps one of them. -/
def KeepsEndOf (l : List Fragment) (f : Fragment) : Prop :=
  f.moreFragments = false → ReassemblyEntry.BigEnough f → (∀ g ∈ l, ¬ g.Overlaps f) →
    ∀ g ∈ l, g.payload = [] ∨ g.stop ≤ f.stop

instance (l : List Fragment) (f : Fragment) : Decidable (KeepsEndOf l f) := by
  unfold KeepsEndOf ReassemblyEntry.BigEnough
  infer_instance

theorem sound_init (key : FragmentKey) (timer : UInt64) : Sound (.init key timer) [] where
  few := by
    show 1 ≤ 64
    omega
  gaps x := by
    simp [Covered, init, Span.has, window]
  within h hh := by
    obtain rfl := mem_singleton.1 hh
    exact Nat.le_refl _
  total := Nat.le_refl _
  once _ := Nat.zero_le _
  keys g hg := nomatch hg
  ends g hg := nomatch hg
  long g hg := nomatch hg
  bytes g hg := nomatch hg

namespace ReassemblyEntry

variable {e e' : ReassemblyEntry} {f : Fragment} {l : List Fragment} {x : Nat}

theorem BigEnough.stop_pos (h : BigEnough f) : 0 < f.stop := by
  unfold Fragment.stop Fragment.start
  by_cases h0 : f.fragOffset = 0
  · have hl : 20 ≤ f.payload.length := h.1 h0
    omega
  · have ho : f.fragOffset.toNat ≠ 0 := fun h => h0 (UInt16.toNat_inj.1 h)
    omega

theorem covered_holesFor : Covered (e.holesFor f) x ↔
    Covered e.holes x ∧ (f.moreFragments = false → x < f.stop) := by
  unfold holesFor
  split_ifs with hm
  · simp [hm]
  unfold Covered setTotal
  simp only [mem_map, exists_exists_and_eq_and, Bool.not_eq_true _ ▸ hm, forall_const]
  constructor
  · intro ⟨h, hh, hx⟩
    split_ifs at hx with hs
    · exact ⟨⟨h, hh, hx.1, Nat.lt_trans hx.2 hs⟩, hx.2⟩
    · exact ⟨⟨h, hh, hx⟩, Nat.lt_of_lt_of_le hx.2 (Nat.not_lt.1 hs)⟩
  · intro ⟨⟨h, hh, hx⟩, hlt⟩
    refine ⟨h, hh, ?_⟩
    split_ifs
    · exact ⟨hx.1, hlt⟩
    · exact hx

theorem holesFor_stop {h : Hole} (hh : h ∈ e.holesFor f) :
    (∃ h' ∈ e.holes, h.stop ≤ h'.stop) ∧ (f.moreFragments = false → h.stop ≤ f.stop) := by
  unfold holesFor at hh
  split_ifs at hh with hm
  · exact ⟨⟨h, hh, Nat.le_refl _⟩, by simp [hm]⟩
  obtain ⟨h', hh', rfl⟩ := mem_map.1 hh
  constructor
  · refine ⟨h', hh', ?_⟩
    split_ifs with hs
    · exact Nat.le_of_lt hs
    · exact Nat.le_refl _
  · intro _
    split_ifs with hs
    · exact Nat.le_refl _
    · exact Nat.not_lt.1 hs

namespace Taken

variable (h : Taken e f e')

include h

theorem covered : Covered e'.holes x ↔
    (Covered e.holes x ∧ (f.moreFragments = false → x < f.stop)) ∧ ¬ f.has x := by
  rw [covered_perm h.holes, covered_minus f.start_le_stop, covered_holesFor]
  rfl

/-- Where the fragment is stored there was a hole. -/
theorem free (hx : f.has x) : Covered e.holes x := by
  obtain ⟨I, hI, hstart, hstop⟩ := h.inside
  have hc : Covered (e.holesFor f) x :=
    ⟨I, hI, Nat.le_trans hstart hx.1, Nat.lt_of_lt_of_le hx.2 hstop⟩
  exact (covered_holesFor.1 hc).1

theorem window : e'.window = if f.moreFragments then e.window else f.stop := by
  have hpos := h.big.stop_pos
  unfold ReassemblyEntry.window
  rw [h.totalLen]
  split_ifs <;> first | rfl | omega

theorem stop_le (hw : ∀ h ∈ e.holes, h.stop ≤ e.window) : f.stop ≤ e.window := by
  obtain ⟨I, hI, -, hstop⟩ := h.inside
  obtain ⟨⟨J, hJ, hle⟩, -⟩ := holesFor_stop hI
  exact Nat.le_trans hstop (Nat.le_trans hle (hw J hJ))

/-- **The context with the new fragment.** -/
theorem sound (hs : Sound e l) (hkey : f.key = e.key) (hk : KeepsEndOf l f) :
    Sound e' (f :: l) := by
  have hfree : ∀ x, f.has x → ∀ g ∈ l, ¬ g.has x := fun x hx => ((hs.gaps x).1 (h.free hx)).2
  have hstop : f.stop ≤ e.window := h.stop_le hs.within
  have hw := h.window
  have hwle : f.stop ≤ e'.window := by
    rw [hw]
    split_ifs
    · exact hstop
    · exact Nat.le_refl _
  constructor
  · exact h.room hs.few
  · intro x
    rw [h.covered, hs.gaps, hw]
    simp only [forall_mem_cons]
    cases f.moreFragments
    · simp only [forall_const, Bool.false_eq_true, if_false]
      constructor
      · intro ⟨⟨⟨_, hl⟩, hlt⟩, hn⟩
        exact ⟨hlt, hn, hl⟩
      · intro ⟨hlt, hn, hl⟩
        exact ⟨⟨⟨Nat.lt_of_lt_of_le hlt hstop, hl⟩, hlt⟩, hn⟩
    simp only [Bool.true_eq_false, false_implies, and_true, if_true]
    constructor
    · intro ⟨⟨hlt, hl⟩, hn⟩
      exact ⟨hlt, hn, hl⟩
    · intro ⟨hlt, hn, hl⟩
      exact ⟨⟨hlt, hl⟩, hn⟩
  · intro I hI
    obtain ⟨J, hJ, hIJ⟩ := mem_flatMap.1 (h.holes.subset hI)
    have hle := (minus_inside f.start_le_stop hIJ).2.1
    obtain ⟨⟨K, hK, hJK⟩, hlast⟩ := holesFor_stop hJ
    rw [hw]
    split_ifs with hm
    · exact Nat.le_trans hle (Nat.le_trans hJK (hs.within K hK))
    · exact Nat.le_trans hle (hlast (Bool.not_eq_true _ ▸ hm))
  · rw [h.totalLen]
    split_ifs
    · exact Nat.le_trans hs.total h.longer
    · exact h.long
  · intro x
    by_cases hx : f.has x
    · rw [filter_cons_of_pos (by simpa using hx), filter_eq_nil_iff.2 fun g hg => ?_]
      · rfl
      · simpa using hfree x hx g hg
    · rw [filter_cons_of_neg (by simpa using hx)]
      exact hs.once x
  · rw [forall_mem_cons, h.key]
    exact ⟨hkey, hs.keys⟩
  · rw [forall_mem_cons]
    refine ⟨fun x hx => Nat.lt_of_lt_of_le hx.2 hwle, fun g hg x hx => ?_⟩
    rw [hw]
    split_ifs with hm
    · exact hs.ends g hg x hx
    have hno : ∀ g ∈ l, ¬ g.Overlaps f := by
      intro g hg ho
      obtain ⟨y, hgy, hfy⟩ := Fragment.overlaps_has ho
      exact hfree y hfy g hg hgy
    rcases hk (Bool.not_eq_true _ ▸ hm) h.big hno g hg with hnil | hle
    · have hx2 := hx.2
      have hx1 := hx.1
      unfold Fragment.stop at hx2
      rw [hnil, length_nil] at hx2
      omega
    · exact Nat.lt_of_lt_of_le hx.2 hle
  · rw [forall_mem_cons]
    exact ⟨h.long, fun g hg => Nat.le_trans (hs.long g hg) h.longer⟩
  · rw [forall_mem_cons]
    refine ⟨h.written, fun g hg x hx => ?_⟩
    rw [← hs.bytes g hg x hx]
    exact h.kept x (Nat.lt_of_lt_of_le hx.2 (hs.long g hg)) fun hfx => hfree x hfx g hg hx

end Taken

end ReassemblyEntry

/-! ## 2. The datagram -/

/-- The datagram `p` from the fragments of the list: all of them are in it, and each byte is from
    exactly one. -/
structure Reassembled (key : FragmentKey) (p : List UInt8) (l : List Fragment) : Prop where
  keys : ∀ g ∈ l, g.key = key
  contains : ∀ g ∈ l, ∀ x, g.has x → p[x]? = some (g.byteAt x)
  written : ∀ x b, p[x]? = some b → ∃ g, (l.filter fun g => g.has x) = [g] ∧ b = g.byteAt x

theorem getElem?_first (b : Buffer) (n x : Nat) :
    (b.first n)[x]? = if x < n then some (b.byte x) else none := by
  unfold Buffer.first
  rw [getElem?_map]
  split_ifs with h
  · rw [getElem?_range h]
    rfl
  · rw [getElem?_eq_none (by rw [length_range]; omega)]
    rfl

theorem Sound.reassembled {e : ReassemblyEntry} {l : List Fragment} (h : Sound e l)
    (hc : e.isComplete = true) : Reassembled e.key (e.buffer.first e.totalLen) l := by
  unfold isComplete at hc
  simp only [Bool.and_eq_true, decide_eq_true_eq, Bool.not_eq_true', any_eq_false, Nat.not_lt] at hc
  obtain ⟨h0, hh⟩ := hc
  have hw : e.window = e.totalLen := if_neg h0
  refine ⟨h.keys, fun g hg x hx => ?_, fun x b hb => ?_⟩
  · have hlt := h.ends g hg x hx
    rw [hw] at hlt
    rw [getElem?_first, if_pos hlt, h.bytes g hg x hx]
  rw [getElem?_first] at hb
  split_ifs at hb with hlt
  cases hb
  -- a place that no fragment covers would be in a hole
  have hsome : ∃ g ∈ l, g.has x := by
    by_contra hno
    have hnone : ∀ g ∈ l, ¬ g.has x := fun g hg hx => hno ⟨g, hg, hx⟩
    obtain ⟨I, hI, hx⟩ := (h.gaps x).2 ⟨by rwa [hw], hnone⟩
    exact absurd (hh I hI) (Nat.not_le.2 (Nat.lt_of_le_of_lt hx.1 hlt))
  obtain ⟨g, hg, hx⟩ := hsome
  have hin : g ∈ l.filter fun g => g.has x := mem_filter.2 ⟨hg, by simpa using hx⟩
  obtain ⟨g', hg'⟩ := length_eq_one_iff.1 (Nat.le_antisymm (h.once x) (length_pos_of_mem hin))
  rw [hg'] at hin
  obtain rfl := mem_singleton.1 hin
  exact ⟨g, hg', h.bytes g hg x hx⟩

/-! ## 3. Runs -/

/-- The fragments that were stored in the context of each slot. -/
abbrev Accepted := Slot → List Fragment

/-- The fragments in the context of the key. -/
def Accepted.known (a : Accepted) (c : Cache) (key : FragmentKey) : List Fragment :=
  match c.find key with
  | some i => a i
  | none => []

/-- A new context begins without fragments, one that is given up or complete has none any more. -/
def Accepted.next (a : Accepted) (c : Cache) : Event → Accepted
  | .fragment f pool =>
    if !c.cacheInitialized then a
    else
      update a (c.locate f.key).1 <|
        match (c.verdict f pool).2 with
        | .refused => a.known c f.key
        | .stored => f :: a.known c f.key
        | _ => []
  | _ => a

def contexts : Machine (Cache × Accepted) Event := reassembly.track (fun _ => []) Accepted.next

/-- No last fragment ends before a byte of a fragment that its context has. -/
def KeepsEnd (p : Cache × Accepted) : Event → Prop
  | .fragment f _ => KeepsEndOf (p.2.known p.1 f.key) f
  | _ => True

instance (p : Cache × Accepted) (ev : Event) : Decidable (KeepsEnd p ev) := by
  unfold KeepsEnd
  split <;> infer_instance

def AllSound (p : Cache × Accepted) : Prop :=
  p.1.cacheInitialized = true → ∀ i, (p.1.cache i).used = true → Sound (p.1.cache i) (p.2 i)

theorem processFragment_eq {c : Cache} (hi : c.cacheInitialized = true) (f : Fragment)
    (pool : Pool) : c.processFragment f pool =
      ((c.locate f.key).2.put (c.locate f.key).1 (c.verdict f pool).1,
        (c.verdict f pool).2.result) := by
  unfold Cache.processFragment
  rw [hi, Bool.not_true, if_neg Bool.false_ne_true]
  rfl

variable {p : Cache × Accepted} {f : Fragment} {pool : Pool}

/-- The context of the fragment, before the fragment. -/
theorem AllSound.located (h : AllSound p) (hi : p.1.cacheInitialized = true) (key : FragmentKey) :
    Sound ((p.1.locate key).2.cache (p.1.locate key).1) (p.2.known p.1 key) := by
  unfold Accepted.known
  obtain ⟨-, -, ⟨hf, hc⟩ | ⟨hf, -, hc⟩⟩ := p.1.locate_spec key
  · rw [hf, hc]
    exact h hi _ (Cache.find_some hf).1
  · rw [hf, hc]
    exact sound_init _ _

theorem AllSound.fragment (h : AllSound p) (hk : KeepsEndOf (p.2.known p.1 f.key) f) :
    AllSound (contexts.step p (.fragment f pool)) := by
  intro hi i hu
  change ((p.1.processFragment f pool).1.cacheInitialized = true) at hi
  change ((p.1.processFragment f pool).1.cache i).used = true at hu
  change Sound ((p.1.processFragment f pool).1.cache i) (p.2.next p.1 (.fragment f pool) i)
  by_cases hinit : p.1.cacheInitialized = true
  swap
  · rw [Bool.not_eq_true] at hinit
    simp [Cache.processFragment, hinit] at hi
  obtain ⟨-, hoth, -⟩ := p.1.locate_spec f.key
  obtain ⟨hused, hkey⟩ := p.1.locate_entry f.key
  have hloc := h.located hinit f.key
  rw [processFragment_eq hinit] at hu ⊢
  unfold Accepted.next
  simp only [hinit, Bool.not_true, Bool.false_eq_true, if_false, Cache.put_cache] at hu ⊢
  by_cases hne : i = (p.1.locate f.key).1
  swap
  · rw [update_of_ne hne, hoth i hne] at hu
    rw [update_of_ne hne, update_of_ne hne, hoth i hne]
    exact h hinit i hu
  subst hne
  rw [update_self] at hu ⊢
  rw [update_self]
  unfold Cache.verdict at hu ⊢
  rcases accept_cases hused f pool with
    hr | ⟨e', hn, hr⟩ | ⟨e', ht, ⟨-, hr⟩ | ⟨-, hr⟩⟩
  · rw [hr]
    exact hloc
  · rw [hr, hn] at hu
    cases hu
  · rw [hr]
    exact ht.sound hloc hkey.symm hk
  · rw [hr] at hu
    cases hu

theorem allSound (h : contexts.Reach KeepsEnd p) : AllSound p := by
  refine h.invariant (fun p hp => ?_) fun p ev _ ih hk => ?_
  · intro hi
    rw [hp.1.1] at hi
    cases hi
  cases ev with
  | init =>
    intro hi i hu
    change (p.1.init.cache i).used = true at hu
    change Sound (p.1.init.cache i) (p.2 i)
    unfold Cache.init at hu ⊢
    split_ifs at hu ⊢ with hinit
    exact ih hinit i hu
  | tick => exact ih
  | fragment f pool => exact ih.fragment hk

/-- **Reassembly is sound where every last fragment keeps the end**: no context has more than
    `MAX_HOLES` holes, and a datagram that is returned has all the fragments of its context, each
    byte from exactly one of them. -/
theorem reassemblySound (h : contexts.Reach KeepsEnd p) :
    (p.1.cacheInitialized = true → ∀ i, (p.1.cache i).used = true →
      (p.1.cache i).holes.length ≤ MAX_HOLES) ∧
    ∀ f pool payload, KeepsEnd p (.fragment f pool) →
      (p.1.processFragment f pool).2 = some payload →
      Reassembled f.key payload (f :: p.2.known p.1 f.key) := by
  have hs := allSound h
  refine ⟨fun hi i hu => (hs hi i hu).few, fun f pool payload hk hp => ?_⟩
  by_cases hinit : p.1.cacheInitialized = true
  swap
  · rw [Bool.not_eq_true] at hinit
    simp [Cache.processFragment, hinit] at hp
  obtain ⟨hused, hkey⟩ := p.1.locate_entry f.key
  have hloc := hs.located hinit f.key
  rw [processFragment_eq hinit] at hp
  unfold Cache.verdict at hp
  rcases accept_cases hused f pool with
    hr | ⟨e', -, hr⟩ | ⟨e', ht, ⟨-, hr⟩ | ⟨hc, hr⟩⟩ <;> rw [hr] at hp <;> cases hp
  have hsound := (ht.sound hloc hkey.symm hk).reassembled hc
  rwa [ht.key, hkey] at hsound

/-! ### A lost fragment -/

def exampleKey : FragmentKey := ⟨0x0A000002, 0x0A000001, 17, 7⟩

def exampleFragment (fragOffset : UInt16) (moreFragments : Bool) (n : Nat) : Fragment :=
  ⟨exampleKey, fragOffset, moreFragments, List.replicate n 0x61⟩

/-- A state before `init`. -/
def unbooted : Cache := ⟨false, fun _ => .init exampleKey 0, 0, 0⟩

def available : Pool := ⟨true, true⟩

/-- The first fragment of a datagram is there. -/
def oneFragment : Cache × Accepted :=
  contexts.exec (unbooted, fun _ => []) [.init, .fragment (exampleFragment 0 true 24) available]

/-- The first fragment, and one behind a hole. -/
def twoFragments : Cache × Accepted :=
  contexts.exec (unbooted, fun _ => []) [.init, .fragment (exampleFragment 0 true 24) available,
      .fragment (exampleFragment 32 true 256) available]

theorem unbooted_reach {C : Cache × Accepted → Event → Prop} :
    contexts.Reach C (unbooted, fun _ => []) :=
  .start ⟨⟨rfl, rfl, rfl⟩, rfl⟩

/-- Two fragments and their datagram. -/
theorem reassemblySound_two :
    (oneFragment.1.processFragment (exampleFragment 3 false 5) available).2 =
        some (List.replicate 29 0x61) ∧
      Reassembled exampleKey (List.replicate 29 0x61)
        (exampleFragment 3 false 5 :: oneFragment.2.known oneFragment.1 exampleKey) := by
  have hreach : contexts.Reach KeepsEnd oneFragment := unbooted_reach.exec (by decide +kernel)
  have hp : (oneFragment.1.processFragment (exampleFragment 3 false 5) available).2 =
      some (List.replicate 29 0x61) := by decide +kernel
  exact ⟨hp, (reassemblySound hreach).2 _ available _ (by decide +kernel) hp⟩

/-- **A last fragment that ends before bytes that are there** completes the datagram without
    them. -/
theorem reassemblySound_refuted :
    ∃ p, contexts.Reachable p ∧ ∃ f pool payload, (p.1.processFragment f pool).2 = some payload ∧
      ¬ Reassembled f.key payload (f :: p.2.known p.1 f.key) := by
  refine ⟨twoFragments, Machine.Reachable.exec unbooted_reach _, exampleFragment 3 false 5,
    available, List.replicate 29 0x61, by decide +kernel, fun h => ?_⟩
  have hin : exampleFragment 32 true 256 ∈ twoFragments.2.known twoFragments.1 exampleKey := by
    decide +kernel
  have hx := h.contains _ (mem_cons_of_mem _ hin) 256 (by decide +kernel)
  rw [getElem?_eq_none (by simp)] at hx
  cases hx

end Zigk.Reassembly
