/-
  Subject:   A PAYLOAD ARRIVES, whatever the order of its fragments.

  * `Cache.context`, `context_own`, `context_other` -- the cache as a map from keys to contexts, of
    which a fragment changes one;
  * `Progress.own`, `Progress.other`, `Progress.run` -- a run that delivers a payload, with what
    comes in between;
  * **`reassemblyComplete`** -- the call for the last fragment that comes returns the payload, and
    no call before, where the fragments never leave more than `MAX_HOLES` gaps;
  * `settle`, `Waits`, **`holesLaw`** -- the array of holes, however it is scanned, is the set of
    places minus the ranges that came.
-/
import Zigk.Base.Slots
import Zigk.Net.Fragments

namespace Zigk.Reassembly

open Function List ReassemblyEntry Cache Slots
open Span (Apart Covered Solid apart_minus minus solid_minus)

variable {payload p : List UInt8} {a : Nat} {f : Fragment} {l rest : List Fragment}
  {e : ReassemblyEntry}

/-! ## 1. The cache as a map from keys to contexts -/

namespace Cache

variable {c : Cache} {k : FragmentKey} {pool : Pool}

def slots (c : Cache) : Slots MAX_REASSEMBLIES ReassemblyEntry :=
  fun i => if (c.cache i).used then some (c.cache i) else none

/-- The context of the key. -/
def context (c : Cache) (k : FragmentKey) : Option ReassemblyEntry := c.slots.look (·.key) k

/-- No key has two contexts. -/
def OneEach (c : Cache) : Prop := Slots.OneEach key c.slots

theorem slots_find : c.slots.find (·.key) k = c.find k := by
  unfold Slots.find find slots
  congr 1
  funext i
  cases (c.cache i).used <;> simp

theorem context_none : c.context k = none ↔ c.find k = none := by
  unfold context
  rw [look_eq_none, slots_find]

theorem context_some {i : Slot} (h : c.find k = some i) : c.context k = some (c.cache i) := by
  unfold context look
  rw [slots_find, h, Option.bind_some, slots, if_pos (find_some h).1]

theorem slots_put {i : Slot} {e : ReassemblyEntry} :
    (c.put i e).slots = update c.slots i (if e.used then some e else none) := by
  funext j
  unfold slots
  rw [put_cache]
  by_cases hj : j = i
  · subst hj
    rw [update_self, update_self]
  · rw [update_of_ne hj, update_of_ne hj]

/-- Only the slot the fragment is for is written. -/
theorem slots_fragment (hi : c.cacheInitialized = true) :
    (c.processFragment f pool).1.slots = update c.slots (c.locate f.key).1
      (if (c.verdict f pool).1.used then some (c.verdict f pool).1 else none) := by
  rw [processFragment_eq hi, slots_put]
  obtain ⟨-, hoth, -⟩ := c.locate_spec f.key
  funext j
  by_cases hj : j = (c.locate f.key).1
  · subst hj
    rw [update_self, update_self]
  · rw [update_of_ne hj, update_of_ne hj, slots, hoth j hj]
    rfl

theorem booted_fragment (hi : c.cacheInitialized = true) :
    (c.processFragment f pool).1.cacheInitialized = true := by
  rw [processFragment_eq hi, put_cacheInitialized, (c.locate_spec f.key).1]
  exact hi

/-- An entry that stays in use keeps its key. -/
theorem verdict_key (hu : (c.verdict f pool).1.used = true) :
    (c.verdict f pool).1.key = f.key := by
  obtain ⟨hused, hkey⟩ := c.locate_entry f.key
  unfold verdict at hu ⊢
  rcases accept_cases hused f pool with
    hr | ⟨e', hn, hr⟩ | ⟨e', ht, ⟨-, hr⟩ | ⟨-, hr⟩⟩ <;> rw [hr] at hu ⊢
  · exact hkey
  · rw [hn] at hu
    cases hu
  · exact ht.key.trans hkey
  · cases hu

/-- Outside the slot that a fragment is for, no entry has its key. -/
theorem OneEach.other_slot (h : c.OneEach) {j : Slot} {b : ReassemblyEntry}
    (hj : j ≠ (c.locate k).1) (hb : c.slots j = some b) : b.key ≠ k := by
  intro hkb
  obtain ⟨-, -, ⟨hf, -⟩ | ⟨hf, -, -⟩⟩ := c.locate_spec k
  · have hi := find_some hf
    refine hj (h j _ b (c.cache (c.locate k).1) hb ?_ (hkb.trans hi.2.symm))
    rw [slots, if_pos hi.1]
  · have hlook : c.context k = some b := (Slots.OneEach.look_iff h).2 ⟨j, hb, hkb⟩
    rw [context_none.2 hf] at hlook
    cases hlook

theorem OneEach.fragment (h : c.OneEach) (hi : c.cacheInitialized = true) :
    (c.processFragment f pool).1.OneEach := by
  unfold OneEach
  rw [slots_fragment hi]
  refine Slots.OneEach.change h fun a ha j b hj hb => ?_
  split_ifs at ha with hu
  swap
  · cases ha
  cases ha
  rw [verdict_key hu]
  exact h.other_slot hj hb

/-- The context of the fragment's key. -/
theorem context_own (f : Fragment) (pool : Pool) (h : c.OneEach) (hi : c.cacheInitialized = true)
    (hu : (c.verdict f pool).1.used = true) :
    (c.processFragment f pool).1.context f.key = some (c.verdict f pool).1 := by
  refine (Slots.OneEach.look_iff (h.fragment hi)).2 ⟨(c.locate f.key).1, ?_, verdict_key hu⟩
  rw [slots_fragment hi, update_self, if_pos hu]

/-- A fragment is accepted or not by the context of its key, or by a new one. -/
theorem verdict_entry {P : ReassemblyEntry → Prop}
    (h : (c.context f.key = none ∧ ∀ t, P (.init f.key t)) ∨ ∃ e, c.context f.key = some e ∧ P e)
    (pool : Pool) :
    ∃ e, e.used = true ∧ e.key = f.key ∧ P e ∧ c.verdict f pool = e.accept f pool := by
  obtain ⟨hused, hkey⟩ := c.locate_entry f.key
  refine ⟨_, hused, hkey, ?_, rfl⟩
  obtain ⟨-, -, ⟨hf, hc⟩ | ⟨hf, -, hc⟩⟩ := c.locate_spec f.key
  · rw [hc]
    rw [context_some hf] at h
    rcases h with ⟨hn, -⟩ | ⟨e, he, hP⟩
    · cases hn
    · cases he
      exact hP
  · rw [hc]
    rw [context_none.2 hf] at h
    rcases h with ⟨-, hnew⟩ | ⟨e, he, -⟩
    · exact hnew _
    · cases he

/-- A context that is given up is gone. -/
theorem context_gone (f : Fragment) (pool : Pool) (h : c.OneEach) (hi : c.cacheInitialized = true)
    (hu : (c.verdict f pool).1.used = false) :
    (c.processFragment f pool).1.context f.key = none := by
  unfold context
  rw [Slots.look_eq_none, Slots.find, find?_eq_none]
  intro i _
  rw [slots_fragment hi, hu, if_neg Bool.false_ne_true]
  by_cases hne : i = (c.locate f.key).1
  · rw [hne, update_self]
    exact Bool.false_ne_true
  rw [update_of_ne hne]
  cases hb : c.slots i with
  | none => exact Bool.false_ne_true
  | some b => simpa using h.other_slot hne hb

/-- Another datagram's fragment has a context or finds a free entry. -/
def HasRoom (key : FragmentKey) (c : Cache) : Event → Prop
  | .fragment f _ => f.key = key ∨ (c.find f.key).isSome = true ∨ c.findFree.isSome = true
  | _ => True

instance (key : FragmentKey) (c : Cache) : (ev : Event) → Decidable (HasRoom key c ev)
  | .fragment _ _ => inferInstanceAs (Decidable (_ ∨ _ ∨ _))
  | .init | .tick => .isTrue trivial

/-- A new context gets a free entry where there is one. -/
theorem locate_free (hf : c.find k = none) (hfree : c.findFree.isSome = true) :
    c.slots (c.locate k).1 = none := by
  obtain ⟨i, hi⟩ := Option.isSome_iff_exists.1 hfree
  have hu : (!(c.cache i).used) = true := by
    have hfound := find?_some hi
    exact hfound
  have hloc : (c.locate k).1 = i := by
    unfold locate allocateEntry
    rw [hf, hi]
  rw [Bool.not_eq_true'] at hu
  rw [hloc, slots, hu]
  rfl

/-- **The other contexts stay**, where there is room. -/
theorem context_other (h : c.OneEach) (hi : c.cacheInitialized = true) (hk : f.key ≠ k)
    (hroom : HasRoom k c (.fragment f pool)) :
    (c.processFragment f pool).1.context k = c.context k := by
  unfold context
  rw [slots_fragment hi]
  obtain ⟨-, -, ⟨hf, -⟩ | ⟨hf, -, -⟩⟩ := c.locate_spec f.key
  · rw [look_set h (slots_find.trans hf), if_neg hk.symm]
    intro a ha
    split_ifs at ha with hu
    · cases ha
      exact verdict_key hu
    · cases ha
  have hfree : c.slots (c.locate f.key).1 = none := by
    rcases hroom with heq | hsome | hfree
    · exact absurd heq hk
    · rw [hf] at hsome
      cases hsome
    · exact locate_free hf hfree
  by_cases hu : (c.verdict f pool).1.used = true
  · have hfind : c.slots.find (·.key) (c.verdict f pool).1.key = none := by
      rw [verdict_key hu]
      exact slots_find.trans hf
    rw [if_pos hu, look_add h hfind hfree, verdict_key hu, if_neg hk.symm]
  · rw [if_neg hu, update_eq_self_iff.2 hfree.symm]

end Cache

/-! ## 2. Runs -/

/-- The fragments with the key, in the order in which they arrive. -/
def arrivals (key : FragmentKey) (evs : List Event) : List Fragment :=
  evs.filterMap fun
    | .fragment f _ => if f.key = key then some f else none
    | _ => none

variable {key : FragmentKey} {c : Cache} {ev : Event} {evs evs₁ evs₂ : List Event} {pool : Pool}

theorem arrivals_cons_own (hk : f.key = key) :
    arrivals key (.fragment f pool :: evs) = f :: arrivals key evs :=
  filterMap_cons_some (if_pos hk)

def IsOther (key : FragmentKey) : Event → Prop
  | .fragment f _ => f.key ≠ key
  | _ => True

theorem arrivals_cons_other (h : IsOther key ev) : arrivals key (ev :: evs) = arrivals key evs := by
  refine filterMap_cons_none ?_
  cases ev with
  | fragment f pool => exact if_neg h
  | _ => rfl

/-- The context of the key has the fragments of the list, or there is none and no fragment. -/
structure Progress (key : FragmentKey) (payload : List UInt8) (c : Cache) (l : List Fragment) :
    Prop where
  booted : c.cacheInitialized = true
  oneEach : c.OneEach
  context : (l = [] ∧ c.context key = none) ∨ ∃ e, c.context key = some e ∧ Receives payload e l

theorem Progress.entry (h : Progress key payload c l) (hk : f.key = key) (pool : Pool) :
    ∃ e, e.used = true ∧ e.key = key ∧ Receives payload e l ∧
      c.verdict f pool = e.accept f pool := by
  subst hk
  refine verdict_entry (h.context.imp_left fun ⟨hl, hn⟩ => ⟨hn, fun t => ?_⟩) pool
  rw [hl]
  exact receives_init _

/-- What is not a fragment of the payload leaves its context. -/
theorem Progress.other (h : Progress key payload c l) (hev : IsOther key ev)
    (hroom : Cache.HasRoom key c ev) : Progress key payload (reassembly.step c ev) l := by
  cases ev with
  | init =>
    change Progress key payload c.init l
    rw [Cache.init, if_pos h.booted]
    exact h
  | tick => exact ⟨h.booted, h.oneEach, h.context⟩
  | fragment f pool =>
    refine ⟨booted_fragment h.booted, h.oneEach.fragment h.booted, ?_⟩
    change (_ ∧ (c.processFragment f pool).1.context key = none) ∨
      ∃ e, (c.processFragment f pool).1.context key = some e ∧ _
    rw [Cache.context_other h.oneEach h.booted hev hroom]
    exact h.context

/-- **A fragment of the payload.** -/
theorem Progress.own (h : Progress key payload c l) (hsent : Sent key payload (l ++ f :: rest))
    (h0 : 0 < payload.length) (hT : payload.length < MAX_IP_PACKET_SIZE)
    (hgap : gapCount (f :: l) ≤ MAX_HOLES) :
    (rest = [] → (c.processFragment f available).2 = some payload) ∧
      (rest ≠ [] → (c.processFragment f available).2 = none ∧
        Progress key payload (c.processFragment f available).1 (f :: l)) := by
  have hk := hsent.keys f mem_append_cons_self
  obtain ⟨e, he, hkey, hr, hv⟩ := h.entry hk available
  have hresult : (c.processFragment f available).2 = (c.verdict f available).2.result := by
    rw [processFragment_eq h.booted]
  obtain ⟨e', ⟨rfl, hacc, -⟩ | ⟨hne, hacc, hu, hkey', hr'⟩⟩ := hr.accept hsent h0 hT he hkey hgap
  · refine ⟨fun _ => ?_, fun hne => absurd rfl hne⟩
    rw [hresult, hv, hacc]
    rfl
  have hcontext : (c.processFragment f available).1.context key = some e' := by
    have hown := context_own f available h.oneEach h.booted
    rw [hv, hacc, hk] at hown
    exact hown hu
  refine ⟨fun hnil => absurd hnil hne, fun _ => ⟨?_, booted_fragment h.booted,
    h.oneEach.fragment h.booted, .inr ⟨e', hcontext, hr'⟩⟩⟩
  rw [hresult, hv, hacc]
  rfl

/-- The run delivers the pieces: each fragment once and in any order, with room for the contexts of
    other fragments and memory in the pool. -/
structure Delivery (key : FragmentKey) (pieces : List (List UInt8)) (c : Cache)
    (evs : List Event) : Prop where
  once : (arrivals key evs).Perm (fragmentsFrom key 0 pieces)
  room : reassembly.Along (Cache.HasRoom key) c evs
  pool : ∀ f p, .fragment f p ∈ evs → f.key = key → p = available

theorem arrivals_append : arrivals key (evs₁ ++ evs₂) = arrivals key evs₁ ++ arrivals key evs₂ :=
  filterMap_append

/-- **While fragments are still to come** the context keeps those that came. -/
theorem Progress.run (h : Progress key payload c l)
    (hsent : Sent key payload (l ++ arrivals key (evs₁ ++ evs₂))) (h0 : 0 < payload.length)
    (hT : payload.length < MAX_IP_PACKET_SIZE) (hne : arrivals key evs₂ ≠ [])
    (hroom : reassembly.Along (Cache.HasRoom key) c (evs₁ ++ evs₂))
    (hpool : ∀ f p, .fragment f p ∈ evs₁ → f.key = key → p = available)
    (hgaps : ∀ l', l' <+: arrivals key (evs₁ ++ evs₂) → gapCount (l' ++ l) ≤ MAX_HOLES) :
    Progress key payload (reassembly.exec c evs₁) ((arrivals key evs₁).reverse ++ l) := by
  induction evs₁ generalizing c l with
  | nil => exact h
  | cons ev evs₁ ih =>
    rw [cons_append] at hsent hroom hgaps
    have hpool' := fun f p hf => hpool f p (mem_cons_of_mem _ hf)
    by_cases hev : IsOther key ev
    · rw [arrivals_cons_other hev] at hsent hgaps ⊢
      exact ih (h.other hev hroom.1) hsent hroom.2 hpool' hgaps
    cases ev with
    | fragment f p =>
      have hk : f.key = key := not_not.1 hev
      obtain rfl := hpool f p mem_cons_self hk
      rw [arrivals_cons_own hk] at hsent hgaps ⊢
      have hrest : arrivals key (evs₁ ++ evs₂) ≠ [] := by
        rw [arrivals_append]
        exact append_ne_nil_of_right_ne_nil _ hne
      have hown := (h.own hsent h0 hT (hgaps [f] (prefix_cons_inj f |>.2 nil_prefix))).2 hrest
      have hih := ih hown.2 hsent.next hroom.2 hpool' fun l' hl' => by
        rw [gapCount_perm perm_middle]
        exact hgaps (f :: l') ((prefix_cons_inj f).2 hl')
      rw [reverse_cons, append_assoc]
      exact hih
    | init => exact absurd trivial hev
    | tick => exact absurd trivial hev

/-- In no run does a key have two contexts. -/
theorem oneEach_reachable (h : reassembly.Reachable c) (hi : c.cacheInitialized = true) :
    c.OneEach := by
  revert hi
  refine h.invariant (I := fun c => c.cacheInitialized = true → c.OneEach) (fun c hc hi => ?_)
    fun c ev _ ih _ => ?_
  · rw [hc.1] at hi
    cases hi
  cases ev with
  | init =>
    intro _
    change c.init.OneEach
    unfold Cache.init
    split_ifs with hinit
    · exact ih hinit
    · intro i j a b ha
      cases ha
  | tick => exact ih
  | fragment f pool =>
    intro hi
    change ((c.processFragment f pool).1.cacheInitialized = true) at hi
    change (c.processFragment f pool).1.OneEach
    by_cases hinit : c.cacheInitialized = true
    · exact (ih hinit).fragment hinit
    · rw [Bool.not_eq_true] at hinit
      simp [Cache.processFragment, hinit] at hi

/-- **Datagrams do not disturb each other**: in no run do ticks, a second `init` and the fragments
    of others change a context, as long as each of these has one or finds a free entry. -/
theorem contexts_apart (hc : reassembly.Reachable c) (hi : c.cacheInitialized = true)
    (hevs : ∀ ev ∈ evs, IsOther key ev) (hroom : reassembly.Along (HasRoom key) c evs) :
    (reassembly.exec c evs).context key = c.context key := by
  induction evs generalizing c with
  | nil => rfl
  | cons ev evs ih =>
    have hstep := hc.step ev trivial
    have hevs' := fun x hx => hevs x (mem_cons_of_mem _ hx)
    have hother := hevs ev mem_cons_self
    cases ev with
    | init =>
      have hinit : c.init = c := if_pos hi
      refine (ih hstep ?_ hevs' hroom.2).trans (congrArg (context · key) hinit)
      exact (congrArg cacheInitialized hinit).trans hi
    | tick => exact ih hstep hi hevs' hroom.2
    | fragment f pool =>
      exact (ih hstep (booted_fragment hi) hevs' hroom.2).trans
        (context_other (oneEach_reachable hc hi) hi hother hroom.1)

/-- **Every payload arrives, and with the last of its fragments**: the call for that fragment
    returns it, and no call before. -/
theorem reassemblyComplete {pieces : List (List UInt8)} (h0 : 1 ≤ payload.length)
    (hT : payload.length ≤ 65515) (hp : Pieces payload pieces) (hc : reassembly.Reachable c)
    (hi : c.cacheInitialized = true) (hnew : c.find key = none) (hd : Delivery key pieces c evs)
    (hgaps : ∀ l, l <+: arrivals key evs → gapCount l ≤ MAX_HOLES) :
    ∀ evs₁ f p evs₂, evs = evs₁ ++ .fragment f p :: evs₂ → f.key = key →
      ((reassembly.exec c evs₁).processFragment f p).2 =
        if arrivals key evs₂ = [] then some payload else none := by
  rintro evs₁ f p evs₂ rfl hk
  have hT' : payload.length < MAX_IP_PACKET_SIZE := Nat.lt_of_le_of_lt hT (by decide)
  have hsent := (hp.sent (Nat.le_of_lt hT') h0).perm hd.once
  obtain rfl := hd.pool f p (mem_append_right _ mem_cons_self) hk
  have hstart : Progress key payload c [] :=
    ⟨hi, oneEach_reachable hc hi, .inl ⟨rfl, context_none.2 hnew⟩⟩
  have hne : arrivals key (.fragment f available :: evs₂) ≠ [] := by
    rw [arrivals_cons_own hk]
    exact cons_ne_nil _ _
  have hprog := hstart.run hsent h0 hT' hne hd.room
    (fun g q hg => hd.pool g q (mem_append_left _ hg))
    fun l' hl' => by
      rw [append_nil]
      exact hgaps l' hl'
  rw [append_nil] at hprog
  have hperm : ((arrivals key evs₁).reverse ++ f :: arrivals key evs₂).Perm
      (arrivals key (evs₁ ++ .fragment f available :: evs₂)) := by
    rw [arrivals_append, arrivals_cons_own hk]
    exact (reverse_perm _).append_right _
  have hgap : gapCount (f :: (arrivals key evs₁).reverse) ≤ MAX_HOLES := by
    rw [gapCount_perm ((reverse_perm _).cons f), gapCount_perm (perm_append_singleton _ _).symm]
    refine hgaps _ ?_
    rw [arrivals_append, arrivals_cons_own hk]
    exact ⟨arrivals key evs₂, by rw [append_assoc]; rfl⟩
  have hown := hprog.own (hsent.perm hperm) h0 hT' hgap
  split_ifs with hlast
  · exact hown.1 hlast
  · exact (hown.2 hlast).1

/-! ### Two pieces, the last one first -/

def bootedCache : Cache := unbooted.init

theorem bootedCache_reachable : reassembly.Reachable bootedCache := by
  have hstart : reassembly.Reachable unbooted := .start ⟨rfl, rfl, rfl⟩
  exact hstart.step .init trivial

def twoPieces : List (List UInt8) := [List.replicate 24 0x61, List.replicate 5 0x62]

/-- A fragment of another datagram comes between the two. -/
def lastFirst : List Event :=
  [.fragment (fragment exampleKey 24 false (List.replicate 5 0x62)) available,
    .fragment ⟨{ exampleKey with id := 8 }, 0, true, List.replicate 40 0x63⟩ available, .tick]

def firstLast : Fragment := fragment exampleKey 0 true (List.replicate 24 0x61)

theorem reassemblyComplete_lastFirst :
    ((reassembly.exec bootedCache lastFirst).processFragment firstLast available).2 =
      some (List.replicate 24 0x61 ++ List.replicate 5 0x62) := by
  have hp : Pieces (List.replicate 24 0x61 ++ List.replicate 5 0x62) twoPieces :=
    ⟨by decide, by decide, by decide, by decide⟩
  have hd : Delivery exampleKey twoPieces bootedCache
      (lastFirst ++ [.fragment firstLast available]) := by
    refine ⟨by decide +kernel, by decide +kernel, fun f p hf hk => ?_⟩
    simp only [lastFirst, cons_append, nil_append, mem_cons, not_mem_nil,
      or_false, Event.fragment.injEq, reduceCtorEq, false_or] at hf
    rcases hf with ⟨-, rfl⟩ | ⟨-, rfl⟩ | ⟨-, rfl⟩ <;> rfl
  have hgaps : ∀ l, l <+: arrivals exampleKey (lastFirst ++ [.fragment firstLast available]) →
      gapCount l ≤ MAX_HOLES := by
    intro l hl
    have hlen : l.length ≤ 2 := hl.length_le
    exact Nat.le_trans (gapCount_le l) (by unfold MAX_HOLES; omega)
  exact reassemblyComplete (by decide) (by decide) hp bootedCache_reachable rfl (by decide +kernel)
    hd hgaps lastFirst firstLast available [] rfl rfl

/-- Between the two pieces the context waits. -/
theorem contexts_apart_lastFirst :
    (reassembly.exec bootedCache lastFirst).context exampleKey =
      (reassembly.exec bootedCache (lastFirst.take 1)).context exampleKey := by
  have hc := bootedCache_reachable.exec (lastFirst.take 1)
  have hother : ({ exampleKey with id := 8 } : FragmentKey) ≠ exampleKey := by decide
  have hevs : ∀ ev ∈ lastFirst.drop 1, IsOther exampleKey ev := by
    intro ev hev
    simp only [lastFirst, drop_succ_cons, drop_zero, mem_cons, not_mem_nil, or_false] at hev
    rcases hev with rfl | rfl
    · exact hother
    · trivial
  exact contexts_apart hc (by decide +kernel) hevs (by decide +kernel)

/-! ## 3. The holes while no last fragment has come -/

instance (f : Fragment) : Decidable (BigEnough f) := inferInstanceAs (Decidable (_ ∧ _))

/-- The fragment does not lie in a datagram at all. -/
def Refused (f : Fragment) : Prop :=
  f.start ≥ MAX_IP_PACKET_SIZE ∨ f.payload.length > MAX_IP_PACKET_SIZE - f.start

instance (f : Fragment) : Decidable (Refused f) := inferInstanceAs (Decidable (_ ∨ _))

/-- The fragment has the size, one of the holes has room for it, and not too many are left. -/
def Fitting (l : List Hole) (f : Fragment) : Prop :=
  BigEnough f ∧ (∃ h ∈ l, h.start ≤ f.start ∧ f.stop ≤ h.stop) ∧
    (l.flatMap (minus f.start f.stop)).length ≤ MAX_HOLES

instance (l : List Hole) (f : Fragment) : Decidable (Fitting l f) :=
  inferInstanceAs (Decidable (_ ∧ _ ∧ _))

/-- What is left of the holes: a fragment that does not fit ends the context, and the next one has
    a single hole again. -/
def settle (l : List Hole) (f : Fragment) : List Hole :=
  if Refused f then l
  else if Fitting l f then l.flatMap (minus f.start f.stop)
  else [⟨0, MAX_IP_PACKET_SIZE⟩]

/-- What the holes of a context always are. -/
structure HolesOk (l : List Hole) : Prop where
  apart : Apart l
  solid : Solid l
  few : l.length ≤ MAX_HOLES

theorem holesOk_whole : HolesOk [⟨0, MAX_IP_PACKET_SIZE⟩] where
  apart := pairwise_singleton _ _
  solid I hI := by
    obtain rfl := mem_singleton.1 hI
    show 0 < 65535
    omega
  few := by decide

theorem HolesOk.settle {l : List Hole} (h : HolesOk l) (hm : f.moreFragments = true) :
    HolesOk (settle l f) := by
  unfold Reassembly.settle
  split_ifs with href hfit
  · exact h
  · have hlt := hfit.1.start_lt_stop hm
    exact ⟨apart_minus h.apart f.start_le_stop fun he => by omega,
      solid_minus f.start_le_stop fun I hI => .inl (h.solid I hI), hfit.2.2⟩
  · exact holesOk_whole

/-- A hole is split only where no other one goes. -/
theorem HolesOk.splits {s t : Nat} {l : List Hole} (h : HolesOk l) : Splits l s t := by
  intro ⟨I, hI, hsplit⟩ J hJ hnil
  have hJin : s ≤ J.start ∧ J.stop ≤ t := by
    unfold minus at hnil
    split_ifs at hnil with h1
    exact h1
  have hsolid := h.solid J hJ
  have hIJ : I ≠ J := by
    rintro rfl
    omega
  have haway := h.apart.away hI hJ hIJ
  unfold Span.Away at haway
  omega

namespace ReassemblyEntry

theorem accept_refused {pool : Pool} (h : (e.accept f pool).2 = .refused) : Refused f := by
  unfold accept at h
  split_ifs at h with h1 h2
  · exact .inl h1
  · exact .inr h2
  cases hr : e.reserve f.stop pool with
  | none =>
    rw [hr] at h
    cases h
  | some r =>
    rw [hr] at h
    unfold place at h
    dsimp only at h
    split_ifs at h

/-- **A fragment that is not the last**, for a context that does not know its length. -/
theorem accept_more {l : List Hole} (he : e.used = true) (h0 : e.totalLen = 0)
    (hp : e.holes.Perm l) (hl : HolesOk l) (hm : f.moreFragments = true) :
    (∃ e' v, e.accept f available = (e', v) ∧ v.result = none ∧ e'.used = true ∧
      e'.totalLen = 0 ∧ e'.holes.Perm (settle l f)) ∨
    (settle l f = [⟨0, MAX_IP_PACKET_SIZE⟩] ∧
      ∃ e', e'.used = false ∧ e.accept f available = (e', .dropped)) := by
  have hholes : e.holesFor f = e.holes := if_pos hm
  have hperm := hp.flatMap_right (minus f.start f.stop)
  have htaken : ∀ e', Taken e f e' → e'.totalLen = 0 := by
    intro e' ht
    rw [ht.totalLen, if_pos hm, h0]
  unfold settle
  by_cases href : Refused f
  · rw [if_pos href]
    refine .inl ⟨e, .refused, ?_, rfl, he, h0, hp⟩
    unfold accept
    by_cases h1 : f.start ≥ MAX_IP_PACKET_SIZE
    · exact if_pos h1
    · rw [if_neg h1, if_pos (href.resolve_left h1)]
  rw [if_neg href]
  by_cases hfit : Fitting l f
  · rw [if_pos hfit]
    obtain ⟨hbig, ⟨h, hh, hroom⟩, hlen⟩ := hfit
    unfold Refused at href
    obtain ⟨e', ht, ⟨-, hacc⟩ | ⟨hc, -⟩⟩ := accept_taken he (f := f) rfl (by omega)
      (by unfold Fragment.stop; omega) hbig (by rw [hholes]; exact ⟨h, hp.symm.subset hh, hroom⟩)
      (by rw [hholes]; exact hl.splits.mono fun x hx => hp.subset hx)
      (by rwa [hholes, hperm.length_eq])
    · exact .inl ⟨e', .stored, hacc, rfl, ht.used, htaken e' ht, by
        rw [← hholes] at hperm
        exact ht.holes.trans hperm⟩
    · rw [isComplete, htaken e' ht] at hc
      cases hc
  rw [if_neg hfit]
  refine .inr ⟨rfl, ?_⟩
  rcases accept_cases he f available with hacc | hdrop | ⟨e', ht, -⟩
  · exact absurd (accept_refused (congrArg Prod.snd hacc)) href
  · exact hdrop
  -- it is not stored where it does not fit
  obtain ⟨I, hI, hin⟩ := ht.inside
  rw [hholes] at hI
  have hlen := ht.holes.length_eq
  rw [hholes, hperm.length_eq] at hlen
  refine absurd ⟨ht.big, ⟨I, hp.subset hI, hin⟩, ?_⟩ hfit
  rw [← hlen]
  exact ht.room (by rw [hp.length_eq]; exact hl.few)

end ReassemblyEntry

/-- The context of the key has the holes of the list and does not know its length, or there is
    none yet. -/
structure Waits (key : FragmentKey) (c : Cache) (l : List Hole) : Prop where
  booted : c.cacheInitialized = true
  oneEach : c.OneEach
  ok : HolesOk l
  context : (c.context key = none ∧ l = [⟨0, MAX_IP_PACKET_SIZE⟩]) ∨
    ∃ e, c.context key = some e ∧ e.totalLen = 0 ∧ e.holes.Perm l

theorem waits_none (hi : c.cacheInitialized = true) (hone : c.OneEach)
    (hn : c.context key = none) : Waits key c [⟨0, MAX_IP_PACKET_SIZE⟩] where
  booted := hi
  oneEach := hone
  ok := holesOk_whole
  context := .inl ⟨hn, rfl⟩

namespace Waits

variable {holes : List Hole} (h : Waits key c holes) (hk : f.key = key)

include h hk

theorem entry (pool : Pool) : ∃ e : ReassemblyEntry, e.used = true ∧
    (e.totalLen = 0 ∧ e.holes.Perm holes) ∧ c.verdict f pool = e.accept f pool := by
  subst hk
  obtain ⟨e, he, -, hp, hv⟩ := verdict_entry (P := fun e => e.totalLen = 0 ∧ e.holes.Perm holes)
    (h.context.imp_left fun ⟨hn, hl⟩ => ⟨hn, fun t => ⟨rfl, by rw [hl]; rfl⟩⟩) pool
  exact ⟨e, he, hp, hv⟩

/-- **One more fragment, not the last.** -/
theorem more (hm : f.moreFragments = true) : (c.processFragment f available).2 = none ∧
    Waits key (c.processFragment f available).1 (settle holes f) := by
  obtain ⟨e, he, ⟨h0, hp⟩, hv⟩ := h.entry hk available
  have hbooted : (c.processFragment f available).1.cacheInitialized = true :=
    booted_fragment h.booted
  have hone : (c.processFragment f available).1.OneEach := h.oneEach.fragment h.booted
  subst hk
  rcases accept_more he h0 hp h.ok hm with
    ⟨e', v, hacc, hv', hu, h0', hp'⟩ | ⟨hs, e', hu, hacc⟩
  · rw [hacc] at hv
    have hown := context_own f available h.oneEach h.booted
    rw [hv] at hown
    refine ⟨?_, hbooted, hone, h.ok.settle hm, .inr ⟨e', hown hu, h0', hp'⟩⟩
    rw [processFragment_eq h.booted, hv]
    exact hv'
  · rw [hacc] at hv
    have hgone := context_gone f available h.oneEach h.booted (by rw [hv]; exact hu)
    rw [hs]
    refine ⟨?_, waits_none hbooted hone hgone⟩
    rw [processFragment_eq h.booted, hv]
    rfl

/-- **The last fragment does not complete** a datagram with a hole before its end. -/
theorem last {x : Nat} (hm : f.moreFragments = false) (hx : x < f.stop) (hn : ¬ f.has x)
    (hc : Covered holes x) : (c.processFragment f available).2 = none := by
  obtain ⟨e, he, ⟨-, hp⟩, hv⟩ := h.entry hk available
  rw [processFragment_eq h.booted, hv]
  rcases accept_cases he f available with
    hr | ⟨e', -, hr⟩ | ⟨e', ht, ⟨-, hr⟩ | ⟨hcomplete, -⟩⟩
  · rw [hr]
    rfl
  · rw [hr]
    rfl
  · rw [hr]
    rfl
  obtain ⟨I, hI, hIx⟩ := ht.covered.2 ⟨⟨(Span.covered_perm hp).2 hc, fun _ => hx⟩, hn⟩
  unfold isComplete at hcomplete
  simp only [Bool.and_eq_true, Bool.not_eq_true', any_eq_false, decide_eq_true_eq] at hcomplete
  have htotal : e'.totalLen = f.stop := by rw [ht.totalLen, hm, if_neg Bool.false_ne_true]
  exact absurd (Nat.lt_of_le_of_lt hIx.1 (htotal ▸ hx)) (hcomplete.2 I hI)

end Waits

/-- The fragments come one after the other, and there is memory in the pool. -/
def arriving (fs : List Fragment) : List Event := fs.map fun f => .fragment f available

theorem Waits.run {fs : List Fragment} {holes : List Hole} (h : Waits key c holes)
    (hfs : ∀ f ∈ fs, f.key = key ∧ f.moreFragments = true) :
    Waits key (reassembly.exec c (arriving fs)) (fs.foldl settle holes) := by
  induction fs generalizing c holes with
  | nil => exact h
  | cons f fs ih =>
    obtain ⟨hk, hm⟩ := hfs f mem_cons_self
    exact ih (h.more hk hm).2 fun g hg => hfs g (mem_cons_of_mem _ hg)

/-- **The scan of the array subtracts ranges from a set.** Whatever fragments of a new datagram
    come, of any sizes, twice or overlapping, if none is the last one: no call returns a datagram,
    and the holes of the context are those of `settle`, apart and at most `MAX_HOLES`. -/
theorem holesLaw {fs : List Fragment} (hc : reassembly.Reachable c)
    (hi : c.cacheInitialized = true) (hnew : c.find key = none)
    (hfs : ∀ f ∈ fs, f.key = key ∧ f.moreFragments = true) :
    (∀ fs₁ f fs₂, fs = fs₁ ++ f :: fs₂ →
      ((reassembly.exec c (arriving fs₁)).processFragment f available).2 = none) ∧
    HolesOk (fs.foldl settle [⟨0, MAX_IP_PACKET_SIZE⟩]) ∧
    (((reassembly.exec c (arriving fs)).context key = none ∧
        fs.foldl settle [⟨0, MAX_IP_PACKET_SIZE⟩] = [⟨0, MAX_IP_PACKET_SIZE⟩]) ∨
      ∃ e, (reassembly.exec c (arriving fs)).context key = some e ∧
        e.holes.Perm (fs.foldl settle [⟨0, MAX_IP_PACKET_SIZE⟩])) := by
  have hstart := waits_none hi (oneEach_reachable hc hi) (context_none.2 hnew)
  refine ⟨?_, (hstart.run hfs).ok, ?_⟩
  · rintro fs₁ f fs₂ rfl
    obtain ⟨hk, hm⟩ := hfs f mem_append_cons_self
    exact ((hstart.run fun g hg => hfs g (mem_append_left _ hg)).more hk hm).1
  · rcases (hstart.run hfs).context with hn | ⟨e, he, -, hp⟩
    · exact .inl hn
    · exact .inr ⟨e, he, hp⟩

/-- Bytes in the middle of a datagram. -/
theorem holesLaw_middle : ∃ e,
    (reassembly.exec bootedCache (arriving [exampleFragment 32 true 256])).context exampleKey =
      some e ∧ e.holes.Perm [⟨0, 256⟩, ⟨512, MAX_IP_PACKET_SIZE⟩] := by
  have hs : [exampleFragment 32 true 256].foldl settle [⟨0, MAX_IP_PACKET_SIZE⟩] =
      [⟨0, 256⟩, ⟨512, MAX_IP_PACKET_SIZE⟩] := by
    decide +kernel
  have hnew : bootedCache.find exampleKey = none := by decide +kernel
  have hfs : ∀ f ∈ [exampleFragment 32 true 256], f.key = exampleKey ∧ f.moreFragments = true := by
    decide
  have hlaw := (holesLaw bootedCache_reachable rfl hnew hfs).2.2
  rw [hs] at hlaw
  exact hlaw.resolve_left fun h => absurd h.2 (by decide)

/-! ### More gaps than there is room for -/

def pieceBytes : List UInt8 := List.replicate 256 0x61

def piece (i : Nat) : Fragment := fragment exampleKey (256 * i) true pieceBytes

/-- The places with an odd number, then the even ones. -/
def oddFirst : List Nat :=
  (List.range 64).map (fun i => 2 * i + 1) ++ (List.range 64).map fun i => 2 * i

theorem arrivals_arriving {fs : List Fragment} (h : ∀ f ∈ fs, f.key = key) :
    arrivals key (arriving fs) = fs := by
  induction fs with
  | nil => rfl
  | cons f fs ih =>
    rw [arriving, map_cons, arrivals_cons_own (h f mem_cons_self)]
    exact congrArg _ (ih fun g hg => h g (mem_cons_of_mem _ hg))

theorem fragmentsFrom_replicate (n : Nat) : fragmentsFrom key a (List.replicate (n + 1) p) =
      (List.range n).map (fun i => fragment key (a + p.length * i) true p) ++
        [fragment key (a + p.length * n) false p] := by
  induction n generalizing a with
  | zero => rfl
  | succ n ih =>
    rw [replicate_succ, fragmentsFrom, ih, range_succ_eq_map, map_cons, map_map, cons_append]
    congr 2
    · refine map_congr_left fun i _ => ?_
      show fragment key (a + p.length + p.length * i) true p =
        fragment key (a + p.length * (i + 1)) true p
      rw [Nat.mul_succ, Nat.add_assoc, Nat.add_comm p.length]
    · rw [Nat.mul_succ, Nat.add_assoc, Nat.add_comm p.length]

/-- 129 pieces of 256 bytes: the 64th with an odd number would leave the 65th hole. -/
theorem reassemblyComplete_refuted :
    ¬ ∀ (key : FragmentKey) (payload : List UInt8) (pieces : List (List UInt8)) (c : Cache)
        (evs : List Event), 1 ≤ payload.length → payload.length ≤ 65515 → Pieces payload pieces →
        reassembly.Reachable c → c.cacheInitialized = true → c.find key = none →
        Delivery key pieces c evs →
        ∀ evs₁ f p evs₂, evs = evs₁ ++ .fragment f p :: evs₂ → f.key = key →
          ((reassembly.exec c evs₁).processFragment f p).2 =
            if arrivals key evs₂ = [] then some payload else none := by
  intro hall
  have hmem : ∀ p ∈ List.replicate 129 pieceBytes, p.length = 256 := by
    intro p hp
    rw [eq_of_mem_replicate hp]
    exact length_replicate
  have hlen : (List.replicate 129 pieceBytes).flatten.length = 33024 := by
    rw [length_flatten, map_replicate, sum_replicate_nat, pieceBytes, length_replicate]
  have hp : Pieces (List.replicate 129 pieceBytes).flatten (List.replicate 129 pieceBytes) := by
    refine ⟨rfl, fun p hp => ?_, fun p hp => ?_, fun p hp => ?_⟩
    · rw [hmem p (dropLast_subset _ hp)]
    · rw [hmem p (mem_of_mem_head? hp)]
      decide
    · rw [hmem p (mem_of_mem_tail (dropLast_subset _ hp))]
      exact Nat.le_refl _
  have hpieces : ∀ f ∈ oddFirst.map piece, f.key = exampleKey ∧ f.moreFragments = true := by
    intro f hf
    obtain ⟨i, -, rfl⟩ := mem_map.1 hf
    exact ⟨rfl, rfl⟩
  have hd : Delivery exampleKey (List.replicate 129 pieceBytes) bootedCache
      (arriving (oddFirst.map piece) ++
        [.fragment (fragment exampleKey 32768 false pieceBytes) available]) := by
    refine ⟨?_, by decide +kernel, fun f p hf _ => ?_⟩
    · have hodd : oddFirst.Perm (List.range 128) := by decide +kernel
      have harr := arrivals_arriving fun f hf => (hpieces f hf).1
      have hpiece : pieceBytes.length = 256 := length_replicate
      rw [arrivals_append, fragmentsFrom_replicate, harr, hpiece]
      simp only [Nat.zero_add]
      exact (hodd.map piece).append (.refl _)
    · rw [arriving, mem_append, mem_map, mem_singleton] at hf
      obtain ⟨g, -, hi⟩ | hi := hf
      · cases hi
        rfl
      · cases hi
        rfl
  have hlast := hall exampleKey _ _ bootedCache _ (by rw [hlen]; decide) (by rw [hlen]; decide) hp
    bootedCache_reachable rfl (by decide +kernel) hd (arriving (oddFirst.map piece)) _ available []
    rfl rfl
  have hnone : ((reassembly.exec bootedCache (arriving (oddFirst.map piece))).processFragment
      (fragment exampleKey 32768 false pieceBytes) available).2 = none := by
    have hs : ((oddFirst.map piece).foldl settle [⟨0, MAX_IP_PACKET_SIZE⟩]).any (·.has 256) =
        true := by
      decide +kernel
    obtain ⟨I, hI, hx⟩ := any_eq_true.1 hs
    have hstart : Waits exampleKey bootedCache [⟨0, MAX_IP_PACKET_SIZE⟩] :=
      waits_none rfl (oneEach_reachable bootedCache_reachable rfl) rfl
    refine (hstart.run hpieces).last (x := 256) rfl rfl ?_ ?_ ⟨I, hI, of_decide_eq_true hx⟩
    · decide +kernel
    · decide +kernel
  rw [hnone] at hlast
  cases hlast

end Zigk.Reassembly
