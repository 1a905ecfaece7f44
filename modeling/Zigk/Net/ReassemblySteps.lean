/-
  Subject:   WHAT ONE FRAGMENT DOES to a context of the reassembly cache.

  * **`updateHolesFrom_cases`**: the scan takes the fragment out of every hole, whatever the order
    of the array, or the array has no room for a hole that is split;
  * `updateHolesFrom_used`: it has room where no more than `MAX_HOLES` holes are left at the end;
  * `Taken`: what is known of a context that has stored a fragment; **`accept_cases`**: nothing
    else happens; `accept_taken`: when it does;
  * `locate_spec`: the context a fragment is for.
-/
import Zigk.Net.Reassembly

namespace Zigk.Reassembly

open Function List
open Span (Covered minus)

namespace ReassemblyEntry

variable {e : ReassemblyEntry} {s t i : Nat}

/-! ## 1. The scan of the holes -/
/-- What the scan has still to do: the holes before `i` are as they will be. -/
def scanned (e : ReassemblyEntry) (s t i : Nat) : List Hole :=
  e.holes.take i ++ (e.holes.drop i).flatMap (minus s t)

theorem scanned_at (h : i < e.holes.length) :
    e.scanned s t i = e.holes.take i ++ (e.holes[i].minus s t ++
      (e.holes.drop (i + 1)).flatMap (minus s t)) := by
  rw [scanned, drop_eq_getElem_cons h, flatMap_cons]

/-- One hole is written in its place, and perhaps another one at the end, which the scan will not
    change any more. -/
theorem scanned_write (h : i < e.holes.length) {h' : Hole} {l : List Hole}
    (hl : l.flatMap (minus s t) = l) (hm : e.holes[i].minus s t = h' :: l) :
    (scanned { e with holes := e.holes.set i h' ++ l } s t (i + 1)).Perm (e.scanned s t i) := by
  have hi : i < (e.holes.set i h').length := by rw [length_set]; exact h
  have h1 : (e.holes.set i h').take (i + 1) = e.holes.take i ++ [h'] := by
    rw [take_succ_eq_append_getElem hi, take_set_of_le (Nat.le_refl i), getElem_set_self]
  have h2 : (e.holes.set i h').drop (i + 1) = e.holes.drop (i + 1) :=
    drop_set_of_lt (Nat.lt_succ_self i)
  rw [scanned_at h, hm, scanned, take_append_of_le_length hi,
    drop_append_of_le_length hi, h1, h2, flatMap_append, hl, append_assoc,
    cons_append, cons_append, nil_append]
  refine List.Perm.append_left _ (.cons _ ?_)
  exact perm_append_comm

theorem scanned_set (h : i < e.holes.length) {h' : Hole} (hm : e.holes[i].minus s t = [h']) :
    (scanned { e with holes := e.holes.set i h' } s t (i + 1)).Perm (e.scanned s t i) := by
  have hw := scanned_write h rfl hm
  rwa [append_nil] at hw

theorem scanned_skip (h : i < e.holes.length) (hm : e.holes[i].minus s t = [e.holes[i]]) :
    (e.scanned s t (i + 1)).Perm (e.scanned s t i) := by
  have hw := scanned_set h hm
  rwa [set_getElem_self] at hw

theorem scanned_remove (h : i < e.holes.length) (hm : e.holes[i].minus s t = []) :
    (scanned (e.removeHole i) s t i).Perm (e.scanned s t i) := by
  rw [removeHole, if_neg (by omega), scanned_at h, hm, nil_append, scanned]
  dsimp only
  rw [take_swapRemove _ h]
  exact ((drop_swapRemove _ h).flatMap_right _).append_left _

/-- The hole behind the range is not changed when the scan comes to it. -/
theorem minus_behind {b : Nat} (hst : s ≤ t) (h : t < b) :
    [(⟨t, b⟩ : Hole)].flatMap (minus s t) = [⟨t, b⟩] := by
  simp only [flatMap_singleton, minus]
  split_ifs <;> first | rfl | omega

theorem updateHolesFrom_cases (hst : s ≤ t) (he : e.used = true) :
    (e.updateHolesFrom s t i).used = false ∨
    (e.updateHolesFrom s t i = { e with holes := (e.updateHolesFrom s t i).holes } ∧
      (e.updateHolesFrom s t i).holes.Perm (e.scanned s t i) ∧
      (e.holes.length ≤ MAX_HOLES → (e.updateHolesFrom s t i).holes.length ≤ MAX_HOLES)) := by
  fun_induction updateHolesFrom e s t i with
  | case1 e i hi h hc ih =>
    have hm : e.holes[i].minus s t = [] := if_pos hc
    have hr := scanned_remove hi hm
    have hl := length_swapRemove hi
    rw [removeHole, if_neg (by omega)] at ih hr ⊢
    rcases ih he with hu | ⟨heq, hperm, hlen⟩
    · exact .inl hu
    · exact .inr ⟨heq, hperm.trans hr, fun h => hlen (by dsimp only; omega)⟩
  | case2 e i hi h hn hc hmax => exact .inl rfl
  | case3 e i hi h hn hc hmax newHole ih =>
    have hm : e.holes[i].minus s t = [⟨h.start, s⟩, newHole] := by
      rw [minus, if_neg hn, if_pos hc]
    rcases ih he with hu | ⟨heq, hperm, hlen⟩
    · exact .inl hu
    · refine .inr ⟨heq, hperm.trans (scanned_write hi (minus_behind hst hc.2) hm), fun _ => hlen ?_⟩
      simp only [length_append, length_set, length_singleton]
      omega
  | case4 e i hi h hn hc h3 ih =>
    have hm : e.holes[i].minus s t = [{ h with start := t }] := by
      rw [minus, if_neg hn, if_neg hc, if_pos h3]
    rcases ih he with hu | ⟨heq, hperm, hlen⟩
    · exact .inl hu
    · exact .inr ⟨heq, hperm.trans (scanned_set hi hm), fun h => hlen (by rwa [length_set])⟩
  | case5 e i hi h hn hc h3 h4 ih =>
    have hm : e.holes[i].minus s t = [{ h with stop := s }] := by
      rw [minus, if_neg hn, if_neg hc, if_neg h3, if_pos h4]
    rcases ih he with hu | ⟨heq, hperm, hlen⟩
    · exact .inl hu
    · exact .inr ⟨heq, hperm.trans (scanned_set hi hm), fun h => hlen (by rwa [length_set])⟩
  | case6 e i hi h hn hc h3 h4 ih =>
    have hm : e.holes[i].minus s t = [e.holes[i]] := by
      rw [minus, if_neg hn, if_neg hc, if_neg h3, if_neg h4]
    rcases ih he with hu | ⟨heq, hperm, hlen⟩
    · exact .inl hu
    · exact .inr ⟨heq, hperm.trans (scanned_skip hi hm), hlen⟩
  | case7 e i hi =>
    refine .inr ⟨rfl, ?_, id⟩
    rw [scanned, take_of_length_le (by omega), drop_eq_nil_of_le (by omega),
      flatMap_nil, append_nil]

/-- A hole is split only where no other one goes. -/
def Splits (l : List Hole) (s t : Nat) : Prop :=
  (∃ h ∈ l, s > h.start ∧ t < h.stop) → ∀ h ∈ l, h.minus s t ≠ []

theorem Splits.mono {l l' : List Hole} (h : Splits l s t) (hl : ∀ x ∈ l', x ∈ l) : Splits l' s t :=
  fun ⟨x, hx, hs⟩ y hy => h ⟨x, hl x hx, hs⟩ y (hl y hy)

theorem length_le_flatMap {l : List Hole} (h : ∀ x ∈ l, x.minus s t ≠ []) :
    l.length ≤ (l.flatMap (minus s t)).length := by
  induction l with
  | nil => exact Nat.zero_le _
  | cons x l ih =>
    have hx : 0 < (x.minus s t).length := length_pos_of_ne_nil (h x mem_cons_self)
    have hl := ih fun y hy => h y (mem_cons_of_mem _ hy)
    rw [flatMap_cons, length_append, length_cons]
    omega

theorem mem_drop_self {l : List Hole} (h : i < l.length) : l[i] ∈ l.drop i := by
  rw [drop_eq_getElem_cons h]
  exact mem_cons_self

theorem updateHolesFrom_used (hst : s ≤ t) (he : e.used = true) (h : Splits (e.holes.drop i) s t)
    (hlen : (e.scanned s t i).length ≤ MAX_HOLES) : (e.updateHolesFrom s t i).used = true := by
  fun_induction updateHolesFrom e s t i with
  | case1 e i hi hole hc ih =>
    have hr := scanned_remove hi (if_pos hc)
    have hd := drop_swapRemove e.holes hi
    rw [← hr.length_eq] at hlen
    rw [removeHole, if_neg (by omega)] at ih hlen ⊢
    refine ih he (h.mono fun x hx => ?_) hlen
    exact drop_subset_drop_left _ (Nat.le_succ i) (hd.subset hx)
  | case2 e i hi hole hn hc hmax =>
    -- every hole from here on stays, and this one becomes two
    have hm : (e.holes[i].minus s t).length = 2 := by rw [minus, if_neg hn, if_pos hc]; rfl
    have hall := h ⟨_, mem_drop_self hi, hc⟩
    rw [drop_eq_getElem_cons hi] at hall
    have hrest := length_le_flatMap fun x hx => hall x (mem_cons_of_mem _ hx)
    rw [scanned_at hi, length_append, length_append, hm, length_take] at hlen
    rw [length_drop] at hrest
    omega
  | case3 e i hi hole hn hc hmax newHole ih =>
    have hm : e.holes[i].minus s t = [⟨hole.start, s⟩, newHole] := by
      rw [minus, if_neg hn, if_pos hc]
    refine ih he ?_ (by rwa [(scanned_write hi (minus_behind hst hc.2) hm).length_eq])
    have hd : (e.holes.set i ⟨hole.start, s⟩ ++ [newHole]).drop (i + 1) =
        e.holes.drop (i + 1) ++ [newHole] := by
      rw [drop_append_of_le_length (by rw [length_set]; exact hi),
        drop_set_of_lt (Nat.lt_succ_self i)]
    rw [hd]
    rintro ⟨x, hx, hs⟩ y hy
    rcases mem_append.1 hy with hy | hy
    · have hin := drop_subset_drop_left e.holes (Nat.le_succ i)
      exact h ⟨_, mem_drop_self hi, hc⟩ y (hin hy)
    · obtain rfl := mem_singleton.1 hy
      rw [← flatMap_singleton (minus s t), minus_behind hst hc.2]
      exact cons_ne_nil _ _
  | case4 e i hi hole hn hc h3 ih =>
    have hm : e.holes[i].minus s t = [{ hole with start := t }] := by
      rw [minus, if_neg hn, if_neg hc, if_pos h3]
    refine ih he (h.mono fun x hx => ?_) (by rwa [(scanned_set hi hm).length_eq])
    rw [drop_set_of_lt (Nat.lt_succ_self i)] at hx
    exact drop_subset_drop_left _ (Nat.le_succ i) hx
  | case5 e i hi hole hn hc h3 h4 ih =>
    have hm : e.holes[i].minus s t = [{ hole with stop := s }] := by
      rw [minus, if_neg hn, if_neg hc, if_neg h3, if_pos h4]
    refine ih he (h.mono fun x hx => ?_) (by rwa [(scanned_set hi hm).length_eq])
    rw [drop_set_of_lt (Nat.lt_succ_self i)] at hx
    exact drop_subset_drop_left _ (Nat.le_succ i) hx
  | case6 e i hi hole hn hc h3 h4 ih =>
    have hm : e.holes[i].minus s t = [e.holes[i]] := by
      rw [minus, if_neg hn, if_neg hc, if_neg h3, if_neg h4]
    refine ih he (h.mono fun x hx => ?_) (by rwa [(scanned_skip hi hm).length_eq])
    exact drop_subset_drop_left _ (Nat.le_succ i) hx
  | case7 e i hi => exact he

/-! ## 2. A fragment -/

variable {f : Fragment} {pool : Pool} {e' : ReassemblyEntry}

/-- The sizes that are demanded of a first fragment, and of one between the first and the last. -/
def BigEnough (f : Fragment) : Prop :=
  (f.fragOffset = 0 → MIN_FIRST_FRAGMENT_SIZE ≤ f.payload.length) ∧
    (f.fragOffset ≠ 0 → f.moreFragments = true → MIN_FRAGMENT_SIZE ≤ f.payload.length)

/-- The holes, as the length that the fragment tells leaves them. -/
def holesFor (e : ReassemblyEntry) (f : Fragment) : List Hole :=
  if f.moreFragments then e.holes else (e.setTotal f.stop).holes

/-- What is known of a context `e'` that was `e` and has stored the fragment. -/
structure Taken (e : ReassemblyEntry) (f : Fragment) (e' : ReassemblyEntry) : Prop where
  used : e'.used = true
  key : e'.key = e.key
  big : BigEnough f
  bound : f.stop ≤ MAX_IP_PACKET_SIZE
  inside : ∃ h ∈ e.holesFor f, h.start ≤ f.start ∧ f.stop ≤ h.stop
  holes : e'.holes.Perm ((e.holesFor f).flatMap (minus f.start f.stop))
  room : e.holes.length ≤ MAX_HOLES → e'.holes.length ≤ MAX_HOLES
  totalLen : e'.totalLen = if f.moreFragments then e.totalLen else f.stop
  /-- The buffer has room for the fragment. -/
  long : f.stop ≤ e'.buffer.len
  longer : e.buffer.len ≤ e'.buffer.len
  written : ∀ x, f.has x → e'.buffer.byte x = f.byteAt x
  kept : ∀ x, x < e.buffer.len → ¬ f.has x → e'.buffer.byte x = e.buffer.byte x

theorem length_holesFor : (e.holesFor f).length = e.holes.length := by
  unfold holesFor setTotal
  split_ifs
  · rfl
  · exact length_map _

/-- What the buffer is when it has been made long enough. -/
theorem reserve_some {stop : Nat} (h : e.reserve stop pool = some e')
    (hs : stop ≤ MAX_IP_PACKET_SIZE) :
    e' = { e with buffer := e'.buffer } ∧ stop ≤ e'.buffer.len ∧ e.buffer.len ≤ e'.buffer.len ∧
      ∀ x, x < e.buffer.len → e'.buffer.byte x = e.buffer.byte x := by
  unfold reserve at h
  split_ifs at h with hlen hpool
  · cases h
    refine ⟨rfl, ?_, ?_, fun x hx => if_pos hx⟩
    · dsimp only [Buffer.realloc]
      omega
    · dsimp only [Buffer.realloc]
      omega
  · cases h
    exact ⟨rfl, by omega, Nat.le_refl _, fun _ _ => rfl⟩

theorem told_holes : (e.told f).holes = e.holesFor f := by
  unfold told holesFor
  split_ifs <;> rfl

theorem told_totalLen : (e.told f).totalLen = if f.moreFragments then e.totalLen else f.stop := by
  unfold told
  split_ifs <;> rfl

theorem told_rest : (e.told f).used = e.used ∧ (e.told f).key = e.key ∧
    (e.told f).buffer = e.buffer := by
  unfold told
  split_ifs <;> exact ⟨rfl, rfl, rfl⟩

theorem stored_taken {r : ReassemblyEntry} (he : e.used = true) (hbig : BigEnough f)
    (hstop : f.stop ≤ MAX_IP_PACKET_SIZE) (hr : e.reserve f.stop pool = some r)
    (hin : (r.told f).isRegionOverlapping f.start f.stop = false)
    (hu : ((r.told f).stored f).used = true) : Taken e f ((r.told f).stored f) := by
  obtain ⟨hre, hlong, hlonger, hkept⟩ := reserve_some hr hstop
  obtain ⟨htu, htk, htb⟩ := told_rest (e := r) (f := f)
  have hholes : r.holesFor f = e.holesFor f := by rw [hre]; rfl
  unfold stored updateHoles at hu ⊢
  rcases updateHolesFrom_cases (e := { r.told f with
      buffer := (r.told f).buffer.copyIn f.start f.payload }) (i := 0)
      f.start_le_stop (by rw [htu, hre]; exact he) with hn | ⟨heq, hperm, hlen⟩
  · rw [hn] at hu
    cases hu
  have hperm' := hperm
  rw [scanned, take_zero, nil_append, drop_zero, told_holes, hholes] at hperm'
  rw [heq]
  refine ⟨by rw [htu, hre]; exact he, by rw [htk, hre], hbig, hstop, ?_, hperm', ?_, ?_, ?_, ?_, ?_,
    ?_⟩
  · unfold isRegionOverlapping at hin
    rw [Bool.not_eq_false', any_eq_true] at hin
    obtain ⟨h, hh, hb⟩ := hin
    rw [told_holes, hholes] at hh
    simp only [Bool.and_eq_true, decide_eq_true_eq] at hb
    exact ⟨h, hh, hb⟩
  · intro hroom
    refine hlen ?_
    rw [told_holes, length_holesFor, hre]
    exact hroom
  · rw [told_totalLen, hre]
  · rw [htb]
    exact hlong
  · rw [htb]
    exact hlonger
  · intro x hx
    exact if_pos hx
  · intro x hx hn
    rw [htb]
    exact (if_neg hn).trans (hkept x hx)

theorem place_cases {r : ReassemblyEntry} (he : e.used = true) (hbig : BigEnough f)
    (hstop : f.stop ≤ MAX_IP_PACKET_SIZE) (hr : e.reserve f.stop pool = some r) :
    (∃ e', e'.used = false ∧ r.place f pool = (e', .dropped)) ∨
    ∃ e', Taken e f e' ∧ ((e'.isComplete = false ∧ r.place f pool = (e', .stored)) ∨
      (e'.isComplete = true ∧
        r.place f pool = (e'.drop, .complete (e'.buffer.first e'.totalLen)))) := by
  unfold place
  dsimp only
  split_ifs with hin hu hc hp
  · exact .inl ⟨_, rfl, rfl⟩
  · rw [Bool.not_eq_true'] at hu
    exact .inl ⟨((r.told f).stored f).deinit, hu, rfl⟩
  all_goals rw [Bool.not_eq_true] at hin
  all_goals rw [Bool.not_eq_true', Bool.not_eq_false] at hu
  all_goals have ht := stored_taken he hbig hstop hr hin hu
  · exact .inr ⟨_, ht, .inr ⟨hc, rfl⟩⟩
  · exact .inl ⟨_, rfl, rfl⟩
  · exact .inr ⟨_, ht, .inl ⟨Bool.not_eq_true _ ▸ hc, rfl⟩⟩

/-- **All that can happen to a fragment.** -/
theorem accept_cases (he : e.used = true) (f : Fragment) (pool : Pool) :
    e.accept f pool = (e, .refused) ∨
    (∃ e', e'.used = false ∧ e.accept f pool = (e', .dropped)) ∨
    ∃ e', Taken e f e' ∧ ((e'.isComplete = false ∧ e.accept f pool = (e', .stored)) ∨
      (e'.isComplete = true ∧
        e.accept f pool = (e'.drop, .complete (e'.buffer.first e'.totalLen)))) := by
  unfold accept
  split_ifs with h1 h2 h3 h4
  · exact .inl rfl
  · exact .inl rfl
  · exact .inr (.inl ⟨_, rfl, rfl⟩)
  · exact .inr (.inl ⟨_, rfl, rfl⟩)
  have hstop : f.stop ≤ MAX_IP_PACKET_SIZE := by unfold Fragment.stop; omega
  have hbig : BigEnough f :=
    ⟨fun h => Nat.not_lt.1 fun hlt => h3 ⟨h, hlt⟩,
      fun h h' => Nat.not_lt.1 fun hlt => h4 ⟨h, h', hlt⟩⟩
  cases hr : e.reserve f.stop pool with
  | none => exact .inr (.inl ⟨_, rfl, rfl⟩)
  | some r => exact .inr (place_cases he hbig hstop hr)

/-- **When a fragment is stored**: it has the size and a hole, and there is room. -/
theorem accept_taken (he : e.used = true) (hpool : pool = ⟨true, true⟩)
    (hstart : f.start < MAX_IP_PACKET_SIZE) (hstop : f.stop ≤ MAX_IP_PACKET_SIZE)
    (hbig : BigEnough f) (hin : ∃ h ∈ e.holesFor f, h.start ≤ f.start ∧ f.stop ≤ h.stop)
    (hsplits : Splits (e.holesFor f) f.start f.stop)
    (hroom : ((e.holesFor f).flatMap (minus f.start f.stop)).length ≤ MAX_HOLES) :
    ∃ e', Taken e f e' ∧ ((e'.isComplete = false ∧ e.accept f pool = (e', .stored)) ∨
      (e'.isComplete = true ∧
        e.accept f pool = (e'.drop, .complete (e'.buffer.first e'.totalLen)))) := by
  obtain ⟨h, hh, hb⟩ := hin
  have hlen : ¬ f.payload.length > MAX_IP_PACKET_SIZE - f.start := by
    unfold Fragment.stop at hstop
    omega
  have h3 : ¬ (f.fragOffset = 0 ∧ f.payload.length < MIN_FIRST_FRAGMENT_SIZE) :=
    fun h => absurd (hbig.1 h.1) (Nat.not_le.2 h.2)
  have h4 : ¬ (f.fragOffset ≠ 0 ∧ f.moreFragments ∧ f.payload.length < MIN_FRAGMENT_SIZE) :=
    fun h => absurd (hbig.2 h.1 h.2.1) (Nat.not_le.2 h.2.2)
  obtain ⟨r, hr⟩ : ∃ r, e.reserve f.stop pool = some r := by
    unfold reserve
    rw [hpool]
    by_cases hgrow : f.stop > e.buffer.len
    · exact ⟨_, if_pos hgrow⟩
    · exact ⟨_, if_neg hgrow⟩
  have hre := (reserve_some hr hstop).1
  have hholes : (r.told f).holes = e.holesFor f := by rw [told_holes, hre]; rfl
  have hover : (r.told f).isRegionOverlapping f.start f.stop = false := by
    unfold isRegionOverlapping
    rw [Bool.not_eq_false', any_eq_true, hholes]
    refine ⟨h, hh, ?_⟩
    simp only [Bool.and_eq_true, decide_eq_true_eq]
    exact hb
  have hu : ((r.told f).stored f).used = true := by
    refine updateHolesFrom_used f.start_le_stop ?_ ?_ ?_
    · rw [told_rest.1, hre]
      exact he
    · rw [drop_zero, hholes]
      exact hsplits
    · rw [scanned, take_zero, nil_append, drop_zero, hholes]
      exact hroom
  refine ⟨_, stored_taken he hbig hstop hr hover hu, ?_⟩
  unfold accept
  rw [if_neg (Nat.not_le.2 hstart), if_neg hlen, if_neg h3, if_neg h4, hr]
  dsimp only
  unfold place
  dsimp only
  rw [hover, if_neg Bool.false_ne_true, hu, Bool.not_true, if_neg Bool.false_ne_true]
  subst hpool
  cases hc : ((r.told f).stored f).isComplete
  · exact .inl ⟨rfl, rfl⟩
  · exact .inr ⟨rfl, rfl⟩

end ReassemblyEntry

/-! ## 3. The context a fragment is for -/

namespace Cache

variable {c : Cache} {key : FragmentKey} {i : Slot}

@[simp] theorem put_cache (e : ReassemblyEntry) :
    (c.put i e).cache = update c.cache i e := rfl

@[simp] theorem put_cacheInitialized (e : ReassemblyEntry) :
    (c.put i e).cacheInitialized = c.cacheInitialized := rfl

theorem find_some (h : c.find key = some i) : (c.cache i).used = true ∧ (c.cache i).key = key := by
  have hi := find?_some h
  rwa [Bool.and_eq_true, decide_eq_true_eq] at hi

/-- All slots but the one that is handed out stay. -/
theorem allocateEntry_spec (c : Cache) : c.allocateEntry.2.cacheInitialized = c.cacheInitialized ∧
      c.allocateEntry.2.currentTick = c.currentTick ∧
      ∀ j, j ≠ c.allocateEntry.1 → c.allocateEntry.2.cache j = c.cache j := by
  have hevict : ∀ (d : Cache) (i : Slot), d.cache = c.cache →
      ∀ j, j ≠ (d.evict i).1 → (d.evict i).2.cache j = c.cache j :=
    fun d i hd j hj => (update_of_ne hj _ d.cache).trans (congrFun hd j)
  unfold allocateEntry
  split
  · exact ⟨rfl, rfl, fun _ _ => rfl⟩
  split
  · exact ⟨rfl, rfl, hevict c _ rfl⟩
  dsimp only
  split_ifs
  · exact ⟨rfl, rfl, hevict _ _ rfl⟩
  · exact ⟨rfl, rfl, hevict c _ rfl⟩

/-- **Where a fragment goes**: to the context of its key, or to a new one in the place of an entry
    that is free or has to give way. -/
theorem locate_spec (c : Cache) (key : FragmentKey) :
    (c.locate key).2.cacheInitialized = c.cacheInitialized ∧
      (∀ j, j ≠ (c.locate key).1 → (c.locate key).2.cache j = c.cache j) ∧
      ((c.find key = some (c.locate key).1 ∧ (c.locate key).2 = c) ∨
        (c.find key = none ∧ (c.locate key).1 = c.allocateEntry.1 ∧
          (c.locate key).2.cache (c.locate key).1 = .init key c.currentTick)) := by
  unfold locate
  cases hf : c.find key with
  | some i => exact ⟨rfl, fun _ _ => rfl, .inl ⟨rfl, rfl⟩⟩
  | none =>
    obtain ⟨hi, ht, hc⟩ := c.allocateEntry_spec
    refine ⟨hi, fun j hj => ?_, .inr ⟨rfl, rfl, ?_⟩⟩
    · rw [put_cache, update_of_ne hj]
      exact hc j hj
    · rw [put_cache, update_self, ht]

/-- The entry a fragment is for is in use, and has its key. -/
theorem locate_entry (c : Cache) (key : FragmentKey) :
    ((c.locate key).2.cache (c.locate key).1).used = true ∧
      ((c.locate key).2.cache (c.locate key).1).key = key := by
  obtain ⟨-, -, ⟨hf, hc⟩ | ⟨-, -, hc⟩⟩ := c.locate_spec key
  · rw [hc]
    exact find_some hf
  · rw [hc]
    exact ⟨rfl, rfl⟩

end Cache

end Zigk.Reassembly
