/-
  Subject:   THE ARP TABLE IN EVERY RUN: one entry an address, whole chains, a true count, and every
             packet buffer accounted for.

  * `Linked`, `hashTableRemove_ok`, `hashTableInsert_linked`, `findEntry_ok` -- what the chain
    operations do to the set of the linked entries;
  * `RingOk`, `drain_ok` -- the queue of an entry, and that it gives every buffer up once;
  * **`arpTable`** -- in every run of such steps the table is sound.
-/
import Zigk.Base.Buckets
import Zigk.Base.Checked
import Zigk.Net.Arp

namespace Zigk.Net

open Function List Except Option ArpCache
open Bytes (be16 be32)
open ArpCache (Growth Slot)

variable {c c' c'' : ArpCache} {e e' : ArpEntry} {i j n : Nat} {ip : Ip}

/-! ## 1. Chains -/

variable {chain : Nat → List EntryPtr} {curr : Option EntryPtr}

namespace ArpCache

/-- The chains, as the pointers spell them. -/
def links (c : ArpCache) : Buckets EntryPtr Nat :=
  ⟨c.hashTable, fun p => (c.entryAt p).bind ArpEntry.hashNext⟩

def bucket (c : ArpCache) (p : EntryPtr) : Nat := ((c.entryAt p).map fun e => hashIp e.ipAddr).getD 0

/-- The chains hold exactly the entries of `L`. -/
structure Linked (c : ArpCache) (L : Nat → Prop) : Prop where
  holds : c.links.Holds c.bucket fun p => p.base = c.base ∧ L p.index
  lt (i : Nat) : L i → i < c.items.length

/-- Everything but the links of the chains. -/
def unlinked (c : ArpCache) : ArpCache :=
  { c with
    items := c.items.map fun e => { e with hashNext := none }
    hashTable := fun _ => none }

@[simp] theorem entryAt_ptr (c : ArpCache) (i : Nat) : c.entryAt (c.ptr i) = c.items[i]? := if_pos rfl

theorem deref_ptr (h : c.items[i]? = some e) : c.deref (c.ptr i) = .ok e := by
  rw [deref, entryAt_ptr, h]

theorem ptr_inj : c.ptr i = c.ptr j ↔ i = j := by simp [ptr]

theorem eq_ptr {p : EntryPtr} (h : p.base = c.base) : p = c.ptr p.index := by
  cases p
  cases h
  rfl

theorem bucket_ptr (h : c.items[i]? = some e) : c.bucket (c.ptr i) = hashIp e.ipAddr := by
  rw [bucket, entryAt_ptr, h, map_some, getD_some]

theorem next_ptr (h : c.items[i]? = some e) : c.links.next (c.ptr i) = e.hashNext := by
  show (c.entryAt (c.ptr i)).bind _ = _
  rw [entryAt_ptr, h]
  rfl

theorem items_modify (c : ArpCache) (i j : Nat) (f : ArpEntry → ArpEntry) :
    (c.modify i f).items[j]? = if i = j then c.items[j]?.map f else c.items[j]? := by
  rw [modify, getElem?_modify]
  split_ifs <;> simp

@[simp] theorem length_modify (c : ArpCache) (i : Nat) (f : ArpEntry → ArpEntry) :
    (c.modify i f).items.length = c.items.length := List.length_modify ..

section Links

variable {L L' : Nat → Prop} {f : ArpEntry → ArpEntry}

/-- Only the linked entries matter, and of them the address and the pointer. -/
theorem Linked.congr (h : c.Linked L) (hL : ∀ i, L' i ↔ L i) (hb : c'.base = c.base)
    (hh : c'.hashTable = c.hashTable) (hlen : c.items.length ≤ c'.items.length)
    (hi : ∀ i, L i → ∀ e, c.items[i]? = some e →
      ∃ e', c'.items[i]? = some e' ∧ e'.ipAddr = e.ipAddr ∧ e'.hashNext = e.hashNext) :
    c'.Linked L' := by
  obtain ⟨chain, ht⟩ := h.holds
  have hat : ∀ p, p.base = c.base ∧ L p.index → ∃ e e', c.entryAt p = some e ∧
      c'.entryAt p = some e' ∧ e'.ipAddr = e.ipAddr ∧ e'.hashNext = e.hashNext := by
    rintro p ⟨hp, hl⟩
    obtain ⟨e, he⟩ : ∃ e, c.items[p.index]? = some e := ⟨_, getElem?_eq_getElem (h.lt _ hl)⟩
    obtain ⟨e', he', hip, hn⟩ := hi _ hl e he
    exact ⟨e, e', by rw [entryAt, if_pos hp, he], by rw [entryAt, if_pos (hp.trans hb.symm), he'], hip,
      hn⟩
  refine ⟨⟨chain, ht.congr hh (fun p hp => ?_) (fun p hp => ?_) fun p => ?_⟩, fun i hi' => ?_⟩
  · obtain ⟨e, e', he, he', -, hn⟩ := hat p hp
    simp only [links, he, he', bind_some, hn]
  · obtain ⟨e, e', he, he', hip, -⟩ := hat p hp
    simp only [bucket, he, he', map_some, hip]
  · rw [hb, hL]
  · exact lt_of_lt_of_le (h.lt i ((hL i).mp hi')) hlen

/-- An entry that is not linked may become any other. -/
theorem Linked.rewrite (h : c.Linked L) (hi : ¬ L i) : (c.modify i f).Linked L := by
  refine h.congr (fun _ => Iff.rfl) rfl rfl (by rw [length_modify]) fun j hj e he => ?_
  have hij : i ≠ j := fun hij => hi (hij ▸ hj)
  exact ⟨e, by rw [items_modify, if_neg hij, he], rfl, rfl⟩

theorem unlinked_modify_link (c : ArpCache) (i : Nat) (p : Option EntryPtr) :
    (c.modify i fun e => e.link p).unlinked = c.unlinked := by
  simp only [unlinked, modify, mk.injEq, and_true]
  refine ext_getElem? fun k => ?_
  rw [getElem?_map, getElem?_map, getElem?_modify]
  by_cases hk : i = k
  · cases hc : c.items[k]? with
    | none => simp [hk]
    | some e => simp [hk, ArpEntry.link]
  · cases hc : c.items[k]? <;> simp [hk]

theorem hashTableInsert_unlinked (c : ArpCache) (i : Nat) :
    (c.hashTableInsert i).unlinked = c.unlinked := by
  unfold hashTableInsert
  cases c.items[i]? with
  | none => rfl
  | some e => exact unlinked_modify_link c i _

/-- The entry under a pointer, after a pointer in the entry `i` changed. -/
theorem entryAt_modify_link (he : c.items[i]? = some e) (p : EntryPtr) (q : Option EntryPtr) :
    (c.modify i fun e => e.link q).entryAt p =
      if p = c.ptr i then some (e.link q) else c.entryAt p := by
  rw [entryAt, entryAt, items_modify]
  show (if p.base = c.base then _ else _) = _
  by_cases hb : p.base = c.base
  · rw [if_pos hb, if_pos hb]
    by_cases hi : i = p.index
    · subst hi
      rw [if_pos rfl, if_pos (eq_ptr hb), he, map_some]
    · rw [if_neg hi, if_neg fun h => hi (congrArg EntryPtr.index h).symm]
  · rw [if_neg hb, if_neg hb, if_neg fun h => hb (congrArg EntryPtr.base h)]

/-- One pointer changes, and with it the links. -/
theorem links_modify_link (he : c.items[i]? = some e) (q : Option EntryPtr) :
    (c.modify i fun e => e.link q).links =
      ⟨c.hashTable, update c.links.next (c.ptr i) q⟩ := by
  refine Buckets.ext rfl (funext fun p => ?_)
  simp only [update_apply]
  show ((c.modify i fun e => e.link q).entryAt p).bind _ = _
  rw [entryAt_modify_link he]
  split_ifs <;> rfl

theorem bucket_modify_link (he : c.items[i]? = some e) (q : Option EntryPtr) :
    (c.modify i fun e => e.link q).bucket = c.bucket := by
  funext p
  rw [bucket, bucket, entryAt_modify_link he]
  by_cases hp : p = c.ptr i
  · rw [if_pos hp, hp, entryAt_ptr, he, map_some, map_some]
    rfl
  · rw [if_neg hp]

theorem hashTableInsert_linked (h : c.Linked L) (hi : ¬ L i) (he : c.items[i]? = some e) :
    (c.hashTableInsert i).Linked fun j => j = i ∨ L j := by
  obtain ⟨chain, ht⟩ := h.holds
  have hins : c.hashTableInsert i =
      (c.modify i fun x => x.link (c.hashTable (hashIp e.ipAddr))).setHead (hashIp e.ipAddr)
        (some (c.ptr i)) := by
    rw [hashTableInsert, he]
  have hpush := ht.push (a := c.ptr i) fun hl => hi hl.2
  rw [bucket_ptr he] at hpush
  have hlinks : (c.hashTableInsert i).links = c.links.push (hashIp e.ipAddr) (c.ptr i) := by
    rw [hins]
    have hnext := congrArg Buckets.next (links_modify_link he (c.hashTable (hashIp e.ipAddr)))
    exact Buckets.ext rfl hnext
  have hbucket : (c.hashTableInsert i).bucket = c.bucket := by
    rw [hins]
    exact bucket_modify_link he _
  have hbase : (c.hashTableInsert i).base = c.base := by rw [hins]; rfl
  refine ⟨⟨_, hpush.congr (by rw [hlinks]) (fun p _ => by rw [hlinks])
    (fun p _ => by rw [hbucket]) fun p => ?_⟩, fun j hj => ?_⟩
  · rw [hbase]
    constructor
    · rintro ⟨hb, hl | hl⟩
      · exact .inl (hl ▸ eq_ptr hb)
      · exact .inr ⟨hb, hl⟩
    · rintro (rfl | ⟨hb, hl⟩)
      · exact ⟨rfl, .inl rfl⟩
      · exact ⟨hb, .inr hl⟩
  · rw [hins]
    show j < (c.modify i _).items.length
    rw [length_modify]
    rcases hj with rfl | hj
    · exact (List.getElem?_eq_some_iff.mp he).1
    · exact h.lt j hj

/-- The chain of a bucket, as places of the array. -/
theorem Linked.chain_lt
    (ht : c.links.Threads c.bucket (fun p => p.base = c.base ∧ L p.index) chain)
    (hlt : ∀ i, L i → i < c.items.length) (idx : Nat) : (chain idx).length ≤ c.items.length := by
  have hnd : ((chain idx).map EntryPtr.index).Nodup := by
    refine (ht.nodup idx).map_on fun p hp q hq hpq => ?_
    rw [eq_ptr ((ht.mem idx p).mp hp).1.1, eq_ptr ((ht.mem idx q).mp hq).1.1, hpq]
  have hsub : (chain idx).map EntryPtr.index ⊆ List.range c.items.length := by
    intro k hk
    obtain ⟨p, hp, rfl⟩ := mem_map.mp hk
    exact mem_range.mpr (hlt _ ((ht.mem idx p).mp hp).1.2)
  have := (hnd.subperm hsub).length_le
  rwa [length_map, length_range] at this

/-- The links and the places of a table whose chains lost the entry `i`. -/
theorem Linked.without
    (ht : c'.links.Threads c.bucket (fun p => (p.base = c.base ∧ L p.index) ∧ p ≠ c.ptr i) chain)
    (hb : c'.bucket = c.bucket) (hbase : c'.base = c.base)
    (hlen : c'.items.length = c.items.length) (hlt : ∀ i, L i → i < c.items.length) :
    c'.Linked fun j => L j ∧ j ≠ i := by
  refine ⟨⟨chain, hb ▸ ht.congr rfl (fun _ _ => rfl) (fun _ _ => rfl) fun p => ?_⟩, fun j hj => ?_⟩
  · rw [hbase, and_assoc]
    refine and_congr_right fun hp => and_congr_right fun _ => not_congr ?_
    rw [eq_ptr hp, ptr_inj]
    rfl
  · rw [hlen]
    exact hlt j hj.1

/-- The first entry of its bucket is taken out. -/
theorem removed_first (ht : c.links.Threads c.bucket (fun p => p.base = c.base ∧ L p.index) chain)
    (hlt : ∀ i, L i → i < c.items.length) (he : c.items[i]? = some e)
    (hf : c.hashTable (hashIp e.ipAddr) = some (c.ptr i)) :
    ((c.setHead (hashIp e.ipAddr) e.hashNext).modify i fun x => x.link none).Linked
      fun j => L j ∧ j ≠ i := by
  have hcut := ht.cutFirst (a := c.ptr i) (by rw [bucket_ptr he]; exact hf)
  rw [bucket_ptr he] at hcut
  have he' : (c.setHead (hashIp e.ipAddr) e.hashNext).items[i]? = some e := he
  have hl : ((c.setHead (hashIp e.ipAddr) e.hashNext).modify i fun x => x.link none).links =
      c.links.cutFirst (hashIp e.ipAddr) (c.ptr i) := by
    rw [links_modify_link he']
    refine Buckets.ext ?_ rfl
    show update c.hashTable _ _ = update c.hashTable _ _
    rw [next_ptr he]
  exact Linked.without (hl ▸ hcut) (bucket_modify_link he' _) rfl (length_modify ..) hlt

/-- The entry behind another one is taken out. -/
theorem removed_after {e₀ : ArpEntry}
    (ht : c.links.Threads c.bucket (fun p => p.base = c.base ∧ L p.index) chain)
    (hlt : ∀ i, L i → i < c.items.length) (he : c.items[i]? = some e) (h₀ : c.items[j]? = some e₀)
    (hj : c.ptr j ∈ chain (hashIp e.ipAddr)) (hn : e₀.hashNext = some (c.ptr i)) :
    ((c.modify j fun x => x.link e.hashNext).modify i fun x => x.link none).Linked
      fun j => L j ∧ j ≠ i := by
  have hnext : c.links.next (c.ptr j) = some (c.ptr i) := by rw [next_ptr h₀, hn]
  have hcut := ht.cutAfter (a := c.ptr i) (p := c.ptr j) (by rw [bucket_ptr he]; exact hj) hnext
  rw [bucket_ptr he] at hcut
  obtain ⟨e', he'⟩ : ∃ e', (c.modify j fun x => x.link e.hashNext).items[i]? = some e' := by
    rw [items_modify, he]
    split_ifs <;> exact ⟨_, rfl⟩
  have hl : ((c.modify j fun x => x.link e.hashNext).modify i fun x => x.link none).links =
      c.links.cutAfter (c.ptr j) (c.ptr i) := by
    rw [links_modify_link he']
    refine Buckets.ext rfl ?_
    rw [links_modify_link h₀, ← next_ptr he]
    rfl
  exact Linked.without (hl ▸ hcut) ((bucket_modify_link he' _).trans (bucket_modify_link h₀ _)) rfl
    ((length_modify ..).trans (length_modify ..)) hlt

/-- The walk along the rest `l` of a chain, `prev` before it. -/
theorem removeFrom_ok (ht : c.links.Threads c.bucket (fun p => p.base = c.base ∧ L p.index) chain)
    (hlt : ∀ i, L i → i < c.items.length) (he : c.items[i]? = some e) {prev : Option EntryPtr}
    {l : List EntryPtr} (hl : Chain c.links.next curr l) (hn : l.length ≤ n)
    (hsub : ∀ p ∈ l, p ∈ chain (hashIp e.ipAddr)) (hi : c.ptr i ∈ l)
    (hnone : prev = none → c.hashTable (hashIp e.ipAddr) = curr)
    (hsome : ∀ q, prev = some q → q ∈ chain (hashIp e.ipAddr) ∧ c.links.next q = curr) :
    ∃ c', c.removeFrom i (hashIp e.ipAddr) n prev curr = .ok c' ∧
      c'.Linked (fun j => L j ∧ j ≠ i) ∧ c'.unlinked = c.unlinked := by
  induction l generalizing n prev curr with
  | nil => cases hi
  | cons p l ih =>
    obtain ⟨rfl, hl⟩ := hl
    obtain ⟨n, rfl⟩ := Nat.exists_eq_succ_of_ne_zero (n := n) (by simp at hn; omega)
    have hp := ((ht.mem _ p).mp (hsub p (.head l))).1
    obtain ⟨x, hx⟩ : ∃ x, c.items[p.index]? = some x :=
      ⟨_, getElem?_eq_getElem (hlt _ hp.2)⟩
    have hpi := eq_ptr hp.1
    rw [removeFrom, hpi, deref_ptr hx, ok_bind]
    by_cases hip : c.ptr p.index = c.ptr i
    · rw [if_pos hip]
      have hidx := ptr_inj.mp hip
      rw [hidx, he] at hx
      cases hx
      cases prev with
      | none =>
        refine ⟨_, rfl, removed_first ht hlt he ?_, unlinked_modify_link ..⟩
        rw [hnone rfl, hpi, hip]
      | some q =>
        obtain ⟨hq, hqn⟩ := hsome q rfl
        have hqb := ((ht.mem _ q).mp hq).1
        obtain ⟨y, hy⟩ : ∃ y, c.items[q.index]? = some y :=
          ⟨_, getElem?_eq_getElem (hlt _ hqb.2)⟩
        have hqi := eq_ptr hqb.1
        refine ⟨_, rfl, removed_after ht hlt he hy (hqi ▸ hq) ?_,
          (unlinked_modify_link ..).trans (unlinked_modify_link ..)⟩
        rw [← next_ptr hy, ← hqi, hqn, hpi, hip]
    · rw [if_neg hip]
      have hnext : c.links.next p = x.hashNext := by rw [hpi]; exact next_ptr hx
      have hi' : c.ptr i ∈ l :=
        (mem_cons.mp hi).resolve_left fun h => hip (hpi.symm.trans h.symm)
      refine ih (hnext ▸ hl) (by simpa using hn) (fun q hq => hsub q (.tail p hq)) hi'
        (fun h => nomatch h) fun q hq => ?_
      cases hq
      exact ⟨hpi ▸ hsub p (.head l), next_ptr hx⟩

/-- **A linked entry is taken out of its chain, and nothing else changes.** -/
theorem hashTableRemove_ok (h : c.Linked L) (hi : L i) :
    ∃ c', c.hashTableRemove i = .ok c' ∧ c'.Linked (fun j => L j ∧ j ≠ i) ∧
      c'.unlinked = c.unlinked := by
  obtain ⟨chain, ht⟩ := h.holds
  obtain ⟨e, he⟩ : ∃ e, c.items[i]? = some e := ⟨_, getElem?_eq_getElem (h.lt i hi)⟩
  rw [hashTableRemove, he]
  have hmem : c.ptr i ∈ chain (hashIp e.ipAddr) := by
    rw [ht.mem, bucket_ptr he]
    exact ⟨⟨rfl, hi⟩, rfl⟩
  exact removeFrom_ok ht h.lt he (ht.spells _) (Linked.chain_lt ht h.lt _) (fun _ hp => hp) hmem
    (fun _ => rfl) fun q hq => nomatch hq

/-- The search along the rest `l` of a chain. -/
theorem findFrom_ok (ip : Ip) {l : List EntryPtr} (hl : Chain c.links.next curr l)
    (hn : l.length ≤ n) (hval : ∀ p ∈ l, p.base = c.base ∧ p.index < c.items.length) :
    ∃ r, c.findFrom ip n curr = .ok r ∧
      (∀ i, r = some i → ∃ e, c.items[i]? = some e ∧ e.state ≠ .free ∧ e.ipAddr = ip) ∧
      (r = none → ∀ p ∈ l, ∀ e, c.items[p.index]? = some e → e.state ≠ .free → e.ipAddr ≠ ip) := by
  induction l generalizing n curr with
  | nil =>
    cases (show curr = none from hl)
    refine ⟨none, by cases n <;> rfl, ?_, fun _ p hp => nomatch hp⟩
    exact fun i hi => nomatch hi
  | cons p l ih =>
    obtain ⟨rfl, hl⟩ := hl
    obtain ⟨n, rfl⟩ := Nat.exists_eq_succ_of_ne_zero (n := n) (by simp at hn; omega)
    obtain ⟨hb, hlt⟩ := hval p (.head l)
    obtain ⟨x, hx⟩ : ∃ x, c.items[p.index]? = some x := ⟨_, getElem?_eq_getElem hlt⟩
    have hnext : c.links.next p = x.hashNext := by rw [eq_ptr hb]; exact next_ptr hx
    have hd : c.deref p = .ok x := by rw [eq_ptr hb]; exact deref_ptr hx
    rw [findFrom, hd, ok_bind]
    by_cases hm : x.state ≠ .free ∧ x.ipAddr = ip
    · rw [if_pos hm]
      refine ⟨some p.index, rfl, fun i hi => ?_, fun h => nomatch h⟩
      cases hi
      exact ⟨x, hx, hm⟩
    rw [if_neg hm]
    obtain ⟨r, hr, hsome, hnone⟩ := ih (hnext ▸ hl) (by simpa using hn) fun q hq =>
      hval q (.tail p hq)
    refine ⟨r, hr, hsome, fun h q hq e he hf hip => ?_⟩
    rcases mem_cons.mp hq with rfl | hq
    · rw [hx] at he
      cases he
      exact hm ⟨hf, hip⟩
    · exact hnone h q hq e he hf hip

/-- **The search finds the entry of an address, and finds none only where none is linked.** -/
theorem findEntry_ok (h : c.Linked L) (ip : Ip) :
    ∃ r, c.findEntry ip = .ok r ∧
      (∀ i, r = some i → ∃ e, c.items[i]? = some e ∧ e.state ≠ .free ∧ e.ipAddr = ip) ∧
      (r = none → ∀ i e, L i → c.items[i]? = some e → e.state ≠ .free → e.ipAddr ≠ ip) := by
  obtain ⟨chain, ht⟩ := h.holds
  obtain ⟨r, hr, hsome, hnone⟩ := findFrom_ok ip (ht.spells (hashIp ip))
    (Linked.chain_lt ht h.lt _) fun p hp =>
      ⟨((ht.mem _ p).mp hp).1.1, h.lt _ ((ht.mem _ p).mp hp).1.2⟩
  refine ⟨r, hr, hsome, fun hr i e hi he hf hip => ?_⟩
  refine hnone hr (c.ptr i) ?_ e he hf hip
  rw [ht.mem, bucket_ptr he, hip]
  exact ⟨⟨rfl, hi⟩, rfl⟩

end Links

/-- An entry of a table that differs in links only. -/
theorem item_of_unlinked (h : c'.unlinked = c.unlinked) (he : c.items[i]? = some e) :
    ∃ p, c'.items[i]? = some (e.link p) := by
  have hmap : c'.items.map (fun e => { e with hashNext := none }) =
      c.items.map fun e => { e with hashNext := none } := congrArg items h
  have hi := congrArg (·[i]?) hmap
  simp only [getElem?_map, he, map_some] at hi
  obtain ⟨x, hx, hxe⟩ := map_eq_some_iff.mp hi
  refine ⟨x.hashNext, hx.trans (congrArg some ?_)⟩
  have := congrArg (ArpEntry.link · x.hashNext) hxe
  exact this

end ArpCache

/-! ## 2. The queue of an entry -/

/-- A place of a row of places is filled or emptied. -/
theorem filterMap_update {β : Type*} (f : Nat → Option β) {k : Nat} (hk : k < n) (y : Option β) :
    ((List.range n).filterMap (update f k y) ++ (f k).toList).Perm
      ((List.range n).filterMap f ++ y.toList) := by
  have hp := perm_cons_erase (mem_range.mpr hk)
  have hout : ∀ a ∈ (List.range n).erase k, update f k y a = f a := fun a ha =>
    update_of_ne (fun e => (nodup_range.not_mem_erase) (e ▸ ha)) ..
  have hcons : ∀ g : Nat → Option β, ((List.range n).filterMap g).Perm
      ((g k).toList ++ ((List.range n).erase k).filterMap g) := by
    intro g
    refine (hp.filterMap g).trans ?_
    rw [filterMap_cons]
    cases g k <;> rfl
  refine ((hcons _).append_right _).trans (.trans ?_ ((hcons f).append_right _).symm)
  rw [update_self, filterMap_congr hout]
  refine perm_append_comm.trans ?_
  rw [append_assoc]
  exact perm_append_comm.append_left _

namespace ArpEntry

/-- The buffers of the queue, by their numbers. -/
def ids (e : ArpEntry) : List Nat := e.pending.map PktBuf.id

/-- The places from the head on are taken, one for each packet, and the others are free. -/
structure RingOk (e : ArpEntry) : Prop where
  head_lt : e.queueHead < QUEUE_SIZE
  count_le : e.queueCount ≤ QUEUE_SIZE
  tail : e.queueTail = (e.queueHead + e.queueCount) % QUEUE_SIZE
  taken (k : Nat) : k < QUEUE_SIZE →
    (e.pendingPkts k ≠ none ↔ ∃ j < e.queueCount, k = (e.queueHead + j) % QUEUE_SIZE)

/-- One place of the queue changes. -/
theorem ids_update (e e' : ArpEntry) {k : Nat} (hk : k < QUEUE_SIZE) {y : Option PktBuf}
    (he : e'.pendingPkts = update e.pendingPkts k y) :
    (e'.ids ++ ((e.pendingPkts k).map PktBuf.id).toList).Perm
      (e.ids ++ (y.map PktBuf.id).toList) := by
  have := (filterMap_update e.pendingPkts hk y).map PktBuf.id
  rw [map_append, map_append, ← he] at this
  cases y <;> cases hb : e.pendingPkts k <;> rw [hb] at this <;> exact this

theorem ids_nil (h : ∀ k < QUEUE_SIZE, e.pendingPkts k = none) : e.ids = [] := by
  rw [ids, pending, map_eq_nil_iff, filterMap_eq_nil_iff]
  exact fun k hk => h k (mem_range.mp hk)

@[simp] theorem ids_clearPending (e : ArpEntry) : e.clearPending.ids = [] := ids_nil fun _ _ => rfl

theorem RingOk.free (h : e.RingOk) (hc : e.queueCount = 0) : ∀ k < QUEUE_SIZE, e.pendingPkts k = none := by
  intro k hk
  by_contra hne
  obtain ⟨j, hj, -⟩ := (h.taken k hk).mp hne
  omega

/-- An entry without packets. -/
theorem RingOk.empty (hh : e.queueHead = 0) (ht : e.queueTail = 0) (hc : e.queueCount = 0)
    (hp : ∀ k < QUEUE_SIZE, e.pendingPkts k = none) : e.RingOk where
  head_lt := by rw [hh]; decide
  count_le := by rw [hc]; exact Nat.zero_le _
  tail := by rw [hh, ht, hc]; rfl
  taken k hk := by
    rw [hp k hk, hc]
    simp

theorem ringOk_clearPending (e : ArpEntry) : e.clearPending.RingOk :=
  .empty rfl rfl rfl fun _ _ => rfl

/-- The ring of an entry is in the fields of the queue. -/
theorem RingOk.congr (h : e.RingOk) (hp : e'.pendingPkts = e.pendingPkts)
    (hh : e'.queueHead = e.queueHead) (ht : e'.queueTail = e.queueTail)
    (hc : e'.queueCount = e.queueCount) : e'.RingOk where
  head_lt := by rw [hh]; exact h.head_lt
  count_le := by rw [hc]; exact h.count_le
  tail := by rw [ht, hh, hc]; exact h.tail
  taken k hk := by rw [hp, hh, hc]; exact h.taken k hk

/-- After `dropOldest` there is room. -/
theorem RingOk.dropOldest (h : e.RingOk) :
    e.dropOldest.1.RingOk ∧ e.dropOldest.1.queueCount < QUEUE_SIZE ∧
      (e.dropOldest.1.ids ++ (e.dropOldest.2.map PktBuf.id).toList).Perm e.ids := by
  obtain ⟨hlt, hle, htail, htaken⟩ := h
  unfold ArpEntry.dropOldest
  by_cases hfull : e.queueCount ≥ QUEUE_SIZE
  · rw [if_pos hfull]
    have hc : e.queueCount = QUEUE_SIZE := Nat.le_antisymm hle hfull
    refine ⟨⟨Nat.mod_lt _ (by decide), ?_, ?_, fun k hk => ?_⟩, ?_, ?_⟩
    · show e.queueCount - 1 ≤ QUEUE_SIZE
      omega
    · show e.queueTail = ((e.queueHead + 1) % QUEUE_SIZE + (e.queueCount - 1)) % QUEUE_SIZE
      rw [htail, hc, Nat.mod_add_mod]
      congr 1
    · show update e.pendingPkts e.queueHead none k ≠ none ↔
        ∃ j < e.queueCount - 1, k = ((e.queueHead + 1) % QUEUE_SIZE + j) % QUEUE_SIZE
      unfold QUEUE_SIZE at *
      by_cases hk0 : k = e.queueHead
      · subst hk0
        rw [update_self]
        refine iff_of_false (fun h => h rfl) ?_
        rintro ⟨j, hj, e₁⟩
        omega
      rw [update_of_ne hk0, htaken k hk]
      constructor
      · rintro ⟨j, hj, e₁⟩
        exact ⟨j - 1, by omega, by omega⟩
      · rintro ⟨j, hj, e₁⟩
        exact ⟨j + 1, by omega, by omega⟩
    · show e.queueCount - 1 < QUEUE_SIZE
      rw [hc]
      decide
    · have := ids_update e e.dropOldest.1 hlt (y := none) (by rw [ArpEntry.dropOldest, if_pos hfull])
      rw [map_none, toList_none, append_nil, ArpEntry.dropOldest,
        if_pos hfull] at this
      exact this
  · rw [if_neg hfull]
    refine ⟨⟨hlt, hle, htail, htaken⟩, Nat.lt_of_not_le hfull, ?_⟩
    rw [map_none, toList_none, append_nil]

theorem RingOk.enqueue (h : e.RingOk) (hc : e.queueCount < QUEUE_SIZE) (buf : PktBuf) :
    (e.enqueue buf).RingOk ∧ (e.enqueue buf).ids.Perm (e.ids ++ [buf.id]) := by
  obtain ⟨hlt, hle, htail, htaken⟩ := h
  have htlt : e.queueTail < QUEUE_SIZE := by rw [htail]; exact Nat.mod_lt _ (by decide)
  have hroom : e.pendingPkts e.queueTail = none := by
    by_contra hne
    obtain ⟨j, hj, e₁⟩ := (htaken _ htlt).mp hne
    rw [htail] at e₁
    unfold QUEUE_SIZE at *
    omega
  refine ⟨⟨hlt, hc, ?_, fun k hk => ?_⟩, ?_⟩
  · show (e.queueTail + 1) % QUEUE_SIZE = (e.queueHead + (e.queueCount + 1)) % QUEUE_SIZE
    rw [htail, Nat.mod_add_mod, Nat.add_assoc]
  · show update e.pendingPkts e.queueTail (some buf) k ≠ none ↔
      ∃ j < e.queueCount + 1, k = (e.queueHead + j) % QUEUE_SIZE
    by_cases hk0 : k = e.queueTail
    · subst hk0
      rw [update_self]
      exact iff_of_true (some_ne_none _) ⟨e.queueCount, Nat.lt_succ_self _, htail⟩
    rw [update_of_ne hk0, htaken k hk]
    constructor
    · rintro ⟨j, hj, e₁⟩
      exact ⟨j, Nat.lt_succ_of_lt hj, e₁⟩
    · rintro ⟨j, hj, e₁⟩
      refine ⟨j, Nat.lt_of_le_of_ne (Nat.le_of_lt_succ hj) ?_, e₁⟩
      rintro rfl
      exact hk0 (e₁.trans htail.symm)
  · have := ids_update e (e.enqueue buf) htlt (y := some buf) rfl
    rw [hroom, map_none, toList_none, append_nil] at this
    exact this

end ArpEntry

/-- The queue of `e` on its way out, after the places of `l`. -/
structure Drained (e : ArpEntry) (l : List Nat) (d : Drain) : Prop where
  rest : d.entry = { e with pendingPkts := d.entry.pendingPkts, pendingLens := d.entry.pendingLens }
  ids : (d.entry.ids ++ (d.pkts.map (·.1.id) ++ d.freed)).Perm e.ids
  gone (i : Nat) : i ∈ l → d.entry.pendingPkts ((e.queueHead + i) % QUEUE_SIZE) = none
  free (k : Nat) : e.pendingPkts k = none → d.entry.pendingPkts k = none

theorem Drained.slot {l : List Nat} {d : Drain} (h : Drained e l d) (iface : Interface) (mac : Mac)
    (i : Nat) : Drained e (i :: l) (d.slot iface mac i) := by
  have hhead : d.entry.queueHead = e.queueHead := by rw [h.rest]
  unfold Drain.slot
  rw [hhead]
  generalize hidx : (e.queueHead + i) % QUEUE_SIZE = idx
  have hlt : idx < QUEUE_SIZE := by rw [← hidx]; exact Nat.mod_lt _ (by decide)
  dsimp only
  cases hb : d.entry.pendingPkts idx with
  | none =>
    refine ⟨h.rest, h.ids, fun j hj => ?_, h.free⟩
    rcases mem_cons.mp hj with rfl | hj
    · rw [hidx, hb]
    · exact h.gone j hj
  | some buf =>
    have hids := ArpEntry.ids_update d.entry (d.entry.clearSlot idx) hlt (y := none) rfl
    rw [hb] at hids
    have hgone : ∀ j ∈ i :: l, update d.entry.pendingPkts idx none
        ((e.queueHead + j) % QUEUE_SIZE) = none := by
      intro j hj
      rw [update_apply]
      split_ifs with hk
      · rfl
      · refine h.gone j ((mem_cons.mp hj).resolve_left ?_)
        rintro rfl
        exact hk hidx
    have hfree : ∀ k, e.pendingPkts k = none →
        update d.entry.pendingPkts idx none k = none := by
      intro k hk
      rw [update_apply]
      split_ifs
      · rfl
      · exact h.free k hk
    have hold := h.ids
    have hrest : d.entry.clearSlot idx = { e with
        pendingPkts := (d.entry.clearSlot idx).pendingPkts,
        pendingLens := (d.entry.clearSlot idx).pendingLens } := by
      unfold ArpEntry.clearSlot
      rw [h.rest]
    rw [perm_iff_count] at hids hold
    dsimp only
    split_ifs with hlen
    all_goals
      refine ⟨hrest, ?_, hgone, hfree⟩
      rw [perm_iff_count]
      intro a
      have h₁ := hids a
      have h₂ := hold a
      simp only [map_append, map_cons, map_nil, setHeader, count_append,
        map_some, map_none, toList_some, toList_none,
        count_nil] at h₁ h₂ ⊢
      omega

theorem Drained.foldl {l : List Nat} {d : Drain} (iface : Interface) (mac : Mac) (l' : List Nat)
    (h : Drained e l d) : Drained e (l'.reverse ++ l) (l'.foldl (Drain.slot iface mac) d) := by
  induction l' generalizing l d with
  | nil => exact h
  | cons i l' ih =>
    rw [foldl_cons, reverse_cons, append_assoc]
    exact ih (h.slot iface mac i)

/-- **The queue gives every buffer up once**: to be sent or to the allocator. -/
theorem drain_ok (h : e.RingOk) (iface : Interface) (mac : Mac) :
    (e.drain iface mac).entry.RingOk ∧ (e.drain iface mac).entry.queueCount = 0 ∧
      ((e.drain iface mac).pkts.map (·.1.id) ++ (e.drain iface mac).freed).Perm e.ids ∧
      ∃ pkts lens head tail count, (e.drain iface mac).entry =
        { e with pendingPkts := pkts, pendingLens := lens, queueHead := head, queueTail := tail,
                 queueCount := count } := by
  have hstart : Drained e [] { entry := e } :=
    ⟨rfl, by rw [map_nil, nil_append, append_nil], fun i hi => (nomatch hi),
      fun _ hk => hk⟩
  have hd := hstart.foldl iface mac (List.range e.queueCount)
  unfold ArpEntry.drain
  generalize (List.range e.queueCount).foldl (Drain.slot iface mac) { entry := e } = d at hd
  rw [append_nil] at hd
  have hfree : ∀ k < QUEUE_SIZE, d.entry.pendingPkts k = none := by
    intro k hk
    by_cases hn : e.pendingPkts k = none
    · exact hd.free k hn
    · obtain ⟨j, hj, rfl⟩ := (h.taken k hk).mp hn
      exact hd.gone j (mem_reverse.mpr (mem_range.mpr hj))
  have hids := hd.ids
  rw [ArpEntry.ids_nil hfree, nil_append] at hids
  split_ifs with hc
  · refine ⟨.empty rfl rfl rfl hfree, rfl, hids, d.entry.pendingPkts, d.entry.pendingLens, 0, 0, 0, ?_⟩
    dsimp only
    rw [hd.rest]
  have hc0 : e.queueCount = 0 := by omega
  have hq : d.entry.queueCount = e.queueCount := by rw [hd.rest]
  refine ⟨?_, hq.trans hc0, hids, d.entry.pendingPkts, d.entry.pendingLens, e.queueHead, e.queueTail,
    e.queueCount, hd.rest⟩
  refine ⟨?_, ?_, ?_, fun k hk => ?_⟩
  · rw [hd.rest]
    exact h.head_lt
  · rw [hq]
    exact h.count_le
  · rw [hd.rest]
    exact h.tail
  · rw [hfree k hk, hq, hc0]
    simp

/-! ## 3. The table -/

/-- A packet queue belongs to an incomplete entry, and a static entry is reachable. -/
structure ArpEntry.Ok (e : ArpEntry) : Prop where
  ring : e.RingOk
  idle : e.state ≠ .incomplete → e.queueCount = 0
  fixed : e.isStatic = true → e.state = .reachable

open ArpEntry

namespace ArpCache

def Live (c : ArpCache) (i : Nat) : Prop := ∃ e, c.items[i]? = some e ∧ e.state ≠ .free

/-- The buffers in the queues, and those on their way out. -/
def queuedIds (c : ArpCache) : List Nat := c.items.flatMap ids

def deferredIds (c : ArpCache) : List Nat := c.deferred.flatten.map fun p => p.1.id

def incomplete (c : ArpCache) : Nat := c.items.countP fun e => e.state = .incomplete

end ArpCache

/-- The address that `addStaticEntry` last gave to an IP. -/
abbrev Given := Ip → Option Mac

/-- What holds of the entries, whatever the chains are. -/
structure TableInv (c : ArpCache) (h : Given) : Prop where
  entries : ∀ e ∈ c.items, e.Ok
  unique (i j : Nat) (e e' : ArpEntry) : c.items[i]? = some e → c.items[j]? = some e' →
    e.state ≠ .free → e'.state ≠ .free → e.ipAddr = e'.ipAddr → i = j
  count : c.incompleteEntryCount = c.incomplete
  buffers : (c.queuedIds ++ (c.deferredIds ++ c.freed)).Perm (List.range c.allocated)
  sent : c.transmitted.Sublist c.freed
  static : ∀ e ∈ c.items, e.isStatic = true → h e.ipAddr = some e.macAddr

variable {h h' : Given}

theorem ArpEntry.Ok.link (hok : e.Ok) (p : Option EntryPtr) : (e.link p).Ok :=
  ⟨hok.ring.congr rfl rfl rfl rfl, hok.idle, hok.fixed⟩

/-- The links do not matter. -/
theorem TableInv.congr (hi : TableInv c h) (hu : c'.unlinked = c.unlinked) : TableInv c' h := by
  have hu' : c.unlinked = c'.unlinked := hu.symm
  have hitem : ∀ i e', c'.items[i]? = some e' → ∃ p, c.items[i]? = some (link e' p) :=
    fun i e' he => item_of_unlinked hu' he
  have hmem : ∀ e' ∈ c'.items, ∃ p, link e' p ∈ c.items := by
    intro e' he
    obtain ⟨i, hi⟩ := mem_iff_getElem?.mp he
    obtain ⟨p, hp⟩ := hitem i e' hi
    exact ⟨p, mem_of_getElem? hp⟩
  have hmap : ∀ c : ArpCache, c.unlinked.queuedIds = c.queuedIds ∧ c.unlinked.incomplete = c.incomplete := by
    intro c
    refine ⟨?_, ?_⟩
    · rw [queuedIds, unlinked, flatMap_map]
      rfl
    · rw [incomplete, unlinked, countP_map]
      rfl
  have hq : c'.queuedIds = c.queuedIds := by rw [← (hmap c').1, hu, (hmap c).1]
  have hc : c'.incomplete = c.incomplete := by rw [← (hmap c').2, hu, (hmap c).2]
  have hf : ∀ {β : Type} (f : ArpCache → β), f c'.unlinked = f c.unlinked := fun f => by rw [hu]
  refine ⟨fun e he => ?_, fun i j e e' he he' hs hs' hip => ?_, ?_, ?_, ?_, fun e he hs => ?_⟩
  · obtain ⟨p, hp⟩ := hmem e he
    exact (hi.entries _ hp).link e.hashNext
  · obtain ⟨p, hp⟩ := hitem i e he
    obtain ⟨p', hp'⟩ := hitem j e' he'
    exact hi.unique i j _ _ hp hp' hs hs' hip
  · rw [hc, ← hi.count]
    exact hf incompleteEntryCount
  · have hd : c'.deferredIds = c.deferredIds := hf deferredIds
    have hfr : c'.freed = c.freed := hf freed
    have ha : c'.allocated = c.allocated := hf allocated
    rw [hq, hd, hfr, ha]
    exact hi.buffers
  · have hfr : c'.freed = c.freed := hf freed
    have ht : c'.transmitted = c.transmitted := hf transmitted
    rw [hfr, ht]
    exact hi.sent
  · obtain ⟨p, hp⟩ := hmem e he
    exact hi.static (e.link p) hp hs

theorem live_congr (hu : c'.unlinked = c.unlinked) : c'.Live i ↔ c.Live i := by
  constructor
  · rintro ⟨e, he, hs⟩
    obtain ⟨p, hp⟩ := item_of_unlinked hu.symm he
    exact ⟨_, hp, hs⟩
  · rintro ⟨e, he, hs⟩
    obtain ⟨p, hp⟩ := item_of_unlinked hu he
    exact ⟨_, hp, hs⟩

/-- One entry becomes another one. -/
structure Becomes (c : ArpCache) (h : Given) (i : Nat) (e e' : ArpEntry) (c' : ArpCache) (h' : Given) :
    Prop where
  here : c.items[i]? = some e
  items : c'.items = c.items.modify i fun _ => e'
  ok : e'.Ok
  unique : e'.state ≠ .free → ∀ j x, j ≠ i → c.items[j]? = some x → x.state ≠ .free →
    x.ipAddr ≠ e'.ipAddr
  count : c'.incompleteEntryCount + (if e.state = .incomplete then 1 else 0) =
    c.incompleteEntryCount + if e'.state = .incomplete then 1 else 0
  allocated : c.allocated ≤ c'.allocated
  buffers : (e'.ids ++ (c'.deferredIds ++ c'.freed)).Perm
    (e.ids ++ (c.deferredIds ++ c.freed) ++ List.range' c.allocated (c'.allocated - c.allocated))
  transmitted : c'.transmitted = c.transmitted
  freed : c.freed.Sublist c'.freed
  static : e'.isStatic = true → h' e'.ipAddr = some e'.macAddr
  others : ∀ j x, j ≠ i → c.items[j]? = some x → x.isStatic = true → h' x.ipAddr = h x.ipAddr

theorem TableInv.becomes (hi : TableInv c h) (hb : Becomes c h i e e' c' h') : TableInv c' h' := by
  have hsplit : ∃ l₁ l₂, c.items = l₁ ++ e :: l₂ ∧ c'.items = l₁ ++ e' :: l₂ := by
    obtain ⟨hlt, hget⟩ := List.getElem?_eq_some_iff.mp hb.here
    refine ⟨c.items.take i, c.items.drop (i + 1), ?_, ?_⟩
    · rw [← hget, getElem_cons_drop, take_append_drop]
    · rw [hb.items, modify_eq_take_cons_drop hlt]
  have hat : ∀ j x, c'.items[j]? = some x → (j = i ∧ x = e') ∨ (j ≠ i ∧ c.items[j]? = some x) := by
    intro j x hx
    rw [hb.items] at hx
    have hmod := items_modify c i j fun _ => e'
    rw [show (c.modify i fun _ => e').items[j]? = some x from hx] at hmod
    by_cases hj : i = j
    · subst hj
      rw [if_pos rfl, hb.here, map_some] at hmod
      exact .inl ⟨rfl, Option.some.inj hmod⟩
    · rw [if_neg hj] at hmod
      exact .inr ⟨fun e => hj e.symm, hmod.symm⟩
  have hmem : ∀ x ∈ c'.items, x = e' ∨ ∃ j, j ≠ i ∧ c.items[j]? = some x := by
    intro x hx
    obtain ⟨j, hj⟩ := mem_iff_getElem?.mp hx
    rcases hat j x hj with ⟨-, h⟩ | ⟨hne, h⟩
    · exact .inl h
    · exact .inr ⟨j, hne, h⟩
  obtain ⟨l₁, l₂, hl, hl'⟩ := hsplit
  refine ⟨fun x hx => ?_, fun j k x y hx hy hs hs' hip => ?_, ?_, ?_, ?_, fun x hx hs => ?_⟩
  · rcases hmem x hx with rfl | ⟨j, -, hj⟩
    · exact hb.ok
    · exact hi.entries x (mem_of_getElem? hj)
  · rcases hat j x hx with ⟨rfl, rfl⟩ | ⟨hji, hx⟩ <;> rcases hat k y hy with ⟨rfl, rfl⟩ | ⟨hki, hy⟩
    · rfl
    · exact absurd hip.symm (hb.unique hs k y hki hy hs')
    · exact absurd hip (hb.unique hs' j x hji hx hs)
    · exact hi.unique j k x y hx hy hs hs' hip
  · have hcount := hb.count
    have hold := hi.count
    unfold incomplete at *
    rw [hl] at hold
    rw [hl']
    simp only [countP_append, countP_cons, decide_eq_true_eq] at hold ⊢
    omega
  · have hold := hi.buffers
    have hnew := hb.buffers
    have halloc : List.range c'.allocated =
        List.range c.allocated ++ List.range' c.allocated (c'.allocated - c.allocated) := by
      have happ := range'_append_1 (s := 0) (m := c.allocated) (n := c'.allocated - c.allocated)
      rw [Nat.zero_add, Nat.add_sub_cancel' hb.allocated] at happ
      rw [range_eq_range', range_eq_range']
      exact happ.symm
    rw [halloc, perm_iff_count]
    rw [perm_iff_count] at hold hnew
    intro a
    have h₁ := hold a
    have h₂ := hnew a
    unfold queuedIds at *
    rw [hl] at h₁
    rw [hl']
    simp only [flatMap_append, flatMap_cons, count_append] at h₁ h₂ ⊢
    omega
  · rw [hb.transmitted]
    exact hi.sent.trans hb.freed
  · rcases hmem x hx with rfl | ⟨j, hne, hj⟩
    · exact hb.static hs
    · rw [hb.others j x hne hj hs]
      exact hi.static x (mem_of_getElem? hj) hs

/-- The chains hold the entries in use, and the entries are as they should be. -/
structure ArpInv (c : ArpCache) (h : Given) : Prop where
  linked : c.Linked c.Live
  table : TableInv c h

namespace ArpCache

theorem modify_eq (he : c.items[i]? = some e) (f : ArpEntry → ArpEntry) :
    c.modify i f = c.modify i fun _ => f e := by
  unfold modify
  congr 1
  refine ext_getElem? fun k => ?_
  rw [getElem?_modify, getElem?_modify]
  by_cases hk : i = k
  · subst hk
    rw [he]
    simp
  · simp [hk]

theorem live_modify (he : c.items[i]? = some e) :
    (c.modify i fun _ => e').Live j ↔ if j = i then e'.state ≠ .free else c.Live j := by
  unfold Live
  rw [items_modify]
  by_cases hj : i = j
  · subst hj
    rw [if_pos rfl, if_pos rfl, he]
    simp
  · rw [if_neg hj, if_neg fun h => hj h.symm]

end ArpCache

/-- An entry stays what it is for the table: its address, its use and its packets. -/
theorem TableInv.touch (hi : TableInv c h) (he : c.items[i]? = some e) (hok : e'.Ok)
    (hids : e'.ids = e.ids) (hip : e'.ipAddr = e.ipAddr)
    (hfree : e'.state = .free ↔ e.state = .free)
    (hinc : e'.state = .incomplete ↔ e.state = .incomplete)
    (hst : e'.isStatic = true → e.isStatic = true ∧ e'.macAddr = e.macAddr) :
    Becomes c h i e e' (c.modify i fun _ => e') h where
  here := he
  items := rfl
  ok := hok
  unique hs j x hj hx hxs hxip := hj (hi.unique j i x e hx he hxs (mt hfree.mpr hs) (hxip.trans hip))
  count := by
    simp only [hinc]
    rfl
  allocated := Nat.le_refl _
  buffers := by
    have hnone : (c.modify i fun _ => e').allocated - c.allocated = 0 := Nat.sub_self _
    rw [hids, hnone, range'_zero, append_nil]
    exact List.Perm.refl _
  transmitted := rfl
  freed := List.Sublist.refl _
  static hs := by
    rw [hip, (hst hs).2]
    exact hi.static e (mem_of_getElem? he) (hst hs).1
  others _ _ _ _ _ := rfl

/-- A change of one entry that the chains do not see. -/
theorem ArpInv.becomes (hi : ArpInv c h) (hb : Becomes c h i e e' c' h') (hbase : c'.base = c.base)
    (hhash : c'.hashTable = c.hashTable) (hip : e'.ipAddr = e.ipAddr)
    (hlink : e'.hashNext = e.hashNext) (hfree : e'.state = .free ↔ e.state = .free) :
    ArpInv c' h' := by
  have hitem : ∀ j : Nat, c'.items[j]? = (c.modify i fun _ => e').items[j]? := fun j => by
    rw [hb.items]
    rfl
  refine ⟨hi.linked.congr (fun j => ?_) hbase hhash ?_ fun j hj x hx => ?_, hi.table.becomes hb⟩
  · unfold ArpCache.Live
    rw [hitem, items_modify]
    by_cases hj : i = j
    · subst hj
      rw [if_pos rfl, hb.here]
      simp [hfree]
    · rw [if_neg hj]
  · rw [hb.items]
    exact (List.length_modify ..).ge
  · rw [hitem, items_modify]
    by_cases hij : i = j
    · subst hij
      rw [hb.here] at hx
      cases hx
      exact ⟨e', by rw [if_pos rfl, hb.here, map_some], hip, hlink⟩
    · exact ⟨x, by rw [if_neg hij, hx], rfl, rfl⟩

/-! ## 4. Received packets -/

/-- The fields beside the table and the queues do not matter. -/
theorem ArpInv.defer_nil (hi : ArpInv c h) : ArpInv (c.defer []) h := by
  refine ⟨hi.linked.congr (fun _ => Iff.rfl) rfl rfl (Nat.le_refl _) fun j _ x hx => ⟨x, hx, rfl, rfl⟩,
    ⟨hi.table.entries, hi.table.unique, hi.table.count, ?_, hi.table.sent, hi.table.static⟩⟩
  have hd : (c.defer []).deferredIds = c.deferredIds := by
    simp [deferredIds, defer]
  rw [hd]
  exact hi.table.buffers

theorem defer_ids (c : ArpCache) (pkts : List Pending) :
    (c.defer pkts).deferredIds = c.deferredIds ++ pkts.map fun p => p.1.id := by
  simp [deferredIds, defer]

/-- An entry that learns its address. -/
theorem learn_becomes (hi : TableInv c h) (he : c.items[i]? = some e) (hs : e.state ≠ .free)
    (hst : e.isStatic = false) (iface : Interface) (mac : Mac) {d : Drain}
    (hd : d = (e.learn mac .reachable c.currentTick).drain iface mac) {count : Nat}
    (hcount : count = if e.state = .incomplete ∧ ArpState.reachable = .reachable ∧
      0 < c.incompleteEntryCount then c.incompleteEntryCount - 1 else c.incompleteEntryCount) :
    Becomes c h i e d.entry
      (defer { c.modify i fun _ => d.entry with
        incompleteEntryCount := count, freed := c.freed ++ d.freed } d.pkts) h ∧
      d.entry.ipAddr = e.ipAddr ∧ d.entry.hashNext = e.hashNext ∧ d.entry.state = .reachable := by
  have hok := hi.entries e (mem_of_getElem? he)
  have hring : (e.learn mac .reachable c.currentTick).RingOk := hok.ring.congr rfl rfl rfl rfl
  obtain ⟨hring', hzero, hids, pkts, lens, head, tail, cnt, hentry⟩ := drain_ok hring iface mac
  rw [← hd] at hring' hzero hids hentry
  have hnone := ids_nil (hring'.free hzero)
  have hstate : d.entry.state = .reachable := by rw [hentry]; rfl
  have hstatic : d.entry.isStatic = false := by rw [hentry]; exact hst
  have hip : d.entry.ipAddr = e.ipAddr := by rw [hentry]; rfl
  have hlearn : (e.learn mac .reachable c.currentTick).ids = e.ids := rfl
  rw [hlearn] at hids
  refine ⟨⟨he, rfl, ⟨hring', fun _ => hzero, fun h => ?_⟩, fun _ j x hj hx hxs hxip => ?_, ?_,
    Nat.le_refl _, ?_, rfl, sublist_append_left .., fun h => ?_, fun _ _ _ _ _ => rfl⟩, hip, ?_,
    hstate⟩
  · rw [hstatic] at h
    cases h
  · exact hj (hi.unique j i x e hx he hxs hs (hxip.trans hip))
  · have hpos : e.state = .incomplete → 0 < c.incompleteEntryCount := by
      intro hinc
      rw [hi.count, incomplete, countP_pos_iff]
      exact ⟨e, mem_of_getElem? he, decide_eq_true hinc⟩
    have hne : ¬ ArpState.reachable = .incomplete := by decide
    rw [hstate, if_neg hne]
    show count + (if e.state = .incomplete then 1 else 0) = c.incompleteEntryCount + 0
    rw [hcount]
    by_cases hinc : e.state = .incomplete
    · have := hpos hinc
      rw [if_pos ⟨hinc, rfl, this⟩, if_pos hinc]
      omega
    · rw [if_neg fun h => hinc h.1, if_neg hinc]
  · have hnew : (defer { c.modify i fun _ => d.entry with
        incompleteEntryCount := count, freed := c.freed ++ d.freed } d.pkts).allocated -
        c.allocated = 0 := Nat.sub_self _
    rw [hnew, defer_ids, hnone]
    rw [perm_iff_count] at hids ⊢
    intro a
    have h₁ := hids a
    simp only [count_append, range'_zero, count_nil] at h₁ ⊢
    have hdef : ({ c.modify i fun _ => d.entry with
        incompleteEntryCount := count, freed := c.freed ++ d.freed } : ArpCache).deferredIds =
        c.deferredIds := rfl
    rw [hdef]
    show 0 + (_ + _ + (c.freed ++ d.freed).count a) = _
    rw [count_append]
    omega
  · rw [hstatic] at h
    cases h
  · rw [hentry]
    rfl

/-- An entry learns its address and gives its packets up. -/
theorem updateCache_ok (hi : ArpInv c h) (iface : Interface) (ip : Ip) (mac : Mac) :
    ∃ c' pkts, c.updateCache iface ip mac .reachable = .ok (c', pkts) ∧ ArpInv (c'.defer pkts) h := by
  unfold updateCache
  split_ifs with hm
  · exact ⟨c, [], rfl, hi.defer_nil⟩
  obtain ⟨r, hr, hsome, -⟩ := findEntry_ok hi.linked ip
  rw [hr, ok_bind]
  cases r with
  | none => exact ⟨c, [], rfl, hi.defer_nil⟩
  | some i =>
    obtain ⟨e, he, hs, -⟩ := hsome i rfl
    dsimp only
    rw [he]
    dsimp only
    by_cases hst : e.isStatic = true
    · rw [if_pos hst]
      exact ⟨c, [], rfl, hi.defer_nil⟩
    rw [if_neg hst]
    by_cases hrate : e.state ≠ .incomplete ∧ c.currentTick - e.timestamp < ARP_UPDATE_RATE_LIMIT
    · rw [if_pos hrate]
      exact ⟨c, [], rfl, hi.defer_nil⟩
    rw [if_neg hrate]
    obtain ⟨hb, hip, hlink, hstate⟩ := learn_becomes hi.table he hs
      (Bool.eq_false_iff.mpr hst) iface mac rfl rfl
    refine ⟨_, _, rfl, hi.becomes hb rfl rfl hip hlink ?_⟩
    rw [hstate]
    exact iff_of_false (by decide) hs

/-- What was noted about earlier answers does not matter. -/
theorem touch_conflict (hi : ArpInv c h) (he : c.items[i]? = some e)
    (reply : Mac) (received conflict : Bool) (time : BitVec 64) (count : Nat) :
    ArpInv (c.modify i fun _ =>
      { e with expectedReplyMac := reply, hasReceivedReply := received, conflictDetected := conflict,
               conflictTime := time, conflictCount := count }) h := by
  have hok := hi.table.entries e (mem_of_getElem? he)
  refine hi.becomes (hi.table.touch he ⟨hok.ring.congr rfl rfl rfl rfl, hok.idle, hok.fixed⟩ rfl rfl
    Iff.rfl Iff.rfl fun h => ⟨h, rfl⟩) rfl rfl rfl rfl Iff.rfl

theorem receiveReply_ok (hi : ArpInv c h) (he : c.items[i]? = some e) (iface : Interface) (ip : Ip)
    (mac : Mac) : ∃ r, c.receiveReply iface i e ip mac = .ok r ∧
      ∀ c' pkts, r = some (c', pkts) → ArpInv (c'.defer pkts) h := by
  have hupd : ∀ {c : ArpCache}, ArpInv c h → ∃ r,
      (some <$> c.updateCache iface ip mac .reachable : Except Fault _) = .ok r ∧
      ∀ c' pkts, r = some (c', pkts) → ArpInv (c'.defer pkts) h := by
    intro c hi
    obtain ⟨c', pkts, hr, hi'⟩ := updateCache_ok hi iface ip mac
    refine ⟨some (c', pkts), by rw [hr]; rfl, fun c'' pkts' h => ?_⟩
    cases h
    exact hi'
  unfold receiveReply
  by_cases hs : e.state = .incomplete
  · rw [if_pos hs]
    split
    · exact ⟨none, rfl, fun c' pkts h => nomatch h⟩
    dsimp only
    by_cases hc : e.conflictDetected = true
    · rw [if_pos hc]
      exact hupd (touch_conflict hi he ..)
    rw [if_neg hc]
    split
    · exact hupd (touch_conflict hi he ..)
    split
    · exact hupd hi
    refine ⟨_, rfl, fun c' pkts h => ?_⟩
    cases h
    have := touch_conflict hi he e.expectedReplyMac false true c.currentTick
      (min (e.conflictCount + 1) 255)
    rw [← hs]
    exact this.defer_nil
  · rw [if_neg hs]
    exact hupd hi

theorem processPacket_ok (hi : ArpInv c h) (iface : Interface) (data : List UInt8) :
    ∃ r, c.processPacket iface data = .ok r ∧ ArpInv (r.cache.defer r.pending) h := by
  have hlearn : ∀ op ip mac, ∃ r, c.learnFrom iface op ip mac = .ok r ∧
      ∀ c' pkts, r = some (c', pkts) → ArpInv (c'.defer pkts) h := by
    intro op ip mac
    have hnil : ∃ r, (pure (some (c, [])) : Except Fault _) = .ok r ∧
        ∀ c' pkts, r = some (c', pkts) → ArpInv (c'.defer pkts) h := by
      refine ⟨_, rfl, fun c' pkts h => ?_⟩
      cases h
      exact hi.defer_nil
    unfold learnFrom
    split_ifs
    · exact hnil
    · exact ⟨none, rfl, fun c' pkts h => nomatch h⟩
    · exact hnil
    obtain ⟨r, hr, hsome, -⟩ := findEntry_ok hi.linked ip
    rw [hr, ok_bind]
    cases r with
    | none => exact hnil
    | some i =>
      obtain ⟨e, he, -, -⟩ := hsome i rfl
      dsimp only
      rw [he]
      exact receiveReply_ok hi he iface ip mac
  unfold processPacket
  dsimp only
  split_ifs
  · exact ⟨_, rfl, hi.defer_nil⟩
  · exact ⟨_, rfl, hi.defer_nil⟩
  · exact ⟨_, rfl, hi.defer_nil⟩
  all_goals
    obtain ⟨r, hr, hinv⟩ := hlearn (be16 data (arpOffset data + 6))
      (be32 data (arpOffset data + 14))
      (Vector.ofFn fun k => data.getD (arpOffset data + 8 + k) 0)
    rw [hr, ok_bind]
    cases r with
    | none => exact ⟨_, rfl, hi.defer_nil⟩
    | some p =>
      obtain ⟨c', pkts⟩ := p
      exact ⟨_, rfl, hinv c' pkts rfl⟩

/-! ## 5. Recycled entries -/

namespace ArpCache

theorem map_modify {β : Type*} {f : ArpEntry → ArpEntry} {g : ArpEntry → β} {f' : β → β}
    (hf : ∀ e, g (f e) = f' (g e)) (l : List ArpEntry) (i : Nat) :
    (l.modify i f).map g = (l.map g).modify i f' := by
  refine ext_getElem? fun k => ?_
  rw [getElem?_map, getElem?_modify, getElem?_modify, getElem?_map]
  by_cases hk : i = k
  · cases l[k]? <;> simp [hk, hf]
  · cases l[k]? <;> simp [hk]

theorem unlinked_modify (c : ArpCache) (i : Nat) {f : ArpEntry → ArpEntry}
    (hf : ∀ e, (f e).link none = f (e.link none)) : (c.modify i f).unlinked = c.unlinked.modify i f := by
  unfold unlinked modify
  congr 1
  exact map_modify hf c.items i

theorem unlinked_freePending (c : ArpCache) (i : Nat) :
    (c.freePending i).unlinked = c.unlinked.freePending i := by
  have hitems : (c.modify i clearPending).unlinked =
      c.unlinked.modify i clearPending := unlinked_modify c i fun _ => rfl
  have hids : (c.unlinked.items[i]?.map pending).getD [] =
      (c.items[i]?.map pending).getD [] := by
    rw [unlinked, getElem?_map]
    cases c.items[i]? <;> rfl
  unfold freePending
  rw [hids]
  have := congrArg items hitems
  unfold unlinked modify at this ⊢
  congr 1

/-- A live entry leaves its chain and gives its packets up. -/
theorem evict_ok (hl : c.Linked c.Live) (hi : c.Live i) :
    ∃ c', c.evict i = .ok c' ∧ c'.Linked (fun j => c.Live j ∧ j ≠ i) ∧
      c'.unlinked = (c.freePending i).unlinked := by
  obtain ⟨c₁, hr, hl₁, hu⟩ := hashTableRemove_ok hl hi
  refine ⟨c₁.freePending i, by rw [evict, hr]; rfl, ?_, ?_⟩
  · have : (c₁.modify i clearPending).Linked fun j => c.Live j ∧ j ≠ i :=
      hl₁.rewrite fun h => h.2 rfl
    exact this.congr (fun _ => Iff.rfl) rfl rfl (Nat.le_refl _) fun j _ e he => ⟨e, he, rfl, rfl⟩
  · rw [unlinked_freePending, unlinked_freePending, hu]

end ArpCache

/-- The packets of an entry are given up. -/
theorem free_becomes (hi : TableInv c h) (he : c.items[i]? = some e) {count : Nat} {f : ArpEntry}
    (hids : f.ids = []) (hok : f.Ok) (hip : f.ipAddr = e.ipAddr)
    (hfree : f.state ≠ .free → e.state ≠ .free)
    (hcount : count + (if e.state = .incomplete then 1 else 0) =
      c.incompleteEntryCount + if f.state = .incomplete then 1 else 0)
    (hst : f.isStatic = true → e.isStatic = true ∧ f.macAddr = e.macAddr) :
    Becomes c h i e f { c.modify i fun _ => f with
      incompleteEntryCount := count, freed := c.freed ++ e.ids } h where
  here := he
  items := rfl
  ok := hok
  unique hs j x hj hx hxs hxip := hj (hi.unique j i x e hx he hxs (hfree hs) (hxip.trans hip))
  count := hcount
  allocated := Nat.le_refl _
  buffers := by
    have hnone : ({ c.modify i fun _ => f with
      incompleteEntryCount := count, freed := c.freed ++ e.ids } : ArpCache).allocated -
        c.allocated = 0 := Nat.sub_self _
    rw [hids, hnone, range'_zero, append_nil, nil_append]
    refine (append_assoc ..).symm ▸ ?_
    exact perm_append_comm
  transmitted := rfl
  freed := sublist_append_left ..
  static hs := by
    rw [hip, (hst hs).2]
    exact hi.static e (mem_of_getElem? he) (hst hs).1
  others _ _ _ _ _ := rfl

theorem freePending_eq (he : c.items[i]? = some e) :
    c.freePending i = { c.modify i fun _ => e.clearPending with
      incompleteEntryCount := c.incompleteEntryCount, freed := c.freed ++ e.ids } := by
  have hm := ArpCache.modify_eq he ArpEntry.clearPending
  rw [ArpCache.freePending, he]
  unfold ArpCache.modify at hm ⊢
  injection hm with hitems
  rw [hitems]
  rfl

theorem ArpEntry.Ok.clearPending (hok : e.Ok) : e.clearPending.Ok :=
  ⟨ringOk_clearPending e, fun _ => rfl, hok.fixed⟩

theorem freePending_table (hi : TableInv c h) (he : c.items[i]? = some e) :
    TableInv (c.freePending i) h := by
  have hok := hi.entries e (mem_of_getElem? he)
  rw [freePending_eq he]
  exact hi.becomes (free_becomes hi he (ids_clearPending e) hok.clearPending rfl id rfl
    fun h => ⟨h, rfl⟩)

/-- An entry ready for a new address. -/
structure Vacant (c : ArpCache) (h : Given) (c' : ArpCache) (i : Nat) : Prop where
  table : TableInv c' h
  linked : c'.Linked fun j => c'.Live j ∧ j ≠ i
  here : ∃ e, c'.items[i]? = some e ∧ e.state ≠ .incomplete ∧ e.isStatic = false ∧
    ∀ k < QUEUE_SIZE, e.pendingPkts k = none
  others (j : Nat) (x : ArpEntry) : j ≠ i → c'.items[j]? = some x → x.state ≠ .free →
    ∃ y ∈ c.items, y.state ≠ .free ∧ y.ipAddr = x.ipAddr

variable {p : ArpEntry → Bool}

theorem oldestFrom_some {best : Option Nat} {time : BitVec 64} {k : Nat}
    {l : List ArpEntry} (h : oldestFrom p best time k l = some i) :
    best = some i ∨ ∃ e, l[i - k]? = some e ∧ k ≤ i ∧ p e = true := by
  induction l generalizing best time k with
  | nil => exact .inl h
  | cons e l ih =>
    rw [oldestFrom] at h
    split_ifs at h with hp
    · rcases ih h with h | ⟨x, hx, hk, hpx⟩
      · cases h
        exact .inr ⟨e, by rw [Nat.sub_self]; rfl, Nat.le_refl _, hp.1⟩
      · refine .inr ⟨x, ?_, by omega, hpx⟩
        rw [show i - k = i - (k + 1) + 1 by omega]
        exact hx
    · rcases ih h with h | ⟨x, hx, hk, hpx⟩
      · exact .inl h
      · refine .inr ⟨x, ?_, by omega, hpx⟩
        rw [show i - k = i - (k + 1) + 1 by omega]
        exact hx

theorem oldest_some (h : c.oldest p = some i) :
    ∃ e, c.items[i]? = some e ∧ p e = true := by
  rcases oldestFrom_some h with h | ⟨e, he, -, hp⟩
  · cases h
  · exact ⟨e, he, hp⟩

theorem findIdx?_some (h : c.items.findIdx? p = some i) :
    ∃ e, c.items[i]? = some e ∧ p e = true := by
  obtain ⟨hlt, hp, -⟩ := findIdx?_eq_some_iff_getElem.mp h
  exact ⟨c.items[i], getElem?_eq_getElem hlt, hp⟩

/-- An entry that is in use, but not by a static address or a pending request, makes room. -/
theorem evict_vacant (hi : ArpInv c h) (he : c.items[i]? = some e) (hs : e.state ≠ .free)
    (hinc : e.state ≠ .incomplete) (hst : e.isStatic = false) :
    ∃ c', c.evict i = .ok c' ∧ Vacant c h c' i := by
  obtain ⟨c', hr, hl, hu⟩ := evict_ok hi.linked ⟨e, he, hs⟩
  have hitem : ∀ j : Nat, (c.freePending i).items[j]? =
      if i = j then c.items[j]?.map clearPending else c.items[j]? := fun j =>
    items_modify c i j clearPending
  have hlive : ∀ j, c'.Live j ↔ c.Live j := by
    intro j
    rw [live_congr hu]
    unfold ArpCache.Live
    rw [hitem]
    by_cases hj : i = j
    · subst hj
      simp [clearPending]
    · rw [if_neg hj]
  refine ⟨c', hr, (freePending_table hi.table he).congr hu, ?_, ?_, fun j x hj hx hxs => ?_⟩
  · exact hl.congr (fun j => by rw [hlive]) rfl rfl (Nat.le_refl _) fun j _ x hx =>
      ⟨x, hx, rfl, rfl⟩
  · obtain ⟨p, hp⟩ := item_of_unlinked (e := e.clearPending) (i := i) hu (by
      rw [hitem, if_pos rfl, he, map_some])
    exact ⟨_, hp, hinc, hst, fun _ _ => rfl⟩
  · obtain ⟨p, hp⟩ := item_of_unlinked hu.symm hx
    rw [hitem, if_neg fun h => hj h.symm] at hp
    exact ⟨_, mem_of_getElem? hp, hxs, rfl⟩

/-- The allocator moves the array. -/
def ArpCache.Growth.moves : Growth → Bool
  | .moved _ => true
  | _ => false

/-- What a slot may be, and when the array may grow. -/
def ArpCache.CalmSlot (c : ArpCache) (g : Growth) : Prop :=
  match c.chooseSlot with
  | .incomplete _ => False
  | .grow => c.items.length < c.capacity ∨ c.items.length = 0 ∨ g.moves = false
  | _ => True

instance (c : ArpCache) (g : Growth) : Decidable (c.CalmSlot g) :=
  match h : c.chooseSlot with
  | .incomplete _ => .isFalse (by rw [ArpCache.CalmSlot, h]; exact id)
  | .grow => decidable_of_iff (c.items.length < c.capacity ∨ c.items.length = 0 ∨ g.moves = false)
      (by rw [ArpCache.CalmSlot, h])
  | .free _ | .stale _ | .reachable _ | .full => .isTrue (by rw [ArpCache.CalmSlot, h]; trivial)

/-- The array gets one entry more. -/
theorem grow_vacant (hi : ArpInv c h) (hb : c'.base = c.base ∨ c.items = [])
    (hitems : c'.items = c.items ++ [.zeroed]) (hhash : c'.hashTable = c.hashTable)
    (hcount : c'.incompleteEntryCount = c.incompleteEntryCount)
    (hrest : c'.deferredIds = c.deferredIds ∧ c'.freed = c.freed ∧ c'.allocated = c.allocated ∧
      c'.transmitted = c.transmitted) : Vacant c h c' c.items.length := by
  have hring : zeroed.RingOk := .empty rfl rfl rfl fun _ _ => rfl
  have hnew : zeroed.ids = [] := ids_nil fun _ _ => rfl
  have hat : ∀ (j : Nat) x, c'.items[j]? = some x → (j = c.items.length ∧ x = .zeroed) ∨ c.items[j]? = some x := by
    intro j x hx
    rw [hitems, getElem?_append] at hx
    split_ifs at hx with hj
    · exact .inr hx
    rw [getElem?_singleton] at hx
    split_ifs at hx with h0
    cases hx
    exact .inl ⟨by omega, rfl⟩
  have hold : ∀ (j : Nat) x, c.items[j]? = some x → c'.items[j]? = some x := by
    intro j x hx
    rw [hitems, getElem?_append_left (List.getElem?_eq_some_iff.mp hx).1]
    exact hx
  obtain ⟨hd, hf, ha, ht⟩ := hrest
  refine ⟨⟨fun e he => ?_, fun j k x y hx hy hs hs' hip => ?_, ?_, ?_, ?_, fun e he hs => ?_⟩, ?_, ?_,
    fun j x hj hx hs => ?_⟩
  · rw [hitems, mem_append, mem_singleton] at he
    rcases he with he | rfl
    · exact hi.table.entries e he
    · exact ⟨hring, fun _ => rfl, fun h => nomatch h⟩
  · rcases hat j x hx with ⟨-, rfl⟩ | hx
    · exact absurd rfl hs
    · rcases hat k y hy with ⟨-, rfl⟩ | hy
      · exact absurd rfl hs'
      · exact hi.table.unique j k x y hx hy hs hs' hip
  · rw [hcount, hi.table.count, incomplete, incomplete, hitems, countP_append]
    rfl
  · have hq : c'.queuedIds = c.queuedIds := by
      rw [queuedIds, queuedIds, hitems, flatMap_append]
      simp [hnew]
    rw [hq, hd, hf, ha]
    exact hi.table.buffers
  · rw [hf, ht]
    exact hi.table.sent
  · rw [hitems, mem_append, mem_singleton] at he
    rcases he with he | rfl
    · exact hi.table.static e he hs
    · cases hs
  · have hlive : ∀ j, (c'.Live j ∧ j ≠ c.items.length) ↔ c.Live j := by
      intro j
      constructor
      · rintro ⟨⟨x, hx, hs⟩, hj⟩
        rcases hat j x hx with ⟨h, -⟩ | hx
        · exact absurd h hj
        · exact ⟨x, hx, hs⟩
      · rintro ⟨x, hx, hs⟩
        exact ⟨⟨x, hold j x hx, hs⟩, (List.getElem?_eq_some_iff.mp hx).1.ne⟩
    rcases hb with hb | hnil
    · refine hi.linked.congr hlive hb hhash ?_ fun j _ x hx => ⟨x, hold j x hx, rfl, rfl⟩
      rw [hitems, length_append]
      exact Nat.le_add_right _ _
    -- with no entry there is no pointer that the move could leave behind
    have hno : ∀ j, ¬ c.Live j := by
      rintro j ⟨x, hx, -⟩
      rw [hnil] at hx
      cases hx
    obtain ⟨chain, hch⟩ := hi.linked.holds
    have hhead : ∀ b, c'.links.head b = none := by
      intro b
      show c'.hashTable b = none
      rw [hhash]
      cases hh : c.hashTable b with
      | none => rfl
      | some p => exact absurd (hch.head_mem (b := b) hh).1.2 (hno _)
    refine ⟨⟨_, Buckets.Threads.empty hhead fun p hp => ?_⟩, fun j hj => ?_⟩
    · exact hno _ ((hlive _).mp hp.2)
    · exact absurd ((hlive _).mp hj) (hno j)
  · refine ⟨.zeroed, ?_, by decide, rfl, fun _ _ => rfl⟩
    rw [hitems, getElem?_append_right (Nat.le_refl _), Nat.sub_self]
    rfl
  · rcases hat j x hx with ⟨-, rfl⟩ | hx
    · exact absurd rfl hs
    · exact ⟨x, mem_of_getElem? hx, hs, rfl⟩

/-- What the search for a slot found. -/
theorem chooseSlot_spec (c : ArpCache) :
    match c.chooseSlot with
    | .free i => ∃ e, c.items[i]? = some e ∧ e.state = .free
    | .stale i => ∃ e, c.items[i]? = some e ∧ e.state = .stale ∧ e.isStatic = false
    | .reachable i => ∃ e, c.items[i]? = some e ∧ e.state = .reachable ∧ e.isStatic = false
    | _ => True := by
  unfold chooseSlot
  cases hf : c.items.findIdx? fun e => e.state = .free with
  | some i =>
    obtain ⟨e, he, hp⟩ := findIdx?_some hf
    exact ⟨e, he, of_decide_eq_true hp⟩
  | none =>
    cases hs : c.oldest fun e => e.state = .stale && !e.isStatic with
    | some i =>
      obtain ⟨e, he, hp⟩ := oldest_some hs
      simp only [Bool.and_eq_true, decide_eq_true_eq, Bool.not_eq_true'] at hp
      exact ⟨e, he, hp⟩
    | none =>
      dsimp only
      split_ifs
      · cases hr : c.oldest fun e => e.state = .reachable && !e.isStatic with
        | some i =>
          obtain ⟨e, he, hp⟩ := oldest_some hr
          simp only [Bool.and_eq_true, decide_eq_true_eq, Bool.not_eq_true'] at hp
          exact ⟨e, he, hp⟩
        | none =>
          dsimp only
          cases c.oldest fun e => e.state = .incomplete <;> trivial
      · trivial

/-- A free entry is taken as it is. -/
theorem free_vacant (hi : ArpInv c h) (he : c.items[i]? = some e) (hs : e.state = .free) :
    Vacant c h (c.freePending i) i := by
  have hok := hi.table.entries e (mem_of_getElem? he)
  have hst : e.isStatic = false := by
    cases hb : e.isStatic with
    | false => rfl
    | true => rw [hok.fixed hb] at hs; cases hs
  have hitem : ∀ j : Nat, (c.freePending i).items[j]? =
      if i = j then c.items[j]?.map clearPending else c.items[j]? := fun j =>
    items_modify c i j clearPending
  have hne : ∀ j, c.Live j → j ≠ i := by
    rintro j ⟨x, hx, hxs⟩ rfl
    rw [he] at hx
    cases hx
    exact hxs hs
  have hlive : ∀ j, ((c.freePending i).Live j ∧ j ≠ i) ↔ c.Live j := by
    intro j
    constructor
    · rintro ⟨⟨x, hx, hxs⟩, hj⟩
      rw [hitem, if_neg fun h => hj h.symm] at hx
      exact ⟨x, hx, hxs⟩
    · intro hj
      obtain ⟨x, hx, hxs⟩ := hj
      have hji := hne j ⟨x, hx, hxs⟩
      exact ⟨⟨x, by rw [hitem, if_neg fun h => hji h.symm, hx], hxs⟩, hji⟩
  refine ⟨freePending_table hi.table he, ?_, ?_, fun j x hj hx hxs => ?_⟩
  · refine hi.linked.congr hlive rfl rfl (List.length_modify ..).ge fun j hj x hx => ⟨x, ?_, rfl, rfl⟩
    rw [hitem, if_neg fun h => hne j hj h.symm, hx]
  · refine ⟨e.clearPending, by rw [hitem, if_pos rfl, he, map_some], ?_, hst, fun _ _ => rfl⟩
    show e.state ≠ _
    rw [hs]
    decide
  · rw [hitem, if_neg fun h => hj h.symm] at hx
    exact ⟨x, mem_of_getElem? hx, hxs, rfl⟩

variable {g : Growth}

/-- **An entry for a new address is found, or there is none.** -/
theorem findFreeEntry_ok (hi : ArpInv c h) (hg : c.CalmSlot g) :
    ∃ r, c.findFreeEntry g = .ok r ∧ ∀ c' i, r = some (c', i) → Vacant c h c' i := by
  have hevict : ∀ {i e}, c.items[i]? = some e → e.state ≠ .free → e.state ≠ .incomplete →
      e.isStatic = false → ∃ r, (do
        let c' ← c.evict i
        return some (c', i) : Except Fault _) = .ok r ∧
        ∀ c' j, r = some (c', j) → Vacant c h c' j := by
    intro i e he hs hinc hst
    obtain ⟨c₁, hr, hv⟩ := evict_vacant hi he hs hinc hst
    refine ⟨some (c₁, i), by rw [hr]; rfl, fun c' j hj => ?_⟩
    cases hj
    exact hv
  have hspec := chooseSlot_spec c
  unfold findFreeEntry
  unfold ArpCache.CalmSlot at hg
  cases hs : c.chooseSlot with
  | free i =>
    rw [hs] at hspec
    obtain ⟨e, he, hfree⟩ := hspec
    refine ⟨_, rfl, fun c' k hk => ?_⟩
    cases hk
    exact free_vacant hi he hfree
  | stale i =>
    rw [hs] at hspec
    obtain ⟨e, he, hstate, hst⟩ := hspec
    exact hevict he (by rw [hstate]; decide) (by rw [hstate]; decide) hst
  | reachable i =>
    rw [hs] at hspec
    obtain ⟨e, he, hstate, hst⟩ := hspec
    exact hevict he (by rw [hstate]; decide) (by rw [hstate]; decide) hst
  | incomplete i =>
    rw [hs] at hg
    exact hg.elim
  | full => exact ⟨none, rfl, fun c' k hk => nomatch hk⟩
  | grow =>
    rw [hs] at hg
    refine ⟨_, rfl, fun c' k hk => ?_⟩
    obtain ⟨c₁, hc, e⟩ := map_eq_some_iff.mp hk
    cases e
    unfold addOne at hc
    split_ifs at hc with hlt
    · cases hc
      exact grow_vacant hi (.inl rfl) rfl rfl rfl ⟨rfl, rfl, rfl, rfl⟩
    cases g with
    | outOfMemory => cases hc
    | inPlace n =>
      cases hc
      exact grow_vacant hi (.inl rfl) rfl rfl rfl ⟨rfl, rfl, rfl, rfl⟩
    | moved n =>
      cases hc
      rcases hg with hg | hg | hg
      · exact absurd hg hlt
      · exact grow_vacant hi (.inr (length_eq_zero_iff.mp hg)) rfl rfl rfl
          ⟨rfl, rfl, rfl, rfl⟩
      · cases hg

/-- An entry that is taken for a new address, and linked. -/
theorem Vacant.fill (hv : Vacant c h c' i) (h' : Given) (e' : ArpEntry) (he : c'.items[i]? = some e) (hok : e'.Ok)
    (hids : e'.ids = []) (hs : e'.state ≠ .free)
    (hno : ∀ y ∈ c.items, y.state ≠ .free → y.ipAddr ≠ e'.ipAddr)
    (hst : e'.isStatic = true → h' e'.ipAddr = some e'.macAddr)
    (hh : ∀ a, a ≠ e'.ipAddr → h' a = h a)
    (hn : n = c'.incompleteEntryCount + if e'.state = .incomplete then 1 else 0) :
    ArpInv { (c'.modify i fun _ => e').hashTableInsert i with incompleteEntryCount := n } h' := by
  obtain ⟨x, hx, hxinc, -, hxnone⟩ := hv.here
  rw [he] at hx
  cases hx
  have hothers : ∀ j x, j ≠ i → c'.items[j]? = some x → x.state ≠ .free → x.ipAddr ≠ e'.ipAddr := by
    intro j x hj hx hxs
    obtain ⟨y, hy, hys, hip⟩ := hv.others j x hj hx hxs
    exact hip ▸ hno y hy hys
  have hb : Becomes c' h i e e' { c'.modify i fun _ => e' with incompleteEntryCount := n } h' := by
    refine ⟨he, rfl, hok, fun _ => hothers, ?_, Nat.le_refl _, ?_, rfl, List.Sublist.refl _, hst,
      fun j x hj hx hxst => hh _ (hothers j x hj hx ?_)⟩
    · rw [if_neg hxinc]
      exact hn
    · have hnone : ({ c'.modify i fun _ => e' with incompleteEntryCount := n } : ArpCache).allocated -
          c'.allocated = 0 := Nat.sub_self _
      rw [hids, ids_nil hxnone, hnone, range'_zero, append_nil]
      exact List.Perm.refl _
    · have := (hv.table.entries x (mem_of_getElem? hx)).fixed hxst
      rw [this]
      decide
  have hitem : (c'.modify i fun _ => e').items[i]? = some e' := by
    rw [items_modify, if_pos rfl, he, map_some]
  have hu : unlinked
      { (c'.modify i fun _ => e').hashTableInsert i with incompleteEntryCount := n } =
      unlinked { c'.modify i fun _ => e' with incompleteEntryCount := n } :=
    congrArg (fun c : ArpCache => { c with incompleteEntryCount := n })
      (hashTableInsert_unlinked (c'.modify i fun _ => e') i)
  have hl := hashTableInsert_linked (hv.linked.rewrite (f := fun _ => e') fun h => h.2 rfl)
    (fun h => h.2 rfl) hitem
  refine ⟨hl.congr (fun j => ?_) rfl rfl (Nat.le_refl _) fun j _ x hx => ⟨x, hx, rfl, rfl⟩,
    (hv.table.becomes hb).congr hu⟩
  rw [live_congr hu]
  show (c'.modify i fun _ => e').Live j ↔ _
  rw [live_modify he]
  by_cases hj : j = i
  · simp [hj, hs]
  · simp [hj]

theorem Vacant.freePending (hv : Vacant c h c' i) : Vacant c h (c'.freePending i) i := by
  obtain ⟨e, he, hinc, hst, -⟩ := hv.here
  have hitem : ∀ j : Nat, (c'.freePending i).items[j]? =
      if i = j then c'.items[j]?.map clearPending else c'.items[j]? := fun j =>
    items_modify c' i j clearPending
  refine ⟨freePending_table hv.table he, ?_, ?_, fun j x hj hx => ?_⟩
  · refine hv.linked.congr (fun j => and_congr_left fun hj => ?_) rfl rfl (List.length_modify ..).ge
      fun j hj x hx => ⟨x, ?_, rfl, rfl⟩
    · unfold ArpCache.Live
      rw [hitem, if_neg fun h => hj h.symm]
    · rw [hitem, if_neg fun h => hj.2 h.symm, hx]
  · exact ⟨e.clearPending, by rw [hitem, if_pos rfl, he, map_some], hinc, hst, fun _ _ => rfl⟩
  · rw [hitem, if_neg fun h => hj h.symm] at hx
    exact hv.others j x hj hx

/-! ## 6. Requests -/

/-- A packet joins the queue. -/
theorem queue_becomes (hi : TableInv c h) (he : c.items[i]? = some e) (hs : e.state = .incomplete)
    (data : List UInt8) :
    Becomes c h i e (e.dropOldest.1.enqueue ⟨c.allocated, data⟩)
      { c.modify i fun _ => e.dropOldest.1.enqueue ⟨c.allocated, data⟩ with
        allocated := c.allocated + 1
        freed := c.freed ++ (e.dropOldest.2.map PktBuf.id).toList } h := by
  have hok := hi.entries e (mem_of_getElem? he)
  obtain ⟨hring, hroom, hids⟩ := hok.ring.dropOldest
  obtain ⟨hring', hids'⟩ := hring.enqueue hroom ⟨c.allocated, data⟩
  have hrest : ∃ pkts head count, e.dropOldest.1 =
      { e with pendingPkts := pkts, queueHead := head, queueCount := count } := by
    unfold dropOldest
    split_ifs <;> exact ⟨_, _, _, rfl⟩
  obtain ⟨pkts, head, count, hrest⟩ := hrest
  have hstate : (e.dropOldest.1.enqueue ⟨c.allocated, data⟩).state = e.state := by
    rw [hrest]
    rfl
  have hstatic : (e.dropOldest.1.enqueue ⟨c.allocated, data⟩).isStatic = e.isStatic := by
    rw [hrest]
    rfl
  have hip : (e.dropOldest.1.enqueue ⟨c.allocated, data⟩).ipAddr = e.ipAddr := by
    rw [hrest]
    rfl
  have hfixed : e.isStatic = false := by
    cases hb : e.isStatic with
    | false => rfl
    | true => rw [hok.fixed hb] at hs; cases hs
  refine ⟨he, rfl, ⟨hring', fun h => absurd (hstate.trans hs) h, fun h => ?_⟩,
    fun _ j x hj hx hxs hxip => ?_, ?_, Nat.le_succ _, ?_, rfl, sublist_append_left .., fun h => ?_,
    fun _ _ _ _ _ => rfl⟩
  · rw [hstatic, hfixed] at h
    cases h
  · have hne : e.state ≠ .free := by rw [hs]; decide
    exact hj (hi.unique j i x e hx he hxs hne (hxip.trans hip))
  · rw [hstate]
    rfl
  · have hnew : ({ c.modify i fun _ => e.dropOldest.1.enqueue ⟨c.allocated, data⟩ with
        allocated := c.allocated + 1
        freed := c.freed ++ (e.dropOldest.2.map PktBuf.id).toList } : ArpCache).allocated -
        c.allocated = 1 := Nat.add_sub_cancel_left ..
    rw [hnew]
    rw [perm_iff_count] at hids hids' ⊢
    intro a
    have h₁ := hids a
    have h₂ := hids' a
    simp only [count_append, range'_one] at h₁ h₂ ⊢
    change _ + (c.deferredIds.count a + (_ + _)) = _
    omega
  · rw [hstatic, hfixed] at h
    cases h

theorem queuePacket_ok (hi : ArpInv c h) (he : c.items[i]? = some e) (hs : e.state = .incomplete)
    (pkt : Option (List UInt8)) (alloc : Bool) : ArpInv (c.queuePacket i e pkt alloc) h := by
  unfold queuePacket newBuffer
  cases pkt with
  | none => exact hi
  | some data =>
    rw [bind_some]
    split_ifs
    · have hb := queue_becomes hi.table he hs data
      have hrest : (e.dropOldest.1.enqueue ⟨c.allocated, data⟩).ipAddr = e.ipAddr ∧
          (e.dropOldest.1.enqueue ⟨c.allocated, data⟩).hashNext = e.hashNext ∧
          (e.dropOldest.1.enqueue ⟨c.allocated, data⟩).state = e.state := by
        unfold dropOldest
        split_ifs <;> exact ⟨rfl, rfl, rfl⟩
      exact hi.becomes hb rfl rfl hrest.1 hrest.2.1 (by rw [hrest.2.2])
    · exact hi

theorem queueFirst_ok (hi : ArpInv c h) (he : c.items[i]? = some e) (hs : e.state = .incomplete)
    (ht : e.queueTail = 0) (hc : e.queueCount = 0) (pkt : Option (List UInt8)) (alloc : Bool) :
    ArpInv (c.queueFirst i e pkt alloc) h := by
  have hq := queuePacket_ok hi he hs pkt alloc
  have hold : e.dropOldest = (e, none) := by
    rw [dropOldest, hc]
    rfl
  unfold queuePacket at hq
  unfold queueFirst
  cases hb : c.newBuffer pkt alloc with
  | none => exact hi
  | some buf =>
    rw [hb, hold] at hq
    have henq : e.enqueue buf = { e with
        pendingPkts := update e.pendingPkts e.queueTail (some buf)
        pendingLens := update e.pendingLens e.queueTail buf.data.length
        queueTail := 1, queueCount := 1 } := by
      rw [enqueue, ht, hc]
      rfl
    dsimp only
    rw [← henq]
    have hfreed : c.freed ++ ((none : Option PktBuf).map PktBuf.id).toList = c.freed :=
      append_nil _
    dsimp only at hq
    rw [hfreed] at hq
    exact hq

/-- The count of requests does not matter. -/
theorem ArpInv.retry (hi : ArpInv c h) (i : Nat) :
    ArpInv (c.modify i fun e => { e with retries := e.retries + 1 }) h := by
  cases he : c.items[i]? with
  | none =>
    have : c.modify i (fun e => { e with retries := e.retries + 1 }) = c := by
      rw [ArpCache.modify, modify_eq_self (List.getElem?_eq_none_iff.mp he)]
    rw [this]
    exact hi
  | some e =>
    have hok := hi.table.entries e (mem_of_getElem? he)
    rw [ArpCache.modify_eq he]
    exact hi.becomes (hi.table.touch he ⟨hok.ring.congr rfl rfl rfl rfl, hok.idle, hok.fixed⟩ rfl
      rfl Iff.rfl Iff.rfl fun h => ⟨h, rfl⟩) rfl rfl rfl rfl Iff.rfl

theorem requestEntry_ok (hi : ArpInv c h)
    (hno : ∀ y ∈ c.items, y.state ≠ .free → y.ipAddr ≠ ip) (pkt : Option (List UInt8)) (alloc : Bool)
    (hg : c.incompleteEntryCount < MAX_INCOMPLETE_ENTRIES → c.CalmSlot g) :
    ∃ c' r, c.requestEntry ip pkt alloc g = .ok (c', r) ∧ ArpInv c' h := by
  unfold requestEntry
  split_ifs with hmax
  · obtain ⟨r, hr, hv⟩ := findFreeEntry_ok hi (hg hmax)
    rw [hr, ok_bind]
    cases r with
    | none => exact ⟨c, none, rfl, hi⟩
    | some p =>
      obtain ⟨c₁, i⟩ := p
      have hv := (hv c₁ i rfl).freePending
      obtain ⟨e, he, hinc, hst, hnone⟩ := hv.here
      obtain ⟨c₂, hc₂⟩ : ∃ c₂, c₂ = c₁.freePending i := ⟨_, rfl⟩
      rw [← hc₂] at hv he
      have hs : (e.request ip c₂.currentTick).state = .incomplete := rfl
      have hring : (e.request ip c₂.currentTick).RingOk := .empty rfl rfl rfl hnone
      have hfill := hv.fill h (e.request ip c₂.currentTick) (n := c₂.incompleteEntryCount + 1) he
        ⟨hring, fun _ => rfl, fun h => nomatch h⟩
        (ids_nil hnone) (by rw [hs]; exact fun h => nomatch h) hno (fun h => nomatch h)
        (fun _ _ => rfl) rfl
      have hu := hashTableInsert_unlinked
        (c₂.modify i fun _ => e.request ip c₂.currentTick) i
      have hcount := congrArg incompleteEntryCount hu
      obtain ⟨p, hp⟩ := item_of_unlinked (i := i) (e := e.request ip c₂.currentTick) hu
        (by rw [items_modify, if_pos rfl, he, map_some])
      have htick : c₁.currentTick = c₂.currentTick := by rw [hc₂]; rfl
      dsimp only
      rw [← hc₂, htick, modify_eq he]
      change ((c₂.modify i fun _ => e.request ip c₂.currentTick).hashTableInsert
        i).incompleteEntryCount = c₂.incompleteEntryCount at hcount
      rw [hcount]
      generalize (c₂.modify i fun _ => e.request ip c₂.currentTick).hashTableInsert i = c₃
        at hfill hp
      rw [hp]
      exact ⟨_, _, rfl, queueFirst_ok hfill hp hs rfl rfl pkt alloc⟩
  · exact ⟨c, none, rfl, hi⟩

/-- A request for an address needs a new entry. -/
def ArpCache.NeedsEntry (c : ArpCache) (ip : Ip) : Prop :=
  (∀ e ∈ c.items, e.ipAddr = ip → e.state = .free) ∧
    c.incompleteEntryCount < MAX_INCOMPLETE_ENTRIES

/-- An address that is not resolved has no entry but an incomplete one. -/
theorem resolveUnlocked_ok (hi : ArpInv c h) (ip : Ip) :
    ∃ m, c.resolveUnlocked ip = .ok m ∧
      (m = none → ∀ e ∈ c.items, e.state ≠ .free → e.ipAddr = ip → e.state = .incomplete) := by
  obtain ⟨r, hr, hsome, hnone⟩ := findEntry_ok hi.linked ip
  unfold resolveUnlocked
  split_ifs with hloop
  · exact ⟨_, rfl, fun h => nomatch h⟩
  rw [hr, ok_bind]
  cases r with
  | none =>
    refine ⟨none, rfl, fun _ e he hs hip => ?_⟩
    obtain ⟨i, hi'⟩ := mem_iff_getElem?.mp he
    exact absurd hip (hnone rfl i e ⟨e, hi', hs⟩ hi' hs)
  | some i =>
    obtain ⟨x, hx, hxs, hxip⟩ := hsome i rfl
    refine ⟨_, rfl, fun hm e he hs hip => ?_⟩
    obtain ⟨j, hj⟩ := mem_iff_getElem?.mp he
    have hij := hi.table.unique i j x e hx hj hxs hs (hxip.trans hip.symm)
    subst hij
    rw [hx] at hj
    cases hj
    rw [hx] at hm
    cases hstate : x.state with
    | free => exact absurd hstate hs
    | incomplete => rfl
    | reachable => simp [hstate] at hm
    | stale => simp [hstate] at hm

instance (c : ArpCache) (ip : Ip) : Decidable (c.NeedsEntry ip) :=
  inferInstanceAs (Decidable (_ ∧ _))

theorem resolveOrRequest_ok (hi : ArpInv c h) (pkt : Option (List UInt8)) (alloc : Bool)
    (hg : c.NeedsEntry ip → c.CalmSlot g) :
    ∃ c' r, c.resolveOrRequest ip pkt alloc g = .ok (c', r) ∧ ArpInv c' h := by
  obtain ⟨m, hm, hinc⟩ := resolveUnlocked_ok hi ip
  rw [resolveOrRequest, hm, ok_bind]
  cases m with
  | some mac => exact ⟨c, _, rfl, hi⟩
  | none =>
    cases hf : c.items.findIdx? fun e => e.ipAddr = ip && e.state = .incomplete with
    | some i =>
      obtain ⟨e, he, hp⟩ := findIdx?_some hf
      simp only [Bool.and_eq_true, decide_eq_true_eq] at hp
      have hq := queuePacket_ok hi he hp.2 pkt alloc
      dsimp only
      rw [he]
      dsimp only
      split_ifs
      · exact ⟨_, _, rfl, hq.retry i⟩
      · exact ⟨_, _, rfl, hq⟩
    | none =>
      have hno : ∀ y ∈ c.items, y.state ≠ .free → y.ipAddr ≠ ip := by
        intro y hy hys hip
        have := findIdx?_eq_none_iff.mp hf y hy
        simp [hip, hinc rfl y hy hys hip] at this
      obtain ⟨c', r, hr, hi'⟩ := requestEntry_ok hi hno pkt alloc fun hmax =>
        hg ⟨fun e he hip => by_contra fun hs => hno e he hs hip, hmax⟩
      exact ⟨c', (none, r), by dsimp only; rw [hr]; rfl, hi'⟩

/-! ## 7. Static entries, and age -/

/-- A live entry goes out of use. -/
theorem release_ok (hi : ArpInv c h) (he : c.items[i]? = some e) (hs : e.state ≠ .free)
    (hn : n + (if e.state = .incomplete then 1 else 0) = c.incompleteEntryCount) :
    ∃ c', c.release i = .ok c' ∧ c'.incompleteEntryCount = c.incompleteEntryCount ∧
      (∃ p, c'.items[i]? = some (e.clearPending.retire.link p)) ∧
      ArpInv { c'.modify i fun x => { x with isStatic := false } with incompleteEntryCount := n } h := by
  obtain ⟨c₁, hr, hl, hu⟩ := ArpCache.evict_ok hi.linked ⟨e, he, hs⟩
  have hret : (c₁.modify i ArpEntry.retire).unlinked =
      ((c.freePending i).modify i ArpEntry.retire).unlinked := by
    rw [ArpCache.unlinked_modify _ _ fun _ => rfl, ArpCache.unlinked_modify _ _ fun _ => rfl, hu]
  have hitem : ((c.freePending i).modify i ArpEntry.retire).items[i]? = some e.clearPending.retire := by
    rw [ArpCache.items_modify, if_pos rfl]
    have : (c.freePending i).items[i]? = some e.clearPending :=
      (ArpCache.items_modify c i i ArpEntry.clearPending).trans (by rw [if_pos rfl, he, map_some])
    rw [this, map_some]
  obtain ⟨c₂, hc₂⟩ : ∃ c₂ : ArpCache, c₂ =
      { c.modify i fun _ => { e.clearPending.retire with isStatic := false } with
        incompleteEntryCount := n, freed := c.freed ++ e.ids } := ⟨_, rfl⟩
  have hcast : { ((c.freePending i).modify i ArpEntry.retire).modify i fun x =>
      { x with isStatic := false } with incompleteEntryCount := n } = c₂ := by
    rw [hc₂, freePending_eq he]
    unfold ArpCache.modify
    rw [modify_modify_eq, modify_modify_eq]
    rfl
  have hu₂ : ArpCache.unlinked { (c₁.modify i ArpEntry.retire).modify i fun x =>
      { x with isStatic := false } with incompleteEntryCount := n } = c₂.unlinked := by
    have hsame : ((c₁.modify i ArpEntry.retire).modify i fun x =>
        { x with isStatic := false }).unlinked =
        (((c.freePending i).modify i ArpEntry.retire).modify i fun x =>
          { x with isStatic := false }).unlinked := by
      rw [ArpCache.unlinked_modify (c₁.modify i ArpEntry.retire) i fun _ => rfl,
        ArpCache.unlinked_modify ((c.freePending i).modify i ArpEntry.retire) i fun _ => rfl, hret]
    rw [← hcast]
    exact congrArg (fun c : ArpCache => { c with incompleteEntryCount := n }) hsame
  have hb : Becomes c h i e { e.clearPending.retire with isStatic := false } c₂ h := by
    rw [hc₂]
    refine free_becomes hi.table he (ArpEntry.ids_nil fun _ _ => rfl)
      ⟨.empty rfl rfl rfl fun _ _ => rfl, fun _ => rfl, fun h => nomatch h⟩ rfl
      (fun h => absurd rfl h) ?_ fun h => nomatch h
    rw [hn]
    rfl
  refine ⟨c₁.modify i ArpEntry.retire, by rw [ArpCache.release, hr]; rfl, ?_,
    ArpCache.item_of_unlinked hret hitem, ?_, (hi.table.becomes hb).congr hu₂⟩
  · have hcount := congrArg ArpCache.incompleteEntryCount hret
    exact hcount
  have hl₂ := (hl.rewrite (f := ArpEntry.retire) fun h => h.2 rfl).rewrite
    (f := fun x => { x with isStatic := false }) fun h => h.2 rfl
  refine hl₂.congr (fun j => ?_) rfl rfl (Nat.le_refl _) fun j _ x hx => ⟨x, hx, rfl, rfl⟩
  rw [live_congr hu₂, hc₂]
  show (c.modify i fun _ => _).Live j ↔ _
  rw [ArpCache.live_modify he]
  by_cases hj : j = i
  · simp [hj, ArpEntry.retire]
  · simp [hj]

theorem modify_self {f : ArpEntry → ArpEntry} (he : c.items[i]? = some e) (hf : f e = e) :
    c.modify i f = c := by
  rw [ArpCache.modify_eq he, hf]
  unfold ArpCache.modify
  congr 1
  refine ext_getElem? fun k => ?_
  by_cases hk : i = k
  · subst hk
    simp [he]
  · simp [hk]

theorem removeStaticEntry_ok (hi : ArpInv c h) (ip : Ip) :
    ∃ c' r, c.removeStaticEntry ip = .ok (c', r) ∧ ArpInv c' h := by
  unfold removeStaticEntry
  cases hf : c.items.findIdx? fun e => e.ipAddr = ip && e.isStatic with
  | none => exact ⟨c, false, rfl, hi⟩
  | some i =>
    obtain ⟨e, he, hp⟩ := findIdx?_some hf
    simp only [Bool.and_eq_true, decide_eq_true_eq] at hp
    have hstate := (hi.table.entries e (mem_of_getElem? he)).fixed hp.2
    obtain ⟨c', hr, hcount, -, hi'⟩ := release_ok (n := c.incompleteEntryCount) hi he
      (by rw [hstate]; decide) (by rw [hstate]; rfl)
    dsimp only
    rw [hr]
    refine ⟨_, true, rfl, ?_⟩
    rw [← hcount] at hi'
    exact hi'

/-- **One entry grows older.** -/
theorem ageEntry_ok (hi : ArpInv c h) (i : Nat) : ∃ c', c.ageEntry i = .ok c' ∧ ArpInv c' h := by
  unfold ageEntry
  cases he : c.items[i]? with
  | none => exact ⟨c, rfl, hi⟩
  | some e =>
    have hok := hi.table.entries e (mem_of_getElem? he)
    have hgone : ∀ {n}, e.isStatic = false → e.state ≠ .free →
        n + (if e.state = .incomplete then 1 else 0) = c.incompleteEntryCount →
        ∃ c', c.release i = .ok c' ∧ c'.incompleteEntryCount = c.incompleteEntryCount ∧
          ArpInv { c' with incompleteEntryCount := n } h := by
      intro n hst hs hn
      obtain ⟨c', hr, hcount, ⟨p, hp⟩, hi'⟩ := release_ok hi he hs hn
      have hself : c'.modify i (fun x => { x with isStatic := false }) = c' := by
        refine modify_self hp ?_
        rw [← hst]
        rfl
      rw [hself] at hi'
      exact ⟨c', hr, hcount, hi'⟩
    dsimp only
    by_cases hst : e.isStatic = true
    · rw [if_pos hst]
      exact ⟨c, rfl, hi⟩
    rw [if_neg hst]
    have hst : e.isStatic = false := Bool.eq_false_iff.mpr hst
    cases hs : e.state with
    | free => exact ⟨c, rfl, hi⟩
    | incomplete =>
      dsimp only
      split_ifs
      · have hpos : 0 < c.incompleteEntryCount := by
          rw [hi.table.count, incomplete, countP_pos_iff]
          exact ⟨e, mem_of_getElem? he, decide_eq_true hs⟩
        obtain ⟨c', hr, hcount, hi'⟩ := hgone (n := c.incompleteEntryCount - 1) hst
          (by rw [hs]; decide) (by rw [hs, if_pos rfl]; omega)
        rw [hr]
        refine ⟨_, rfl, ?_⟩
        rw [hcount]
        exact hi'
      · exact ⟨c, rfl, hi⟩
    | reachable =>
      dsimp only
      split_ifs
      · refine ⟨_, rfl, ?_⟩
        rw [modify_eq he]
        refine hi.becomes (hi.table.touch he ⟨hok.ring.congr rfl rfl rfl rfl, fun _ =>
          hok.idle (by rw [hs]; decide), fun h => ?_⟩ rfl rfl ?_ ?_ fun h => ?_) rfl rfl rfl rfl ?_
        · rw [hst] at h
          cases h
        · rw [hs]
          exact iff_of_false nofun nofun
        · rw [hs]
          exact iff_of_false nofun nofun
        · rw [hst] at h
          cases h
        · rw [hs]
          exact iff_of_false nofun nofun
      · exact ⟨c, rfl, hi⟩
    | stale =>
      dsimp only
      split_ifs
      · obtain ⟨c', hr, hcount, hi'⟩ := hgone (n := c.incompleteEntryCount) hst
          (by rw [hs]; decide) (by rw [hs]; rfl)
        rw [← hcount] at hi'
        exact ⟨c', hr, hi'⟩
      · exact ⟨c, rfl, hi⟩

theorem ageCache_ok (hi : ArpInv c h) : ∃ c', c.ageCache = .ok c' ∧ ArpInv c' h := by
  unfold ageCache
  generalize List.range c.items.length = l
  induction l generalizing c with
  | nil => exact ⟨c, rfl, hi⟩
  | cons i l ih =>
    obtain ⟨c₁, h₁, hi₁⟩ := ageEntry_ok hi i
    obtain ⟨c₂, h₂, hi₂⟩ := ih hi₁
    exact ⟨c₂, by rw [foldlM_cons, h₁]; exact h₂, hi₂⟩

/-- An address is fixed: its entry becomes static, or a new one does. -/
theorem addStaticEntry_ok (hi : ArpInv c h) (mac : Mac)
    (hinc : ∀ e ∈ c.items, e.ipAddr = ip → e.state ≠ .incomplete)
    (hg : (∀ e ∈ c.items, e.ipAddr = ip → e.state = .free) → c.CalmSlot g) :
    ∃ c' r, c.addStaticEntry ip mac g = .ok (c', r) ∧
      ArpInv c' (if r.isOk then update h ip (some mac) else h) := by
  unfold addStaticEntry
  split_ifs with hm
  · exact ⟨c, _, rfl, hi⟩
  cases hf : c.items.findIdx? fun e => e.ipAddr = ip && e.state ≠ .free with
  | some i =>
    obtain ⟨e, he, hp⟩ := findIdx?_some hf
    simp only [Bool.and_eq_true, decide_eq_true_eq] at hp
    obtain ⟨rfl, hs⟩ := hp
    have hmem := mem_of_getElem? he
    have hok := hi.table.entries e hmem
    have hne := hinc e hmem rfl
    have hb : Becomes c h i e (e.promote mac c.currentTick)
        (c.modify i fun _ => e.promote mac c.currentTick)
        (update h e.ipAddr (some mac)) := by
      refine ⟨he, rfl, ⟨hok.ring.congr rfl rfl rfl rfl, fun _ => hok.idle hne, fun _ => rfl⟩,
        fun _ j x hj hx hxs hxip => hj (hi.table.unique j i x e hx he hxs hs hxip), ?_,
        Nat.le_refl _, ?_, rfl, List.Sublist.refl _, fun _ => update_self ..,
        fun j x hj hx hxst => update_of_ne (fun hxip => hj ?_) ..⟩
      · rw [if_neg hne]
        rfl
      · have hnone : (c.modify i fun _ => e.promote mac c.currentTick).allocated - c.allocated = 0 :=
          Nat.sub_self _
        rw [hnone, range'_zero, append_nil]
        exact List.Perm.refl _
      · have hfix := (hi.table.entries x (mem_of_getElem? hx)).fixed hxst
        exact hi.table.unique j i x e hx he (by rw [hfix]; exact nofun) hs hxip
    refine ⟨_, .ok (), by dsimp only; rw [modify_eq he]; rfl,
      hi.becomes hb rfl rfl rfl rfl (iff_of_false nofun hs)⟩
  | none =>
    have hno : ∀ y ∈ c.items, y.state ≠ .free → y.ipAddr ≠ ip := by
      intro y hy hys hip
      have := findIdx?_eq_none_iff.mp hf y hy
      simp [hip, hys] at this
    obtain ⟨r, hr, hv⟩ := findFreeEntry_ok hi
      (hg fun e he hip => by_contra fun hs => hno e he hs hip)
    rw [hr, ok_bind]
    cases r with
    | none => exact ⟨c, _, rfl, hi⟩
    | some p =>
      obtain ⟨c₁, i⟩ := p
      have hv := hv c₁ i rfl
      obtain ⟨e, he, -, -, hnone⟩ := hv.here
      have hfill := hv.fill (update h ip (some mac))
        (e.makeStatic ip mac c₁.currentTick) (n := c₁.incompleteEntryCount) he
        ⟨.empty rfl rfl rfl hnone, fun _ => rfl, fun _ => rfl⟩ (ids_nil hnone)
        (fun h => nomatch h) hno (fun _ => update_self ..)
        (fun a ha => update_of_ne ha ..) rfl
      have hcount := congrArg incompleteEntryCount (hashTableInsert_unlinked
        (c₁.modify i fun _ => e.makeStatic ip mac c₁.currentTick) i)
      change ((c₁.modify i fun _ => e.makeStatic ip mac c₁.currentTick).hashTableInsert
        i).incompleteEntryCount = c₁.incompleteEntryCount at hcount
      rw [← hcount] at hfill
      dsimp only
      rw [modify_eq he]
      exact ⟨_, .ok (), rfl, hfill⟩

theorem clearCache_ok (hi : ArpInv c h) : ArpInv c.clearCache h := by
  refine ⟨⟨⟨_, Buckets.Threads.empty (fun _ => rfl) ?_⟩, ?_⟩, ⟨?_, ?_, rfl, ?_, ?_, ?_⟩⟩
  · rintro p ⟨-, x, hx, -⟩
    cases hx
  · rintro j ⟨x, hx, -⟩
    cases hx
  · exact fun e he => nomatch he
  · exact fun i j e e' he => nomatch he
  · have hq : (c.items.flatMap pending).map PktBuf.id = c.queuedIds := map_flatMap ..
    have hold := hi.table.buffers
    have hd : c.clearCache.deferredIds = c.deferredIds := rfl
    show ([] ++ (c.deferredIds ++ (c.freed ++ (c.items.flatMap pending).map PktBuf.id))).Perm _
    rw [hq]
    refine .trans ?_ hold
    rw [nil_append, ← append_assoc]
    exact perm_append_comm
  · exact hi.table.sent.trans (sublist_append_left ..)
  · exact fun e he => nomatch he

/-- The packets of one call are sent, and their buffers given back. -/
theorem transmitAndFree_ok (hi : ArpInv c h) (i : Nat) :
    ArpInv ({ c with deferred := c.deferred.eraseIdx i }.transmitAndFree (c.deferred[i]?.getD [])) h := by
  refine ⟨hi.linked.congr (fun _ => Iff.rfl) rfl rfl (Nat.le_refl _) fun j _ x hx => ⟨x, hx, rfl, rfl⟩,
    ⟨hi.table.entries, hi.table.unique, hi.table.count, ?_, ?_, hi.table.static⟩⟩
  · have hsplit : c.deferredIds.Perm ((c.deferred.eraseIdx i).flatten.map (fun p => p.1.id) ++
        (c.deferred[i]?.getD []).map fun p => p.1.id) := by
      rw [← map_append]
      refine List.Perm.map _ ?_
      cases hd : c.deferred[i]? with
      | none =>
        rw [eraseIdx_of_length_le (List.getElem?_eq_none_iff.mp hd)]
        simp
      | some l =>
        obtain ⟨hlt, hl⟩ := List.getElem?_eq_some_iff.mp hd
        have : c.deferred = c.deferred.take i ++ l :: c.deferred.drop (i + 1) := by
          rw [← hl, getElem_cons_drop, take_append_drop]
        rw [eraseIdx_eq_take_drop_succ]
        conv_lhs => rw [this]
        simp only [flatten_append, flatten_cons, getD_some, append_assoc]
        exact (perm_append_comm).append_left _
    refine .trans ?_ hi.table.buffers
    refine List.Perm.append_left _ ?_
    show ((c.deferred.eraseIdx i).flatten.map (fun p => p.1.id) ++
      (c.freed ++ (c.deferred[i]?.getD []).map fun p => p.1.id)).Perm _
    refine .trans ?_ (hsplit.symm.append_right _)
    rw [append_assoc]
    exact (perm_append_comm).append_left _
  · exact hi.table.sent.append (List.Sublist.map _ filter_sublist)

/-! ## 8. Every run -/

/-- No incomplete entry is recycled or made static, and the array does not move while it has
    entries. -/
def ArpCache.Calm (c : ArpCache) : ArpOp → Prop
  | .resolveOrRequest ip _ _ g => c.NeedsEntry ip → c.CalmSlot g
  | .addStaticEntry ip mac g => isUnusable mac = false →
      (∀ e ∈ c.items, e.ipAddr = ip → e.state ≠ .incomplete) ∧
        ((∀ e ∈ c.items, e.ipAddr = ip → e.state = .free) → c.CalmSlot g)
  | _ => True

instance (c : ArpCache) : (op : ArpOp) → Decidable (c.Calm op)
  | .resolveOrRequest ip _ _ g => inferInstanceAs (Decidable (c.NeedsEntry ip → c.CalmSlot g))
  | .addStaticEntry ip mac g => inferInstanceAs (Decidable (isUnusable mac = false →
      (∀ e ∈ c.items, e.ipAddr = ip → e.state ≠ .incomplete) ∧
        ((∀ e ∈ c.items, e.ipAddr = ip → e.state = .free) → c.CalmSlot g)))
  | .shouldSend _ | .processPacket _ _ | .transmitAndFree _ | .removeStaticEntry _ | .ageCache | .tick
  | .clearCache => .isTrue trivial

/-- The addresses that were fixed. -/
def Given.update (h : Given) (s : Option ArpCache) : ArpOp → Given
  | .addStaticEntry ip mac g =>
    match s with
    | none => h
    | some c =>
      match c.addStaticEntry ip mac g with
      | .ok (_, r) => if r.isOk then Function.update h ip (some mac) else h
      | .error _ => h
  | _ => h

theorem ArpInv.step (hi : ArpInv c h) {op : ArpOp} (hc : c.Calm op) :
    ∃ c', c.run op = .ok c' ∧ ArpInv c' (Given.update h (some c) op) := by
  cases op with
  | resolveOrRequest ip pkt alloc g =>
    obtain ⟨c', r, hr, hi'⟩ := resolveOrRequest_ok hi pkt alloc hc
    exact ⟨c', by rw [run, hr]; rfl, hi'⟩
  | shouldSend r =>
    obtain ⟨m, hm, -, -⟩ := findEntry_ok hi.linked r.1
    refine ⟨c, ?_, hi⟩
    rw [run, shouldSend, hm]
    cases m <;> rfl
  | processPacket iface data =>
    obtain ⟨r, hr, hi'⟩ := processPacket_ok hi iface data
    exact ⟨_, by rw [run, hr]; rfl, hi'⟩
  | transmitAndFree i => exact ⟨_, rfl, transmitAndFree_ok hi i⟩
  | addStaticEntry ip mac g =>
    by_cases hm : isUnusable mac = true
    · have hr : c.addStaticEntry ip mac g = .ok (c, .error .InvalidAddress) := by
        rw [addStaticEntry, if_pos hm]
        rfl
      refine ⟨c, by rw [run, hr]; rfl, ?_⟩
      simp only [Given.update, hr]
      exact hi
    · obtain ⟨hinc, hg⟩ := hc (Bool.eq_false_iff.mpr hm)
      obtain ⟨c', r, hr, hi'⟩ := addStaticEntry_ok hi mac hinc hg
      refine ⟨c', by rw [run, hr]; rfl, ?_⟩
      simp only [Given.update, hr]
      exact hi'
  | removeStaticEntry ip =>
    obtain ⟨c', r, hr, hi'⟩ := removeStaticEntry_ok hi ip
    exact ⟨c', by rw [run, hr]; rfl, hi'⟩
  | ageCache => exact ageCache_ok hi
  | tick =>
    refine ⟨_, rfl, hi.linked.congr (fun _ => Iff.rfl) rfl rfl (Nat.le_refl _) fun j _ x hx =>
      ⟨x, hx, rfl, rfl⟩, ⟨hi.table.entries, hi.table.unique, hi.table.count, hi.table.buffers,
      hi.table.sent, hi.table.static⟩⟩
  | clearCache => exact ⟨_, rfl, clearCache_ok hi⟩

theorem init_inv (t : BitVec 32) : ArpInv (.init t) fun _ => none := by
  have hempty : ∀ c : ArpCache, c.items = [] → c.hashTable = (fun _ => none) → c.deferred = [] →
      c.freed = [] → c.allocated = 0 → c.transmitted = [] → c.incompleteEntryCount = 0 →
      ArpInv c fun _ => none := by
    intro c hitems hhash hd hf ha ht hn
    have hno : ∀ j, ¬ c.Live j := by
      rintro j ⟨x, hx, -⟩
      rw [hitems] at hx
      cases hx
    refine ⟨⟨⟨_, Buckets.Threads.empty (fun b => ?_) fun p hp => hno _ hp.2⟩, fun j hj =>
      absurd hj (hno j)⟩, ⟨?_, ?_, ?_, ?_, ?_, ?_⟩⟩
    · show c.hashTable b = none
      rw [hhash]
    · rw [hitems]
      exact fun e he => nomatch he
    · rw [hitems]
      exact fun i j e e' he => nomatch he
    · rw [hn, incomplete, hitems]
      rfl
    · rw [queuedIds, deferredIds, hitems, hd, hf, ha]
      exact List.Perm.refl _
    · rw [ht]
      exact nil_sublist _
    · rw [hitems]
      exact fun e he => nomatch he
  unfold init
  split_ifs <;> exact hempty _ rfl rfl rfl rfl rfl rfl rfl

/-- **What the table promises**: an address has one entry in use; the chains pass exactly the
    entries in use, each once, all of them in the present array; the count is the number of the
    incomplete entries; every buffer that was handed out is in one queue, or on its way to the
    interface, or was given back, once; and a static address is the one that was last given. -/
structure ArpSound (c : ArpCache) (h : Given) : Prop where
  unique (i j : Nat) (e e' : ArpEntry) : c.items[i]? = some e → c.items[j]? = some e' →
    e.state ≠ .free → e'.state ≠ .free → e.ipAddr = e'.ipAddr → i = j
  chains (idx : Nat) : ∃ l : List EntryPtr, Chain c.links.next (c.hashTable idx) l ∧ l.Nodup ∧
    ∀ p, p ∈ l ↔ p.base = c.base ∧
      ∃ e, c.items[p.index]? = some e ∧ e.state ≠ .free ∧ hashIp e.ipAddr = idx
  count : c.incompleteEntryCount = c.items.countP fun e => e.state = .incomplete
  buffers : (c.queuedIds ++ (c.deferredIds ++ c.freed)).Perm (List.range c.allocated)
  sent : c.transmitted.Sublist c.freed
  static : ∀ e ∈ c.items, e.isStatic = true → h e.ipAddr = some e.macAddr

theorem ArpInv.sound (hi : ArpInv c h) : ArpSound c h := by
  refine ⟨hi.table.unique, fun idx => ?_, hi.table.count, hi.table.buffers, hi.table.sent,
    hi.table.static⟩
  obtain ⟨chain, ht⟩ := hi.linked.holds
  refine ⟨chain idx, ht.spells idx, ht.nodup idx, fun p => ?_⟩
  rw [ht.mem]
  constructor
  · rintro ⟨⟨hb, e, he, hs⟩, hidx⟩
    rw [eq_ptr hb, bucket_ptr he] at hidx
    exact ⟨hb, e, he, hs, hidx⟩
  · rintro ⟨hb, e, he, hs, hidx⟩
    refine ⟨⟨hb, e, he, hs⟩, ?_⟩
    rw [eq_ptr hb, bucket_ptr he, hidx]

/-- The table in use, with the addresses that were fixed. -/
def arpRuns : Machine (Option ArpCache × Given) ArpOp := arpMachine.track (fun _ => none) Given.update

/-- **THE ARP TABLE IS SOUND IN EVERY RUN** whose steps are calm. -/
theorem arpTable {s : Option ArpCache × Given}
    (hr : arpRuns.Reach (fun s op => ∀ c ∈ s.1, c.Calm op) s) : ∃ c, s.1 = some c ∧ ArpSound c s.2 := by
  have hinv : ∃ c, s.1 = some c ∧ ArpInv c s.2 := by
    refine hr.invariant (I := fun s => ∃ c, s.1 = some c ∧ ArpInv c s.2) ?_ ?_
    · rintro ⟨o, h⟩ ⟨⟨t, rfl⟩, rfl⟩
      exact ⟨_, rfl, init_inv t⟩
    rintro ⟨o, h⟩ op - ⟨c, rfl, hi⟩ hc
    obtain ⟨c', hr, hi'⟩ := hi.step (hc c rfl)
    refine ⟨c', ?_, hi'⟩
    show (c.run op).toOption = some c'
    rw [hr]
    rfl
  obtain ⟨c, hc, hi⟩ := hinv
  exact ⟨c, hc, hi.sound⟩

/-- The state after a run. -/
abbrev arpState (l : List ArpOp) : Option ArpCache × Given :=
  arpRuns.exec (some (.init 1000), fun _ => none) l

theorem arpRuns_start : arpRuns.start (some (.init 1000), fun _ => none) := ⟨⟨1000, rfl⟩, rfl⟩

/-- A packet waits for 10.0.0.2, the answer comes, and the packet is sent. -/
def oneAnswer : List ArpOp :=
  [.resolveOrRequest 0x0A000002 (some (List.replicate 20 0)) true (.moved 4),
    .processPacket ⟨Vector.replicate 6 2, 0x0A000001, 0xFFFFFF00⟩
      (List.replicate 12 0 ++ [0x08, 0x06, 0, 1, 0x08, 0, 6, 4, 0, 2, 4, 4, 4, 4, 4, 4, 10, 0, 0, 2,
        2, 2, 2, 2, 2, 2, 10, 0, 0, 1]),
    .transmitAndFree 0]

theorem arpTable_oneAnswer : ∃ c, (arpState oneAnswer).1 = some c ∧ ArpSound c (arpState oneAnswer).2 := by
  refine arpTable (Machine.Reach.exec (.start arpRuns_start) ?_)
  refine ⟨?_, ?_, ?_, trivial⟩ <;> decide +kernel

example : (arpState oneAnswer).1.map (fun c => (c.transmitted, c.freed)) = some ([0], [0]) := by
  decide +kernel

/-- **Two requests, and the head of the first chain points into memory that was given back.** -/
theorem arpTable_refuted :
    ¬ ∀ s, arpRuns.Reachable s → ∃ c, s.1 = some c ∧ ArpSound c s.2 := by
  intro h
  let l : List ArpOp := [.resolveOrRequest 0x0A000002 none true (.moved 1),
    .resolveOrRequest 0x0A000003 none true (.moved 2)]
  have hr : arpRuns.Reachable (arpState l) := Machine.Reachable.exec (.start arpRuns_start) l
  have hl : (arpState l).1.map (fun c => (c.hashTable (hashIp 0x0A000002), c.base)) =
      some (some ⟨1, 0⟩, 2) := by decide +kernel
  obtain ⟨c, hc, hs⟩ := h _ hr
  rw [hc, map_some] at hl
  simp only [Option.some.injEq, Prod.mk.injEq] at hl
  obtain ⟨hhead, hbase⟩ := hl
  obtain ⟨l', hch, -, hmem⟩ := hs.chains (hashIp 0x0A000002)
  have hin := (hmem ⟨1, 0⟩).mp (hch.head_mem hhead)
  rw [hbase] at hin
  cases hin.1

end Zigk.Net
