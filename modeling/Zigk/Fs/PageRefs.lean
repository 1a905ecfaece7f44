/-
  Subject:   WHAT `getPages` HANDS OUT (kernel/fs/page_cache.zig): the bytes of each reference, and
             on failure the references and their array.

  * `pageRef` -- which bytes of its page a reference covers;
  * `fill` -- the rounds; `acquire` tells what the sections under the lock come to in each of them
    (`getStep`): a page, with a reference, or none where no room or no memory was left;
  * **`pageRefs`** -- the references tile the range, and a call that fails gives back what it took,
    exactly if no round fails and the last page is not the last of all; `pageRefs_refuted`.
-/
import Zigk.Base.Checked
import Zigk.Base.Tiling
import Zigk.Fs.PageCache

namespace Zigk.Pages

open List Request

variable {P : Type} {g : Request} {acquire : Nat → Option P} {n i : Nat}

structure PageRef (P : Type) where
  page : P
  /-- Of the page. -/
  page_offset : Nat
  offset_in_page : Nat
  len : Nat

/-- Where its bytes are in the file. -/
def PageRef.start (r : PageRef P) : Nat := r.page_offset * PAGE_SIZE + r.offset_in_page

/-- The references, or none; which were given back, and how often the array was freed. -/
structure Return (P : Type) where
  refs : Option (List (PageRef P))
  returned : List P := []
  freed : Nat := 0

namespace Request

variable (g : Request) (acquire : Nat → Option P)

def pageRef (i : Nat) (page : P) : Except Trap (PageRef P) := do
  let page_start_byte := (g.startPage + i) * PAGE_SIZE
  let offset_in_page :=
    if g.offset.toNat > page_start_byte then g.offset.toNat - page_start_byte else 0
  let page_end_byte :=
    if page_start_byte + PAGE_SIZE ≥ 2 ^ 64 then PAGE_SIZE else page_start_byte + PAGE_SIZE
  let available_in_page ←
    Trap.sub (min page_end_byte g.endByte) (max page_start_byte g.offset.toNat)
  return ⟨page, g.startPage + i, offset_in_page, available_in_page⟩

/-- So many rounds. A round without a page drops the references and frees the array; then the
    `errdefer` frees it. -/
def fill : Nat → List (PageRef P) → Except Trap (Return P)
  | 0, refs => .ok { refs := some refs }
  | n + 1, refs =>
    match acquire refs.length with
    | none => .ok { refs := none, returned := refs.map PageRef.page, freed := 1 + 1 }
    | some p => do
      let r ← g.pageRef refs.length p
      fill n (refs ++ [r])

/-- `granted` tells whether the heap has room for the array. -/
def getPages (granted : Bool) : Except Trap (Return P) :=
  if g.len = 0 then .ok { refs := some [] }
  else if g.endByte ≥ 2 ^ 64 then .ok { refs := none }
  else if granted then g.fill acquire g.numPages []
  else .ok { refs := none }

end Request

/-- The pages of the rounds before the first that fails. -/
def taken (acquire : Nat → Option P) : Nat → Nat → List P
  | 0, _ => []
  | n + 1, i =>
    match acquire i with
    | none => []
    | some p => p :: taken acquire n (i + 1)

/-- The references tile the range; without them all is given back, and the array is freed once. -/
structure Serves (g : Request) (granted : Bool) (r : Return P) (acquire : Nat → Option P) :
    Prop where
  tiles : ∀ refs, r.refs = some refs → Tiles PageRef.start PageRef.len g.offset.toNat refs g.endByte
  returned : r.refs = none → g.endByte < 2 ^ 64 → granted = true →
    r.returned = taken acquire g.numPages 0 ∧ r.freed = 1

/-- Every round has its page, and none of them is the last page there is. -/
def AllPages (g : Request) (acquire : Nat → Option P) : Prop :=
  (∀ i < g.numPages, (acquire i).isSome) ∧ g.endByte + PAGE_SIZE ≤ 2 ^ 64

/-- Where the first `i` references end. -/
def Request.reached (g : Request) (i : Nat) : Nat :=
  min g.endByte (max g.offset.toNat ((g.startPage + i) * PAGE_SIZE))

/-- A page of the range begins before its end. -/
theorem page_lt (hlen : g.len ≠ 0) (hi : i < g.numPages) :
    (g.startPage + i) * PAGE_SIZE < g.endByte := by
  have hpos : 0 < g.len.toNat := Nat.pos_of_ne_zero fun h => hlen (UInt64.toNat_inj.1 h)
  unfold numPages endPage startPage endByte PAGE_SIZE at *
  split_ifs at hi <;> omega

theorem page_room (hlen : g.len ≠ 0) (hend : g.endByte + PAGE_SIZE ≤ 2 ^ 64) (hi : i < g.numPages) :
    (g.startPage + i + 1) * PAGE_SIZE < 2 ^ 64 := by
  rw [Nat.succ_mul]
  exact (Nat.add_lt_add_right (page_lt hlen hi) _).trans_le hend

theorem pageRef_ok (page : P) (hlen : g.len ≠ 0) (hi : i < g.numPages)
    (hend : (g.startPage + i + 1) * PAGE_SIZE < 2 ^ 64) :
    ∃ r, g.pageRef i page = .ok r ∧ r.start = g.reached i ∧
      r.start + r.len = g.reached (i + 1) := by
  have hlt := page_lt hlen hi
  have hoff : g.offset.toNat ≤ g.endByte := Nat.le_add_right _ _
  have hfirst : g.offset.toNat < (g.startPage + i + 1) * PAGE_SIZE := by
    unfold startPage PAGE_SIZE
    omega
  have hno : ¬ (g.startPage + i) * PAGE_SIZE + PAGE_SIZE ≥ 2 ^ 64 := by
    unfold PAGE_SIZE at *
    omega
  have hle : max ((g.startPage + i) * PAGE_SIZE) g.offset.toNat ≤
      min ((g.startPage + i) * PAGE_SIZE + PAGE_SIZE) g.endByte := by
    unfold PAGE_SIZE at *
    omega
  unfold pageRef Trap.sub reached PageRef.start
  dsimp only
  rw [if_neg hno, if_pos hle]
  refine ⟨_, rfl, ?_, ?_⟩
  · dsimp only
    split_ifs <;> omega
  · unfold PAGE_SIZE at *
    dsimp only
    split_ifs <;> omega

/-- **On the last page of all the subtraction overflows**: its end is taken for `PAGE_SIZE`. -/
theorem pageRef_last {page : P} (hend : (g.startPage + i + 1) * PAGE_SIZE ≥ 2 ^ 64) :
    g.pageRef i page = .error .integerOverflow := by
  have hover : (g.startPage + i) * PAGE_SIZE + PAGE_SIZE ≥ 2 ^ 64 := by
    unfold PAGE_SIZE at *
    omega
  have hlt : ¬ max ((g.startPage + i) * PAGE_SIZE) g.offset.toNat ≤ min PAGE_SIZE g.endByte := by
    unfold PAGE_SIZE at *
    omega
  unfold pageRef Trap.sub
  dsimp only
  rw [if_pos hover, if_neg hlt]
  rfl

theorem fill_ok (hlen : g.len ≠ 0) (hend : g.endByte + PAGE_SIZE ≤ 2 ^ 64) (refs : List (PageRef P))
    (hall : ∀ i < g.numPages, (acquire i).isSome) (hn : refs.length + n = g.numPages)
    (ht : Tiles PageRef.start PageRef.len g.offset.toNat refs (g.reached refs.length)) :
    ∃ refs', g.fill acquire n refs = .ok { refs := some refs' } ∧
      Tiles PageRef.start PageRef.len g.offset.toNat refs' (g.reached g.numPages) := by
  induction n generalizing refs with
  | zero => exact ⟨refs, rfl, hn ▸ ht⟩
  | succ n ih =>
    obtain ⟨p, hp⟩ := Option.isSome_iff_exists.1 (hall refs.length (by omega))
    have hi : refs.length < g.numPages := by omega
    obtain ⟨r, hr, hstart, hstop⟩ := pageRef_ok p hlen hi (page_room hlen hend hi)
    have hnext : (refs ++ [r]).length = refs.length + 1 := length_append
    obtain ⟨refs', hfill, htiles⟩ := @ih (refs ++ [r]) (by omega) (by
      rw [hnext, ← hstop, hstart]
      exact tiles_append.2 ⟨_, ht, hstart, rfl⟩)
    refine ⟨refs', ?_, htiles⟩
    rw [fill, hp]
    show (g.pageRef refs.length p >>= fun r => g.fill acquire n (refs ++ [r])) = _
    rw [hr]
    exact hfill

theorem fill_inv {refs : List (PageRef P)} {r : Return P} (h : g.fill acquire n refs = .ok r) :
    r.refs = none ∧ r.freed = 2 ∨
    (∀ i, refs.length ≤ i → i < refs.length + n →
      (acquire i).isSome ∧ (g.startPage + i + 1) * PAGE_SIZE < 2 ^ 64) := by
  induction n generalizing refs with
  | zero => exact .inr fun i hi hlt => by omega
  | succ n ih =>
    rw [fill] at h
    cases hp : acquire refs.length with
    | none =>
      rw [hp] at h
      cases h
      exact .inl ⟨rfl, rfl⟩
    | some p =>
      rw [hp] at h
      obtain ⟨x, hx, h⟩ := (Except.bind_ok_iff _ _).1 h
      refine (ih h).imp_right fun hall i hi hlt => ?_
      rw [length_append, length_singleton] at hall
      obtain rfl | hgt := Nat.eq_or_lt_of_le hi
      · refine ⟨by rw [hp]; rfl, not_le.1 fun hge => ?_⟩
        rw [pageRef_last hge] at hx
        cases hx
      · exact hall i hgt (by omega)

/-- **The references are right, and none is lost, exactly if nothing goes wrong.** -/
theorem pageRefs {granted : Bool} (hend : g.endByte < 2 ^ 64) :
    (∃ r, g.getPages acquire granted = .ok r ∧ Serves g granted r acquire) ↔
      g.len = 0 ∨ granted = false ∨ AllPages g acquire := by
  unfold getPages
  by_cases hlen : g.len = 0
  · rw [if_pos hlen]
    refine ⟨fun _ => .inl hlen, fun _ => ⟨_, rfl, fun refs hr => ?_, nofun⟩⟩
    cases hr
    show g.offset.toNat = g.endByte
    rw [endByte, hlen]
    rfl
  rw [if_neg hlen, if_neg (Nat.not_le.2 hend)]
  cases granted with
  | false => exact ⟨fun _ => .inr (.inl rfl), fun _ => ⟨_, rfl, nofun, nofun⟩⟩
  | true =>
    have hpos : 0 < g.len.toNat := Nat.pos_of_ne_zero fun h => hlen (UInt64.toNat_inj.1 h)
    rw [if_pos rfl]
    constructor
    · rintro ⟨r, hr, hs⟩
      obtain ⟨hnone, hfreed⟩ | hall := fill_inv hr
      · have hone := (hs.returned hnone hend rfl).2
        omega
      refine .inr (.inr ⟨fun i hi => (hall i (Nat.zero_le i) (by simpa using hi)).1, ?_⟩)
      have := (hall (g.numPages - 1) (Nat.zero_le _) (by unfold numPages; simp)).2
      unfold numPages endPage startPage endByte PAGE_SIZE at *
      split_ifs at this <;> omega
    · rintro (h | h | hall)
      · exact absurd h hlen
      · cases h
      obtain ⟨refs, hfill, htiles⟩ := fill_ok hlen hall.2 [] hall.1 (Nat.zero_add _) (by
        show g.offset.toNat = g.reached 0
        unfold reached startPage endByte PAGE_SIZE
        omega)
      refine ⟨_, hfill, fun refs' hr => ?_, nofun⟩
      cases hr
      have hlast : g.reached g.numPages = g.endByte := by
        unfold reached numPages endPage startPage PAGE_SIZE
        split_ifs <;> omega
      rwa [hlast] at htiles

/-- A request for bytes of a file that nothing populates. -/
def bytesAt (offset len : UInt64) : Request := ⟨1, offset, len, false, false⟩

/-- A range over the border of two pages. -/
theorem pageRefs_twoPages : ∃ r, (bytesAt 4000 200).getPages some true = .ok r ∧
    Serves (bytesAt 4000 200) true r some :=
  (pageRefs (by decide)).2 (.inr (.inr ⟨fun _ _ => rfl, by decide⟩))

/-- **The array is freed twice** where there is no memory for a page. -/
theorem pageRefs_refuted : ¬ ∀ (g : Request) (acquire : Nat → Option Nat) (granted : Bool),
    g.endByte < 2 ^ 64 → ∃ r, g.getPages acquire granted = .ok r ∧ Serves g granted r acquire := by
  intro h
  obtain ⟨r, hr, hs⟩ := h (bytesAt 0 1) (fun _ => none) true (by decide)
  cases hr
  exact absurd (hs.returned rfl (by decide) rfl).2 (by decide)

end Zigk.Pages
