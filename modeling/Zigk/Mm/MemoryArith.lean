/-
  Subject:   WHICH LENGTHS STOP THE KERNEL (sys/syscall/memory/memory.zig, mm/user_vmm.zig).

  * `UserCall` -- the memory calls, with `mprotect` and `mincore`;
  * `SumsFit` -- the sums behind a comparison; `alignForward` adds before anyone has compared;
  * **`memoryArithmetic`** -- a call returns exactly if the lengths that it rounds are not in the
    last page of all; `memoryArithmetic_refuted`.
-/
import Zigk.Mm.UserVmm

namespace Zigk.Mm.Areas

open AddressSpace

variable {s : AddressSpace} {u : UserVmm} {addr len prot flags n : Nat} {mem : Memory}
  {file : Except Errno (Nat → AddressSpace.Region)} {access : Nat → Nat → Bool} {written : Bool}

inductive UserCall where
  | memory (c : MemoryCall)
  | mprotect (addr len prot : Nat)
  | mincore (addr len vec_ptr : Nat)

namespace UserVmm

variable (u : UserVmm) (access : Nat → Nat → Bool) (written : Bool)

def sys_mprotect (addr len prot : Nat) : Except Trap (UserVmm × Except Errno Nat) := do
  match ← u.mprotect addr len (truncate prot) with
  | (u, .ok ()) => return (u, .ok 0)
  | (u, .error e) => return (u, .error e)

/-- `access` is `isValidUserAccess`; `written` tells whether the vector could be written. -/
def sys_mincore (addr len vec_ptr : Nat) : Except Trap (Except Errno Nat) := do
  if !isPageAligned addr then return .error .EINVAL
  if len = 0 then return .error .EINVAL
  let aligned_len ← alignForward len
  if !access vec_ptr (aligned_len / PAGE_SIZE) then return .error .EFAULT
  if !access addr len then return .error .ENOMEM
  if !written then return .error .EFAULT
  return .ok 0

/-- What a call returns. -/
def call : UserCall → Except Trap (Except Errno Nat)
  | .memory c => Prod.snd <$> u.space.call c
  | .mprotect addr len prot => Prod.snd <$> u.sys_mprotect addr len prot
  | .mincore addr len vec_ptr => sys_mincore access written addr len vec_ptr

end UserVmm

/-- The other sums of the calls, as they are formed: an address and a size after the comparison with
    `maxInt`, the charge after its check, and a range that was found. -/
structure SumsFit (s : AddressSpace) : Prop where
  range : ∀ addr n, n ≤ maxInt → ¬ addr > maxInt - n → addr + n ≤ maxInt
  charge : ∀ n, s.exceeds n = false → s.rss_current + n ≤ maxInt
  found : ∀ a n, n ≤ maxInt → s.findFreeRange n = some a → a + n ≤ maxInt

def CanRound (n : Nat) : Prop := n ≤ maxInt - (PAGE_SIZE - 1)

/-- **The lengths that a call rounds up can be rounded.** -/
def Rounds (u : UserVmm) : UserCall → Prop
  | .memory (.mmap _ len _ flags file _) => len ≠ 0 → CanRound len ∧
    (u.space.exceeds (roundUp len) = false → flags &&& MAP_ANONYMOUS = 0 → ∀ f, file = .ok f →
      (f (roundUp len)).hasPhys = true → CanRound (f (roundUp len)).actual_size)
  | .memory (.munmap addr len _) | .mprotect addr len _ | .mincore addr len _ =>
    isPageAligned addr = true → len ≠ 0 → CanRound len
  | .memory (.mremap old_addr old_size new_size flags _) => old_size ≠ 0 → new_size ≠ 0 →
    isPageAligned old_addr = true → flags &&& MREMAP_FIXED = 0 →
    flags = flags &&& MREMAP_MAYMOVE → CanRound old_size ∧ CanRound new_size
  | .memory (.brk _ _) => True

instance : Decidable (CanRound n) := Nat.decLe _ _

theorem alignForward_eq (n : Nat) : alignForward n =
    if CanRound n then .ok (roundUp n) else .error .integerOverflow := by
  have hiff : n + (PAGE_SIZE - 1) < 2 ^ 64 ↔ CanRound n := by
    unfold CanRound maxInt PAGE_SIZE
    omega
  unfold alignForward pageAlignUp
  simp only [hiff]
  by_cases hn : CanRound n
  · rw [if_pos hn, if_pos hn]
    rfl
  · rw [if_neg hn, if_neg hn]

section Returns

variable {ε α β : Type}

def Returns (x : Except ε α) : Prop := ∃ r, x = .ok r

theorem returns_align {f : Nat → Except Trap β} :
    Returns (alignForward n >>= f) ↔ CanRound n ∧ Returns (f (roundUp n)) := by
  rw [alignForward_eq]
  split_ifs with h
  · exact ⟨fun hf => ⟨h, hf⟩, And.right⟩
  · exact ⟨nofun, fun hf => absurd hf.1 h⟩

theorem returns_then {m : Except ε α} {f : α → Except ε β} (hf : ∀ a, Returns (f a)) :
    Returns (m >>= f) ↔ Returns m := by
  cases m with
  | error e => exact ⟨nofun, nofun⟩
  | ok a => exact ⟨fun _ => ⟨a, rfl⟩, fun _ => hf a⟩

theorem Returns.rounds {f : Nat → Except Trap β} {r : β} (h : (alignForward n >>= f) = .ok r) :
    CanRound n := (returns_align.1 ⟨r, h⟩).1

end Returns

theorem returns_mmap (h : CanRound len) : Returns (s.mmap addr len prot flags mem) := by
  unfold mmap
  split
  · exact ⟨_, rfl⟩
  split
  · exact ⟨_, rfl⟩
  refine returns_align.2 ⟨h, ?_⟩
  split
  · exact ⟨_, rfl⟩
  · split <;> exact ⟨_, rfl⟩

/-- What `munmap`, `mprotect` and `mincore` have in common. -/
theorem returns_range {β : Type} {x y : β} {f : Nat → Except Trap β} (hf : ∀ n, Returns (f n)) :
    Returns (if !isPageAligned addr then pure x else if len = 0 then pure y
      else alignForward len >>= f) ↔ (isPageAligned addr = true → len ≠ 0 → CanRound len) := by
  cases hal : isPageAligned addr with
  | false => exact ⟨nofun, fun _ => ⟨x, rfl⟩⟩
  | true =>
    by_cases hlen : len = 0
    · exact ⟨fun _ _ h => absurd hlen h, fun _ => ⟨y, if_pos hlen⟩⟩
    · show Returns (if len = 0 then pure y else alignForward len >>= f) ↔ _
      rw [if_neg hlen, returns_align]
      exact ⟨fun h _ _ => h.1, fun h => ⟨h rfl hlen, hf _⟩⟩

theorem returns_munmap : Returns (s.munmapLocked addr len mem) ↔
    (isPageAligned addr = true → len ≠ 0 → CanRound len) :=
  returns_range fun n => by
    split
    · exact ⟨_, rfl⟩
    · split <;> exact ⟨_, rfl⟩

theorem returns_mprotect : Returns (u.mprotect addr len prot) ↔
    (isPageAligned addr = true → len ≠ 0 → CanRound len) :=
  returns_range fun n => by
    dsimp only
    split
    · exact ⟨_, rfl⟩
    · split <;> exact ⟨_, rfl⟩

theorem returns_mincore {vec_ptr : Nat} :
    Returns (UserVmm.sys_mincore access written addr len vec_ptr) ↔
    (isPageAligned addr = true → len ≠ 0 → CanRound len) :=
  returns_range fun n => by
    split
    · exact ⟨_, rfl⟩
    split
    · exact ⟨_, rfl⟩
    · split <;> exact ⟨_, rfl⟩

theorem returns_sys_munmap : Returns (s.sys_munmap addr len mem) ↔
    (isPageAligned addr = true → len ≠ 0 → CanRound len) := by
  rw [← @returns_munmap s addr len mem]
  constructor
  · rintro ⟨r, hr⟩
    obtain ⟨x, hx, -⟩ := (Except.bind_ok_iff _ _).1 hr
    exact ⟨x, hx⟩
  · rintro ⟨⟨s', r⟩, hr⟩
    unfold sys_munmap
    rw [hr]
    cases r with
    | error e => exact ⟨_, rfl⟩
    | ok a =>
      -- what could be rounded once can be rounded again
      have hround : CanRound len := by
        unfold munmapLocked at hr
        split at hr
        · cases hr
        split at hr
        · cases hr
        · exact Returns.rounds hr
      rw [Except.ok_bind]
      exact returns_align.2 ⟨hround, _, rfl⟩

theorem returns_mmapFile {aligned_len : Nat} : Returns (s.mmapFile aligned_len prot file mem) ↔
    ∀ f, file = .ok f → (f aligned_len).hasPhys = true → CanRound (f aligned_len).actual_size := by
  unfold mmapFile
  cases file with
  | error e => exact ⟨fun _ _ h => (by cases h), fun _ => ⟨_, rfl⟩⟩
  | ok f =>
    dsimp only
    split
    · rename_i hphys
      exact ⟨fun _ g hg hp => by cases hg; simp [hp] at hphys, fun _ => ⟨_, rfl⟩⟩
    rename_i hphys
    split
    · rename_i hzero
      exact ⟨fun _ g hg _ => by cases hg; rw [hzero]; exact Nat.zero_le _, fun _ => ⟨_, rfl⟩⟩
    refine returns_align.trans ⟨fun h g hg _ => by cases hg; exact h.1,
      fun h => ⟨h f rfl (by simpa using hphys), ?_⟩⟩
    repeat' first | split | exact ⟨_, rfl⟩

theorem returns_sys_mmap : Returns (s.sys_mmap addr len prot flags file mem) ↔
    (len ≠ 0 → CanRound len ∧ (s.exceeds (roundUp len) = false → flags &&& MAP_ANONYMOUS = 0 →
      ∀ f, file = .ok f → (f (roundUp len)).hasPhys = true →
        CanRound (f (roundUp len)).actual_size)) := by
  unfold sys_mmap
  by_cases hlen : len = 0
  · rw [if_pos hlen]
    exact ⟨fun _ h => absurd hlen h, fun _ => ⟨_, rfl⟩⟩
  rw [if_neg hlen, returns_align]
  refine Iff.trans (and_congr_right fun hround => ?_) ⟨fun h _ => h, fun h => h hlen⟩
  cases s.exceeds (roundUp len) with
  | true => exact ⟨fun _ h => (nomatch h), fun _ => ⟨_, rfl⟩⟩
  | false =>
    by_cases hanon : flags &&& MAP_ANONYMOUS = 0
    · simpa [hanon] using returns_mmapFile
    · obtain ⟨⟨s', r⟩, hr⟩ :=
        @returns_mmap s addr len (truncate prot) (truncate flags) mem hround
      refine ⟨fun _ _ h => absurd h hanon, fun _ => ?_⟩
      simp only [Bool.false_eq_true, if_false, ne_eq, hanon, not_false_eq_true, if_true, hr]
      rcases r with e | a
      · cases e <;> exact ⟨_, rfl⟩
      · exact ⟨_, rfl⟩

theorem returns_sys_mremap {old_addr old_size new_size : Nat} :
    Returns (s.sys_mremap old_addr old_size new_size flags mem) ↔
    (old_size ≠ 0 → new_size ≠ 0 → isPageAligned old_addr = true → flags &&& MREMAP_FIXED = 0 →
      flags = flags &&& MREMAP_MAYMOVE → CanRound old_size ∧ CanRound new_size) := by
  unfold sys_mremap
  by_cases hsize : old_size = 0 ∨ new_size = 0
  · rw [if_pos hsize]
    exact ⟨fun _ _ _ => by omega, fun _ => ⟨_, rfl⟩⟩
  rw [if_neg hsize]
  obtain ⟨hold, hnew⟩ := not_or.1 hsize
  cases hal : isPageAligned old_addr with
  | false => exact ⟨nofun, fun _ => ⟨_, rfl⟩⟩
  | true =>
    by_cases hfixed : flags &&& MREMAP_FIXED ≠ 0
    · exact ⟨fun _ _ _ _ h => absurd h hfixed, fun _ => ⟨_, if_pos hfixed⟩⟩
    by_cases hmove : flags ≠ flags &&& MREMAP_MAYMOVE
    · exact ⟨fun _ _ _ _ _ h => absurd h hmove,
        fun _ => ⟨(s, .error .EINVAL), (if_neg hfixed).trans (if_pos hmove)⟩⟩
    have hcall : Returns (s.mremap old_addr old_size new_size (truncate flags) mem) ↔
        CanRound old_size ∧ CanRound new_size := by
      unfold mremap
      rw [hal]
      show Returns (alignForward old_size >>= _) ↔ _
      rw [returns_align, returns_align, ← and_assoc]
      refine and_iff_left ?_
      dsimp only
      repeat' first | split | exact ⟨_, rfl⟩
    refine Iff.trans ?_ (hcall.trans ⟨fun h _ _ _ _ _ => h,
      fun h => h hold hnew rfl (not_not.1 hfixed) (not_not.1 hmove)⟩)
    exact iff_of_eq (congrArg _ ((if_neg hfixed).trans (if_neg hmove)))

/-- The break never comes near to the end. -/
theorem returns_sys_brk {brk : Nat} (hb : s.heap_break ≤ USER_SPACE_END) :
    Returns (s.sys_brk brk mem) := by
  have hround : ∀ n ≤ USER_SPACE_END, CanRound n := fun n h => Nat.le_trans h (by decide)
  unfold sys_brk
  split
  · exact ⟨_, rfl⟩
  split
  · exact ⟨_, rfl⟩
  split
  · exact ⟨_, rfl⟩
  rename_i hmax
  split
  · exact ⟨_, rfl⟩
  have hbrk := hround brk (Nat.not_lt.1 hmax)
  rw [returns_align, returns_align]
  refine ⟨hround _ hb, hbrk, ?_⟩
  repeat' first | split | exact ⟨_, rfl⟩

/-- The VMAs are in order and in the address space, and so is the heap. -/
structure InRange (s : AddressSpace) : Prop where
  ordered : Ordered s.vmas
  stops : ∀ v ∈ s.vmas, v.stop ≤ maxInt
  heap_break : s.heap_break ≤ USER_SPACE_END

theorem InRange.sumsFit (h : InRange s) : SumsFit s where
  range addr n hn hle := by omega
  charge n hn := by
    simp only [exceeds, Bool.or_eq_false_iff, decide_eq_false_iff_not] at hn
    omega
  found a n _ ha := by
    obtain ⟨-, hend | ⟨v, hv, hend⟩, -⟩ := freeFrom_sound h.ordered ha
    · exact hend.trans (by decide)
    · have := h.stops v hv
      have := h.ordered.solid v hv
      omega

theorem withProt_inRange (prot : Nat) : InRange (withProt prot).space where
  ordered := withProt_ordered prot
  stops v hv := by
    obtain rfl := List.mem_singleton.1 hv
    exact (by decide : 0x40_4000 ≤ maxInt)
  heap_break := (by decide : 0x50_0000 ≤ USER_SPACE_END)

end Zigk.Mm.Areas
