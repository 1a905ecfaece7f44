/-
  Subject:   WHAT IS READ FROM AN SFS FILE IS WHAT WAS WRITTEN.

  * `readLoop_eq`, `readBatch_eq` -- both ways to read give the bytes of the file in order;
  * `gapFill_spec`, `writeLoop_spec`, `writeBytes_spec` -- a write that succeeds is one straight
    copy behind the zeros of its gap;
  * `Contents` -- the entry has the size of the file, and its blocks have its bytes;
  * **`sfsContents`** -- in every run of successful writes and reads whose descriptors are current;
    `sfsContents_refuted` -- two descriptors, of which one does not see what the other wrote.
-/
import Zigk.Fs.SfsData

namespace Zigk.SfsData

open Function List FileData
open Circular Sectors

variable {pos fuel n : Nat} {disk disk' : Nat → UInt8} {buf : List UInt8}

namespace FileData

variable {D : Type} {s : FileData D}

/-- Where the file begins on the device, and how many bytes fit behind. -/
def base (s : FileData D) : Nat := s.start_block * 512

def room (s : FileData D) : Nat := (s.total_blocks - s.start_block) * 512

theorem block_add (s : FileData D) (pos : Nat) :
    s.block pos * 512 + pos % 512 = s.base + pos := by
  unfold block base
  omega

theorem block_lt : s.block pos < s.total_blocks ↔ pos < s.room := by
  unfold block room
  omega

/-! ## 1. Reading -/

theorem readLoop_eq {fb : Nat} (hroom : pos + n ≤ s.room) (hfb : pos + n ≤ fb * 512)
    (hfuel : n ≤ fuel) : s.readLoop fb fuel pos n = .ok (copyFrom s.disk (s.base + pos) n) := by
  induction fuel generalizing pos n with
  | zero =>
    obtain rfl : n = 0 := by omega
    rfl
  | succ fuel ih =>
    unfold readLoop
    by_cases hn : n = 0
    · subst hn
      rfl
    have hblock := (block_lt (s := s)).2 (show pos < s.room by omega)
    rw [if_neg hn, if_neg (by omega), if_neg (by omega)]
    dsimp only
    generalize hc : min n (512 - pos % 512) = chunk
    have hsplit : n = chunk + (n - chunk) := by omega
    rw [ih (by omega) (by omega) (by omega), read_part (by omega), block_add]
    dsimp only
    conv_rhs => rw [hsplit, copyFrom_add, Nat.add_assoc]

theorem readBatch_eq (pos n : Nat) : s.readBatch pos n = copyFrom s.disk (s.base + pos) n := by
  unfold readBatch sectorCount
  rw [readMany_eq, part_copyFrom (by omega), block_add]

theorem readData_eq {f : SfsFile} (hpos : f.position + n ≤ f.size)
    (hin : f.position < f.size) (hroom : f.size ≤ s.room) (alloc : Bool) :
    s.readData f n alloc = .ok (copyFrom s.disk (s.base + f.position) n) ∨
      s.readData f n alloc = .error .ENOMEM := by
  have hblocks : f.size ≤ blocks f.size * 512 := by
    unfold blocks
    split_ifs
    · omega
    · omega
  have hblock := (block_lt (s := s)).2 (show f.position < s.room by omega)
  unfold readData
  rw [if_neg (by omega), if_neg (by omega)]
  split_ifs with hbatch halloc hend
  · exact .inr rfl
  · exfalso
    unfold sectorCount at hend hbatch
    unfold block at hend
    unfold room at hroom
    omega
  · rw [readBatch_eq]
    exact .inl rfl
  · exact .inl (readLoop_eq (by omega) (by omega) (Nat.le_refl n))

/-! ## 2. Writing -/

theorem gapFill_spec {e p : Nat} (hfuel : e - p ≤ fuel)
    (h : s.gapFill e fuel disk p = (disk', true)) :
    disk' = copyTo disk (s.base + p) (List.replicate (e - p) 0) ∧ (p < e → e ≤ s.room) := by
  induction fuel generalizing p disk with
  | zero =>
    have hz : e - p = 0 := by omega
    rw [hz, replicate_zero, copyTo_nil]
    cases h
    exact ⟨rfl, fun hp => by omega⟩
  | succ fuel ih =>
    unfold gapFill at h
    by_cases hend : e ≤ p
    · rw [if_pos hend] at h
      cases h
      have hz : e - p = 0 := by omega
      rw [hz, replicate_zero, copyTo_nil]
      exact ⟨rfl, fun hp => by omega⟩
    rw [if_neg hend] at h
    by_cases hb : s.total_blocks ≤ s.block p
    · rw [if_pos hb] at h
      cases h
    rw [if_neg hb] at h
    dsimp only at h
    generalize hn : min (512 - p % 512) (e - p) = n at h
    have hlen : (List.replicate n (0 : UInt8)).length = n := length_replicate ..
    have hwrite : write 512 disk (s.block p) (overlay (if p % 512 ≠ 0 ∨ e - p < 512 - p % 512 then
        read 512 disk (s.block p) else List.replicate 512 0) (p % 512) (List.replicate n 0)) =
        copyTo disk (s.base + p) (List.replicate n 0) := by
      split_ifs with hpart
      · rw [write_part (by rw [hlen]; omega), block_add]
      have hoff : p % 512 = 0 := by omega
      have hfull : n = 512 := by omega
      subst hfull
      rw [hoff, overlay_whole rfl, write_whole hlen, ← block_add, hoff, Nat.add_zero]
    rw [hwrite] at h
    obtain ⟨hdisk, hroom⟩ := ih (by omega) h
    have hpr := (block_lt (s := s)).1 (Nat.lt_of_not_le hb)
    refine ⟨?_, fun _ => ?_⟩
    · have hsplit : e - p = n + (e - (p + n)) := by omega
      rw [hdisk, hsplit, replicate_add, ← copyTo_append, hlen]
      rw [← Nat.add_assoc]
    by_cases hmore : p + n < e
    · exact hroom hmore
    · unfold room at hpr ⊢
      omega

theorem writeLoop_spec
    (hfuel : buf.length ≤ fuel) (h : s.writeLoop fuel disk pos buf = (disk', true)) :
    disk' = copyTo disk (s.base + pos) buf ∧ (0 < buf.length → pos + buf.length ≤ s.room) := by
  induction fuel generalizing pos buf disk with
  | zero =>
    have hnil : buf = [] := length_eq_zero_iff.1 (by omega)
    subst hnil
    cases h
    rw [copyTo_nil]
    exact ⟨rfl, nofun⟩
  | succ fuel ih =>
    unfold writeLoop at h
    by_cases hnil : buf.length = 0
    · rw [if_pos hnil] at h
      cases h
      rw [length_eq_zero_iff.1 hnil, copyTo_nil]
      exact ⟨rfl, nofun⟩
    rw [if_neg hnil] at h
    by_cases hb : s.total_blocks ≤ s.block pos
    · rw [if_pos hb] at h
      cases h
    rw [if_neg hb] at h
    dsimp only at h
    generalize hc : min buf.length (512 - pos % 512) = chunk at h
    have hlen : (buf.take chunk).length = chunk := by
      rw [length_take]
      omega
    rw [write_part (by rw [hlen]; omega), block_add] at h
    have hrest : (buf.drop chunk).length = buf.length - chunk := length_drop ..
    obtain ⟨hdisk, hroom⟩ := ih (by omega) h
    have hpr := (block_lt (s := s)).1 (Nat.lt_of_not_le hb)
    refine ⟨?_, fun _ => ?_⟩
    · calc disk' = copyTo (copyTo disk (s.base + pos) (buf.take chunk))
              (s.base + pos + (buf.take chunk).length) (buf.drop chunk) := by
            rw [hdisk, hlen, Nat.add_assoc]
        _ = copyTo disk (s.base + pos) buf := by rw [copyTo_append, take_append_drop]
    by_cases hmore : 0 < (buf.drop chunk).length
    · have := hroom hmore
      omega
    · unfold room at hpr ⊢
      omega

theorem writeBytes_spec (h : s.writeBytes disk pos buf = (disk', true)) :
    disk' = copyTo disk (s.base + pos) buf ∧ (0 < buf.length → pos + buf.length ≤ s.room) := by
  unfold writeBytes at h
  dsimp only at h
  generalize hfull : fullSectors pos buf.length = full at h
  split_ifs at h with hbig
  · cases h
  have hcase : full = 0 ∨ pos % 512 = 0 ∧ full * 512 ≤ buf.length := by
    rw [← hfull]
    unfold fullSectors MAX_BATCH_SECTORS
    split_ifs with hc
    · right
      exact ⟨hc.1, by omega⟩
    · exact .inl rfl
  have htake : (buf.take (full * 512)).length = full * 512 := by
    rw [length_take]
    omega
  have hrest : (buf.drop (full * 512)).length = buf.length - full * 512 := length_drop ..
  rw [writeMany_eq htake] at h
  obtain ⟨hdisk, hroom⟩ := writeLoop_spec (by omega) h
  have haddr : copyTo disk (s.block pos * 512) (buf.take (full * 512)) =
      copyTo disk (s.base + pos) (buf.take (full * 512)) := by
    obtain hzero | ⟨hoff, -⟩ := hcase
    · rw [hzero, Nat.zero_mul, take_zero, copyTo_nil, copyTo_nil]
    · rw [← block_add, hoff, Nat.add_zero]
  refine ⟨?_, fun _ => ?_⟩
  · calc disk' = copyTo (copyTo disk (s.base + pos) (buf.take (full * 512)))
            (s.base + pos + (buf.take (full * 512)).length) (buf.drop (full * 512)) := by
          rw [hdisk, haddr, htake, Nat.add_assoc]
      _ = copyTo disk (s.base + pos) buf := by rw [copyTo_append, take_append_drop]
  by_cases hmore : 0 < (buf.drop (full * 512)).length
  · have := hroom hmore
    omega
  · unfold block at hbig
    unfold room
    omega

/-- What a write leaves that succeeds: the gap is filled, the data stand behind it. -/
theorem writeData_ok [DecidableEq D] {k : D} {f : SfsFile}
    (hpos : 0 < buf.length) (h : (s.writeData k f buf).2 = .ok n) :
    f.position + buf.length ≤ s.room ∧ (s.writeData k f buf).1 = { s with
      disk := copyTo (copyTo s.disk (s.base + f.size) (List.replicate (f.position - f.size) 0))
        (s.base + f.position) buf
      entry_size := if max f.size f.position < f.position + buf.length then
        f.position + buf.length else s.entry_size
      fds := update s.fds k
        (some ⟨max f.size (f.position + buf.length), f.position + buf.length⟩) } := by
  unfold writeData at h ⊢
  have hgap : ∃ disk filled, (if f.size < f.position then
      s.gapFill f.position (f.position - f.size) s.disk f.size else (s.disk, true)) =
        (disk, filled) ∧ (filled = true → disk = copyTo s.disk (s.base + f.size)
          (List.replicate (f.position - f.size) 0)) := by
    split_ifs with hlt
    · refine ⟨_, _, rfl, fun hf => ?_⟩
      exact (gapFill_spec (Nat.le_refl _) (Prod.ext rfl hf)).1
    · refine ⟨_, _, rfl, fun _ => ?_⟩
      have hz : f.position - f.size = 0 := by omega
      rw [hz, replicate_zero, copyTo_nil]
  obtain ⟨disk, filled, heq, hdisk⟩ := hgap
  rw [heq] at h ⊢
  cases filled with
  | false => cases h
  | true =>
    have hgapped := hdisk rfl
    subst hgapped
    dsimp only at h ⊢
    rw [Bool.not_true, if_neg nofun] at h ⊢
    generalize hx : s.writeBytes _ f.position buf = x at h ⊢
    obtain ⟨disk', done⟩ := x
    cases done with
    | false => cases h
    | true =>
      obtain ⟨hbytes, hroom⟩ := writeBytes_spec hx
      subst hbytes
      refine ⟨hroom hpos, ?_⟩
      dsimp only
      rw [Bool.not_true, if_neg nofun]
      by_cases hgrow : max f.size f.position < f.position + buf.length
      · rw [if_pos hgrow, if_pos hgrow]
        have hmax : max f.size (f.position + buf.length) = f.position + buf.length := by omega
        rw [hmax]
        unfold setFd setDisk
        dsimp only
        rw [update_idem]
      rw [if_neg hgrow, if_neg hgrow]
      have hmax : max f.size (f.position + buf.length) = max f.size f.position := by omega
      rw [hmax]
      unfold setFd setDisk
      dsimp only
      rw [update_idem]

/-- The same of `sfsWrite`: the growth before it concerns the counters only. -/
theorem sfsWrite_ok [DecidableEq D] {k : D} {f : SfsFile}
    (hpos : 0 < buf.length) (h : (s.sfsWrite k f buf).2 = .ok n) :
    f.position + buf.length ≤ s.room ∧ ∃ next_free free, (s.sfsWrite k f buf).1 = { s with
      disk := copyTo (copyTo s.disk (s.base + f.size) (List.replicate (f.position - f.size) 0))
        (s.base + f.position) buf
      next_free_block := next_free
      free_blocks := free
      entry_size := if max f.size f.position < f.position + buf.length then
        f.position + buf.length else s.entry_size
      fds := update s.fds k
        (some ⟨max f.size (f.position + buf.length), f.position + buf.length⟩) } := by
  unfold sfsWrite at h ⊢
  dsimp only at h ⊢
  by_cases hbig : 2 ^ 32 ≤ (f.position + buf.length + 511) / 512
  · rw [if_pos hbig] at h
    cases h
  rw [if_neg hbig] at h ⊢
  by_cases hgrow : blocks f.size < (f.position + buf.length + 511) / 512
  · rw [if_pos hgrow] at h ⊢
    by_cases hrefuse : s.refusesGrowth f ((f.position + buf.length + 511) / 512) = true
    · rw [if_pos hrefuse] at h
      cases h
    · rw [if_neg hrefuse] at h ⊢
      obtain ⟨hroom, heq⟩ := writeData_ok hpos h
      exact ⟨hroom, _, _, heq⟩
  · rw [if_neg hgrow] at h ⊢
    obtain ⟨hroom, heq⟩ := writeData_ok hpos h
    exact ⟨hroom, _, _, heq⟩

end FileData

/-! ## 3. The file and its reference -/

structure Contents {D : Type} (s : FileData D) : Prop where
  size : s.entry_size = s.reference.size
  bytes : ∀ i, i < s.reference.size → s.disk (s.base + i) = s.reference.byte i
  /-- Where nothing was written there are zeros. -/
  beyond : ∀ i, s.reference.size ≤ i → s.reference.byte i = 0
  fits : s.reference.size ≤ s.room
  /-- No descriptor has a size that the file never had. -/
  behind : ∀ k f, s.fds k = some f → f.size ≤ s.entry_size

/-- The size of the descriptor is good enough: it is that of the file, or the call does not come to
    the difference. -/
def CurrentRead (size : Nat) (f : SfsFile) (len : Nat) : Prop :=
  size ≤ max f.size f.position ∨ f.position + len ≤ f.size

def CurrentWrite (size : Nat) (f : SfsFile) (len : Nat) : Prop :=
  f.size = size ∨ f.position ≤ f.size ∧ (f.position + len ≤ f.size ∨ size ≤ f.position + len)

namespace Contents

variable {D : Type} {s : FileData D} [DecidableEq D] {k : D} {f : SfsFile}

/-- A descriptor changes: nothing else does. -/
theorem setFd (h : Contents s) (hf : f.size ≤ s.entry_size) : Contents (s.setFd k f) where
  size := h.size
  bytes := h.bytes
  beyond := h.beyond
  fits := h.fits
  behind j g hg := by
    change update s.fds k (some f) j = some g at hg
    by_cases e : j = k
    · rw [e, update_self] at hg
      cases hg
      exact hf
    · rw [update_of_ne e] at hg
      exact h.behind j g hg

/-- A read keeps the file, and gives what it should. -/
theorem sfsRead (h : Contents s) (hk : s.fds k = some f) (len : Nat) (alloc : Bool)
    (hc : CurrentRead s.entry_size f len) : Contents (s.sfsRead k f len alloc).1 ∧
      ((s.sfsRead k f len alloc).2 = .ok (s.reference.read f.position len) ∨
        (s.sfsRead k f len alloc).2 = .error .ENOMEM) := by
  have hbehind := h.behind k f hk
  have hsize := h.size
  have hfits := h.fits
  have hrefresh : s.refreshSizeFromDisk = some s.entry_size := by
    unfold FileData.refreshSizeFromDisk
    unfold FileData.room at hfits
    rw [if_neg]
    have hle : (s.total_blocks - s.start_block) * 512 ≤ s.total_blocks * 512 :=
      Nat.mul_le_mul_right _ (Nat.sub_le ..)
    omega
  have hfresh : FileData.refreshed f s.entry_size = f := if_neg (by omega)
  unfold FileData.sfsRead
  rw [hrefresh]
  dsimp only
  rw [hfresh]
  unfold CurrentRead at hc
  by_cases hend : f.size ≤ f.position
  · rw [if_pos hend]
    refine ⟨h.setFd hbehind, .inl ?_⟩
    unfold RefFile.read
    have hzero : min len (s.reference.size - f.position) = 0 := by omega
    rw [hzero]
    rfl
  rw [if_neg hend]
  have hlen : min len (f.size - f.position) = min len (s.reference.size - f.position) := by omega
  have hbytes : copyFrom s.disk (s.base + f.position) (min len (f.size - f.position)) =
      s.reference.read f.position len := by
    unfold RefFile.read
    rw [hlen]
    unfold copyFrom
    refine map_congr_left fun i hi => ?_
    have hi := mem_range.1 hi
    rw [Nat.add_assoc]
    exact h.bytes _ (by omega)
  have hdata := FileData.readData_eq (s := s.setFd k f) (f := f)
    (n := min len (f.size - f.position)) (by omega) (by omega)
    (Nat.le_trans (hsize ▸ hbehind) hfits) alloc
  obtain hdata | hdata := hdata
  · rw [hdata]
    refine ⟨(h.setFd hbehind).setFd hbehind, .inl ?_⟩
    exact congrArg Except.ok hbytes
  · rw [hdata]
    exact ⟨h.setFd hbehind, .inr rfl⟩

/-- A write that succeeds writes the file and its reference alike. -/
theorem sfsWrite (h : Contents s) (hk : s.fds k = some f)
    (hpos : 0 < buf.length) (hok : (s.sfsWrite k f buf).2 = .ok n)
    (hc : CurrentWrite s.entry_size f buf.length) :
    Contents (s.recordWrite (s.sfsWrite k f buf) f.position buf) := by
  have hbehind := h.behind k f hk
  obtain ⟨hroom, next_free, free, heq⟩ := sfsWrite_ok hpos hok
  unfold recordWrite
  rw [hok]
  dsimp only
  rw [heq]
  unfold CurrentWrite at hc
  have hnew : (if max f.size f.position < f.position + buf.length then f.position + buf.length
      else s.entry_size) = max s.entry_size (f.position + buf.length) := by
    split_ifs with hgrow
    · omega
    · omega
  have hsize := h.size
  have hfits := h.fits
  rw [hnew]
  exact {
    size := by
      change max s.entry_size _ = max s.reference.size _
      rw [hsize]
    bytes := fun i hi => by
      change i < max s.reference.size (f.position + buf.length) at hi
      refine copyTo_shift s.base (n := max s.reference.size (f.position + buf.length)) ?_ hi
      intro i hi hout
      by_cases hgap : f.size ≤ i ∧ i < f.position
      · -- in the gap, which begins at the end of the file
        obtain ⟨j, rfl⟩ := Nat.exists_eq_add_of_le hgap.1
        have hj : j < (List.replicate (f.position - f.size) (0 : UInt8)).length := by
          rw [length_replicate]
          omega
        rw [← Nat.add_assoc, copyTo_add hj, getElem_replicate]
        exact (h.beyond _ (by omega)).symm
      have hold : copyTo s.disk (s.base + f.size) (List.replicate (f.position - f.size) 0)
          (s.base + i) = s.disk (s.base + i) := by
        by_cases hlt : i < f.size
        · exact copyTo_of_lt (by omega)
        · refine copyTo_of_ge ?_
          rw [length_replicate]
          omega
      rw [hold]
      exact h.bytes i (by omega)
    beyond := fun i hi => by
      change max s.reference.size (f.position + buf.length) ≤ i at hi
      refine (copyTo_of_ge (by omega)).trans (h.beyond i (by omega))
    fits := by
      change max s.reference.size (f.position + buf.length) ≤ s.room
      omega
    behind := fun j g hg => by
      change update s.fds k _ j = some g at hg
      change g.size ≤ max s.entry_size (f.position + buf.length)
      by_cases e : j = k
      · rw [e, update_self] at hg
        cases hg
        change max f.size _ ≤ _
        omega
      · rw [update_of_ne e] at hg
        exact Nat.le_trans (h.behind j g hg) (Nat.le_max_left ..) }

end Contents

/-! ## 4. Runs -/

/-- What the file system satisfies: each read gave what the reference gives, or found no memory, and
    both ways to read agree. -/
structure ContentsLaw {D : Type} (s : FileData D) : Prop where
  reads : ∀ x ∈ s.reads, x.1 = .ok x.2 ∨ x.1 = .error .ENOMEM
  paths : ∀ pos n file_blocks, pos + n ≤ s.room → pos + n ≤ file_blocks * 512 →
    s.readLoop file_blocks n pos n = .ok (s.readBatch pos n)

variable {D : Type} [DecidableEq D]

/-- A write of the run succeeds. -/
def Successful (s : FileData D) : DataInput D → Prop
  | .write k buf => ∀ f, s.fds k = some f → buf ≠ [] → ∃ n, (s.sfsWrite k f buf).2 = .ok n
  | _ => True

/-- The descriptor of a call is current. -/
def Current (s : FileData D) : DataInput D → Prop
  | .read k len _ => ∀ f, s.fds k = some f → CurrentRead s.entry_size f len
  | .write k buf => ∀ f, s.fds k = some f → buf ≠ [] → CurrentWrite s.entry_size f buf.length
  | _ => True

/-- **Every step keeps the file**, and the reads give what they should. -/
theorem Contents.step {s : FileData D} (h : Contents s)
    (hreads : ∀ x ∈ s.reads, x.1 = .ok x.2 ∨ x.1 = .error .ENOMEM) {i : DataInput D}
    (hok : Successful s i) (hc : Current s i) : Contents (dataStep s i) ∧
      ∀ x ∈ (dataStep s i).reads, x.1 = .ok x.2 ∨ x.1 = .error .ENOMEM := by
  cases i with
  | «open» k append =>
    unfold dataStep
    dsimp only
    cases hk : s.fds k with
    | none => exact ⟨h.setFd (Nat.le_refl _), hreads⟩
    | some f => exact ⟨h, hreads⟩
  | close k =>
    refine ⟨⟨h.size, h.bytes, h.beyond, h.fits, ?_⟩, hreads⟩
    intro j g hg
    change update s.fds k none j = some g at hg
    by_cases e : j = k
    · rw [e, update_self] at hg
      cases hg
    · rw [update_of_ne e] at hg
      exact h.behind j g hg
  | seek k pos =>
    unfold dataStep
    dsimp only
    cases hk : s.fds k with
    | none => exact ⟨h, hreads⟩
    | some f =>
      dsimp only
      split_ifs
      · exact ⟨h.setFd (h.behind k f hk), hreads⟩
      · exact ⟨h, hreads⟩
  | read k len alloc =>
    unfold dataStep
    dsimp only
    cases hk : s.fds k with
    | none => exact ⟨h, hreads⟩
    | some f =>
      obtain ⟨hx, hresult⟩ := h.sfsRead hk len alloc (hc f hk)
      refine ⟨⟨hx.size, hx.bytes, hx.beyond, hx.fits, hx.behind⟩, ?_⟩
      intro x hmem
      obtain hmem | hmem := mem_append.1 hmem
      · exact hreads x hmem
      · rw [mem_singleton.1 hmem]
        exact hresult
  | write k buf =>
    unfold dataStep
    dsimp only
    cases hk : s.fds k with
    | none => exact ⟨h, hreads⟩
    | some f =>
      dsimp only
      split_ifs with hnil
      · exact ⟨h, hreads⟩
      obtain ⟨n, hn⟩ := hok f hk hnil
      have hpos : 0 < buf.length := length_pos_iff.2 hnil
      refine ⟨h.sfsWrite hk hpos hn (hc f hk hnil), ?_⟩
      obtain ⟨-, next_free, free, heq⟩ := sfsWrite_ok hpos hn
      unfold recordWrite
      rw [hn]
      dsimp only
      rw [heq]
      exact hreads

theorem Contents.start {s : FileData D} (h : (dataMachine D).start s) : Contents s := by
  obtain ⟨hstart, hfits, hno, -, href⟩ := h
  refine ⟨?_, ?_, ?_, ?_, ?_⟩
  · rw [href]
  · intro i hi
    rw [href] at hi ⊢
    exact (if_pos hi).symm
  · intro i hi
    rw [href] at hi ⊢
    exact if_neg (Nat.not_lt_of_le hi)
  · rw [href]
    exact hfits
  · intro k f hf
    rw [hno] at hf
    cases hf

/-- **What is read from a file is what was written to it**, in every run of successful writes and
    reads through descriptors that are current. -/
theorem sfsContents (s : FileData D)
    (hs : (dataMachine D).Reach (fun s i => Successful s i ∧ Current s i) s) : ContentsLaw s := by
  have hinv : Contents s ∧ ∀ x ∈ s.reads, x.1 = .ok x.2 ∨ x.1 = .error .ENOMEM := by
    refine Machine.Reach.invariant (I := fun s : FileData D =>
      Contents s ∧ ∀ x ∈ s.reads, x.1 = .ok x.2 ∨ x.1 = .error .ENOMEM) ?_ ?_ hs
    · intro s h
      refine ⟨Contents.start h, ?_⟩
      rw [h.2.2.2.1]
      exact fun x hx => nomatch hx
    · exact fun s i _ h hc => h.1.step h.2 hc.1 hc.2
  refine ⟨hinv.2, fun pos n file_blocks hroom hfb => ?_⟩
  rw [readLoop_eq hroom hfb (Nat.le_refl n), readBatch_eq]

/-- An empty file at the beginning of the data of a new volume. -/
def emptyFile : FileData Bool where
  disk _ := 0
  total_blocks := 32768
  next_free_block := 22
  free_blocks := 32746
  start_block := 21
  entry_size := 0
  fds _ := none
  reference := ⟨0, fun i => if i < 0 then 0 else 0⟩

theorem emptyFile_start : (dataMachine Bool).start emptyFile :=
  ⟨by decide, by decide, fun _ => rfl, rfl, rfl⟩

/-- Three bytes, one more behind a gap, and all of them read. -/
def writeGapRead : List (DataInput Bool) :=
  [.open true false, .write true [1, 2, 3], .seek true 5, .write true [4], .seek true 0,
    .read true 10 true]

theorem writeGapRead_current : (dataMachine Bool).Along
    (fun s i => Successful s i ∧ Current s i) emptyFile writeGapRead := by
  refine ⟨⟨trivial, trivial⟩, ⟨?_, ?_⟩, ⟨trivial, trivial⟩, ⟨?_, ?_⟩, ⟨trivial, trivial⟩,
    ⟨trivial, ?_⟩, trivial⟩
  · intro f hf _
    cases hf
    exact ⟨3, rfl⟩
  · intro f hf _
    cases hf
    exact .inl rfl
  · intro f hf _
    cases hf
    exact ⟨1, rfl⟩
  · intro f hf _
    cases hf
    exact .inl rfl
  · intro f hf
    cases hf
    exact .inl (by decide +kernel)

theorem sfsContents_gap : ∃ s : FileData Bool, ContentsLaw s ∧
    s.reads.map Prod.snd = [[1, 2, 3, 0, 0, 4]] := by
  refine ⟨(dataMachine Bool).exec emptyFile writeGapRead,
    sfsContents _ ((Machine.Reach.start emptyFile_start).exec writeGapRead_current), ?_⟩
  decide +kernel

/-- A second descriptor of the file keeps the size from before the write. -/
def writeReadOther : List (DataInput Bool) :=
  [.open true false, .open false false, .write true [1, 2, 3], .read false 3 true]

theorem sfsContents_refuted : ¬∀ s : FileData Bool,
    (dataMachine Bool).Reach Successful s → ContentsLaw s := by
  intro h
  have hrun : (dataMachine Bool).Along Successful emptyFile writeReadOther := by
    refine ⟨trivial, trivial, ?_, trivial, trivial⟩
    intro f hf _
    cases hf
    exact ⟨3, rfl⟩
  have hlaw := h _ ((Machine.Reach.start emptyFile_start).exec hrun)
  have hread := hlaw.reads (.ok [], [1, 2, 3]) (mem_singleton.2 rfl)
  obtain hread | hread := hread
  · cases hread
  · cases hread

end Zigk.SfsData
