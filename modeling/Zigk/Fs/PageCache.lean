/-
  Subject:   THE PAGE CACHE (kernel/fs/page_cache.zig), from one section under its lock to the next.

  * `PageCache` -- the pages by address, the chains of the hash table, the calls in progress, and
    the arrays of references that callers have;
  * `lookupLocked`, `insertLocked`, `evictOneLocked`, `invalidate` -- the sections;
  * `getStep`, `aheadStep`, `writeStep` -- `getPages`, `readAhead` and `writeback`, which leave the
    lock for I/O; `releasePages` and `undo` drop references one by one, without the lock.

  An address may be used again as soon as its page is freed. `ref_count` is a `u32`; a reference is
  an element of an array on the kernel heap or a thread in `writeback`, so that the 2^32 it takes to
  wrap do not fit, and a `Nat` stands for it. Left out: which bytes of a page a reference covers,
  `fd.lock` and `fd.position`, the log.
-/
import Mathlib.Algebra.Ring.Nat
import Mathlib.Data.List.FinRange
import Zigk.Base.Machine

namespace Zigk.Pages

open Function

def PAGE_SIZE : Nat := 4096

def HASH_BUCKETS : Nat := 256

def MAX_CACHED_PAGES : Nat := 1024

abbrev Bucket := Fin HASH_BUCKETS

/-! ## 1. Pages and calls -/

/-- `D` is what a page can contain; `default` is the page that is all zeros. -/
structure CachedPage (D : Type) where
  data : D
  fileId : UInt64
  pageOffset : UInt64
  refCount : Nat
  dirty : Bool
  valid : Bool
  deriving DecidableEq

/-- The arguments of `getPages`; of `read_fn` and `fd` only whether they are there. -/
structure Request where
  fileId : UInt64
  offset : UInt64
  len : UInt64
  readFn : Bool
  fd : Bool
  deriving DecidableEq, Repr

namespace Request

variable (g : Request)

def startPage : Nat := g.offset.toNat / PAGE_SIZE

def endByte : Nat := g.offset.toNat + g.len.toNat

/-- The last page, inclusive. -/
def endPage : Nat := if g.endByte = 0 then 0 else (g.endByte - 1) / PAGE_SIZE

def numPages : Nat := g.endPage - g.startPage + 1

/-- `page_idx` in the `i`-th round. -/
def page (i : Nat) : UInt64 := UInt64.ofNat (g.startPage + i)

/-- `next_page_idx`, for the read-ahead. -/
def nextPage : UInt64 := UInt64.ofNat (g.endPage + 1)

end Request

/-- Where a round of `getPages`, or a `readAhead`, stands: before the lookup, before room is made,
    before the allocation, and with a new page before it is populated and before it is inserted. -/
inductive GetStep (P : Type) where
  | look
  | room
  | alloc
  | populate (p : P)
  | insert (p : P)

/-- Where a round of `writeback` stands: before the scan of the bucket, and with a dirty page before
    it is written, before its flag is cleared, and before the reference is dropped. -/
inductive WriteStep (P : Type) where
  | find
  | write (p : P)
  | clear (p : P)
  | unref (p : P)

/-- A call in progress. -/
inductive PageCall (P : Type) where
  /-- `getPages`, with the references filled in so far, and whether a page was missed. -/
  | get (g : Request) (refs : List P) (missed : Bool) (step : GetStep P)
  /-- `getPages` in its `readAhead`. -/
  | ahead (g : Request) (refs : List P) (step : GetStep P)
  /-- `getPages` that fails, with the references that it still has to drop. -/
  | undo (refs : List P)
  | release (refs : List P)
  | writeback (fileId : UInt64) (bucket : Nat) (step : WriteStep P)

structure PageCache (T P D : Type) where
  page : P → Option (CachedPage D) := fun _ => none
  buckets : Bucket → List P := fun _ => []
  totalPages : Nat := 0
  calls : T → Option (PageCall P) := fun _ => none
  /-- The arrays that `getPages` returned and that were not released yet. -/
  held : List (List P) := []
  /-- History: what `write_fn` was called with. -/
  written : List (UInt64 × UInt64 × D) := []

def hash (fileId pageOffset : UInt64) : Bucket :=
  ⟨((fileId * 0x9E3779B97F4A7C15) ^^^ (pageOffset * 0x517CC1B727220A95)).toNat % HASH_BUCKETS,
    Nat.mod_lt _ (by decide)⟩

namespace PageCache

variable {T P D : Type} [DecidableEq T] [DecidableEq P] (s : PageCache T P D)

/-! ## 2. Sections under the lock -/

def setPage (p : P) (c : Option (CachedPage D)) : PageCache T P D :=
  { s with page := update s.page p c }

def modify (p : P) (f : CachedPage D → CachedPage D) : PageCache T P D :=
  s.setPage p ((s.page p).map f)

def ref (p : P) : PageCache T P D := s.modify p fun c => { c with refCount := c.refCount + 1 }

/-- Of a count that is zero already, `releasePages` leaves zero. -/
def unref (p : P) : PageCache T P D := s.modify p fun c => { c with refCount := c.refCount - 1 }

/-- The physical page and the `CachedPage` are freed. -/
def free (p : P) : PageCache T P D := s.setPage p none

def setCall (t : T) (c : Option (PageCall P)) : PageCache T P D :=
  { s with calls := update s.calls t c }

/-- The page is that part of the file. -/
def isPage (fileId pageOffset : UInt64) (p : P) : Bool :=
  (s.page p).any fun c => c.fileId = fileId && c.pageOffset = pageOffset

def lookupLocked (fileId pageOffset : UInt64) : Option P :=
  (s.buckets (hash fileId pageOffset)).find? (s.isPage fileId pageOffset)

def insertLocked (p : P) : PageCache T P D :=
  match s.page p with
  | none => s
  | some c =>
    { s with
      buckets := update s.buckets (hash c.fileId c.pageOffset)
        (p :: s.buckets (hash c.fileId c.pageOffset))
      totalPages := s.totalPages + 1 }

/-- The page is taken out of its chain and freed. -/
def drop (b : Bucket) (p : P) : PageCache T P D :=
  { s with
    buckets := update s.buckets b ((s.buckets b).erase p)
    totalPages := s.totalPages - 1 }.free p

def evictable (p : P) : Bool := (s.page p).any fun c => c.refCount = 0 && !c.dirty

/-- The first page of the buckets that can go. -/
def victim : List Bucket → Option (Bucket × P)
  | [] => none
  | b :: l =>
    match (s.buckets b).find? s.evictable with
    | some p => some (b, p)
    | none => victim l

def evictOneLocked : Option (PageCache T P D) :=
  match s.victim (List.finRange HASH_BUCKETS) with
  | some (b, p) => some (s.drop b p)
  | none => none

/-- Pages are evicted until there is room, or none can be. -/
def makeRoom (s : PageCache T P D) : PageCache T P D × Bool :=
  if _h : s.totalPages ≥ MAX_CACHED_PAGES then
    match s.victim (List.finRange HASH_BUCKETS) with
    | some (b, p) => (s.drop b p).makeRoom
    | none => (s, false)
  else (s, true)
termination_by s.totalPages
decreasing_by
  have hm : MAX_CACHED_PAGES = 1024 := rfl
  show s.totalPages - 1 < s.totalPages
  omega

def isFile (fileId : UInt64) (p : P) : Bool := (s.page p).any fun c => c.fileId = fileId

def unreferenced (p : P) : Bool := (s.page p).any fun c => c.refCount = 0

/-- One chain of `invalidate`: the pages of the file that have no reference are unlinked and freed,
    the others are marked. -/
def invalidateBucket (fileId : UInt64) (b : Bucket) : PageCache T P D :=
  let gone := fun p => s.isFile fileId p && s.unreferenced p
  { s with
    buckets := update s.buckets b ((s.buckets b).filter fun p => !gone p)
    totalPages := s.totalPages - ((s.buckets b).filter gone).length
    page := fun p =>
      if p ∈ s.buckets b ∧ s.isFile fileId p then
        if s.unreferenced p then none else (s.page p).map fun c => { c with valid := false }
      else s.page p }

def invalidate (fileId : UInt64) : PageCache T P D :=
  (List.finRange HASH_BUCKETS).foldl (fun s b => s.invalidateBucket fileId b) s

/-! ## 3. Allocation and I/O, outside the lock -/

/-- A new page at an address that the heap gave, if it gave one. -/
def allocatePage [Inhabited D] (fileId pageOffset : UInt64) (mem : Option P) :
    Option (P × PageCache T P D) :=
  match mem with
  | none => none
  | some p =>
    if (s.page p).isSome then none
    else some (p, s.setPage p (some
      { data := default, fileId := fileId, pageOffset := pageOffset, refCount := 1,
        dirty := false, valid := false }))

/-- `populatePage`: what `read_fn` put into the page, if it read anything. -/
def populatePage (p : P) (read : Option D) : PageCache T P D :=
  s.modify p fun c =>
    if c.pageOffset.toNat * PAGE_SIZE ≥ 2 ^ 64 then c
    else { c with data := read.getD c.data, valid := true }

/-! ## 4. Calls -/

/-- `getPages` is done. -/
def finish (t : T) (refs : List P) : PageCache T P D :=
  { s.setCall t none with held := refs :: s.held }

/-- The next round of `getPages`, its `readAhead`, or its end. -/
def advance (t : T) (g : Request) (refs : List P) (missed : Bool) : PageCache T P D :=
  if refs.length < g.numPages then s.setCall t (some (.get g refs missed .look))
  else if missed && g.readFn && g.fd then s.setCall t (some (.ahead g refs .look))
  else s.finish t refs

/-- A step of a round of `getPages`; `mem` and `read` are the answers of the heap and of
    `read_fn`. -/
def getStep [Inhabited D] (t : T) (g : Request) (refs : List P) (missed : Bool) (mem : Option P)
    (read : Option D) : GetStep P → PageCache T P D
  | .look =>
    match s.lookupLocked g.fileId (g.page refs.length) with
    | some p => (s.ref p).advance t g (refs ++ [p]) missed
    | none => s.setCall t (some (.get g refs true .room))
  | .room =>
    match s.makeRoom with
    | (s, true) => s.setCall t (some (.get g refs true .alloc))
    | (s, false) => s.setCall t (some (.undo refs))
  | .alloc =>
    match s.allocatePage g.fileId (g.page refs.length) mem with
    | some (p, s) => s.setCall t (some (.get g refs true (.populate p)))
    | none => s.setCall t (some (.undo refs))
  | .populate p =>
    (if g.readFn then if g.fd then s.populatePage p read else s
      else s.modify p fun c => { c with valid := true }).setCall t
        (some (.get g refs true (.insert p)))
  | .insert p =>
    match s.lookupLocked g.fileId (g.page refs.length) with
    | some e => ((s.ref e).free p).advance t g (refs ++ [e]) true
    | none => (s.insertLocked p).advance t g (refs ++ [p]) true

/-- A step of `readAhead`. -/
def aheadStep [Inhabited D] (t : T) (g : Request) (refs : List P) (mem : Option P)
    (read : Option D) : GetStep P → PageCache T P D
  | .look =>
    if (s.lookupLocked g.fileId g.nextPage).isSome then s.finish t refs
    else if s.totalPages ≥ MAX_CACHED_PAGES then s.finish t refs
    else s.setCall t (some (.ahead g refs .alloc))
  | .room => s
  | .alloc =>
    match s.allocatePage g.fileId g.nextPage mem with
    | some (p, s) => s.setCall t (some (.ahead g refs (.populate p)))
    | none => s.finish t refs
  | .populate p => (s.populatePage p read).setCall t (some (.ahead g refs (.insert p)))
  | .insert p =>
    match s.lookupLocked g.fileId g.nextPage with
    | some _ => (s.free p).finish t refs
    | none => ((s.unref p).insertLocked p).finish t refs

/-- The next reference of a list is dropped. -/
def dropNext (t : T) (rest : List P → PageCall P) : List P → PageCache T P D
  | [] => s.setCall t none
  | p :: refs => (s.unref p).setCall t (some (rest refs))

def isDirty (fileId : UInt64) (p : P) : Bool :=
  (s.page p).any fun c => c.fileId = fileId && c.dirty

/-- A step of `writeback` in a bucket. -/
def writeStep (t : T) (fileId : UInt64) (bucket : Nat) : WriteStep P → PageCache T P D
  | .find =>
    if h : bucket < HASH_BUCKETS then
      match (s.buckets ⟨bucket, h⟩).find? (s.isDirty fileId) with
      | some p => (s.ref p).setCall t (some (.writeback fileId bucket (.write p)))
      | none => s.setCall t (some (.writeback fileId (bucket + 1) .find))
    else s.setCall t none
  | .write p =>
    match s.page p with
    | none => s.setCall t none
    | some c =>
      if c.pageOffset.toNat * PAGE_SIZE ≥ 2 ^ 64 then
        (s.unref p).setCall t (some (.writeback fileId (bucket + 1) .find))
      else
        { s.setCall t (some (.writeback fileId bucket (.clear p))) with
          written := (c.fileId, c.pageOffset, c.data) :: s.written }
  | .clear p =>
    (s.modify p fun c => { c with dirty := false }).setCall t
      (some (.writeback fileId bucket (.unref p)))
  | .unref p => (s.unref p).setCall t (some (.writeback fileId bucket .find))

def nextStep [Inhabited D] (t : T) (mem : Option P) (read : Option D) :
    PageCall P → PageCache T P D
  | .get g refs missed step => s.getStep t g refs missed mem read step
  | .ahead g refs step => s.aheadStep t g refs mem read step
  | .undo refs => s.dropNext t .undo refs
  | .release refs => s.dropNext t .release refs
  | .writeback fileId bucket step => s.writeStep t fileId bucket step

def idle (t : T) : Bool := (s.calls t).isNone

/-- `getPages`, up to its first round: `granted` tells whether the heap has room for the array. -/
def getPages (t : T) (g : Request) (granted : Bool) : PageCache T P D :=
  if g.len = 0 then s.finish t []
  else if g.endByte ≥ 2 ^ 64 then s
  else if granted then s.setCall t (some (.get g [] false .look))
  else s

/-- `releasePages` of an array that some caller has. -/
def releasePages (t : T) (k : Nat) : PageCache T P D :=
  match s.held[k]? with
  | none => s
  | some refs => { s.setCall t (some (.release refs)) with held := s.held.eraseIdx k }

/-- A holder of a reference writes into the page and calls `markDirty`. -/
def markDirty (p : P) (data : D) : PageCache T P D :=
  if s.held.any fun refs => p ∈ refs then s.modify p fun c => { c with data := data, dirty := true }
  else s

end PageCache

/-! ## 5. Runs -/

inductive PageInput (T P D : Type) where
  | getPages (t : T) (g : Request) (granted : Bool)
  | releasePages (t : T) (k : Nat)
  | markDirty (p : P) (data : D)
  | writeback (t : T) (fileId : UInt64)
  | invalidate (fileId : UInt64)
  | next (t : T) (mem : Option P) (read : Option D)

section Machine

variable {T P D : Type} [DecidableEq T] [DecidableEq P] [Inhabited D]

def pageStep (s : PageCache T P D) : PageInput T P D → PageCache T P D
  | .getPages t g granted => if s.idle t then s.getPages t g granted else s
  | .releasePages t k => if s.idle t then s.releasePages t k else s
  | .markDirty p data => s.markDirty p data
  | .writeback t fileId =>
    if s.idle t then s.setCall t (some (.writeback fileId 0 .find)) else s
  | .invalidate fileId => s.invalidate fileId
  | .next t mem read =>
    match s.calls t with
    | some c => s.nextStep t mem read c
    | none => s

/-- The cache is empty at the start. -/
def pageCache (T P D : Type) [DecidableEq T] [DecidableEq P] [Inhabited D] :
    Machine (PageCache T P D) (PageInput T P D) where
  start s := s = {}
  step := pageStep

end Machine

end Zigk.Pages
