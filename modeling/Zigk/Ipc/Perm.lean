/-
  Subject:   SYSTEM V IPC: permissions, ids and results, as the three services share them.

  * `IpcPerm`, `checkAccess`, `isOwnerOrCreator`, `makeId`, `idToIndex`, `idToSeq` -- ipc_perm.zig;
    `idToIndex_makeId`, `idToSeq_makeId`;
  * `IpcError`, `Attempt` -- what one pass through the lock of a service ends with.
-/
import Mathlib.Data.BitVec
import Zigk.Base.Checked

namespace Zigk.Ipc

structure IpcPerm where
  key : BitVec 32
  cuid : BitVec 32
  cgid : BitVec 32
  uid : BitVec 32
  gid : BitVec 32
  mode : BitVec 16
  seq : BitVec 16
  deriving DecidableEq, Repr

inductive AccessMode where
  | read | write
  deriving DecidableEq, Repr

/-- Who calls. -/
structure Cred where
  pid : BitVec 32
  euid : BitVec 32
  egid : BitVec 32
  deriving DecidableEq, Repr

def root : Cred := ⟨1, 0, 0⟩

def checkAccess (perm : IpcPerm) (proc : Cred) (mode : AccessMode) : Bool :=
  let granted (read write : BitVec 16) : Bool :=
    perm.mode &&& (if mode = .read then read else write) ≠ 0
  if proc.euid = 0 then true
  else if proc.euid = perm.uid then granted 0o400#16 0o200#16
  else if proc.egid = perm.gid then granted 0o040#16 0o020#16
  else granted 0o004#16 0o002#16

def isOwnerOrCreator (perm : IpcPerm) (euid : BitVec 32) : Bool :=
  euid = 0 || euid = perm.uid || euid = perm.cuid

/-- The slot and the sequence number of the object in it. -/
def makeId (index : Nat) (seq : BitVec 16) : BitVec 32 :=
  BitVec.ofNat 32 (index * 65536) ||| seq.setWidth 32

def idToIndex (id : BitVec 32) : Nat := id.toNat / 65536

def idToSeq (id : BitVec 32) : BitVec 16 := id.setWidth 16

inductive IpcError where
  | EINVAL | EIDRM | EFBIG | EACCES | EAGAIN | EEXIST | ENOENT | ENOSPC | ENOMEM | EPERM | EFAULT
  | ERANGE | E2BIG | ENOMSG
  deriving DecidableEq, Repr

/-- One pass through the lock: a result, an error, a wait in the queue of the object, or a stop of
    the kernel. -/
inductive Attempt (α : Type) where
  | done (a : α)
  | error (e : IpcError)
  | blocked
  | trap (t : Trap)
  deriving DecidableEq, Repr

/-- How many threads of a wait queue are woken. -/
inductive Wake where
  | nobody | first | everybody
  deriving DecidableEq, Repr

/-- The threads that leave the queue, and those that stay. -/
def Wake.split {α : Type} : Wake → List α → List α × List α
  | .nobody, l => ([], l)
  | .first, l => (l.take 1, l.drop 1)
  | .everybody, l => (l, [])

def IPC_CREAT : BitVec 32 := 0o1000#32
def IPC_EXCL : BitVec 32 := 0o2000#32
def IPC_PRIVATE : BitVec 32 := 0

theorem makeId_eq {index : Nat} (h : index < 65536) (seq : BitVec 16) :
    (makeId index seq).toNat = index * 65536 + seq.toNat := by
  have hs := seq.isLt
  have hi : (BitVec.ofNat 32 (index * 65536)).toNat = index * 2 ^ 16 := by
    rw [BitVec.toNat_ofNat, Nat.mod_eq_of_lt (by omega)]
    rfl
  rw [makeId, BitVec.toNat_or, hi, BitVec.toNat_setWidth, Nat.mod_eq_of_lt (by omega),
    Nat.mul_comm index, ← Nat.two_pow_add_eq_or_of_lt hs, Nat.mul_comm]

/-- **An id names its slot and its sequence number.** -/
theorem idToIndex_makeId {index : Nat} (h : index < 65536) (seq : BitVec 16) :
    idToIndex (makeId index seq) = index := by
  have hs := seq.isLt
  rw [idToIndex, makeId_eq h]
  omega

theorem idToSeq_makeId {index : Nat} (h : index < 65536) (seq : BitVec 16) :
    idToSeq (makeId index seq) = seq := by
  have hs := seq.isLt
  refine BitVec.eq_of_toNat_eq ?_
  rw [idToSeq, BitVec.toNat_setWidth, makeId_eq h]
  omega

end Zigk.Ipc
