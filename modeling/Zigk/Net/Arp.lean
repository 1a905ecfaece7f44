/-
  Subject:   THE ARP TABLE: entries in a growable array, linked by address into hash chains.

  * `ArpCache` -- the array with the block of memory it lies in, the heads of the chains, the count
    of incomplete entries, and what the allocator and the interface saw of the packet buffers;
  * `findEntry`, `hashTableInsert`, `hashTableRemove` -- the chains; a pointer into a block that was
    given back is a fault where it is followed;
  * `chooseSlot`, `findFreeEntry` -- which entry is recycled, and that the array grows;
  * `updateCache`, `processPacket`, `resolveOrRequest`, `addStaticEntry`, `removeStaticEntry`,
    `ageCache`, `clearCache` -- the operations, each a section under the lock.
-/
import Zigk.Base.Bytes
import Zigk.Base.Machine

namespace Zigk.Net

open Function
open Bytes (byteAt be16 be32)

/-! ## 1. Entries -/

abbrev Ip := BitVec 32

abbrev Mac := Vector UInt8 6

inductive ArpState where
  | free
  | incomplete
  | reachable
  | stale
  deriving DecidableEq, Repr

/-- A pointer to an element of the array: its block of memory, and its place there. -/
structure EntryPtr where
  base : Nat
  index : Nat
  deriving DecidableEq, Repr

/-- A buffer from the allocator. -/
structure PktBuf where
  id : Nat
  data : List UInt8
  deriving DecidableEq, Repr

def QUEUE_SIZE : Nat := 4

def ZERO_MAC : Mac := Vector.replicate 6 0

def BROADCAST_MAC : Mac := Vector.replicate 6 0xFF

structure ArpEntry where
  ipAddr : Ip := 0
  macAddr : Mac := ZERO_MAC
  state : ArpState := .free
  timestamp : BitVec 64 := 0
  retries : Nat := 0
  /-- The ring of packets that wait for the address, in the places below `QUEUE_SIZE`. -/
  pendingPkts : Nat → Option PktBuf := fun _ => none
  pendingLens : Nat → Nat := fun _ => 0
  queueHead : Nat := 0
  queueTail : Nat := 0
  queueCount : Nat := 0
  expectedReplyMac : Mac := ZERO_MAC
  hasReceivedReply : Bool := false
  conflictDetected : Bool := false
  conflictTime : BitVec 64 := 0
  conflictCount : Nat := 0
  generation : BitVec 32 := 0
  isStatic : Bool := false
  hashNext : Option EntryPtr := none

def ARP_TIMEOUT : BitVec 64 := 1200

def ARP_MAX_RETRIES : Nat := 3

def ARP_UPDATE_RATE_LIMIT : BitVec 64 := 100

def MAX_INCOMPLETE_ENTRIES : Nat := 64

def MAX_ARP_ENTRIES : Nat := 256

def ARP_CONFLICT_BASE_BACKOFF : BitVec 64 := 5

def ARP_MAX_BACKOFF_EXPONENT : Nat := 4

def ARP_MAX_CONFLICTS : Nat := 10

def MAX_PACKET_SIZE : Nat := 2048

def ETH_HEADER_SIZE : Nat := 14

def VLAN_TAG_SIZE : Nat := 4

def ETHERTYPE_VLAN : Nat := 0x8100

/-- The size of an `ArpHeader`. -/
def ARP_HEADER_SIZE : Nat := 28

def hashIp (ip : Ip) : Nat := ((ip * 0x9E3779B9#32) >>> 23 &&& 511#32).toNat

namespace ArpEntry

/-- `std.mem.zeroes`. -/
def zeroed : ArpEntry := {}

/-- The buffers in the places of the ring. -/
def pending (e : ArpEntry) : List PktBuf := (List.range QUEUE_SIZE).filterMap e.pendingPkts

def link (e : ArpEntry) (p : Option EntryPtr) : ArpEntry := { e with hashNext := p }

/-- `freePending`, without the calls to the allocator. -/
def clearPending (e : ArpEntry) : ArpEntry :=
  { e with
    pendingPkts := fun _ => none
    pendingLens := fun _ => 0
    queueHead := 0
    queueTail := 0
    queueCount := 0 }

def clearSlot (e : ArpEntry) (idx : Nat) : ArpEntry :=
  { e with
    pendingPkts := update e.pendingPkts idx none
    pendingLens := update e.pendingLens idx 0 }

/-- A full queue gives up its oldest packet. -/
def dropOldest (e : ArpEntry) : ArpEntry × Option PktBuf :=
  if e.queueCount ≥ QUEUE_SIZE then
    ({ e with
        pendingPkts := update e.pendingPkts e.queueHead none
        queueHead := (e.queueHead + 1) % QUEUE_SIZE
        queueCount := e.queueCount - 1 }, e.pendingPkts e.queueHead)
  else (e, none)

def enqueue (e : ArpEntry) (buf : PktBuf) : ArpEntry :=
  { e with
    pendingPkts := update e.pendingPkts e.queueTail (some buf)
    pendingLens := update e.pendingLens e.queueTail buf.data.length
    queueTail := (e.queueTail + 1) % QUEUE_SIZE
    queueCount := e.queueCount + 1 }

/-- A new incomplete entry, before it is linked. -/
def request (e : ArpEntry) (ip : Ip) (tick : BitVec 64) : ArpEntry :=
  { e with
    ipAddr := ip
    state := .incomplete
    timestamp := tick
    retries := 1
    queueHead := 0
    queueTail := 0
    queueCount := 0
    expectedReplyMac := ZERO_MAC
    hasReceivedReply := false
    conflictDetected := false
    conflictTime := 0
    conflictCount := 0
    generation := e.generation + 1
    isStatic := false
    hashNext := none }

/-- An entry for the address becomes a static one, whatever it was. -/
def promote (e : ArpEntry) (mac : Mac) (tick : BitVec 64) : ArpEntry :=
  { e with
    macAddr := mac
    state := .reachable
    isStatic := true
    timestamp := tick
    generation := e.generation + 1 }

def makeStatic (e : ArpEntry) (ip : Ip) (mac : Mac) (tick : BitVec 64) : ArpEntry :=
  { e with
    ipAddr := ip
    macAddr := mac
    state := .reachable
    timestamp := tick
    retries := 0
    queueHead := 0
    queueTail := 0
    queueCount := 0
    expectedReplyMac := ZERO_MAC
    hasReceivedReply := false
    conflictDetected := false
    conflictTime := 0
    generation := e.generation + 1
    isStatic := true
    hashNext := none }

/-- An entry out of use. -/
def retire (e : ArpEntry) : ArpEntry :=
  { e with state := .free, generation := e.generation + 1 }

end ArpEntry

/-! ## 2. The table -/

inductive StaticError where
  | InvalidAddress
  | OutOfMemory
  deriving DecidableEq, Repr

/-- A packet that left its queue, with its length. -/
abbrev Pending := PktBuf × Nat

structure ArpCache where
  /-- `arp_cache.items`, the block they lie in, and its capacity. -/
  items : List ArpEntry := []
  base : Nat := 0
  capacity : Nat := 0
  hashTable : Nat → Option EntryPtr := fun _ => none
  incompleteEntryCount : Nat := 0
  currentTick : BitVec 64 := 0
  ticksPerSecond : BitVec 64 := 1000
  /-- The calls of `processPacket` that have left the lock and not yet sent their packets. -/
  deferred : List (List Pending) := []
  /-- What the allocator handed out and took back, and what the interface sent. -/
  allocated : Nat := 0
  freed : List Nat := []
  transmitted : List Nat := []

inductive Fault where
  /-- A pointer into memory that was given back is followed. -/
  | useAfterFree
  | endlessLoop
  deriving DecidableEq, Repr

namespace ArpCache

/-- The entry under a pointer. -/
def entryAt (c : ArpCache) (p : EntryPtr) : Option ArpEntry :=
  if p.base = c.base then c.items[p.index]? else none

/-- A pointer is followed. -/
def deref (c : ArpCache) (p : EntryPtr) : Except Fault ArpEntry :=
  match c.entryAt p with
  | some e => .ok e
  | none => .error .useAfterFree

/-- The pointer to an element of the array. -/
def ptr (c : ArpCache) (i : Nat) : EntryPtr := ⟨c.base, i⟩

def modify (c : ArpCache) (i : Nat) (f : ArpEntry → ArpEntry) : ArpCache :=
  { c with items := c.items.modify i f }

def setHead (c : ArpCache) (idx : Nat) (p : Option EntryPtr) : ArpCache :=
  { c with hashTable := update c.hashTable idx p }

def findFrom (c : ArpCache) (ip : Ip) : Nat → Option EntryPtr → Except Fault (Option Nat)
  | _, none => .ok none
  | 0, some _ => .error .endlessLoop
  | n + 1, some p => do
      let e ← c.deref p
      if e.state ≠ .free ∧ e.ipAddr = ip then return some p.index
      else c.findFrom ip n e.hashNext

/-- The place of the entry in the array. -/
def findEntry (c : ArpCache) (ip : Ip) : Except Fault (Option Nat) :=
  c.findFrom ip c.items.length (c.hashTable (hashIp ip))

/-- `freePending`, which is `clearPending`. -/
def freePending (c : ArpCache) (i : Nat) : ArpCache :=
  { c.modify i ArpEntry.clearPending with
    freed := c.freed ++ ((c.items[i]?.map ArpEntry.pending).getD []).map PktBuf.id }

def hashTableInsert (c : ArpCache) (i : Nat) : ArpCache :=
  match c.items[i]? with
  | none => c
  | some e =>
    let idx := hashIp e.ipAddr
    (c.modify i fun e => e.link (c.hashTable idx)).setHead idx (some (c.ptr i))

/-- The walk to the entry `i` of the bucket `idx`; `prev` is the entry before `curr`. -/
def removeFrom (c : ArpCache) (i idx : Nat) : Nat → Option EntryPtr → Option EntryPtr →
    Except Fault ArpCache
  | _, _, none => .ok c
  | 0, _, some _ => .error .endlessLoop
  | n + 1, prev, some p => do
      let e ← c.deref p
      if p = c.ptr i then
        let c := match prev with
          | some q => c.modify q.index fun x => x.link e.hashNext
          | none => c.setHead idx e.hashNext
        return c.modify i fun x => x.link none
      else c.removeFrom i idx n (some p) e.hashNext

def hashTableRemove (c : ArpCache) (i : Nat) : Except Fault ArpCache :=
  match c.items[i]? with
  | none => .ok c
  | some e => c.removeFrom i (hashIp e.ipAddr) c.items.length none (c.hashTable (hashIp e.ipAddr))

/-! ## 3. The entry for a new address -/

/-- The first of the oldest entries with `p`, older than `time`. -/
def oldestFrom (p : ArpEntry → Bool) : Option Nat → BitVec 64 → Nat → List ArpEntry → Option Nat
  | best, _, _, [] => best
  | best, time, i, e :: l =>
    if p e ∧ e.timestamp < time then oldestFrom p (some i) e.timestamp (i + 1) l
    else oldestFrom p best time (i + 1) l

def oldest (c : ArpCache) (p : ArpEntry → Bool) : Option Nat :=
  oldestFrom p none c.currentTick 0 c.items

/-- Where the entry for a new address comes from. -/
inductive Slot where
  | free (i : Nat)
  | stale (i : Nat)
  | reachable (i : Nat)
  | incomplete (i : Nat)
  | full
  | grow
  deriving DecidableEq, Repr

def chooseSlot (c : ArpCache) : Slot :=
  match c.items.findIdx? fun e => e.state = .free with
  | some i => .free i
  | none =>
    match c.oldest fun e => e.state = .stale && !e.isStatic with
    | some i => .stale i
    | none =>
      if c.items.length ≥ MAX_ARP_ENTRIES then
        match c.oldest fun e => e.state = .reachable && !e.isStatic with
        | some i => .reachable i
        | none =>
          match c.oldest fun e => e.state = .incomplete with
          | some i => .incomplete i
          | none => .full
      else .grow

/-- What the allocator answers where the array is full: it enlarges the block, or the elements
    move to another one. The kernel's heap never enlarges a block. -/
inductive Growth where
  | inPlace (capacity : Nat)
  | moved (capacity : Nat)
  | outOfMemory
  deriving DecidableEq, Repr

/-- `arp_cache.addOne`, zeroed. -/
def addOne (c : ArpCache) (g : Growth) : Option ArpCache :=
  if c.items.length < c.capacity then some { c with items := c.items ++ [.zeroed] }
  else
    match g with
    | .outOfMemory => none
    | .inPlace n =>
      some { c with items := c.items ++ [.zeroed], capacity := max n (c.items.length + 1) }
    | .moved n =>
      some { c with
        items := c.items ++ [.zeroed], base := c.base + 1, capacity := max n (c.items.length + 1) }

/-- An entry in use leaves its chain. -/
def evict (c : ArpCache) (i : Nat) : Except Fault ArpCache := do
  let c ← c.hashTableRemove i
  return c.freePending i

/-- `none`: `error.OutOfMemory`. -/
def findFreeEntry (c : ArpCache) (g : Growth) : Except Fault (Option (ArpCache × Nat)) :=
  match c.chooseSlot with
  | .free i => .ok (some (c.freePending i, i))
  | .stale i | .reachable i | .incomplete i => do
      let c ← c.evict i
      return some (c, i)
  | .full => .ok none
  | .grow => .ok ((c.addOne g).map fun c' => (c', c.items.length))

end ArpCache

/-! ## 4. Received packets -/

structure Interface where
  macAddr : Mac
  ipAddr : Ip
  netmask : Ip

def Interface.isLocalSubnet (iface : Interface) (ip : Ip) : Bool :=
  ip &&& iface.netmask = iface.ipAddr &&& iface.netmask

/-- Addresses that no host has: broadcast, zero, multicast. -/
def isUnusable (mac : Mac) : Bool := mac = BROADCAST_MAC || mac = ZERO_MAC || mac[0] &&& 1 ≠ 0

/-- The link header of a packet that waited. -/
def setHeader (iface : Interface) (mac : Mac) (buf : PktBuf) : PktBuf :=
  { buf with
    data := ((mac.toList ++ iface.macAddr.toList ++ [0x08, 0x00]) ++
      buf.data.drop ETH_HEADER_SIZE).take buf.data.length }

/-- A queue on its way out: the entry, the packets to send, and the buffers given back. -/
structure Drain where
  entry : ArpEntry
  pkts : List Pending := []
  freed : List Nat := []

def Drain.slot (iface : Interface) (mac : Mac) (d : Drain) (i : Nat) : Drain :=
  let idx := (d.entry.queueHead + i) % QUEUE_SIZE
  let len := d.entry.pendingLens idx
  match d.entry.pendingPkts idx with
  | none => d
  | some buf =>
    if 0 < len ∧ len ≤ buf.data.length then
      { d with
        entry := d.entry.clearSlot idx, pkts := d.pkts ++ [(setHeader iface mac buf, len)] }
    else { d with entry := d.entry.clearSlot idx, freed := d.freed ++ [buf.id] }

def ArpEntry.drain (iface : Interface) (mac : Mac) (e : ArpEntry) : Drain :=
  let d := (List.range e.queueCount).foldl (Drain.slot iface mac) { entry := e }
  if e.queueCount > 0 then
    { d with entry := { d.entry with queueCount := 0, queueHead := 0, queueTail := 0 } }
  else d

/-- An entry learns its address. -/
def ArpEntry.learn (e : ArpEntry) (mac : Mac) (state : ArpState) (tick : BitVec 64) : ArpEntry :=
  { e with
    macAddr := mac
    state := state
    timestamp := tick
    retries := 0
    conflictCount := 0
    generation := e.generation + 1 }

namespace ArpCache

/-- The packets to send once the lock is released. -/
def updateCache (c : ArpCache) (iface : Interface) (ip : Ip) (mac : Mac) (state : ArpState) :
    Except Fault (ArpCache × List Pending) := do
  if isUnusable mac then return (c, [])
  else
    match ← c.findEntry ip with
    | none => return (c, [])
    | some i =>
      match c.items[i]? with
      | none => return (c, [])
      | some e =>
        if e.isStatic then return (c, [])
        else if e.state ≠ .incomplete ∧ c.currentTick - e.timestamp < ARP_UPDATE_RATE_LIMIT then
          return (c, [])
        else
          let d := (e.learn mac state c.currentTick).drain iface mac
          let count :=
            if e.state = .incomplete ∧ state = .reachable ∧ 0 < c.incompleteEntryCount then
              c.incompleteEntryCount - 1
            else c.incompleteEntryCount
          return ({ c.modify i fun _ => d.entry with
                    incompleteEntryCount := count, freed := c.freed ++ d.freed }, d.pkts)

/-- How long an entry with conflicting answers takes no answer. -/
def totalBackoff (c : ArpCache) (conflictCount : Nat) : BitVec 64 :=
  let exponent := min conflictCount ARP_MAX_BACKOFF_EXPONENT
  let baseBackoff := ARP_CONFLICT_BASE_BACKOFF * (1#64 <<< exponent) * c.ticksPerSecond
  let jitter := (c.currentTick &&& 0xFF) * baseBackoff / 1024
  baseBackoff + jitter

/-- An answer for the entry `i`. `none` where the packet is dropped. -/
def receiveReply (c : ArpCache) (iface : Interface) (i : Nat) (e : ArpEntry) (senderIp : Ip)
    (senderMac : Mac) : Except Fault (Option (ArpCache × List Pending)) :=
  if e.state = .incomplete then
    if e.conflictDetected ∧ (e.conflictCount ≥ ARP_MAX_CONFLICTS ∨
        c.currentTick - e.conflictTime < c.totalBackoff e.conflictCount) then .ok none
    else
      let e :=
        if e.conflictDetected then
          { e with conflictDetected := false, hasReceivedReply := false,
                   expectedReplyMac := ZERO_MAC }
        else e
      if !e.hasReceivedReply then
        let c := c.modify i fun _ =>
          { e with expectedReplyMac := senderMac, hasReceivedReply := true }
        some <$> c.updateCache iface senderIp senderMac .reachable
      else if e.expectedReplyMac = senderMac then
        some <$> c.updateCache iface senderIp senderMac .reachable
      else
        .ok (some (c.modify i fun _ =>
          { e with
            conflictDetected := true
            conflictTime := c.currentTick
            conflictCount := min (e.conflictCount + 1) 255
            state := .incomplete
            hasReceivedReply := false }, []))
  else some <$> c.updateCache iface senderIp senderMac .reachable

/-- What a received packet does: the packets to send, the answer to give, and whether it was
    used. -/
structure Received where
  cache : ArpCache
  pending : List Pending := []
  reply : Option (Mac × Ip) := none
  handled : Bool := false

def arpOffset (data : List UInt8) : Nat :=
  if 14 ≤ data.length ∧ be16 data 12 = ETHERTYPE_VLAN then ETH_HEADER_SIZE + VLAN_TAG_SIZE
  else ETH_HEADER_SIZE

/-- The sender's part of a packet with the operation 2. -/
def learnFrom (c : ArpCache) (iface : Interface) (operation : Nat) (senderIp : Ip)
    (senderMac : Mac) : Except Fault (Option (ArpCache × List Pending)) := do
  if !iface.isLocalSubnet senderIp then return some (c, [])
  else if senderIp = iface.ipAddr ∨ senderIp = 0 ∨ senderIp = 0xFFFFFFFF then return none
  else if operation ≠ 2 then return some (c, [])
  else
    match ← c.findEntry senderIp with
    | none => return some (c, [])
    | some i =>
      match c.items[i]? with
      | none => return some (c, [])
      | some e => c.receiveReply iface i e senderIp senderMac

def processPacket (c : ArpCache) (iface : Interface) (data : List UInt8) : Except Fault Received := do
  let o := arpOffset data
  if data.length < o + ARP_HEADER_SIZE then return { cache := c }
  else if be16 data o ≠ 1 ∨ be16 data (o + 2) ≠ 0x0800 then return { cache := c }
  else if byteAt data (o + 4) ≠ 6 ∨ byteAt data (o + 5) ≠ 4 then return { cache := c }
  else
    let operation := be16 data (o + 6)
    let senderMac : Mac := Vector.ofFn fun k => data.getD (o + 8 + k) 0
    let senderIp := be32 data (o + 14)
    let targetIp := be32 data (o + 24)
    match ← c.learnFrom iface operation senderIp senderMac with
    | none => return { cache := c }
    | some (c, pending) =>
      if operation = 1 ∧ targetIp = iface.ipAddr then
        return { cache := c, pending := pending, reply := some (senderMac, senderIp),
                 handled := true }
      else return { cache := c, pending := pending, handled := operation = 2 }

/-- A caller leaves the lock with packets to send. -/
def defer (c : ArpCache) (pkts : List Pending) : ArpCache :=
  { c with deferred := c.deferred ++ [pkts] }

/-- `PendingPackets.transmitAndFree`. -/
def transmitAndFree (c : ArpCache) (pkts : List Pending) : ArpCache :=
  { c with
    transmitted := c.transmitted ++
      (pkts.filter fun p => 0 < p.2 && p.2 ≤ p.1.data.length).map fun p => p.1.id
    freed := c.freed ++ pkts.map fun p => p.1.id }

/-! ## 5. Requests -/

/-- Without the lock. -/
def resolveUnlocked (c : ArpCache) (ip : Ip) : Except Fault (Option Mac) := do
  if ip >>> 24 = 127 then return some ZERO_MAC
  else
    match ← c.findEntry ip with
    | none => return none
    | some i =>
      return (c.items[i]?.filter fun e => e.state = .reachable || e.state = .stale).map
        ArpEntry.macAddr

/-- The packet is copied into a new buffer, if it is not too long and there is memory. -/
def newBuffer (c : ArpCache) (pkt : Option (List UInt8)) (alloc : Bool) : Option PktBuf :=
  pkt.bind fun data =>
    if data.length ≤ MAX_PACKET_SIZE ∧ alloc = true then some ⟨c.allocated, data⟩ else none

/-- A packet joins the queue of an incomplete entry. -/
def queuePacket (c : ArpCache) (i : Nat) (e : ArpEntry) (pkt : Option (List UInt8)) (alloc : Bool) :
    ArpCache :=
  match c.newBuffer pkt alloc with
  | none => c
  | some buf =>
    let (e, old) := e.dropOldest
    { c.modify i fun _ => e.enqueue buf with
      allocated := c.allocated + 1
      freed := c.freed ++ (old.map PktBuf.id).toList }

/-- A request to broadcast, with the generation of its entry. -/
abbrev Request := Ip × BitVec 32

/-- A packet is the first in the queue of a new entry. -/
def queueFirst (c : ArpCache) (i : Nat) (e : ArpEntry) (pkt : Option (List UInt8)) (alloc : Bool) :
    ArpCache :=
  match c.newBuffer pkt alloc with
  | none => c
  | some buf =>
    { c.modify i fun _ =>
        { e with
          pendingPkts := update e.pendingPkts e.queueTail (some buf)
          pendingLens := update e.pendingLens e.queueTail buf.data.length
          queueTail := 1
          queueCount := 1 } with
      allocated := c.allocated + 1 }

/-- A new entry asks for its address. -/
def requestEntry (c : ArpCache) (ip : Ip) (pkt : Option (List UInt8)) (alloc : Bool) (g : Growth) :
    Except Fault (ArpCache × Option Request) := do
  if c.incompleteEntryCount < MAX_INCOMPLETE_ENTRIES then
    match ← c.findFreeEntry g with
    | none => return (c, none)
    | some (c, i) =>
      let c := (c.freePending i).modify i fun e => e.request ip c.currentTick
      let c := c.hashTableInsert i
      let c := { c with incompleteEntryCount := c.incompleteEntryCount + 1 }
      match c.items[i]? with
      | none => return (c, none)
      | some e => return (c.queueFirst i e pkt alloc, some (ip, e.generation))
  else return (c, none)

/-- The first part of `resolveOrRequest`, under the lock. -/
def resolveOrRequest (c : ArpCache) (ip : Ip) (pkt : Option (List UInt8)) (alloc : Bool)
    (g : Growth) : Except Fault (ArpCache × Option Mac × Option Request) := do
  match ← c.resolveUnlocked ip with
  | some mac => return (c, some mac, none)
  | none =>
    match c.items.findIdx? fun e => e.ipAddr = ip && e.state = .incomplete with
    | some i =>
      match c.items[i]? with
      | none => return (c, none, none)
      | some e =>
        let c := c.queuePacket i e pkt alloc
        if e.retries < ARP_MAX_RETRIES then
          return (c.modify i fun e => { e with retries := e.retries + 1 }, none,
            some (ip, e.generation))
        else return (c, none, none)
    | none =>
      let (c, r) ← c.requestEntry ip pkt alloc g
      return (c, none, r)

/-- The second part: whether the request is still wanted. -/
def shouldSend (c : ArpCache) (r : Request) : Except Fault Bool := do
  match ← c.findEntry r.1 with
  | none => return false
  | some i => return c.items[i]?.any fun e => e.generation = r.2 && e.state = .incomplete

/-! ## 6. Static entries, and age -/

def addStaticEntry (c : ArpCache) (ip : Ip) (mac : Mac) (g : Growth) :
    Except Fault (ArpCache × Except StaticError Unit) := do
  if isUnusable mac then return (c, .error .InvalidAddress)
  else
    match c.items.findIdx? fun e => e.ipAddr = ip && e.state ≠ .free with
    | some i => return (c.modify i fun e => e.promote mac c.currentTick, .ok ())
    | none =>
      match ← c.findFreeEntry g with
      | none => return (c, .error .OutOfMemory)
      | some (c, i) =>
        let c := c.modify i fun e => e.makeStatic ip mac c.currentTick
        return (c.hashTableInsert i, .ok ())

/-- An entry leaves its chain and gives its packets up. -/
def release (c : ArpCache) (i : Nat) : Except Fault ArpCache := do
  let c ← c.evict i
  return c.modify i ArpEntry.retire

def removeStaticEntry (c : ArpCache) (ip : Ip) : Except Fault (ArpCache × Bool) := do
  match c.items.findIdx? fun e => e.ipAddr = ip && e.isStatic with
  | none => return (c, false)
  | some i =>
    let c ← c.release i
    return (c.modify i fun e => { e with isStatic := false }, true)

/-- One entry grows older. -/
def ageEntry (c : ArpCache) (i : Nat) : Except Fault ArpCache :=
  match c.items[i]? with
  | none => .ok c
  | some e =>
    if e.isStatic then .ok c
    else
      let age := c.currentTick - e.timestamp
      match e.state with
      | .free => .ok c
      | .incomplete =>
        if 3 * c.ticksPerSecond < age then do
          let c ← c.release i
          return { c with incompleteEntryCount := c.incompleteEntryCount - 1 }
        else .ok c
      | .reachable =>
        if ARP_TIMEOUT * c.ticksPerSecond < age then
          .ok (c.modify i fun e => { e with state := .stale, generation := e.generation + 1 })
        else .ok c
      | .stale =>
        if ARP_TIMEOUT * 2 * c.ticksPerSecond < age then c.release i else .ok c

def ageCache (c : ArpCache) : Except Fault ArpCache :=
  (List.range c.items.length).foldlM ageEntry c

def tick (c : ArpCache) : ArpCache := { c with currentTick := c.currentTick + 1 }

/-- Everything is given up; the block of the array stays. -/
def clearCache (c : ArpCache) : ArpCache :=
  { c with
    items := []
    hashTable := fun _ => none
    incompleteEntryCount := 0
    freed := c.freed ++ (c.items.flatMap ArpEntry.pending).map PktBuf.id }

/-- The table of `init`. -/
def init (ticksPerSec : BitVec 32) : ArpCache :=
  if 0 < ticksPerSec ∧ ticksPerSec ≤ 1000000 then { ticksPerSecond := ticksPerSec.setWidth 64 }
  else {}

end ArpCache

/-! ## 7. Runs -/

/-- The operations, each section under the lock a step of its own. -/
inductive ArpOp where
  | resolveOrRequest (ip : Ip) (pkt : Option (List UInt8)) (alloc : Bool) (g : ArpCache.Growth)
  | shouldSend (r : ArpCache.Request)
  | processPacket (iface : Interface) (data : List UInt8)
  /-- The `i`-th of the calls that hold packets sends them. -/
  | transmitAndFree (i : Nat)
  | addStaticEntry (ip : Ip) (mac : Mac) (g : ArpCache.Growth)
  | removeStaticEntry (ip : Ip)
  | ageCache
  | tick
  | clearCache

namespace ArpCache

def run (c : ArpCache) : ArpOp → Except Fault ArpCache
  | .resolveOrRequest ip pkt alloc g => Prod.fst <$> c.resolveOrRequest ip pkt alloc g
  | .shouldSend r => (fun _ => c) <$> c.shouldSend r
  | .processPacket iface data => do
      let r ← c.processPacket iface data
      return r.cache.defer r.pending
  | .transmitAndFree i =>
    .ok ({ c with deferred := c.deferred.eraseIdx i }.transmitAndFree (c.deferred[i]?.getD []))
  | .addStaticEntry ip mac g => Prod.fst <$> c.addStaticEntry ip mac g
  | .removeStaticEntry ip => Prod.fst <$> c.removeStaticEntry ip
  | .ageCache => c.ageCache
  | .tick => .ok c.tick
  | .clearCache => .ok c.clearCache

end ArpCache

/-- The table in use; `none` after a fault. -/
def arpMachine : Machine (Option ArpCache) ArpOp where
  start s := ∃ ticksPerSec, s = some (.init ticksPerSec)
  step s op := s.bind fun c => (c.run op).toOption

end Zigk.Net
