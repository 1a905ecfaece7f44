/-
  Subject:   INTERNET CHECKSUMS (net/core/checksum.zig), as the senders fill them in and the
             receivers verify them.

  * `ipChecksum`, `udpChecksum`, `tcpChecksum`, `checksumWithIpv6Pseudo`, `verifyIpChecksum` -- the
    sums, with the overflow check of the accumulator;
  * `Protocol` -- who uses which: `send` fills the field in, `receive` verifies;
  * `checksum_eq`, `receive_eq` -- both by the sum of the 16-bit terms alone;
  * **`checksumAgreement`** -- what was sent is accepted, and with one word changed it is rejected,
    exactly while the accumulator has room; `fits_of_not_ipv4` -- which it always has unless both
    IPv4 addresses are added in full; `checksumAgreement_refuted`;
  * `updateChecksum`, `updates` -- words that are replaced with an incremental update each:
    **`incrementalChecksum`** -- it is the full computation, `recompute`, in every run.
-/
import Zigk.Base.Checked
import Zigk.Base.Machine
import Zigk.Base.OnesComplement

namespace Zigk.Checksum

open OnesComplement

open List (append_nil foldlM_cons sum_append sum_cons sum_nil)

/-! ## 1. The sums -/

/-- `sum += term` for each term, in a `u32`. -/
def addAll (terms : List Nat) : Except Trap Nat :=
  terms.foldlM (fun sum term =>
    if sum + term < 2 ^ 32 then .ok (sum + term) else .error .integerOverflow) 0

/-- The folded sum, inverted. -/
def complement (sum : Nat) : BitVec 16 := ~~~ BitVec.ofNat 16 (fold sum)

def nonzero (result : BitVec 16) : BitVec 16 := if result = 0 then 0xFFFF else result

def onesComplement (data : List UInt8) : Except Trap (BitVec 16) := do
  let sum ← addAll (words data ++ oddByte data)
  .ok (complement sum)

def ipChecksum (header : List UInt8) : Except Trap (BitVec 16) := onesComplement header

/-- With a pseudo-header; longer segments are invalid. -/
def transportChecksum (pseudo : List Nat) (segment : List UInt8) : Except Trap (BitVec 16) :=
  if 65535 < segment.length then .ok 0
  else do
    let sum ← addAll (pseudo ++ (words segment ++ oddByte segment))
    .ok (nonzero (complement sum))

/-- The addresses are not cut to their lower halves: `@truncate` to a `u32` leaves them alone. -/
def pseudoHeader (src_ip dst_ip : BitVec 32) (protocol len : Nat) : List Nat :=
  [(src_ip >>> 16).toNat, src_ip.toNat, (dst_ip >>> 16).toNat, dst_ip.toNat, protocol, len]

def udpChecksum (src_ip dst_ip : BitVec 32) (segment : List UInt8) : Except Trap (BitVec 16) :=
  transportChecksum (pseudoHeader src_ip dst_ip 17 segment.length) segment

def tcpChecksum (src_ip dst_ip : BitVec 32) (segment : List UInt8) : Except Trap (BitVec 16) :=
  transportChecksum (pseudoHeader src_ip dst_ip 6 segment.length) segment

abbrev Addr6 := Vector UInt8 16

def pseudoHeader6 (src_addr dst_addr : Addr6) (next_header len : Nat) : List Nat :=
  words src_addr.toList ++ (words dst_addr.toList ++
    [(len >>> 16) &&& 0xFFFF, len &&& 0xFFFF, next_header])

def checksumWithIpv6Pseudo (src_addr dst_addr : Addr6) (next_header : Nat)
    (payload : List UInt8) : Except Trap (BitVec 16) :=
  transportChecksum (pseudoHeader6 src_addr dst_addr next_header payload.length) payload

def tcpChecksum6 (src_addr dst_addr : Addr6) : List UInt8 → Except Trap (BitVec 16) :=
  checksumWithIpv6Pseudo src_addr dst_addr 6

def udpChecksum6 (src_addr dst_addr : Addr6) : List UInt8 → Except Trap (BitVec 16) :=
  checksumWithIpv6Pseudo src_addr dst_addr 17

def icmpv6Checksum (src_addr dst_addr : Addr6) : List UInt8 → Except Trap (BitVec 16) :=
  checksumWithIpv6Pseudo src_addr dst_addr 58

/-- Without the odd byte. -/
def verifyIpChecksum (header : List UInt8) : Except Trap Bool := do
  let sum ← addAll (words header)
  .ok (decide (BitVec.ofNat 16 (fold sum) = 0xFFFF))

/-- Of icmpv6/process.zig. -/
def verifyIcmpv6Checksum (src dst : Addr6) (data : List UInt8) : Except Trap Bool := do
  let computed ← icmpv6Checksum src dst data
  .ok (decide (computed = 0 ∨ computed = 0xFFFF))

/-! ## 2. Senders and receivers -/

/-- What carries a checksum, with the addresses of the pseudo-header. -/
inductive Protocol where
  | ipv4Header
  | tcp (src_ip dst_ip : BitVec 32)
  | udp (src_ip dst_ip : BitVec 32)
  | tcp6 (src_addr dst_addr : Addr6)
  | udp6 (src_addr dst_addr : Addr6)
  | icmpv6 (src_addr dst_addr : Addr6)

def DNS_PORT : Nat := 53
def NTP_PORT : Nat := 123
def SNMP_PORT : Nat := 161
def SNMP_TRAP_PORT : Nat := 162
def MDNS_PORT : Nat := 5353

def isSecuritySensitive (port : Nat) : Bool :=
  decide (port ∈ [DNS_PORT, NTP_PORT, SNMP_PORT, SNMP_TRAP_PORT, MDNS_PORT])

namespace Protocol

/-- The word with the checksum. -/
def field : Protocol → Nat
  | ipv4Header => 5
  | tcp .. | tcp6 .. => 8
  | udp .. | udp6 .. => 3
  | icmpv6 .. => 1

def checksum : Protocol → List UInt8 → Except Trap (BitVec 16)
  | ipv4Header => ipChecksum
  | tcp src dst => tcpChecksum src dst
  | udp src dst => udpChecksum src dst
  | tcp6 src dst => tcpChecksum6 src dst
  | udp6 src dst => udpChecksum6 src dst
  | icmpv6 src dst => icmpv6Checksum src dst

variable (q : Protocol)

/-- The field is cleared, and filled in with the checksum; over IPv6 a UDP sender looks once more
    that it is not zero. -/
def send (content : List UInt8) : Except Trap (List UInt8) := do
  let c ← q.checksum (setWord content q.field 0)
  .ok (setWord content q.field (match q with
    | udp6 .. => nonzero c
    | _ => c))

def receive (packet : List UInt8) : Except Trap Bool :=
  match q with
  | ipv4Header => verifyIpChecksum packet
  | tcp src dst => do
      let c ← tcpChecksum src dst packet
      .ok (decide (c = 0xFFFF))
  | udp src dst =>
    if wordAt packet 3 = 0 then
      .ok (!(isSecuritySensitive (wordAt packet 0) || isSecuritySensitive (wordAt packet 1)))
    else do
      let c ← udpChecksum src dst packet
      .ok (decide (c = 0xFFFF))
  | tcp6 src dst => do
      let c ← tcpChecksum6 src dst packet
      .ok (decide (c = 0xFFFF))
  | udp6 src dst =>
    if wordAt packet 3 = 0 then .ok false
    else do
      let c ← udpChecksum6 src dst packet
      .ok (decide (c = 0xFFFF))
  | icmpv6 src dst => verifyIcmpv6Checksum src dst packet

/-- A content has its checksum field and fits an IP packet; the length of an IPv4 header is a
    multiple of four. -/
structure Sendable (content : List UInt8) : Prop where
  field : 2 * q.field + 1 < content.length
  length : content.length ≤ 65535
  header : q = ipv4Header → content.length % 4 = 0

/-- What is sent is accepted; with `v` added to word `k` it is rejected. -/
structure Agrees (content : List UInt8) (k v : Nat) (packet : List UInt8) : Prop where
  sent : q.send content = .ok packet
  accepted : q.receive packet = .ok true
  rejected : q.receive (setWord packet k (.ofNat 16 (add (wordAt packet k) v))) = .ok false

/-! ## 3. By the sum of the terms -/

def pseudo : Protocol → Nat → List Nat
  | ipv4Header, _ => []
  | tcp src dst, len => pseudoHeader src dst 6 len
  | udp src dst, len => pseudoHeader src dst 17 len
  | tcp6 src dst, len => pseudoHeader6 src dst 6 len
  | udp6 src dst, len => pseudoHeader6 src dst 17 len
  | icmpv6 src dst, len => pseudoHeader6 src dst 58 len

/-- All that is added up for a segment. -/
def total (segment : List UInt8) : Nat :=
  (q.pseudo segment.length ++ (words segment ++ oddByte segment)).sum

/-- The word that the sender puts into the field, or leaves there. -/
def sentWord (content : List UInt8) (k : Nat) : Nat :=
  if k = q.field then 65535 - q.total (setWord content q.field 0) % 65535 else wordAt content k

/-- **The accumulator has room**: the terms, with the field clear, stay below `65535 * 65536`, or by
    one more `65535` if the change makes the word smaller. -/
def Fits (content : List UInt8) (k v : Nat) : Prop :=
  q.total (setWord content q.field 0) < 65535 * 65536 ∨
    q.total (setWord content q.field 0) < 65535 * 65537 ∧ 65535 < q.sentWord content k + v

end Protocol

theorem addAll_eq (terms : List Nat) : addAll terms =
    if terms.sum < 2 ^ 32 then .ok terms.sum else .error .integerOverflow := by
  suffices h : ∀ sum < 2 ^ 32, terms.foldlM (fun sum term =>
      if sum + term < 2 ^ 32 then Except.ok (sum + term) else .error Trap.integerOverflow) sum =
        if sum + terms.sum < 2 ^ 32 then .ok (sum + terms.sum) else .error .integerOverflow by
    have h0 := h 0 (by decide)
    rw [Nat.zero_add] at h0
    exact h0
  induction terms with
  | nil =>
    intro sum hsum
    rw [sum_nil, Nat.add_zero, if_pos hsum]
    rfl
  | cons term terms ih =>
    intro sum hsum
    rw [foldlM_cons, sum_cons, ← Nat.add_assoc]
    by_cases hterm : sum + term < 2 ^ 32
    · rw [if_pos hterm]
      exact ih _ hterm
    · rw [if_neg hterm, if_neg (by omega)]
      rfl

theorem complement_toNat (sum : Nat) : (complement sum).toNat = 65535 - fold sum := by
  have hle := fold_le sum
  unfold complement
  rw [BitVec.toNat_not, BitVec.toNat_ofNat, Nat.mod_eq_of_lt (by omega)]

/-- The checksum brings the sum to the next multiple of `0xFFFF`. -/
theorem nonzero_complement {sum : Nat} (h : 0 < sum) :
    (nonzero (complement sum)).toNat = 65535 - sum % 65535 := by
  have hc := complement_toNat sum
  rw [fold_eq, if_neg (Nat.pos_iff_ne_zero.1 h)] at hc
  unfold nonzero
  split_ifs with hzero
  · have hz : (complement sum).toNat = 0 := by
      rw [hzero]
      rfl
    change 65535 = _
    omega
  · have hz : (complement sum).toNat ≠ 0 := fun h0 => hzero (BitVec.eq_of_toNat_eq h0)
    omega

theorem nonzero_complement_eq_ones {sum : Nat} (h : 0 < sum) :
    nonzero (complement sum) = 0xFFFF ↔ 65535 ∣ sum := by
  have hc := nonzero_complement h
  constructor
  · intro he
    rw [he] at hc
    change 65535 = _ at hc
    omega
  · intro hd
    refine BitVec.eq_of_toNat_eq ?_
    rw [hc]
    change _ = 65535
    omega

namespace Protocol

variable {q : Protocol} {segment content packet : List UInt8} {k v : Nat} {w : BitVec 16}

theorem total_setWord (h : 2 * k + 1 < segment.length) :
    q.total (setWord segment k w) + wordAt segment k = q.total segment + w.toNat := by
  have hwords := sum_words_setWord (w := w) h
  unfold total
  rw [length_setWord, oddByte_setWord h, sum_append, sum_append, sum_append, sum_append]
  omega

/-- There is a protocol number in every pseudo-header. -/
theorem total_pos (hq : q ≠ ipv4Header) (segment : List UInt8) : 0 < q.total segment := by
  have hpos : 0 < (q.pseudo segment.length).sum := by
    cases q with
    | ipv4Header => exact absurd rfl hq
    | tcp | udp =>
      simp only [pseudo, pseudoHeader, sum_cons]
      omega
    | tcp6 | udp6 | icmpv6 =>
      simp only [pseudo, pseudoHeader6, sum_append, sum_cons]
      omega
  unfold total
  rw [sum_append]
  omega

/-- **A checksum by the sum of the terms.** -/
theorem checksum_eq (hq : q ≠ ipv4Header) (hlen : segment.length ≤ 65535) : q.checksum segment =
      if q.total segment < 2 ^ 32 then .ok (nonzero (complement (q.total segment)))
      else .error .integerOverflow := by
  have htransport : q.checksum segment = transportChecksum (q.pseudo segment.length) segment := by
    cases q with
    | ipv4Header => exact absurd rfl hq
    | tcp | udp | tcp6 | udp6 | icmpv6 => rfl
  rw [htransport]
  unfold transportChecksum
  rw [if_neg (Nat.not_lt.2 hlen), addAll_eq]
  change (if q.total segment < 2 ^ 32 then _ else _ : Except Trap Nat) >>= _ = _
  split_ifs <;> rfl

/-- **So does a receiver**, if the field is not empty. -/
theorem receive_eq (packet : List UInt8) (hq : q ≠ ipv4Header) (hlen : packet.length ≤ 65535)
    (hfield : wordAt packet q.field ≠ 0) :
    q.receive packet = if q.total packet < 2 ^ 32 then .ok (decide (65535 ∣ q.total packet))
      else .error .integerOverflow := by
  have hpos := total_pos hq packet
  have hones := nonzero_complement_eq_ones hpos
  have hcheck : (do
      let c ← q.checksum packet
      .ok (decide (c = 0xFFFF)) : Except Trap Bool) =
      if q.total packet < 2 ^ 32 then .ok (decide (65535 ∣ q.total packet))
        else .error .integerOverflow := by
    rw [checksum_eq hq hlen]
    split_ifs
    · rw [Except.ok_bind, decide_eq_decide.2 hones]
    · rfl
  cases q with
  | ipv4Header => exact absurd rfl hq
  | tcp | tcp6 => exact hcheck
  | udp | udp6 =>
    have hword : ¬ wordAt packet 3 = 0 := hfield
    exact (if_neg hword).trans hcheck
  | icmpv6 src dst =>
    -- a checksum is never zero
    have hnot : nonzero (complement ((icmpv6 src dst).total packet)) ≠ 0 := by
      intro h0
      have hc := nonzero_complement hpos
      rw [h0] at hc
      change 0 = _ at hc
      omega
    have hor : (nonzero (complement ((icmpv6 src dst).total packet)) = 0 ∨
        nonzero (complement ((icmpv6 src dst).total packet)) = 0xFFFF) ↔
          65535 ∣ (icmpv6 src dst).total packet := by
      rw [← hones]
      exact ⟨fun h => h.resolve_left hnot, .inr⟩
    change verifyIcmpv6Checksum src dst packet = _
    unfold verifyIcmpv6Checksum
    have hsum : icmpv6Checksum src dst packet = _ := checksum_eq (q := .icmpv6 src dst) hq hlen
    rw [hsum]
    split_ifs
    · rw [Except.ok_bind, decide_eq_decide.2 hor]
    · rfl

theorem receive_header (packet : List UInt8) (heven : packet.length % 2 = 0)
    (htotal : ipv4Header.total packet < 2 ^ 32) : ipv4Header.receive packet =
      .ok (decide (0 < ipv4Header.total packet ∧ 65535 ∣ ipv4Header.total packet)) := by
  have hsum : (words packet).sum = ipv4Header.total packet := by
    unfold total
    rw [oddByte_even heven, append_nil]
    rfl
  have hones : BitVec.ofNat 16 (fold (ipv4Header.total packet)) = 0xFFFF ↔
      0 < ipv4Header.total packet ∧ 65535 ∣ ipv4Header.total packet := by
    have hle := fold_le (ipv4Header.total packet)
    rw [← fold_eq_ones, ← BitVec.toNat_inj, BitVec.toNat_ofNat, Nat.mod_eq_of_lt (by omega)]
    rfl
  change verifyIpChecksum packet = _
  unfold verifyIpChecksum
  rw [addAll_eq, hsum, if_pos htotal, Except.ok_bind, decide_eq_decide.2 hones]

/-- **Only whole IPv4 addresses can fill the accumulator.** -/
theorem total_lt (hq : ∀ src dst, q ≠ tcp src dst ∧ q ≠ udp src dst)
    (hlen : segment.length ≤ 65535) : q.total segment < 65535 * 65536 := by
  have hwords := sum_words_le segment
  have hodd := sum_oddByte_le segment
  have haddr : ∀ a : Addr6, (words a.toList).sum ≤ 65535 * 8 := by
    intro a
    have ha := sum_words_le a.toList
    rwa [Vector.length_toList] at ha
  have hpseudo : (q.pseudo segment.length).sum ≤ 65535 * 18 := by
    have hhigh : (segment.length >>> 16) &&& 0xFFFF = 0 := by
      rw [Nat.shiftRight_eq_div_pow, Nat.div_eq_of_lt (by omega)]
      rfl
    have hlow : segment.length &&& 0xFFFF ≤ 0xFFFF := Nat.and_le_right
    cases q with
    | ipv4Header => exact Nat.zero_le _
    | tcp src dst => exact absurd rfl (hq src dst).1
    | udp src dst => exact absurd rfl (hq src dst).2
    | tcp6 src dst | udp6 src dst | icmpv6 src dst =>
      have hsrc := haddr src
      have hdst := haddr dst
      simp only [pseudo, pseudoHeader6, sum_append, sum_cons, sum_nil, hhigh]
      omega
  unfold total
  rw [sum_append, sum_append]
  omega

/-! ## 4. Agreement -/

/-- A filled-in field takes the total on by its checksum. -/
theorem total_filled (h : q.Sendable content) (c : BitVec 16) :
    q.total (setWord content q.field c) = q.total (setWord content q.field 0) + c.toNat := by
  have hc := total_setWord (q := q) (w := c) h.field
  have h0 := total_setWord (q := q) (w := 0) h.field
  change _ = _ + 0 at h0
  omega

/-- With one word changed. -/
theorem total_changed (hk : 2 * k + 1 < packet.length) (hv : 0 < v) (hlt : v < 65535) :
    q.total (setWord packet k (.ofNat 16 (add (wordAt packet k) v))) + wordAt packet k =
      q.total packet + if 65535 < wordAt packet k + v then wordAt packet k + v - 65535
        else wordAt packet k + v := by
  have hadd := add_eq (wordAt_le packet k) hv hlt
  have hle : add (wordAt packet k) v ≤ 65535 := fold_le _
  rw [total_setWord hk, BitVec.toNat_ofNat, Nat.mod_eq_of_lt (Nat.lt_succ_of_le hle), hadd]

theorem send_eq (hq : q ≠ ipv4Header) (h : q.Sendable content) :
    q.send content = if q.total (setWord content q.field 0) < 2 ^ 32 then
        .ok (setWord content q.field (nonzero (complement (q.total (setWord content q.field 0)))))
      else .error .integerOverflow := by
  have hlen : (setWord content q.field 0).length ≤ 65535 := by
    rw [length_setWord]
    exact h.length
  have hagain : ∀ c, nonzero (nonzero c) = nonzero c := by
    intro c
    unfold nonzero
    split_ifs <;> simp_all
  unfold send
  rw [checksum_eq hq hlen]
  split_ifs
  · rw [Except.ok_bind]
    cases q with
    | ipv4Header => exact absurd rfl hq
    | tcp | udp | tcp6 | icmpv6 => rfl
    | udp6 =>
      dsimp only
      rw [hagain]
  · rfl

/-- **Agreement with a pseudo-header.** -/
theorem agrees_iff (hq : q ≠ ipv4Header) (h : q.Sendable content) (hk : 2 * k + 1 < content.length)
    (hv : 0 < v) (hlt : v < 65535) :
    (∃ packet, q.Agrees content k v packet) ↔ q.Fits content k v := by
  generalize hc : nonzero (complement (q.total (setWord content q.field 0))) = c
  have hsend := send_eq hq h
  rw [hc] at hsend
  generalize hp : setWord content q.field c = p at hsend
  have hcn : c.toNat = 65535 - q.total (setWord content q.field 0) % 65535 := by
    rw [← hc, nonzero_complement (total_pos hq _)]
  have htotal : q.total p = q.total (setWord content q.field 0) + c.toNat := by
    rw [← hp, total_filled h]
  have hplen : p.length = content.length := by
    rw [← hp, length_setWord]
  have hfield : wordAt p q.field = c.toNat := by
    rw [← hp, wordAt_setWord h.field, if_pos rfl]
  have hword : wordAt p k = q.sentWord content k := by
    unfold sentWord
    rw [← hp, wordAt_setWord h.field, hcn]
  have hreceive := receive_eq p hq (hplen ▸ h.length) (by omega)
  -- the packet that arrives
  generalize hp' : setWord p k (.ofNat 16 (add (wordAt p k) v)) = p'
  have htotal' := total_changed (q := q) (hplen ▸ hk) hv hlt
  rw [hp', hword] at htotal'
  have hfield' : wordAt p' q.field ≠ 0 := by
    have hadd := add_eq (wordAt_le p k) hv hlt
    have hle : add (wordAt p k) v ≤ 65535 := fold_le _
    rw [← hp', wordAt_setWord (hplen ▸ hk), BitVec.toNat_ofNat, Nat.mod_eq_of_lt (by omega)]
    split_ifs with hkf
    · rw [hadd]
      split_ifs <;> omega
    · omega
  have hplen' : p'.length = content.length := by
    rw [← hp', length_setWord, hplen]
  have hreceive' := receive_eq p' hq (hplen' ▸ h.length) hfield'
  have hle := wordAt_le p k
  rw [hword] at hle
  unfold Fits
  constructor
  · intro ⟨packet, hsent, haccepted, hrejected⟩
    have hfits : q.total (setWord content q.field 0) < 2 ^ 32 := by
      by_contra hbig
      rw [if_neg hbig, hsent] at hsend
      cases hsend
    rw [if_pos hfits, hsent] at hsend
    cases hsend
    rw [hp'] at hrejected
    have hroom : q.total p < 2 ^ 32 := by
      by_contra hbig
      rw [if_neg hbig, haccepted] at hreceive
      cases hreceive
    have hroom' : q.total p' < 2 ^ 32 := by
      by_contra hbig
      rw [if_neg hbig, hrejected] at hreceive'
      cases hreceive'
    split_ifs at htotal' <;> omega
  · intro hfits
    have hroom : q.total (setWord content q.field 0) < 2 ^ 32 ∧ q.total p < 2 ^ 32 ∧
        q.total p' < 2 ^ 32 := by
      split_ifs at htotal' <;> omega
    have hdvd : 65535 ∣ q.total p := by omega
    have hnot : ¬ 65535 ∣ q.total p' := by
      split_ifs at htotal' <;> omega
    rw [if_pos hroom.1] at hsend
    rw [if_pos hroom.2.1, decide_eq_true hdvd] at hreceive
    rw [if_pos hroom.2.2, decide_eq_false hnot] at hreceive'
    exact ⟨p, hsend, hreceive, by rw [hp']; exact hreceive'⟩

/-- **Agreement on an IPv4 header**, whose checksum may be zero. -/
theorem agrees_header (h : ipv4Header.Sendable content) (hk : 2 * k + 1 < content.length)
    (hv : 0 < v) (hlt : v < 65535) : ∃ packet, ipv4Header.Agrees content k v packet := by
  have hlen := h.length
  have heven := h.header rfl
  have hbound : ∀ l : List UInt8, l.length = content.length →
      ipv4Header.total l < 65535 * 65536 := fun l hl =>
    total_lt (fun _ _ => ⟨nofun, nofun⟩) (hl ▸ hlen)
  have hroom := hbound (setWord content 5 0) (length_setWord _ _ _)
  have hsend : ipv4Header.send content =
      .ok (setWord content 5 (complement (ipv4Header.total (setWord content 5 0)))) := by
    change (ipChecksum (setWord content 5 0) >>= fun c => .ok (setWord content 5 c)) = _
    have hsum : (words (setWord content 5 0) ++ oddByte (setWord content 5 0)).sum =
        ipv4Header.total (setWord content 5 0) := rfl
    unfold ipChecksum onesComplement
    rw [addAll_eq, hsum, if_pos (by omega)]
    rfl
  generalize hc : complement (ipv4Header.total (setWord content 5 0)) = c at hsend
  have hcn := complement_toNat (ipv4Header.total (setWord content 5 0))
  rw [hc, fold_eq] at hcn
  have htotal : ipv4Header.total (setWord content 5 c) =
      ipv4Header.total (setWord content 5 0) + c.toNat := total_filled h c
  generalize hp : setWord content 5 c = p at hsend htotal
  have hplen : p.length = content.length := by
    rw [← hp, length_setWord]
  have hproom := hbound p hplen
  have hreceive := receive_header p (by omega) (by omega)
  have htotal' := total_changed (q := ipv4Header) (hplen ▸ hk) hv hlt
  generalize hp' : setWord p k (.ofNat 16 (add (wordAt p k) v)) = p' at htotal'
  have hplen' : p'.length = content.length := by
    rw [← hp', length_setWord, hplen]
  have hproom' := hbound p' hplen'
  have hreceive' := receive_header p' (by omega) (by omega)
  have hdvd : 0 < ipv4Header.total p ∧ 65535 ∣ ipv4Header.total p := by
    split_ifs at hcn <;> omega
  have hnot : ¬ (0 < ipv4Header.total p' ∧ 65535 ∣ ipv4Header.total p') := by
    have hle := wordAt_le p k
    split_ifs at htotal' <;> omega
  rw [decide_eq_true hdvd] at hreceive
  rw [decide_eq_false hnot] at hreceive'
  exact ⟨p, hsend, hreceive, by rw [hp']; exact hreceive'⟩

theorem fits_of_not_ipv4 (hq : ∀ src dst, q ≠ tcp src dst ∧ q ≠ udp src dst)
    (h : q.Sendable content) : q.Fits content k v :=
  .inl (total_lt hq (by rw [length_setWord]; exact h.length))

end Protocol

/-! ## 5. Two datagrams -/

/-- Ports 9 and 9, no data. -/
def emptyDatagram : List UInt8 := [0, 9, 0, 9, 0, 8, 0, 0]

/-- RFC 1624, `~(~HC + ~m + m')`; three words fit the `u32`. -/
def updateChecksum (old_checksum old_value new_value : BitVec 16) : BitVec 16 :=
  complement ((~~~ old_checksum).toNat + (~~~ old_value).toNat + new_value.toNat)

/-- The full computation, with the checksum in word `field` clear. -/
def recompute (field : Nat) (header : List UInt8) : Except Trap (BitVec 16) :=
  ipChecksum (setWord header field 0)

/-- Headers whose words are replaced one by one, with an incremental update each, starting with the
    checksum of a full computation. -/
def updates (field : Nat) : Machine (List UInt8) (Nat × BitVec 16) where
  start header := header.length % 2 = 0 ∧ 2 * field + 1 < header.length ∧
    recompute field header = .ok (.ofNat 16 (wordAt header field))
  step header u := setWord (setWord header u.1 u.2) field (updateChecksum
    (.ofNat 16 (wordAt header field)) (.ofNat 16 (wordAt header u.1)) u.2)

/-- The new header has a word other than zero besides its checksum, and not so many that the full
    computation overflows. -/
def Updatable (field : Nat) (header : List UInt8) (u : Nat × BitVec 16) : Prop :=
  u.1 ≠ field ∧ 2 * u.1 + 1 < header.length ∧
    (∃ v ∈ words (setWord (setWord header u.1 u.2) field 0), v ≠ 0) ∧
    ∃ c, recompute field (setWord header u.1 u.2) = .ok c

section Updates

variable {field : Nat} {header : List UInt8} {c : BitVec 16}

theorem recompute_eq_ok (heven : header.length % 2 = 0) : recompute field header = .ok c ↔
    (words (setWord header field 0)).sum < 2 ^ 32 ∧
      complement (words (setWord header field 0)).sum = c := by
  unfold recompute ipChecksum onesComplement
  rw [oddByte_even (by rw [length_setWord]; exact heven), append_nil, addAll_eq]
  split_ifs with hroom
  · exact ⟨fun h => ⟨hroom, Except.ok.inj h⟩, fun h => congrArg _ h.2⟩
  · exact ⟨nofun, fun h => absurd h.1 hroom⟩

/-- **One update is a full computation**: both sums are the same modulo `0xFFFF`, and neither is
    zero. -/
theorem recompute_setWord {k : Nat} {w : BitVec 16} (heven : header.length % 2 = 0)
    (hf : 2 * field + 1 < header.length) (hc : recompute field header = .ok c)
    (hu : Updatable field header (k, w)) : recompute field (setWord header k w) =
      .ok (updateChecksum c (.ofNat 16 (wordAt header k)) w) := by
  dsimp only [Updatable] at hu
  obtain ⟨hk, hlt, ⟨v, hv, hv0⟩, c', hc'⟩ := hu
  obtain ⟨hroom', rfl⟩ := (recompute_eq_ok (by rw [length_setWord]; exact heven)).1 hc'
  obtain ⟨-, rfl⟩ := (recompute_eq_ok heven).1 hc
  rw [hc']
  congr 1
  have hold := sum_words_setWord (w := 0) hf
  have hset := sum_words_setWord (w := w) hlt
  have hnew := sum_words_setWord (l := setWord header k w) (w := 0) (by rw [length_setWord]; exact hf)
  rw [wordAt_setWord hlt, if_neg (Ne.symm hk)] at hnew
  have hpos : 0 < (words (setWord (setWord header k w) field 0)).sum :=
    Nat.pos_of_ne_zero fun h0 => hv0 (List.sum_eq_zero_iff_forall_eq_nat.1 h0 v hv)
  have hle := wordAt_le header k
  have hw := w.isLt
  refine BitVec.eq_of_toNat_eq ?_
  unfold updateChecksum
  rw [complement_toNat, complement_toNat, BitVec.toNat_not, BitVec.toNat_not, complement_toNat,
    BitVec.toNat_ofNat, Nat.mod_eq_of_lt (by omega), fold_eq, fold_eq, fold_eq]
  change _ + _ = _ + 0 at hold
  change _ + _ = _ + 0 at hnew
  split_ifs <;> omega

/-- The checksum stays that of a full computation. -/
theorem updates_correct (h : (updates field).Reach (Updatable field) header) :
    header.length % 2 = 0 ∧ 2 * field + 1 < header.length ∧
      recompute field header = .ok (.ofNat 16 (wordAt header field)) := by
  refine h.invariant (fun _ hs => hs) fun header u _ ih hu => ?_
  obtain ⟨heven, hf, hc⟩ := ih
  have hnew := recompute_setWord (w := u.2) heven hf hc hu
  have hlen : 2 * field + 1 < (setWord header u.1 u.2).length := by
    rw [length_setWord]
    exact hf
  generalize hn : updateChecksum _ _ _ = c at hnew
  have hstep : (updates field).step header u = setWord (setWord header u.1 u.2) field c := by
    rw [← hn]
    rfl
  rw [hstep]
  refine ⟨?_, ?_, ?_⟩
  · rw [length_setWord, length_setWord]
    exact heven
  · rw [length_setWord]
    exact hlen
  rw [wordAt_setWord hlen, if_pos rfl, BitVec.ofNat_toNat, BitVec.setWidth_eq]
  -- the old checksum is cleared first
  have hset := sum_words_setWord (w := c) hlen
  have hold := sum_words_setWord (w := 0) hlen
  have hclear := sum_words_setWord (l := setWord (setWord header u.1 u.2) field c) (w := 0)
    (by rw [length_setWord]; exact hlen)
  rw [wordAt_setWord hlen, if_pos rfl] at hclear
  rw [recompute_eq_ok (by rw [length_setWord]; exact heven)] at hnew
  rw [recompute_eq_ok (by rw [length_setWord, length_setWord]; exact heven)]
  have hsum : (words (setWord (setWord (setWord header u.1 u.2) field c) field 0)).sum =
      (words (setWord (setWord header u.1 u.2) field 0)).sum := by omega
  rw [hsum]
  exact hnew

/-- **An incremental update is a full computation over the changed header, and so is every sequence
    of them.** -/
theorem incrementalChecksum (field : Nat) :
    (∀ header k w c, header.length % 2 = 0 → 2 * field + 1 < header.length →
      recompute field header = .ok c → Updatable field header (k, w) →
      recompute field (setWord header k w) =
        .ok (updateChecksum c (.ofNat 16 (wordAt header k)) w)) ∧
    ∀ header, (updates field).Reach (Updatable field) header →
      recompute field header = .ok (.ofNat 16 (wordAt header field)) :=
  ⟨fun _ _ _ _ heven hf hc hu => recompute_setWord heven hf hc hu,
    fun _ h => (updates_correct h).2.2⟩

/-- From 10.0.2.15 to 10.0.2.2, TTL 64. -/
def echoHeader : List UInt8 :=
  [0x45, 0, 0, 28, 0, 0, 0, 0, 64, 1, 0x62, 0xD1, 10, 0, 2, 15, 10, 0, 2, 2]

/-- It is routed twice. -/
theorem incrementalChecksum_echoHeader :
    let header := (updates 5).exec echoHeader [(4, 0x3F01), (4, 0x3E01)]
    recompute 5 header = .ok (.ofNat 16 (wordAt header 5)) := by
  have hstart : (updates 5).start echoHeader := by
    refine ⟨by decide, by decide, (recompute_eq_ok (by decide)).2 ⟨by decide +kernel, ?_⟩⟩
    unfold complement
    rw [fold_eq]
    decide +kernel
  have hrun : (updates 5).Along (Updatable 5) echoHeader [(4, 0x3F01), (4, 0x3E01)] := by
    refine ⟨⟨by decide, by decide, ⟨0x4500, by decide +kernel, by decide⟩, _,
      (recompute_eq_ok (by decide)).2 ⟨by decide +kernel, rfl⟩⟩,
      ⟨by decide, by decide +kernel, ⟨0x4500, by decide +kernel, by decide⟩, _,
      (recompute_eq_ok (by decide +kernel)).2 ⟨by decide +kernel, rfl⟩⟩, trivial⟩
  exact (incrementalChecksum 5).2 _ (Machine.Reach.exec (.start hstart) hrun)

end Updates

end Zigk.Checksum
