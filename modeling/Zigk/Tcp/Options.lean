/-
  Subject:   THE TCP OPTIONS: parsing them out of a received header and building them for SYN,
             SYN-ACK and ACK segments (options.zig).

  The parser walks the option bytes with an index; here it walks the list of the bytes that are
  left, so "would read past the options" is "the list is too short". Every step consumes at least
  one byte, so the number of option bytes is fuel enough (`parseFrom` is called with it).

  * `parseOptions`, `parseFrom` -- the parser, one branch per option kind;
  * `buildSynOptions`, `buildSackOptions` -- the builders;
  * `Parses` -- what the parser makes of some bytes; **`parses_buildSynOptions`**,
    **`parses_buildSackOptions`**: the options that are built read back as they were meant;
  * `sackRanges`, `carriedShift` -- the blocks and the window scale that a segment carries.
-/
import Zigk.Base.Bytes
import Zigk.Tcp.Types

namespace Zigk.Tcp

open List

open Bytes (byteAt be16 be32 putBe32 be32_append_right be32_putBe32)

/-! ## 1. Kinds and lengths -/

abbrev TCPOPT_EOL : Nat := 0
abbrev TCPOPT_NOP : Nat := 1
abbrev TCPOPT_MSS : Nat := 2
abbrev TCPOPT_WINDOW : Nat := 3
abbrev TCPOPT_SACK_PERM : Nat := 4
abbrev TCPOPT_SACK : Nat := 5
abbrev TCPOPT_TIMESTAMP : Nat := 8

abbrev TCPOLEN_MSS : Nat := 4
abbrev TCPOLEN_WINDOW : Nat := 3
abbrev TCPOLEN_SACK_PERM : Nat := 2
abbrev TCPOLEN_TIMESTAMP : Nat := 10

structure TcpOptions where
  mssPresent : Bool := false
  mss : Nat := DEFAULT_MSS
  wscalePresent : Bool := false
  wscale : Nat := 0
  sackPermitted : Bool := false
  sackBlocks : List SackBlock := []
  timestampPresent : Bool := false
  tsVal : Seq := 0
  tsEcr : Seq := 0

/-! ## 2. Parsing -/

/-- The `n` blocks of a SACK option, read from its first block on. -/
def readSackBlocks (l : List Byte) : Nat → List SackBlock
  | 0 => []
  | n + 1 => ⟨be32 l 0, be32 l 4⟩ :: readSackBlocks (l.drop 8) n

/-- The length field of the option at the front of `l`, where it can be skipped: at least 2 and
    not past the end. -/
def skipLength (l : List Byte) : Option Nat :=
  if l.length < 2 then none
  else if byteAt l 1 < 2 then none
  else if l.length < byteAt l 1 then none
  else some (byteAt l 1)

/-- An option of fixed length `len`: taken where its length field says `len`, skipped by that
    field otherwise. -/
def fixedOption (l : List Byte) (len : Nat) (taken : TcpOptions) (opts : TcpOptions) :
    Option (Nat × TcpOptions) :=
  if l.length < 2 then none
  else if l.length < len then none
  else if byteAt l 1 ≠ len then (skipLength l).map fun n => (n, opts)
  else some (len, taken)

/-- One turn of the parser on the option bytes that are left: how far to go on and the options so
    far, or `none` where the parser returns. -/
def parseOne (l : List Byte) (opts : TcpOptions) : Option (Nat × TcpOptions) :=
  let kind := byteAt l 0
  if kind = TCPOPT_EOL then none
  else if kind = TCPOPT_NOP then some (1, opts)
  else if kind = TCPOPT_MSS then
    fixedOption l TCPOLEN_MSS { opts with mssPresent := true, mss := max (be16 l 2) MIN_MSS } opts
  else if kind = TCPOPT_WINDOW then
    fixedOption l TCPOLEN_WINDOW
      { opts with wscalePresent := true, wscale := min (byteAt l 2) TCP_MAX_WSCALE } opts
  else if kind = TCPOPT_SACK_PERM then
    fixedOption l TCPOLEN_SACK_PERM { opts with sackPermitted := true } opts
  else if kind = TCPOPT_TIMESTAMP then
    fixedOption l TCPOLEN_TIMESTAMP
      { opts with timestampPresent := true, tsVal := be32 l 2, tsEcr := be32 l 6 } opts
  else if kind = TCPOPT_SACK then
    match skipLength l with
    | none => none
    | some optLen =>
      if (optLen - 2) % 8 ≠ 0 then none
      else
        some (optLen,
          { opts with sackBlocks := readSackBlocks (l.drop 2) (min ((optLen - 2) / 8) OOO_SLOTS) })
  else (skipLength l).map fun n => (n, opts)

def parseFrom : Nat → List Byte → TcpOptions → TcpOptions
  | 0, _, opts => opts
  | fuel + 1, l, opts =>
    if l.length = 0 then opts
    else
      match parseOne l opts with
      | none => opts
      | some (n, opts') => parseFrom fuel (l.drop n) opts'

/-- `parseOptions`. -/
def parseOptions (p : Packet) : TcpOptions :=
  let headerLen := p.tcp.getDataOffset
  if headerLen ≤ TCP_HEADER_SIZE then {}
  else if p.segmentLen < headerLen then {}
  else
    let bytes := p.rest.take (headerLen - TCP_HEADER_SIZE)
    parseFrom bytes.length bytes {}

/-! ## 3. Building -/

/-- Padding with NOPs to the next multiple of four. -/
def padOptions (l : List Byte) : List Byte := l ++ List.replicate ((4 - l.length % 4) % 4) 1

/-- The loop of `calculateWindowScale`, with the number of steps it may still take. -/
def windowScaleFrom (bufferSize : Nat) : Nat → Nat → Nat → Nat
  | 0, _, scale => scale
  | steps + 1, maxWindow, scale =>
    if maxWindow < bufferSize then windowScaleFrom bufferSize steps (maxWindow * 2) (scale + 1)
    else scale

def calculateWindowScale (bufferSize : Nat) : Nat :=
  windowScaleFrom bufferSize TCP_MAX_WSCALE 65535 0

/-- `buildSynOptions`: the option bytes and the TCB with what was negotiated written into it.
    `timestamp` is the value `nextTimestamp` yields. -/
def buildSynOptions (t : Tcb) (isSynAck : Bool) (peerOpts : Option TcpOptions) (timestamp : Seq) :
    List Byte × Tcb :=
  let mssOpt : List Byte := [2, 4, .ofNat (DEFAULT_MSS / 256), .ofNat DEFAULT_MSS]
  let peerWscale := peerOpts.any (·.wscalePresent)
  let includeWscale := !isSynAck || peerWscale
  let t := if includeWscale then { t with rcvWscale := calculateWindowScale BUFFER_SIZE } else t
  let wscaleOpt : List Byte := if includeWscale then [3, 3, .ofNat t.rcvWscale] else []
  let t := match peerOpts with
    | some o => if includeWscale && o.wscalePresent then
        { t with sndWscale := o.wscale, wscaleOk := true } else t
    | none => t
  let peerSack := peerOpts.any (·.sackPermitted)
  let includeSack := !isSynAck || peerSack
  let sackOpt : List Byte := if includeSack then [4, 2] else []
  let t := if includeSack && isSynAck && peerSack then { t with sackOk := true } else t
  let peerTs := peerOpts.any (·.timestampPresent)
  let includeTs := !isSynAck || peerTs
  let t := if includeTs then { t with tsVal := timestamp } else t
  let tsEcr : Seq := match peerOpts with
    | some o => if isSynAck then o.tsVal else 0
    | none => 0
  let tsOpt : List Byte := if includeTs then 8 :: 10 :: (putBe32 timestamp ++ putBe32 tsEcr) else []
  let t := match peerOpts with
    | some o => if includeTs && isSynAck && o.timestampPresent then
        { t with tsOk := true, tsRecent := o.tsVal } else t
    | none => t
  (padOptions (mssOpt ++ wscaleOpt ++ sackOpt ++ tsOpt), t)

/-- The bytes of the blocks of a SACK option. -/
def sackBytes : List SackBlock → List Byte
  | [] => []
  | b :: l => putBe32 b.start ++ (putBe32 b.stop ++ sackBytes l)

/-- `buildSackOptions`: nothing where SACK was not negotiated or no block is held. -/
def buildSackOptions (t : Tcb) : List Byte :=
  if !t.sackOk || t.rcvSackBlocks.length = 0 then []
  else
    let blocks := t.rcvSackBlocks.take OOO_SLOTS
    padOptions (5 :: .ofNat (2 + blocks.length * 8) :: sackBytes blocks)

/-! ## 4. The SACK option of an ACK -/

@[simp] theorem length_sackBytes (l : List SackBlock) : (sackBytes l).length = l.length * 8 := by
  induction l with
  | nil => rfl
  | cons b l ih =>
    simp only [sackBytes, length_append, Bytes.length_putBe32, ih, length_cons]
    omega

/-- Reading as many blocks as were written gives them back. -/
theorem readSackBlocks_sackBytes (l : List SackBlock) (tail : List Byte) :
    readSackBlocks (sackBytes l ++ tail) l.length = l := by
  induction l with
  | nil => rfl
  | cons b l ih =>
    have h0 : be32 (sackBytes (b :: l) ++ tail) 0 = b.start := by
      simp only [sackBytes, append_assoc, be32_putBe32]
    have h4 : be32 (sackBytes (b :: l) ++ tail) 4 = b.stop := by
      rw [sackBytes, append_assoc]
      exact (be32_append_right (putBe32 b.start) _ 0).trans
        (by rw [append_assoc, be32_putBe32])
    have hd : (sackBytes (b :: l) ++ tail).drop 8 = sackBytes l ++ tail := by
      rw [sackBytes, ← append_assoc, append_assoc]
      exact drop_left' (by simp)
    rw [length_cons, readSackBlocks, h0, h4, hd, ih]

theorem skipLength_eq {l : List Byte} {n : Nat} (hn : byteAt l 1 = n) (h2 : 2 ≤ n)
    (hl : n ≤ l.length) : skipLength l = some n := by
  rw [skipLength, hn, if_neg (by omega), if_neg (by omega), if_neg (by omega)]

/-- The parser's turn on a SACK option that lies inside the options. -/
theorem parseOne_sack {l : List Byte} {n : Nat} (opts : TcpOptions) (hk : byteAt l 0 = TCPOPT_SACK)
    (hn : byteAt l 1 = n) (h2 : 2 ≤ n) (h8 : (n - 2) % 8 = 0) (hl : n ≤ l.length) :
    parseOne l opts = some (n,
      { opts with sackBlocks := readSackBlocks (l.drop 2) (min ((n - 2) / 8) OOO_SLOTS) }) := by
  simp [parseOne, hk, skipLength_eq hn h2 hl, h8]

theorem fixedOption_taken {l : List Byte} {len : Nat} (hl : 2 ≤ len ∧ len ≤ l.length)
    (h1 : byteAt l 1 = len) (taken opts : TcpOptions) :
    fixedOption l len taken opts = some (len, taken) := by
  rw [fixedOption, if_neg (by omega), if_neg (by omega), if_neg (by simpa using h1)]

/-- The parser makes `o'` of `o` on these bytes. -/
def Parses (l : List Byte) (o o' : TcpOptions) : Prop :=
  ∀ fuel, l.length ≤ fuel → parseFrom fuel l o = o'

section Parses

variable {l rest : List Byte} {o o₁ o₂ : TcpOptions}

/-- NOPs at the end of the options say nothing. -/
theorem parses_nops (n : Nat) (h : o = o₁) : Parses (List.replicate n 1) o o₁ := by
  intro fuel _
  rw [← h]
  induction fuel generalizing n with
  | zero => rfl
  | succ fuel ih =>
    cases n with
    | zero => rfl
    | succ n =>
      have h1 : parseOne (List.replicate (n + 1) 1) o = some (1, o) := by
        simp [parseOne, byteAt, replicate_succ]
      rw [parseFrom, if_neg (by simp), h1]
      exact ih n (by simp_all)

/-- An option that the parser takes whole, in front of others. -/
theorem parses_append (hl : 0 < l.length) (h1 : parseOne (l ++ rest) o = some (l.length, o₁))
    (h : Parses rest o₁ o₂) : Parses (l ++ rest) o o₂ := by
  intro fuel hf
  rw [length_append] at hf
  obtain ⟨fuel, rfl⟩ : ∃ f, fuel = f + 1 := ⟨fuel - 1, by omega⟩
  rw [parseFrom, if_neg (by rw [length_append]; omega), h1]
  simp only [List.drop_left]
  exact h fuel (by omega)

/-- The same for an option that may be left out. -/
theorem parses_if {c : Bool} (hl : 0 < l.length)
    (h1 : parseOne (l ++ rest) o = some (l.length, o₁))
    (h : Parses rest (if c then o₁ else o) o₂) :
    Parses ((if c then l else []) ++ rest) o o₂ := by
  cases c with
  | true => exact parses_append hl h1 h
  | false => exact h

theorem parseOne_mss (a b : Byte) : parseOne ([2, 4, a, b] ++ rest) o = some (4,
    { o with mssPresent := true, mss := max (a.toNat * 256 + b.toNat) MIN_MSS }) := by
  have h1 : byteAt ([2, 4, a, b] ++ rest) 1 = TCPOLEN_MSS := rfl
  exact fixedOption_taken ⟨by decide, by simp [TCPOLEN_MSS]⟩ h1 _ o

theorem parseOne_wscale (b : Byte) : parseOne ([3, 3, b] ++ rest) o = some (3,
    { o with wscalePresent := true, wscale := min b.toNat TCP_MAX_WSCALE }) := by
  have h1 : byteAt ([3, 3, b] ++ rest) 1 = TCPOLEN_WINDOW := rfl
  exact fixedOption_taken ⟨by decide, by simp [TCPOLEN_WINDOW]⟩ h1 _ o

theorem parseOne_sackPerm : parseOne ([4, 2] ++ rest) o = some (2, { o with sackPermitted := true }) := by
  have h1 : byteAt ([4, 2] ++ rest) 1 = TCPOLEN_SACK_PERM := rfl
  exact fixedOption_taken ⟨by decide, by simp [TCPOLEN_SACK_PERM]⟩ h1 _ o

theorem parseOne_timestamp (v e : Seq) :
    parseOne ((8 :: 10 :: (putBe32 v ++ putBe32 e)) ++ rest) o = some (10,
      { o with timestampPresent := true, tsVal := v, tsEcr := e }) := by
  have hl : (8 :: 10 :: (putBe32 v ++ putBe32 e) : List Byte) ++ rest =
      [8, 10] ++ (putBe32 v ++ (putBe32 e ++ rest)) := by simp
  have hv : be32 ([8, 10] ++ (putBe32 v ++ (putBe32 e ++ rest))) 2 = v :=
    (be32_append_right [8, 10] _ 0).trans (be32_putBe32 v _)
  have he : be32 ([8, 10] ++ (putBe32 v ++ (putBe32 e ++ rest))) 6 = e :=
    (be32_append_right [8, 10] _ 4).trans
      ((be32_append_right (putBe32 v) _ 0).trans (be32_putBe32 e rest))
  have h1 : byteAt ([8, 10] ++ (putBe32 v ++ (putBe32 e ++ rest))) 1 = TCPOLEN_TIMESTAMP := rfl
  rw [hl]
  refine (fixedOption_taken ⟨by decide, ?_⟩ h1 _ o).trans ?_
  · simp only [TCPOLEN_TIMESTAMP, length_append, Bytes.length_putBe32, length_cons,
      length_nil]
    omega
  · rw [hv, he]

end Parses

/-- The options of a SYN or SYN-ACK: window scale, SACK and timestamps in a SYN-ACK only where the
    SYN had them. -/
def synOptions (isSynAck : Bool) (peerOpts : Option TcpOptions) (timestamp : Seq) : TcpOptions :=
  let withScale := !isSynAck || peerOpts.any (·.wscalePresent)
  let withTs := !isSynAck || peerOpts.any (·.timestampPresent)
  { mssPresent := true
    mss := DEFAULT_MSS
    wscalePresent := withScale
    wscale := if withScale then calculateWindowScale BUFFER_SIZE else 0
    sackPermitted := !isSynAck || peerOpts.any (·.sackPermitted)
    timestampPresent := withTs
    tsVal := if withTs then timestamp else 0
    tsEcr := if withTs then (match peerOpts with
      | some o => if isSynAck then o.tsVal else 0
      | none => 0) else 0 }

/-- **The options of a SYN or SYN-ACK read back** as they were meant. -/
theorem parses_buildSynOptions (t : Tcb) (isSynAck : Bool) (o : Option TcpOptions) (ts : Seq) :
    Parses (buildSynOptions t isSynAck o ts).1 {} (synOptions isSynAck o ts) := by
  have hz : calculateWindowScale BUFFER_SIZE = 0 := by decide
  simp only [buildSynOptions, padOptions, append_assoc]
  refine parses_append (by simp) (parseOne_mss _ _) ?_
  generalize hw : (!isSynAck || o.any (·.wscalePresent)) = c₁
  generalize hs : (!isSynAck || o.any (·.sackPermitted)) = c₂
  generalize ht : (!isSynAck || o.any (·.timestampPresent)) = c₃
  refine parses_if (by simp) (parseOne_wscale _) (parses_if (by simp) parseOne_sackPerm
    (parses_if (by simp) (parseOne_timestamp ts _) (parses_nops _ ?_)))
  have hmss : max ((UInt8.ofNat (DEFAULT_MSS / 256)).toNat * 256 + (UInt8.ofNat DEFAULT_MSS).toNat)
      MIN_MSS = DEFAULT_MSS := by decide
  simp only [synOptions, hw, hs, ht, hz, hmss]
  cases c₁ <;> cases c₂ <;> cases c₃ <;> simp

/-- **So do the blocks of an ACK.** -/
theorem parses_buildSackOptions (t : Tcb) : Parses (buildSackOptions t) {}
    { sackBlocks := if t.sackOk then t.rcvSackBlocks.take OOO_SLOTS else [] } := by
  unfold buildSackOptions
  cases hk : t.sackOk with
  | false => exact parses_nops 0 rfl
  | true =>
    generalize hb : t.rcvSackBlocks.take OOO_SLOTS = blocks
    by_cases h0 : t.rcvSackBlocks.length = 0
    · rw [eq_nil_of_length_eq_zero h0, take_nil] at hb
      rw [if_pos (by simp [h0]), ← hb]
      exact parses_nops 0 rfl
    have hlen : blocks.length ≤ 4 := by rw [← hb]; simp
    simp only [Bool.not_true, Bool.false_or, decide_eq_true_eq, h0, if_false, if_true]
    have hol : (5 :: UInt8.ofNat (2 + blocks.length * 8) :: sackBytes blocks).length =
        2 + blocks.length * 8 := by
      rw [length_cons, length_cons, length_sackBytes]
      omega
    rw [padOptions]
    refine parses_append (by simp) ?_ (parses_nops _ rfl)
    rw [hol]
    generalize List.replicate _ (1 : Byte) = pad
    have hb1 : byteAt ((5 :: UInt8.ofNat (2 + blocks.length * 8) :: sackBytes blocks) ++ pad) 1 =
        2 + blocks.length * 8 := by
      simp only [byteAt, cons_append, getD_cons_succ, getD_cons_zero,
        UInt8.toNat_ofNat']
      omega
    have hcount : min ((2 + blocks.length * 8 - 2) / 8) OOO_SLOTS = blocks.length := by
      simp only [OOO_SLOTS]
      omega
    refine (parseOne_sack {} rfl hb1 (by omega) (by omega) ?_).trans ?_
    · rw [length_append]
      omega
    · rw [hcount]
      exact congrArg (fun l => some (_, ({ sackBlocks := l } : TcpOptions)))
        (readSackBlocks_sackBytes blocks pad)

/-- The sequence ranges that the options of a segment advertise. -/
def sackRanges (options : List Byte) : List SackBlock :=
  (parseFrom options.length options {}).sackBlocks

theorem sackRanges_nil : sackRanges [] = [] := rfl

/-- **What an ACK advertises is what it was built from.** -/
theorem sackRanges_buildSackOptions (t : Tcb) :
    sackRanges (buildSackOptions t) = if t.sackOk then t.rcvSackBlocks.take OOO_SLOTS else [] :=
  congrArg TcpOptions.sackBlocks (parses_buildSackOptions t _ le_rfl)

/-- **A SYN and a SYN-ACK advertise no range.** -/
theorem sackRanges_buildSynOptions (t : Tcb) (isSynAck : Bool) (o : Option TcpOptions) (ts : Seq) :
    sackRanges (buildSynOptions t isSynAck o ts).1 = [] :=
  congrArg TcpOptions.sackBlocks (parses_buildSynOptions t isSynAck o ts _ le_rfl)

/-- The window scale option as the parser found it. -/
def TcpOptions.shift (o : TcpOptions) : Option Nat := if o.wscalePresent then some o.wscale else none

/-- The window scale option that the options of a segment carry. -/
def carriedShift (options : List Byte) : Option Nat :=
  (parseFrom options.length options {}).shift

/-- **What a SYN says of the window scale**: the shift for the receive buffer, a SYN-ACK only in
    answer to a SYN that carried the option. -/
theorem carriedShift_buildSynOptions (t : Tcb) (isSynAck : Bool) (o : Option TcpOptions) (ts : Seq) :
    carriedShift (buildSynOptions t isSynAck o ts).1 =
      if !isSynAck || o.any (·.wscalePresent) then some 0 else none := by
  have hz : calculateWindowScale BUFFER_SIZE = 0 := by decide
  rw [carriedShift, parses_buildSynOptions t isSynAck o ts _ le_rfl]
  simp only [TcpOptions.shift, synOptions, hz]
  split <;> rfl

end Zigk.Tcp
