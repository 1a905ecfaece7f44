/-
  Subject:   THE PARSER AT ITS INDICES: `parseOptions` as it reads `pkt.data`, and the options that
             the builders write read back.

  * `Area`, `parseOptionsAt` -- the loop with `i` and `bytes_consumed`; a read outside the option
    bytes is an error, and `none` is a loop that does not end;
  * `walk_eq` -- on the bytes that are left it is `parseFrom`;
  * **`optionsCodec`** -- it always ends and reads only the option bytes, and from the bytes of
    `buildSynOptions` and `buildSackOptions`, anywhere in a packet, it reads their options.
-/
import Zigk.Base.Checked
import Zigk.Tcp.Options

namespace Zigk.Tcp

open List Option

open Bytes (byteAt be16 be32 length_putBe32)

/-! ## 1. The loop of the source -/

/-- The option bytes: the places from `start` up to `stop` of the packet. -/
structure Area where
  data : List Byte
  start : Nat
  stop : Nat

namespace Area

variable (a : Area)

/-- `pkt.data[i]`. The error is an index that is none of an option byte. -/
def byte (i : Nat) : Except Nat Nat :=
  if a.start ≤ i ∧ i < a.stop then .ok (byteAt a.data i) else .error i

def word16 (i : Nat) : Except Nat Nat := do
  return (← a.byte i) * 256 + (← a.byte (i + 1))

def word32 (i : Nat) : Except Nat Seq := do
  return .ofNat 32 ((((← a.byte i) * 256 + (← a.byte (i + 1))) * 256 + (← a.byte (i + 2))) * 256 +
    (← a.byte (i + 3)))

/-- Skipping an option by its length field. -/
def skip (i : Nat) : Except Nat (Option Nat) := do
  if i + 1 ≥ a.stop then return none
  let optLen ← a.byte (i + 1)
  if optLen < 2 then return none
  if i + optLen > a.stop then return none
  return some optLen

/-- An option of fixed length. -/
def fixed (i len : Nat) (take : Except Nat TcpOptions) (opts : TcpOptions) :
    Except Nat (Option (Nat × TcpOptions)) := do
  if i + 1 ≥ a.stop then return none
  if i + len > a.stop then return none
  if (← a.byte (i + 1)) ≠ len then
    return (← a.skip i).map fun n => (n, opts)
  return some (len, ← take)

/-- The loop over the blocks of a SACK option. -/
def readBlocks (offset : Nat) : Nat → Except Nat (List SackBlock)
  | 0 => return []
  | n + 1 => do
    let start ← a.word32 offset
    let stop ← a.word32 (offset + 4)
    return ⟨start, stop⟩ :: (← readBlocks (offset + 8) n)

/-- One turn of the loop. -/
def turn (i : Nat) (opts : TcpOptions) : Except Nat (Option (Nat × TcpOptions)) := do
  let kind ← a.byte i
  if kind = TCPOPT_EOL then return none
  else if kind = TCPOPT_NOP then return some (1, opts)
  else if kind = TCPOPT_MSS then
    a.fixed i TCPOLEN_MSS
      (do return { opts with mssPresent := true, mss := max (← a.word16 (i + 2)) MIN_MSS }) opts
  else if kind = TCPOPT_WINDOW then
    a.fixed i TCPOLEN_WINDOW
      (do return { opts with wscalePresent := true, wscale := min (← a.byte (i + 2)) TCP_MAX_WSCALE })
      opts
  else if kind = TCPOPT_SACK_PERM then
    a.fixed i TCPOLEN_SACK_PERM (.ok { opts with sackPermitted := true }) opts
  else if kind = TCPOPT_TIMESTAMP then
    a.fixed i TCPOLEN_TIMESTAMP
      (do
        let tsVal ← a.word32 (i + 2)
        let tsEcr ← a.word32 (i + 6)
        return { opts with timestampPresent := true, tsVal := tsVal, tsEcr := tsEcr }) opts
  else if kind = TCPOPT_SACK then
    match ← a.skip i with
    | none => return none
    | some optLen =>
      if (optLen - 2) % 8 ≠ 0 then return none
      else
        let blocks ← a.readBlocks (i + 2) (min ((optLen - 2) / 8) OOO_SLOTS)
        return some (optLen, { opts with sackBlocks := blocks })
  else return (← a.skip i).map fun n => (n, opts)

/-- The loop, with the number of turns it may still take. -/
def walk : Nat → Nat → Nat → TcpOptions → Except Nat (Option TcpOptions)
  | fuel, i, bytesConsumed, opts =>
    if ¬(i < a.stop ∧ bytesConsumed < a.stop - a.start) then return some opts
    else
      match fuel with
      | 0 => return none
      | fuel + 1 => do
        match ← a.turn i opts with
        | none => return some opts
        | some (n, opts') => walk fuel (i + n) (bytesConsumed + n) opts'

end Area

/-- `parseOptions` on the bytes of a packet up to `pkt.len`. -/
def parseOptionsAt (data : List Byte) (transportOffset headerLen : Nat) :
    Except Nat (Option TcpOptions) :=
  if headerLen ≤ TCP_HEADER_SIZE then return some {}
  else if transportOffset + headerLen > data.length then return some {}
  else
    let a : Area := ⟨data, transportOffset + TCP_HEADER_SIZE, transportOffset + headerLen⟩
    a.walk (headerLen - TCP_HEADER_SIZE) a.start 0 {}

/-! ## 2. The loop is the walk over the bytes that are left -/

/-- The option bytes from place `i` on. -/
def Area.left (a : Area) (i : Nat) : List Byte := (a.data.drop i).take (a.stop - i)

section Left

variable {a : Area} {i k : Nat} (hs : a.stop ≤ a.data.length) (hi : a.start ≤ i)

include hs in
theorem length_left : (a.left i).length = a.stop - i := by
  rw [Area.left, length_take, length_drop]
  omega

theorem drop_left (a : Area) (i n : Nat) : (a.left i).drop n = a.left (i + n) := by
  simp only [Area.left, drop_take, drop_drop, Nat.sub_sub]

include hi in
theorem byte_left (hk : i + k < a.stop) : a.byte (i + k) = .ok (byteAt (a.left i) k) := by
  rw [Area.byte, if_pos ⟨by omega, hk⟩]
  have : (a.left i)[k]? = a.data[i + k]? := by
    rw [Area.left, getElem?_take, if_pos (by omega), getElem?_drop]
  simp only [byteAt, getD_eq_getElem?_getD, this]

include hi in
theorem word32_left (hk : i + k + 3 < a.stop) : a.word32 (i + k) = .ok (be32 (a.left i) k) := by
  simp only [Area.word32, Nat.add_assoc, byte_left hi (k := k) (by omega),
    byte_left hi (k := k + 1) (by omega), byte_left hi (k := k + 2) (by omega),
    byte_left hi (k := k + 3) (by omega)]
  rfl

include hs hi

theorem skip_left : a.skip i = .ok (skipLength (a.left i)) := by
  rw [Area.skip, skipLength, length_left hs]
  by_cases h1 : i + 1 ≥ a.stop
  · rw [if_pos h1, if_pos (by omega)]
    rfl
  rw [if_neg h1, if_neg (by omega), byte_left hi (by omega)]
  simp only [Except.ok_bind, pure, Except.pure]
  by_cases h2 : byteAt (a.left i) 1 < 2
  · rw [if_pos h2, if_pos h2]
  rw [if_neg h2, if_neg h2]
  by_cases h3 : i + byteAt (a.left i) 1 > a.stop
  · rw [if_pos h3, if_pos (by omega)]
  · rw [if_neg h3, if_neg (by omega)]

theorem fixed_left {len : Nat} {take : Except Nat TcpOptions} {taken opts : TcpOptions}
    (h : i + len ≤ a.stop → take = .ok taken) :
    a.fixed i len take opts = .ok (fixedOption (a.left i) len taken opts) := by
  rw [Area.fixed, fixedOption, length_left hs]
  by_cases h1 : i + 1 ≥ a.stop
  · rw [if_pos h1, if_pos (by omega)]
    rfl
  rw [if_neg h1, if_neg (show ¬ a.stop - i < 2 by omega)]
  by_cases h2 : i + len > a.stop
  · rw [if_pos h2, if_pos (by omega)]
    rfl
  rw [if_neg h2, if_neg (show ¬ a.stop - i < len by omega), byte_left hi (by omega), skip_left hs hi, h (by omega)]
  simp only [Except.ok_bind, pure, Except.pure]
  split <;> rfl

omit hs hi in
theorem readBlocks_left (n : Nat) (hi : a.start ≤ i) (hk : i + n * 8 ≤ a.stop) :
    a.readBlocks i n = .ok (readSackBlocks (a.left i) n) := by
  induction n generalizing i with
  | zero => rfl
  | succ n ih =>
    have h0 := word32_left (k := 0) hi (by omega)
    rw [Nat.add_zero] at h0
    rw [Area.readBlocks, readSackBlocks, h0, word32_left hi (by omega), ih (by omega) (by omega),
      drop_left]
    rfl

omit hs hi in
theorem skipLength_le {l : List Byte} {n : Nat} (h : skipLength l = some n) :
    2 ≤ n ∧ n ≤ l.length := by
  rw [skipLength] at h
  split_ifs at h
  cases h
  omega

omit hs hi in
theorem fixedOption_le {l : List Byte} {len n : Nat} {taken opts opts' : TcpOptions}
    (h : fixedOption l len taken opts = some (n, opts')) (hlen : 2 ≤ len) :
    1 ≤ n ∧ n ≤ l.length := by
  rw [fixedOption] at h
  split_ifs at h
  · obtain ⟨m, hm, e⟩ := map_eq_some_iff.1 h
    cases e
    have := skipLength_le hm
    omega
  · cases h
    omega

omit hs hi in
/-- A turn goes on by a byte at least, and to no place past the end. -/
theorem parseOne_le {l : List Byte} {opts opts' : TcpOptions} {n : Nat} (hl : 0 < l.length)
    (h : parseOne l opts = some (n, opts')) : 1 ≤ n ∧ n ≤ l.length := by
  rw [parseOne] at h
  split_ifs at h
  · cases h
    omega
  · exact fixedOption_le h (by decide)
  · exact fixedOption_le h (by decide)
  · exact fixedOption_le h (by decide)
  · exact fixedOption_le h (by decide)
  · cases hskip : skipLength l with
    | none => simp only [hskip] at h; cases h
    | some optLen =>
      simp only [hskip] at h
      split_ifs at h
      cases h
      have := skipLength_le hskip
      omega
  · obtain ⟨m, hm, e⟩ := map_eq_some_iff.1 h
    cases e
    have := skipLength_le hm
    omega

/-- **One turn.** -/
theorem turn_left (hlt : i < a.stop) (opts : TcpOptions) :
    a.turn i opts = .ok (parseOne (a.left i) opts) := by
  have h0 := byte_left (k := 0) hi hlt
  rw [Nat.add_zero] at h0
  rw [Area.turn, parseOne, h0, skip_left hs hi]
  simp only [Except.ok_bind, pure, Except.pure]
  split
  · rfl
  split
  · rfl
  split
  · refine fixed_left hs hi fun h => ?_
    rw [Area.word16, byte_left hi (by simp only [TCPOLEN_MSS] at h; omega), Nat.add_assoc,
      byte_left hi (by simp only [TCPOLEN_MSS] at h; omega)]
    rfl
  split
  · refine fixed_left hs hi fun h => ?_
    rw [byte_left hi (by simp only [TCPOLEN_WINDOW] at h; omega)]
    rfl
  split
  · exact fixed_left hs hi fun _ => rfl
  split
  · refine fixed_left hs hi fun h => ?_
    rw [word32_left hi (by simp only [TCPOLEN_TIMESTAMP] at h; omega),
      word32_left hi (by simp only [TCPOLEN_TIMESTAMP] at h; omega)]
    rfl
  split
  · cases hskip : skipLength (a.left i) with
    | none => rfl
    | some optLen =>
      have hle := skipLength_le hskip
      rw [length_left hs] at hle
      simp only
      split
      · rfl
      · rw [readBlocks_left _ (by omega) (by omega), drop_left]
        rfl
  · rfl

omit hi in
/-- **The loop** ends, and reads what `parseFrom` does. -/
theorem walk_left (fuel : Nat) (hi : a.start ≤ i) (hle : i ≤ a.stop) (hfuel : a.stop - i ≤ fuel)
    (opts : TcpOptions) :
    a.walk fuel i (i - a.start) opts = .ok (some (parseFrom fuel (a.left i) opts)) := by
  induction fuel generalizing i opts with
  | zero =>
    rw [Area.walk, if_pos (by omega)]
    rfl
  | succ fuel ih =>
    have hlen := length_left (i := i) hs
    rw [Area.walk, parseFrom, hlen]
    by_cases hlt : i < a.stop
    · rw [if_neg (not_not.2 ⟨hlt, by omega⟩), if_neg (show ¬ a.stop - i = 0 by omega)]
      simp only [turn_left hs hi hlt, Except.ok_bind]
      cases hone : parseOne (a.left i) opts with
      | none => rfl
      | some r =>
        obtain ⟨n, opts'⟩ := r
        obtain ⟨h1, h2⟩ := parseOne_le (by omega) hone
        simp only [drop_left]
        rw [show i - a.start + n = i + n - a.start by omega]
        exact ih (by omega) (by omega) (by omega) opts'
    · rw [if_pos (by omega), if_pos (by omega)]
      rfl

end Left

/-! ## 3. The codec -/

/-- **`parseOptions` ends and stays inside** the option bytes, of which it makes what `parseFrom`
    does. -/
theorem parseOptionsAt_eq (data : List Byte) (transportOffset headerLen : Nat) :
    parseOptionsAt data transportOffset headerLen = .ok (some (
      if transportOffset + headerLen > data.length then {}
      else
        let n := headerLen - TCP_HEADER_SIZE
        parseFrom n ((data.drop (transportOffset + TCP_HEADER_SIZE)).take n) {})) := by
  rw [parseOptionsAt]
  by_cases h1 : headerLen ≤ TCP_HEADER_SIZE
  · rw [if_pos h1, Nat.sub_eq_zero_of_le h1]
    split <;> rfl
  rw [if_neg h1]
  by_cases h2 : transportOffset + headerLen > data.length
  · rw [if_pos h2, if_pos h2]
    rfl
  rw [if_neg h2, if_neg h2]
  have hwalk := walk_left (a := ⟨data, transportOffset + TCP_HEADER_SIZE,
    transportOffset + headerLen⟩) (i := transportOffset + TCP_HEADER_SIZE)
    (Nat.le_of_not_lt h2) (headerLen - TCP_HEADER_SIZE) le_rfl (by simp only; omega) (by simp only; omega) {}
  simp only [Nat.sub_self, Area.left, Nat.add_sub_add_left] at hwalk
  exact hwalk

/-- Option bytes that fit a header and from which, in any packet, these options are read. -/
structure Carries (l : List Byte) (opts : TcpOptions) : Prop where
  words : 4 ∣ l.length
  fits : (TCP_HEADER_SIZE + l.length) / 4 ≤ 15
  parse : ∀ data transportOffset, transportOffset + (TCP_HEADER_SIZE + l.length) ≤ data.length →
    (data.drop (transportOffset + TCP_HEADER_SIZE)).take l.length = l →
    parseOptionsAt data transportOffset (TCP_HEADER_SIZE + l.length) = .ok (some opts)

theorem carries_of_parses {l : List Byte} {opts : TcpOptions} (h4 : 4 ∣ l.length)
    (h40 : l.length ≤ 40) (h : Parses l {} opts) : Carries l opts where
  words := h4
  fits := by
    simp only [TCP_HEADER_SIZE]
    omega
  parse data transportOffset hle hl := by
    rw [parseOptionsAt_eq, if_neg (by omega)]
    simp only [Nat.add_sub_cancel_left, hl]
    rw [h _ le_rfl]

theorem length_padOptions (l : List Byte) :
    (padOptions l).length % 4 = 0 ∧ (padOptions l).length < l.length + 4 := by
  rw [padOptions, length_append, length_replicate]
  omega

/-- **The options codec**: the parser ends on every packet and reads nothing but its option bytes;
    the bytes of the builders come in whole words, leave the header no longer than its data offset
    can say, and read back as the options that were meant. -/
theorem optionsCodec : (∀ data transportOffset headerLen, ∃ opts,
      parseOptionsAt data transportOffset headerLen = .ok (some opts)) ∧
    (∀ (t : Tcb) isSynAck peerOpts timestamp,
      Carries (buildSynOptions t isSynAck peerOpts timestamp).1
        (synOptions isSynAck peerOpts timestamp)) ∧
    ∀ t : Tcb, Carries (buildSackOptions t)
      { sackBlocks := if t.sackOk then t.rcvSackBlocks.take OOO_SLOTS else [] } := by
  refine ⟨fun data off len => ⟨_, parseOptionsAt_eq data off len⟩, fun t isSynAck o ts => ?_,
    fun t => ?_⟩
  · refine carries_of_parses ?_ ?_ (parses_buildSynOptions t isSynAck o ts)
    · exact Nat.dvd_of_mod_eq_zero (length_padOptions _).1
    refine (length_padOptions _).2.le.trans ?_
    have hif : ∀ (c : Bool) (l : List Byte), (if c then l else []).length ≤ l.length := by
      intro c l
      cases c <;> simp
    simp only [length_append]
    refine (Nat.add_le_add_right (Nat.add_le_add (Nat.add_le_add (Nat.add_le_add_left (hif _ _) _)
      (hif _ _)) (hif _ _)) 4).trans ?_
    simp
  refine carries_of_parses ?_ ?_ (parses_buildSackOptions t)
  · unfold buildSackOptions
    split
    · exact Nat.dvd_zero 4
    · exact Nat.dvd_of_mod_eq_zero (length_padOptions _).1
  unfold buildSackOptions
  split
  · exact Nat.zero_le _
  · refine (length_padOptions _).2.le.trans ?_
    simp only [length_cons, length_sackBytes, length_take, OOO_SLOTS]
    omega

end Zigk.Tcp
