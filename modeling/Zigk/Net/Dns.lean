/-
  Subject:   DOMAIN NAMES ON THE WIRE (net/dns/dns.zig): `writeName` and `readName`.

  * `DnsPacket`, `writeName` -- labels with their lengths in front, and the root label;
  * `readName` -- the loop over labels and compression pointers, as a program with a bound on its
    steps that it never comes to (`readName_of_ends`);
  * `writeName_eq` -- `writeName` on labels of at most 63 bytes; `writeName_long` on others;
    `readName_spells` -- `readName` on whatever spells a name;
  * **`nameCodec`** -- for which names and messages the two are the codec of RFC 1035;
    `nameCodec_refuted` -- a name of 253 bytes, and one with an empty label.

  A failed call leaves its packet half written; no caller uses it then.
-/
import Mathlib.Algebra.Ring.Nat
import Mathlib.Data.List.Basic
import Zigk.Base.Interpreter

namespace Zigk.Dns

open List

def DNS_MAX_LABEL_LENGTH : Nat := 63

def DNS_MAX_NAME_LENGTH : Nat := 253

def DNS_MAX_COMPRESSION_JUMPS : Nat := 10

/-- The byte of `'.'`. -/
def dot : UInt8 := 46

abbrev Label := List UInt8

/-! ## 1. Writing -/

inductive WriteError where
  | LabelTooLong
  | BufferTooSmall
  deriving DecidableEq

structure DnsPacket where
  buffer : List UInt8
  pos : Nat
  deriving DecidableEq

open DnsPacket

namespace DnsPacket

/-- Bytes at the position, which moves behind them. -/
def put (p : DnsPacket) (l : List UInt8) : DnsPacket where
  buffer := p.buffer.take p.pos ++ l ++ p.buffer.drop (p.pos + l.length)
  pos := p.pos + l.length

def writeLabels (p : DnsPacket) : List Label → Except WriteError DnsPacket
  | [] => .ok p
  | label :: rest =>
    if 63 < label.length then .error .LabelTooLong
    else if p.buffer.length < p.pos + 1 + label.length then .error .BufferTooSmall
    else (p.put (.ofNat label.length :: label)).writeLabels rest

def writeName (p : DnsPacket) (name : List UInt8) : Except WriteError DnsPacket :=
  match p.writeLabels (name.splitOn dot) with
  | .error e => .error e
  | .ok p => if p.buffer.length ≤ p.pos then .error .BufferTooSmall else .ok (p.put [0])

end DnsPacket

/-! ## 2. Reading -/

inductive ReadError where
  | FormatError
  | BufferTooSmall
  deriving DecidableEq

structure ReadNameResult where
  name : List UInt8
  end_pos : Nat
  deriving DecidableEq

/-- The variables of the loop; `out` is the part of the output buffer that is written. -/
structure ReadState where
  pos : Nat
  out : List UInt8 := []
  jumps : Nat := 0
  end_pos : Option Nat := none
  total_name_len : Nat := 0

/-- A label behind what is there, with a dot unless it is the first. -/
def appendLabel (out : List UInt8) (label : Label) : List UInt8 :=
  (if 0 < out.length then out ++ [dot] else out) ++ label

def pointerOffset (len_byte low : UInt8) : Nat := (len_byte &&& 0x3F).toNat <<< 8 ||| low.toNat

/-- A round of the loop, with an output buffer of `out_len` bytes. -/
def readStep (buf : List UInt8) (out_len : Nat) (s : ReadState) :
    Outcome ReadState (Except ReadError ReadNameResult) :=
  match buf[s.pos]? with
  | none => .done (.error .FormatError)
  | some len_byte =>
    if len_byte = 0 then .done (.ok ⟨s.out, s.end_pos.getD (s.pos + 1)⟩)
    else if len_byte &&& 0xC0 = 0xC0 then
      if DNS_MAX_COMPRESSION_JUMPS < s.jumps + 1 then .done (.error .FormatError)
      else
        match buf[s.pos + 1]? with
        | none => .done (.error .FormatError)
        | some low =>
          let offset := pointerOffset len_byte low
          if buf.length ≤ offset then .done (.error .FormatError)
          else if s.pos ≤ offset then .done (.error .FormatError)
          else .next { s with
            pos := offset
            jumps := s.jumps + 1
            end_pos := s.end_pos.or (some (s.pos + 2)) }
    else if len_byte &&& 0xC0 ≠ 0 then .done (.error .FormatError)
    else
      let label_len := len_byte.toNat
      if buf.length < s.pos + 1 + label_len then .done (.error .FormatError)
      else if DNS_MAX_NAME_LENGTH < s.total_name_len + (label_len + 1) then
        .done (.error .FormatError)
      else if 0 < s.out.length ∧ out_len ≤ s.out.length then .done (.error .BufferTooSmall)
      else
        let out := appendLabel s.out ((buf.drop (s.pos + 1)).take label_len)
        if out_len < out.length then .done (.error .BufferTooSmall)
        else .next { s with
          pos := s.pos + 1 + label_len
          out
          total_name_len := s.total_name_len + (label_len + 1) }

/-- Every round takes a jump or a part of the length that a name may have. -/
def maxRounds : Nat := DNS_MAX_COMPRESSION_JUMPS + DNS_MAX_NAME_LENGTH + 3

def readName (buf : List UInt8) (start out_len : Nat) :
    Option (Except ReadError ReadNameResult) :=
  Outcome.run (readStep buf out_len) maxRounds { pos := start }

/-! ## 3. Names -/

/-- The resolver's names: labels of 1 to 63 bytes, 253 bytes in all. -/
def Accepted (name : List UInt8) : Prop :=
  (∀ l ∈ name.splitOn dot, l ≠ [] ∧ l.length ≤ DNS_MAX_LABEL_LENGTH) ∧
    name.length ≤ DNS_MAX_NAME_LENGTH

/-- The labels with their lengths in front. -/
def wireLabels (ls : List Label) : List UInt8 := ls.flatMap fun l => .ofNat l.length :: l

/-- The wire form of RFC 1035. -/
def wire (name : List UInt8) : List UInt8 := wireLabels (name.splitOn dot) ++ [0]

/-- At `start` the message has the labels, spelled through so many pointers; the name ends before
    the last place. -/
inductive Spells (buf : List UInt8) : Nat → List Label → Nat → Nat → Prop where
  | root {start : Nat} (h : buf[start]? = some 0) : Spells buf start [] 0 (start + 1)
  | label {start n last : Nat} {l : Label} {ls : List Label} {len_byte : UInt8}
      (hlen : buf[start]? = some len_byte) (hl : len_byte.toNat = l.length) (hpos : l ≠ [])
      (hmax : l.length ≤ DNS_MAX_LABEL_LENGTH) (hbytes : (buf.drop (start + 1)).take l.length = l)
      (hrest : Spells buf (start + 1 + l.length) ls n last) : Spells buf start (l :: ls) n last
  | pointer {start n last : Nat} {ls : List Label} {len_byte low : UInt8}
      (hlen : buf[start]? = some len_byte) (hmark : len_byte &&& 0xC0 = 0xC0)
      (hlow : buf[start + 1]? = some low) (hback : pointerOffset len_byte low < start)
      (hrest : Spells buf (pointerOffset len_byte low) ls n last) :
      Spells buf start ls (n + 1) (start + 2)

/-- `writeName` puts down the wire form where there is room for it. -/
def Encodes (name : List UInt8) : Prop :=
  ∀ p : DnsPacket, p.pos ≤ p.buffer.length → p.writeName name =
    if p.pos + (wire name).length ≤ p.buffer.length then .ok (p.put (wire name))
    else .error .BufferTooSmall

/-- `readName` gives the name back from wherever the message spells it. -/
def ReadsBack (name buf : List UInt8) : Prop :=
  ∀ start n last, Spells buf start (name.splitOn dot) n last →
    ∀ out_len, name.length ≤ out_len → readName buf start out_len = some (.ok ⟨name, last⟩)

def Rejects (name : List UInt8) : Prop := ∀ p : DnsPacket, ∃ e, p.writeName name = .error e

structure CodecOk (name buf : List UInt8) : Prop where
  accepted : Accepted name → Encodes name ∧ ReadsBack name buf
  rejected : ¬ Accepted name → Rejects name

/-! ## 4. What `writeName` does -/

section Write

variable {p : DnsPacket} {a b : List UInt8} {name : List UInt8} {ls : List Label}

theorem DnsPacket.put_buffer_length (h : p.pos + a.length ≤ p.buffer.length) :
    (p.put a).buffer.length = p.buffer.length := by
  unfold put
  simp only [length_append, length_take, length_drop]
  omega

theorem DnsPacket.put_put (h : p.pos + a.length ≤ p.buffer.length) :
    (p.put a).put b = p.put (a ++ b) := by
  have htake : (p.buffer.take p.pos ++ a).length = p.pos + a.length := by
    rw [length_append, length_take]
    omega
  unfold put
  rw [mk.injEq]
  constructor
  · dsimp only
    have hskip : p.pos + a.length + b.length - (p.pos + a.length) = b.length := by omega
    rw [take_left' htake, drop_append, drop_eq_nil_of_le (by omega), htake,
      nil_append, drop_drop, length_append, hskip]
    simp only [append_assoc, Nat.add_assoc]
  · dsimp only
    rw [length_append, Nat.add_assoc]

theorem DnsPacket.writeLabels_eq (hls : ∀ l ∈ ls, l.length ≤ 63)
    (h : p.pos + (wireLabels ls).length ≤ p.buffer.length) :
    p.writeLabels ls = .ok (p.put (wireLabels ls)) := by
  induction ls generalizing p with
  | nil =>
    unfold writeLabels wireLabels put
    simp only [flatMap_nil, append_nil, length_nil, Nat.add_zero,
      take_append_drop]
  | cons l ls ih =>
    have hwire : wireLabels (l :: ls) = (.ofNat l.length :: l) ++ wireLabels ls := rfl
    have hlen : (UInt8.ofNat l.length :: l).length = l.length + 1 := rfl
    rw [hwire, length_append, hlen] at h
    have hput : p.pos + (UInt8.ofNat l.length :: l).length ≤ p.buffer.length := by
      rw [hlen]
      omega
    unfold writeLabels
    rw [if_neg (Nat.not_lt.2 (hls l (mem_cons_self ..))), if_neg (by omega),
      ih (fun l hl => hls l (mem_cons_of_mem _ hl)), put_put hput, hwire]
    rw [put_buffer_length hput]
    unfold put
    dsimp only
    omega

theorem DnsPacket.writeLabels_full (hls : ∀ l ∈ ls, l.length ≤ 63) (hp : p.pos ≤ p.buffer.length)
    (h : p.buffer.length < p.pos + (wireLabels ls).length) :
    p.writeLabels ls = .error .BufferTooSmall := by
  induction ls generalizing p with
  | nil =>
    unfold wireLabels at h
    rw [flatMap_nil, length_nil] at h
    omega
  | cons l ls ih =>
    have hwire : wireLabels (l :: ls) = (.ofNat l.length :: l) ++ wireLabels ls := rfl
    have hlen : (UInt8.ofNat l.length :: l).length = l.length + 1 := rfl
    rw [hwire, length_append, hlen] at h
    unfold writeLabels
    rw [if_neg (Nat.not_lt.2 (hls l (mem_cons_self ..)))]
    split
    · rfl
    rename_i hroom
    have hput : p.pos + (UInt8.ofNat l.length :: l).length ≤ p.buffer.length := by
      rw [hlen]
      omega
    refine ih (fun l hl => hls l (mem_cons_of_mem _ hl)) ?_ ?_
    · rw [put_buffer_length hput]
      unfold put
      dsimp only
      omega
    rw [put_buffer_length hput]
    unfold put
    dsimp only
    rw [hlen]
    omega

/-- **The wire form is written exactly where there is room for it.** -/
theorem DnsPacket.writeName_eq (hls : ∀ l ∈ name.splitOn dot, l.length ≤ 63)
    (hp : p.pos ≤ p.buffer.length) : p.writeName name =
      if p.pos + (wire name).length ≤ p.buffer.length then .ok (p.put (wire name))
      else .error .BufferTooSmall := by
  have hwire : (wire name).length = (wireLabels (name.splitOn dot)).length + 1 := by
    unfold wire
    rw [length_append]
    rfl
  unfold writeName
  by_cases hlabels : p.pos + (wireLabels (name.splitOn dot)).length ≤ p.buffer.length
  · rw [writeLabels_eq hls hlabels]
    dsimp only
    rw [put_buffer_length hlabels, put_put hlabels]
    have hpos : (p.put (wireLabels (name.splitOn dot))).pos =
        p.pos + (wireLabels (name.splitOn dot)).length := rfl
    rw [hpos, hwire]
    split_ifs with h1 h2 h2
    · omega
    · rfl
    · rfl
    · omega
  · rw [writeLabels_full hls hp (Nat.lt_of_not_le hlabels), if_neg]
    rw [hwire]
    omega

theorem DnsPacket.writeLabels_long (h : ∃ l ∈ ls, 63 < l.length) :
    ∃ e, p.writeLabels ls = .error e := by
  induction ls generalizing p with
  | nil =>
    obtain ⟨l, hl, -⟩ := h
    cases hl
  | cons l ls ih =>
    unfold writeLabels
    split_ifs with h1 h2
    · exact ⟨_, rfl⟩
    · exact ⟨_, rfl⟩
    refine ih ?_
    obtain ⟨l', hl', hlong⟩ := h
    rcases mem_cons.1 hl' with he | hrest
    · exact absurd (he ▸ hlong) h1
    · exact ⟨l', hrest, hlong⟩

/-- A label of more than 63 bytes is refused, whatever the packet. -/
theorem DnsPacket.writeName_long (h : ∃ l ∈ name.splitOn dot, 63 < l.length) :
    ∃ e, p.writeName name = .error e := by
  obtain ⟨e, he⟩ := writeLabels_long (p := p) h
  unfold writeName
  rw [he]
  exact ⟨e, rfl⟩

end Write

/-! ## 5. What `readName` does -/

/-- What labels take of the length that a name may have. -/
def labelsLength (ls : List Label) : Nat := (ls.map fun l => l.length + 1).sum

theorem foldl_appendLabel {out : List UInt8} (hout : out ≠ []) (ls : List Label) :
    ls.foldl appendLabel out = out ++ ls.flatMap fun l => dot :: l := by
  induction ls generalizing out with
  | nil => exact (append_nil out).symm
  | cons l ls ih =>
    have happend : appendLabel out l = out ++ (dot :: l) := by
      unfold appendLabel
      rw [if_pos (length_pos_iff.2 hout), append_assoc]
      rfl
    rw [foldl_cons, happend, ih (append_ne_nil_of_left_ne_nil hout _),
      flatMap_cons, append_assoc]

/-- The labels come out with dots between them. -/
theorem foldl_appendLabel_nil {ls : List Label} (hls : ∀ l ∈ ls, l ≠ []) :
    ls.foldl appendLabel [] = [dot].intercalate ls := by
  cases ls with
  | nil => rfl
  | cons l ls =>
    have hl : l ≠ [] := hls l (mem_cons_self ..)
    rw [foldl_cons]
    change ls.foldl appendLabel l = _
    rw [foldl_appendLabel hl]
    clear hl hls
    induction ls generalizing l with
    | nil => simp [List.intercalate]
    | cons l' ls ih =>
      rw [flatMap_cons, intercalate_cons_cons, ← ih l', ← append_assoc]
      simp

theorem length_foldl_appendLabel (out : List UInt8) (ls : List Label) :
    out.length ≤ (ls.foldl appendLabel out).length := by
  induction ls generalizing out with
  | nil => exact Nat.le_refl _
  | cons l ls ih =>
    refine Nat.le_trans ?_ (ih _)
    unfold appendLabel
    split_ifs <;> simp only [length_append] <;> omega

theorem and_of_label {b : UInt8} (h : b.toNat ≤ 63) : b &&& 0xC0 = 0 := by
  have key : ∀ n < 64, UInt8.ofNat n &&& 0xC0 = 0 := by decide
  rw [← UInt8.ofNat_toNat (x := b)]
  exact key b.toNat (Nat.lt_succ_of_le h)

/-- A round takes a jump, or a part of the length. -/
theorem readStep_measure {buf : List UInt8} {out_len : Nat} (s s' : ReadState)
    (h : readStep buf out_len s = .next s') :
    DNS_MAX_COMPRESSION_JUMPS + 1 - s'.jumps + (DNS_MAX_NAME_LENGTH + 1 - s'.total_name_len) <
      DNS_MAX_COMPRESSION_JUMPS + 1 - s.jumps + (DNS_MAX_NAME_LENGTH + 1 - s.total_name_len) := by
  unfold readStep at h
  split at h
  · cases h
  dsimp only at h
  split_ifs at h with hzero hmark hjumps hreserved hbytes htotal hdot hout
  · split at h
    · cases h
    split_ifs at h
    cases h
    dsimp only
    omega
  · cases h
    dsimp only
    omega

theorem readName_of_ends {buf : List UInt8} {start out_len : Nat}
    {r : Except ReadError ReadNameResult}
    (h : Outcome.Ends (readStep buf out_len) { pos := start } r) :
    readName buf start out_len = some r :=
  h.run readStep_measure maxRounds (Nat.lt_succ_self 265)

/-- What the loop makes of labels spelled from its position on. -/
theorem ends_of_spells {buf : List UInt8} {start n last out_len : Nat} {ls : List Label}
    (h : Spells buf start ls n last) (s : ReadState) (hpos : s.pos = start)
    (htotal : s.total_name_len ≤ DNS_MAX_NAME_LENGTH)
    (hjumps : s.jumps ≤ DNS_MAX_COMPRESSION_JUMPS)
    (hroom : (ls.foldl appendLabel s.out).length ≤ out_len) :
    Outcome.Ends (readStep buf out_len) s
      (if s.total_name_len + labelsLength ls ≤ DNS_MAX_NAME_LENGTH ∧
          s.jumps + n ≤ DNS_MAX_COMPRESSION_JUMPS then
        .ok ⟨ls.foldl appendLabel s.out, s.end_pos.getD last⟩
      else .error .FormatError) := by
  induction h generalizing s with
  | root hroot =>
    refine .done ?_
    unfold readStep
    rw [hpos, hroot]
    dsimp only
    rw [if_pos rfl, if_pos ⟨htotal, hjumps⟩]
    rfl
  | @label start n last l ls len_byte hlen hl hne hmax hbytes hrest ih =>
    have hlpos : 0 < l.length := length_pos_iff.2 hne
    have hbyte : len_byte ≠ 0 := by
      intro h0
      rw [h0] at hl
      exact absurd hl.symm (Nat.pos_iff_ne_zero.1 hlpos)
    have hmask : len_byte &&& 0xC0 = 0 := and_of_label (hl ▸ hmax)
    have hfits : start + 1 + l.length ≤ buf.length := by
      have htake := congrArg List.length hbytes
      rw [length_take, length_drop] at htake
      omega
    have hlength : s.total_name_len + labelsLength (l :: ls) =
        s.total_name_len + (l.length + 1) + labelsLength ls := by
      have hcons : labelsLength (l :: ls) = l.length + 1 + labelsLength ls := rfl
      omega
    have hout : (appendLabel s.out l).length ≤ out_len :=
      Nat.le_trans (length_foldl_appendLabel _ ls) hroom
    have hsep : ¬ (0 < s.out.length ∧ out_len ≤ s.out.length) := by
      intro ⟨_, hfull⟩
      unfold appendLabel at hout
      split_ifs at hout
      all_goals
        simp only [length_append] at hout
        omega
    have hstep : readStep buf out_len s =
        if DNS_MAX_NAME_LENGTH < s.total_name_len + (l.length + 1) then
          .done (.error .FormatError)
        else .next { s with
          pos := start + 1 + l.length
          out := appendLabel s.out l
          total_name_len := s.total_name_len + (l.length + 1) } := by
      unfold readStep
      rw [hpos, hlen]
      dsimp only
      rw [if_neg hbyte, hmask, if_neg (by decide), if_neg (not_not.2 rfl), hl,
        if_neg (Nat.not_lt.2 hfits), if_neg hsep, hbytes, if_neg (Nat.not_lt.2 hout)]
    by_cases hlong : DNS_MAX_NAME_LENGTH < s.total_name_len + (l.length + 1)
    · rw [if_pos hlong] at hstep
      rw [hlength, if_neg]
      · exact .done hstep
      · omega
    rw [if_neg hlong] at hstep
    refine .next hstep ?_
    have hends := ih { s with
      pos := start + 1 + l.length
      out := appendLabel s.out l
      total_name_len := s.total_name_len + (l.length + 1) } rfl (Nat.le_of_not_lt hlong) hjumps
      hroom
    rw [hlength]
    exact hends
  | @pointer start n last ls len_byte low hlen hmark hlow hback hrest ih =>
    have hbyte : len_byte ≠ 0 := by
      intro h0
      rw [h0] at hmark
      exact absurd hmark (by decide)
    have hstart : start < buf.length := (List.getElem?_eq_some_iff.1 hlen).1
    have hstep : readStep buf out_len s =
        if DNS_MAX_COMPRESSION_JUMPS < s.jumps + 1 then .done (.error .FormatError)
        else .next { s with
          pos := pointerOffset len_byte low
          jumps := s.jumps + 1
          end_pos := s.end_pos.or (some (start + 2)) } := by
      unfold readStep
      rw [hpos, hlen]
      dsimp only
      rw [if_neg hbyte, if_pos hmark, hlow]
      dsimp only
      rw [if_neg (Nat.not_le.2 (Nat.lt_trans hback hstart)), if_neg (Nat.not_le.2 hback)]
    by_cases hmany : DNS_MAX_COMPRESSION_JUMPS < s.jumps + 1
    · rw [if_pos hmany] at hstep
      rw [if_neg]
      · exact .done hstep
      · omega
    rw [if_neg hmany] at hstep
    refine .next hstep ?_
    have hends := ih { s with
      pos := pointerOffset len_byte low
      jumps := s.jumps + 1
      end_pos := s.end_pos.or (some (start + 2)) } rfl htotal (Nat.le_of_not_lt hmany) hroom
    have hend : (s.end_pos.or (some (start + 2))).getD last = s.end_pos.getD (start + 2) := by
      cases s.end_pos <;> rfl
    dsimp only at hends
    rw [hend, Nat.add_right_comm] at hends
    exact hends

/-! ## 6. The codec -/

section Codec

variable {name buf : List UInt8} {start n last out_len : Nat} {ls : List Label}

theorem Spells.ne_nil (h : Spells buf start ls n last) : ∀ l ∈ ls, l ≠ [] := by
  induction h with
  | root => exact fun l hl => absurd hl not_mem_nil
  | label _ _ hne _ _ _ ih => exact forall_mem_cons.2 ⟨hne, ih⟩
  | pointer _ _ _ _ _ ih => exact ih

theorem labelsLength_splitOn (name : List UInt8) :
    labelsLength (name.splitOn dot) = name.length + 1 := by
  have hjoin : [dot].intercalate (name.splitOn dot) = name := intercalate_splitOn ..
  have hne := List.splitOn_ne_nil dot name
  generalize name.splitOn dot = ls at hjoin hne
  subst hjoin
  cases ls with
  | nil => exact absurd rfl hne
  | cons l ls =>
    clear hne
    induction ls generalizing l with
    | nil => simp [labelsLength, List.intercalate]
    | cons l' ls ih =>
      have hcons : labelsLength (l :: l' :: ls) = l.length + 1 + labelsLength (l' :: ls) := rfl
      rw [hcons, ih l', intercalate_cons_cons]
      simp only [length_append, length_singleton]
      omega

/-- **Whatever spells the name gives it back, unless the name has 253 bytes or more, or more than
    ten pointers lead through it.** -/
theorem readName_spells (h : Spells buf start (name.splitOn dot) n last)
    (hroom : name.length ≤ out_len) : readName buf start out_len = some
      (if name.length < DNS_MAX_NAME_LENGTH ∧ n ≤ DNS_MAX_COMPRESSION_JUMPS then .ok ⟨name, last⟩
      else .error .FormatError) := by
  have hjoin : (name.splitOn dot).foldl appendLabel [] = name := by
    rw [foldl_appendLabel_nil h.ne_nil, intercalate_splitOn]
  have hends := ends_of_spells h { pos := start } rfl (Nat.zero_le _) (Nat.zero_le _)
    (hjoin.symm ▸ hroom)
  refine readName_of_ends ?_
  dsimp only at hends
  rw [hjoin, labelsLength_splitOn, Nat.zero_add, Nat.zero_add] at hends
  exact hends

/-- The wire form spells its labels, without pointers. -/
theorem spells_wireLabels (hls : ∀ l ∈ ls, l ≠ [] ∧ l.length ≤ DNS_MAX_LABEL_LENGTH)
    (a b : List UInt8) : Spells (a ++ (wireLabels ls ++ 0 :: b)) a.length ls 0
      (a.length + (wireLabels ls).length + 1) := by
  induction ls generalizing a with
  | nil => exact .root (by simp [wireLabels])
  | cons l ls ih =>
    obtain ⟨hne, hmax⟩ := hls l (mem_cons_self ..)
    have hbuf : a ++ (wireLabels (l :: ls) ++ 0 :: b) =
        (a ++ .ofNat l.length :: l) ++ (wireLabels ls ++ 0 :: b) := by
      simp [wireLabels]
    have hrest := ih (fun l hl => hls l (mem_cons_of_mem _ hl)) (a ++ .ofNat l.length :: l)
    have hlen : (a ++ UInt8.ofNat l.length :: l).length = a.length + 1 + l.length := by
      rw [length_append, length_cons]
      omega
    have hlast : a.length + (wireLabels (l :: ls)).length =
        a.length + 1 + l.length + (wireLabels ls).length := by
      simp only [wireLabels, flatMap_cons, length_append, length_cons]
      omega
    rw [hlen] at hrest
    rw [hbuf, hlast]
    have hbyte : ((a ++ .ofNat l.length :: l) ++ (wireLabels ls ++ 0 :: b))[a.length]? =
        some (UInt8.ofNat l.length) := by simp
    refine .label hbyte ?_ hne hmax ?_ hrest
    · have hm : l.length ≤ 63 := hmax
      rw [UInt8.toNat_ofNat']
      omega
    · have hfront : (a ++ [UInt8.ofNat l.length]).length = a.length + 1 := by simp
      rw [show a ++ UInt8.ofNat l.length :: l = (a ++ [UInt8.ofNat l.length]) ++ l by simp,
        append_assoc, drop_left' hfront, take_left' rfl]

/-- **The names and messages for which `writeName` and `readName` are the codec.** -/
theorem nameCodec (name buf : List UInt8) : CodecOk name buf ↔
    (Accepted name → ∀ start n last, Spells buf start (name.splitOn dot) n last →
      name.length < DNS_MAX_NAME_LENGTH ∧ n ≤ DNS_MAX_COMPRESSION_JUMPS) ∧
    (¬ Accepted name → ∃ l ∈ name.splitOn dot, DNS_MAX_LABEL_LENGTH < l.length) := by
  constructor
  · intro h
    constructor
    · intro hacc start n last hs
      have hread := (h.accepted hacc).2 start n last hs name.length (Nat.le_refl _)
      rw [readName_spells hs (Nat.le_refl _)] at hread
      by_contra hcond
      rw [if_neg hcond] at hread
      cases hread
    · intro hacc
      by_contra hlong
      have hshort : ∀ l ∈ name.splitOn dot, l.length ≤ 63 :=
        fun l hl => Nat.le_of_not_lt fun hlt => hlong ⟨l, hl, hlt⟩
      obtain ⟨e, he⟩ := h.rejected hacc ⟨List.replicate (wire name).length 0, 0⟩
      rw [writeName_eq hshort (Nat.zero_le _), if_pos] at he
      · cases he
      · simp only [length_replicate, Nat.zero_add, Nat.le_refl]
  · intro ⟨hacc, hrej⟩
    refine ⟨fun ha => ⟨fun p hp => ?_, fun start n last hs out_len hroom => ?_⟩, fun hna p => ?_⟩
    · exact writeName_eq (fun l hl => (ha.1 l hl).2) hp
    · rw [readName_spells hs hroom, if_pos (hacc ha start n last hs)]
    · exact writeName_long (hrej hna)

end Codec

/-- Three labels of 63 bytes and one of 61, and a name with an empty label. -/
def longestName : List UInt8 :=
  [dot].intercalate [.replicate 63 97, .replicate 63 97, .replicate 63 97, .replicate 61 97]

def emptyLabel : List UInt8 := [97, dot, dot, 98]

/-- The longest name that the resolver accepts is not read back; the empty label becomes the end
    of the name. -/
theorem nameCodec_refuted : ¬ CodecOk longestName (wire longestName) ∧
    ¬ CodecOk emptyLabel (wire emptyLabel) := by
  constructor
  · intro h
    have hacc : Accepted longestName := ⟨by decide +kernel, by decide +kernel⟩
    have hread := (h.accepted hacc).2 0 0 _ (spells_wireLabels hacc.1 [] []) 253 (by decide +kernel)
    exact absurd hread (by decide +kernel)
  · intro h
    have hacc : ¬ Accepted emptyLabel := fun hacc =>
      (hacc.1 [] (by decide +kernel)).1 rfl
    obtain ⟨e, he⟩ := h.rejected hacc ⟨List.replicate 512 0, 12⟩
    have hok : (writeName ⟨List.replicate 512 0, 12⟩ emptyLabel).isOk = true := by
      decide +kernel
    rw [he] at hok
    cases hok

end Zigk.Dns
