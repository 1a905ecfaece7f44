/-
  Subject:   WHAT A HOSTILE MESSAGE CAN DO TO THE PARSERS (net/dns/dns.zig).

  * `readResourceRecordHeader`, `readSrvRecord` -- the parsers of records; `readInt` stops at an
    index outside of the message, `readName` compares before each of its own;
  * `Bounds` -- kept by every round of `readName`: the output fits, the end lies in the message;
  * **`parserSafety`** -- the parsers come to an end inside the message, exactly if an SRV record
    ends in it and does not start at the end of all addresses; `parserSafety_refuted`.
-/
import Zigk.Base.Checked
import Zigk.Net.Dns

namespace Zigk.Dns

variable {α : Type} {buf : List UInt8} {start out_len rdlength : Nat}

def maxInt : Nat := 2 ^ 64 - 1

/-! ## 1. Records -/

/-- `std.mem.readInt` of `n` bytes. -/
def readInt (buf : List UInt8) (pos : Nat) : Nat → Except Trap Nat
  | 0 => .ok 0
  | n + 1 => do
    let high ← readInt buf pos n
    match buf[pos + n]? with
    | none => .error .indexOutOfBounds
    | some b => return high * 256 + b.toNat

structure ReadSrvResult where
  priority : Nat
  weight : Nat
  port : Nat
  target : List UInt8
  end_pos : Nat

def readSrvRecord (buf : List UInt8) (start rdlength out_len : Nat) :
    Except Trap (Except ReadError ReadSrvResult) := do
  if rdlength < 7 then return .error .FormatError
  if start + 6 > maxInt then throw .integerOverflow
  if start + 6 > buf.length then return .error .FormatError
  let priority ← readInt buf start 2
  let weight ← readInt buf (start + 2) 2
  let port ← readInt buf (start + 4) 2
  match readName buf (start + 6) out_len with
  | none => throw .fuel
  | some (.error e) => return .error e
  | some (.ok r) => return .ok ⟨priority, weight, port, r.name, start + rdlength⟩

structure ReadRRHeaderResult where
  name : List UInt8
  rtype : Nat
  rclass : Nat
  ttl : Nat
  rdlength : Nat
  rdata_pos : Nat

/-- The class is read without the cache-flush bit. -/
def readResourceRecordHeader (buf : List UInt8) (start out_len : Nat) :
    Except Trap (Except ReadError ReadRRHeaderResult) := do
  match readName buf start out_len with
  | none => throw .fuel
  | some (.error e) => return .error e
  | some (.ok r) =>
    let pos := r.end_pos
    if pos + 10 > buf.length then return .error .FormatError
    let rtype ← readInt buf pos 2
    let rclass ← readInt buf (pos + 2) 2
    let ttl ← readInt buf (pos + 4) 4
    let rdlength ← readInt buf (pos + 8) 2
    return .ok ⟨r.name, rtype, rclass &&& 0x7FFF, ttl, rdlength, pos + 10⟩

/-- A parser that comes to an end, with a name that fits and an end behind the start, in the
    message. -/
def Ends (buf : List UInt8) (start out_len : Nat) (name : α → List UInt8) (end_pos : α → Nat)
    (r : Except Trap (Except ReadError α)) : Prop :=
  ∃ x, r = .ok x ∧ ∀ v, x = .ok v →
    (name v).length ≤ out_len ∧ start < end_pos v ∧ end_pos v ≤ buf.length

structure Safe (buf : List UInt8) (start rdlength out_len : Nat) : Prop where
  name : ∃ x, readName buf start out_len = some x ∧
    Ends buf start out_len ReadNameResult.name ReadNameResult.end_pos (.ok x)
  header : Ends buf start out_len ReadRRHeaderResult.name ReadRRHeaderResult.rdata_pos
    (readResourceRecordHeader buf start out_len)
  srv : Ends buf start out_len ReadSrvResult.target ReadSrvResult.end_pos
    (readSrvRecord buf start rdlength out_len)

/-! ## 2. Names -/

/-- What is written fits, and the end is behind the start as long as none was saved. -/
structure Bounds (buf : List UInt8) (start out_len : Nat) (s : ReadState) : Prop where
  out : s.out.length ≤ out_len
  fresh : s.end_pos = none → start ≤ s.pos
  saved : ∀ e, s.end_pos = some e → start < e ∧ e ≤ buf.length

theorem Bounds.step {s s' : ReadState} (hb : Bounds buf start out_len s)
    (h : readStep buf out_len s = .next s') : Bounds buf start out_len s' := by
  unfold readStep at h
  split at h
  · cases h
  dsimp only at h
  split_ifs at h with hzero hmark hjumps hreserved hbytes htotal hdot hout
  · split at h
    · cases h
    · rename_i hlow
      have hlt := (List.getElem?_eq_some_iff.1 hlow).1
      split_ifs at h
      cases h
      refine ⟨hb.out, fun h => ?_, fun e he => ?_⟩
      · cases hs : s.end_pos <;> simp [hs] at h
      · cases hs : s.end_pos with
        | none =>
          have := hb.fresh hs
          simp only [hs, Option.none_or, Option.some.injEq] at he
          omega
        | some e' =>
          simp only [hs, Option.some_or, Option.some.injEq] at he
          exact he ▸ hb.saved e' hs
  · cases h
    exact ⟨Nat.not_lt.1 hout, fun h => by have := hb.fresh h; dsimp only; omega, hb.saved⟩

theorem Bounds.done {s : ReadState} {v : ReadNameResult} (hb : Bounds buf start out_len s)
    (h : readStep buf out_len s = .done (.ok v)) :
    v.name.length ≤ out_len ∧ start < v.end_pos ∧ v.end_pos ≤ buf.length := by
  unfold readStep at h
  split at h
  · cases h
  rename_i hpos
  have hlt := (List.getElem?_eq_some_iff.1 hpos).1
  dsimp only at h
  split_ifs at h
  · cases h
    refine ⟨hb.out, ?_⟩
    cases hs : s.end_pos with
    | none =>
      have := hb.fresh hs
      exact ⟨by dsimp only [Option.getD]; omega, hlt⟩
    | some e => exact hb.saved e hs
  -- every other end is an error
  · cases h
  · split at h
    · cases h
    · split_ifs at h <;> cases h
  all_goals cases h

/-- **`readName` stays in the message and in the output.** -/
theorem readName_inside (buf : List UInt8) (start out_len : Nat) :
    ∃ x, readName buf start out_len = some x ∧ ∀ v, x = .ok v →
      v.name.length ≤ out_len ∧ start < v.end_pos ∧ v.end_pos ≤ buf.length := by
  obtain ⟨x, hx⟩ := Outcome.Ends.exists_of_measure _ (@readStep_measure buf out_len)
    { pos := start }
  refine ⟨x, readName_of_ends hx, fun v hv => ?_⟩
  obtain ⟨t, hvisit, ht⟩ := hx.last
  have hb : Bounds buf start out_len t := by
    clear ht
    induction hvisit with
    | refl => exact ⟨Nat.zero_le _, fun _ => Nat.le_refl _, nofun⟩
    | next _ hstep ih => exact ih.step hstep
  exact hb.done (hv ▸ ht)

/-! ## 3. The parsers -/

theorem readInt_ok (buf : List UInt8) (pos n : Nat) (h : pos + n ≤ buf.length) :
    ∃ v, readInt buf pos n = .ok v := by
  induction n with
  | zero => exact ⟨0, rfl⟩
  | succ n ih =>
    obtain ⟨high, hhigh⟩ := ih (by omega)
    rw [readInt, hhigh, List.getElem?_eq_getElem (by omega)]
    exact ⟨_, rfl⟩

theorem header_ends : Ends buf start out_len ReadRRHeaderResult.name ReadRRHeaderResult.rdata_pos
    (readResourceRecordHeader buf start out_len) := by
  obtain ⟨x, hx, hin⟩ := readName_inside buf start out_len
  unfold readResourceRecordHeader
  rw [hx]
  cases x with
  | error e => exact ⟨_, rfl, nofun⟩
  | ok r =>
    obtain ⟨hname, hstart, -⟩ := hin r rfl
    dsimp only
    split_ifs with hend
    · exact ⟨_, rfl, nofun⟩
    · obtain ⟨rtype, h₁⟩ := readInt_ok buf r.end_pos 2 (by omega)
      obtain ⟨rclass, h₂⟩ := readInt_ok buf (r.end_pos + 2) 2 (by omega)
      obtain ⟨ttl, h₃⟩ := readInt_ok buf (r.end_pos + 4) 4 (by omega)
      obtain ⟨len, h₄⟩ := readInt_ok buf (r.end_pos + 8) 2 (by omega)
      rw [h₁, h₂, h₃, h₄]
      refine ⟨_, rfl, fun v hv => ?_⟩
      cases hv
      exact ⟨hname, by dsimp only; omega, by dsimp only; omega⟩

/-- What an SRV record comes to. -/
theorem srv_ends (hlen : 7 ≤ rdlength) : Ends buf start out_len ReadSrvResult.target
      ReadSrvResult.end_pos (readSrvRecord buf start rdlength out_len) ↔
    start + 6 ≤ maxInt ∧ (start + 6 ≤ buf.length →
      (∃ v, readName buf (start + 6) out_len = some (.ok v)) → start + rdlength ≤ buf.length) := by
  unfold readSrvRecord
  rw [if_neg (by omega)]
  by_cases hmax : start + 6 > maxInt
  · rw [if_pos hmax]
    exact ⟨(fun ⟨_, h, _⟩ => nomatch h), fun h => absurd h.1 (Nat.not_le.2 hmax)⟩
  rw [if_neg hmax]
  by_cases hend : start + 6 > buf.length
  · rw [if_pos hend]
    exact ⟨fun _ => ⟨by omega, fun _ => by omega⟩, fun _ => ⟨_, rfl, nofun⟩⟩
  rw [if_neg hend]
  obtain ⟨priority, h₁⟩ := readInt_ok buf start 2 (by omega)
  obtain ⟨weight, h₂⟩ := readInt_ok buf (start + 2) 2 (by omega)
  obtain ⟨port, h₃⟩ := readInt_ok buf (start + 4) 2 (by omega)
  obtain ⟨x, hx, hin⟩ := readName_inside buf (start + 6) out_len
  rw [h₁, h₂, h₃, hx]
  cases x with
  | error e =>
    exact ⟨fun _ => ⟨by omega, fun _ ⟨v, hv⟩ => nomatch hv⟩, fun _ => ⟨_, rfl, nofun⟩⟩
  | ok r =>
    constructor
    · rintro ⟨x, hx, hall⟩
      cases hx
      exact ⟨by omega, fun _ _ => (hall _ rfl).2.2⟩
    · intro h
      refine ⟨_, rfl, fun v hv => ?_⟩
      cases hv
      exact ⟨(hin r rfl).1, by dsimp only; omega, h.2 (by omega) ⟨r, rfl⟩⟩

/-- **The parsers are safe exactly if an SRV record, where its target is one, ends in the
    message.** -/
theorem parserSafety : Safe buf start rdlength out_len ↔ (7 ≤ rdlength → start + 6 ≤ maxInt ∧
    (start + 6 ≤ buf.length → (∃ v, readName buf (start + 6) out_len = some (.ok v)) →
      start + rdlength ≤ buf.length)) := by
  refine ⟨fun h hlen => (srv_ends hlen).1 h.srv, fun h => ⟨?_, header_ends, ?_⟩⟩
  · obtain ⟨x, hx, hin⟩ := readName_inside buf start out_len
    exact ⟨x, hx, x, rfl, hin⟩
  · by_cases hlen : 7 ≤ rdlength
    · exact (srv_ends hlen).2 (h hlen)
    · unfold readSrvRecord
      rw [if_pos (by omega)]
      exact ⟨_, rfl, nofun⟩

/-- **A record that says it is longer than the message** is taken at its word. -/
theorem parserSafety_refuted : ¬ ∀ (buf : List UInt8) (start rdlength out_len : Nat),
    Safe buf start rdlength out_len := by
  intro h
  have hend := ((srv_ends (by decide)).1 (h (List.replicate 7 0) 0 100 255).srv).2 (by decide)
    ⟨⟨[], 7⟩, by decide +kernel⟩
  exact absurd hend (by decide)

end Zigk.Dns
