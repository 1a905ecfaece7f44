/-
  Subject:   THE FILTER INTERPRETER against classic BPF.

  The interpreter takes an opcode apart with masks and never compares it whole, so it reads far
  more opcodes than the language has.

  * `runBpfFilter` -- process.zig, with the stops of the checked language: the 32-bit sum of an
    offset and a width, the conversion of a shift count to 5 bits, the index into memory;
  * `opcodes`, `decode`, `Instr.exec` -- the language, an opcode at a time; what is in no table
    is invalid and kills, as does running off the end;
  * `reading`, `execInsn_reading` -- the instruction an opcode is taken for;
  * **`bpfFilter`** -- the interpreter ends, with the result of the language for a valid program
    and a kill at every invalid instruction, exactly if every state of the run is `Handled`;
  * `bpfFilter_refuted` -- a filter that computes a kill and returns it allows the call.
-/
import Mathlib.Algebra.Ring.Nat
import Zigk.Base.Checked
import Zigk.Base.Interpreter

namespace Zigk.Bpf

open Outcome

open List (getElem?_eq_none length_flatMap lookup_eq_some_iff mem_append_right mem_cons_self
  mem_of_getElem?)

/-! ## 1. seccomp.zig -/

abbrev Word := BitVec 32

def SECCOMP_RET_KILL_PROCESS : Word := 0x80000000#32
def SECCOMP_RET_KILL_THREAD : Word := 0x00000000#32
def SECCOMP_RET_ERRNO : Word := 0x00050000#32
def SECCOMP_RET_ALLOW : Word := 0x7fff0000#32
def SECCOMP_RET_ACTION_FULL : Word := 0xffff0000#32
def SECCOMP_RET_DATA : Word := 0x0000ffff#32

structure SeccompData where
  nr : BitVec 32
  arch : BitVec 32
  instruction_pointer : BitVec 64
  args : Fin 6 → BitVec 64

/-- The bytes of a number, least significant first. -/
def littleBytes : Nat → Nat → List (BitVec 8)
  | 0, _ => []
  | n + 1, v => BitVec.ofNat 8 v :: littleBytes n (v / 256)

/-- The number of some bytes, least significant first. -/
def littleNat : List (BitVec 8) → Nat
  | [] => 0
  | b :: l => b.toNat + 256 * littleNat l

def SeccompData.asBytes (d : SeccompData) : List (BitVec 8) :=
  littleBytes 4 d.nr.toNat ++ littleBytes 4 d.arch.toNat ++
    littleBytes 8 d.instruction_pointer.toNat ++
    (List.finRange 6).flatMap fun i => littleBytes 8 (d.args i).toNat

structure SockFilterInsn where
  code : BitVec 16
  jt : BitVec 8
  jf : BitVec 8
  k : Word
  deriving DecidableEq, Repr

def BPF_LD : BitVec 16 := 0x00#16
def BPF_LDX : BitVec 16 := 0x01#16
def BPF_ST : BitVec 16 := 0x02#16
def BPF_STX : BitVec 16 := 0x03#16
def BPF_ALU : BitVec 16 := 0x04#16
def BPF_JMP : BitVec 16 := 0x05#16
def BPF_RET : BitVec 16 := 0x06#16
def BPF_MISC : BitVec 16 := 0x07#16

def BPF_W : BitVec 16 := 0x00#16
def BPF_H : BitVec 16 := 0x08#16
def BPF_B : BitVec 16 := 0x10#16

def BPF_IMM : BitVec 16 := 0x00#16
def BPF_ABS : BitVec 16 := 0x20#16
def BPF_IND : BitVec 16 := 0x40#16
def BPF_MEM : BitVec 16 := 0x60#16
def BPF_LEN : BitVec 16 := 0x80#16
def BPF_MSH : BitVec 16 := 0xa0#16

def BPF_ADD : BitVec 16 := 0x00#16
def BPF_SUB : BitVec 16 := 0x10#16
def BPF_MUL : BitVec 16 := 0x20#16
def BPF_DIV : BitVec 16 := 0x30#16
def BPF_OR : BitVec 16 := 0x40#16
def BPF_AND : BitVec 16 := 0x50#16
def BPF_LSH : BitVec 16 := 0x60#16
def BPF_RSH : BitVec 16 := 0x70#16
def BPF_NEG : BitVec 16 := 0x80#16
def BPF_MOD : BitVec 16 := 0x90#16
def BPF_XOR : BitVec 16 := 0xa0#16

def BPF_JA : BitVec 16 := 0x00#16
def BPF_JEQ : BitVec 16 := 0x10#16
def BPF_JGT : BitVec 16 := 0x20#16
def BPF_JGE : BitVec 16 := 0x30#16
def BPF_JSET : BitVec 16 := 0x40#16

def BPF_K : BitVec 16 := 0x00#16
def BPF_X : BitVec 16 := 0x08#16

def BPF_TAX : BitVec 16 := 0x00#16
def BPF_TXA : BitVec 16 := 0x80#16

/-! ## 2. process.zig: the interpreter -/

/-- The registers, the scratch memory and the place in the program. -/
structure State where
  a : Word := 0
  x : Word := 0
  mem : Vector Word 16 := Vector.replicate 16 0
  pc : Nat := 0
  deriving DecidableEq, Repr

/-- One instruction goes on, returns, or stops the kernel. -/
abbrev Effect := Except Trap (Outcome State Word)

def kill : Effect := .ok (.done SECCOMP_RET_KILL_PROCESS)

/-- `pc += 1`, on a `usize`. -/
def State.advance (s : State) : Effect :=
  if s.pc + 1 < 2 ^ 64 then .ok (.next { s with pc := s.pc + 1 }) else .error .integerOverflow

/-- `pc +%= off; pc += 1`. -/
def State.jump (s : State) (off : Nat) : Effect :=
  { s with pc := (s.pc + off) % 2 ^ 64 }.advance

def readInt (data : List (BitVec 8)) (offset n : Nat) : Except Trap Word :=
  if offset + n ≤ data.length then .ok (BitVec.ofNat 32 (littleNat ((data.drop offset).take n)))
  else .error .indexOutOfBounds

/-- The load of `n` bytes at the absolute offset `k`; the test adds in 32 bits. -/
def loadAbs (data : List (BitVec 8)) (k : Word) (n : Nat) (s : State) : Effect :=
  if k.toNat + n < 2 ^ 32 then
    if k.toNat + n > 64 then kill
    else do
      let v ← readInt data k.toNat n
      { s with a := v }.advance
  else .error .integerOverflow

def State.readMem (s : State) (k : Word) : Except Trap Word :=
  match s.mem[k.toNat]? with
  | some v => .ok v
  | none => .error .indexOutOfBounds

def State.writeMem (s : State) (k v : Word) : Except Trap State :=
  if h : k.toNat < 16 then .ok { s with mem := s.mem.set k.toNat v } else .error .indexOutOfBounds

/-- `@intCast` to the type of a shift count of a 32-bit word. -/
def shiftCount (operand : Word) : Except Trap Nat :=
  if operand.toNat < 32 then .ok operand.toNat else .error .integerOverflow

def execLd (insn : SockFilterInsn) (data : List (BitVec 8)) (s : State) : Effect :=
  let size := insn.code &&& 0x18#16
  let mode := insn.code &&& 0xe0#16
  let k := insn.k
  if mode = BPF_ABS then
    if size = BPF_W then loadAbs data k 4 s
    else if size = BPF_H then loadAbs data k 2 s
    else if size = BPF_B then loadAbs data k 1 s
    else kill
  else if mode = BPF_IMM then { s with a := k }.advance
  else if mode = BPF_MEM then
    if k.toNat ≥ 16 then kill
    else do
      let v ← s.readMem k
      { s with a := v }.advance
  else if mode = BPF_LEN then { s with a := 64#32 }.advance
  else kill

def execLdx (insn : SockFilterInsn) (s : State) : Effect :=
  let mode := insn.code &&& 0xe0#16
  let k := insn.k
  if mode = BPF_IMM then { s with x := k }.advance
  else if mode = BPF_MEM then
    if k.toNat ≥ 16 then kill
    else do
      let v ← s.readMem k
      { s with x := v }.advance
  else if mode = BPF_LEN then { s with x := 64#32 }.advance
  else kill

/-- `ST` and `STX`: the register goes to the scratch memory. -/
def execStore (insn : SockFilterInsn) (v : Word) (s : State) : Effect :=
  if insn.k.toNat ≥ 16 then kill
  else do
    let s ← s.writeMem insn.k v
    s.advance

def execAlu (insn : SockFilterInsn) (s : State) : Effect :=
  let op := insn.code &&& 0xf0#16
  let src := insn.code &&& 0x08#16
  let operand := if src = BPF_K then insn.k else s.x
  if op = BPF_ADD then { s with a := s.a + operand }.advance
  else if op = BPF_SUB then { s with a := s.a - operand }.advance
  else if op = BPF_MUL then { s with a := s.a * operand }.advance
  else if op = BPF_DIV then
    if operand = 0 then kill else { s with a := s.a / operand }.advance
  else if op = BPF_MOD then
    if operand = 0 then kill else { s with a := s.a % operand }.advance
  else if op = BPF_OR then { s with a := s.a ||| operand }.advance
  else if op = BPF_AND then { s with a := s.a &&& operand }.advance
  else if op = BPF_LSH then do
    let n ← shiftCount operand
    { s with a := s.a <<< n }.advance
  else if op = BPF_RSH then do
    let n ← shiftCount operand
    { s with a := s.a >>> n }.advance
  else if op = BPF_XOR then { s with a := s.a ^^^ operand }.advance
  else if op = BPF_NEG then { s with a := -s.a }.advance
  else kill

def execJmp (insn : SockFilterInsn) (s : State) : Effect :=
  let op := insn.code &&& 0xf0#16
  let src := insn.code &&& 0x08#16
  if op = BPF_JA then s.jump insn.k.toNat
  else
    let operand := if src = BPF_K then insn.k else s.x
    let branch (take_jump : Bool) := s.jump (if take_jump then insn.jt.toNat else insn.jf.toNat)
    if op = BPF_JEQ then branch (s.a = operand)
    else if op = BPF_JGT then branch (s.a > operand)
    else if op = BPF_JGE then branch (s.a ≥ operand)
    else if op = BPF_JSET then branch (s.a &&& operand ≠ 0)
    else kill

/-- The field compared here is the addressing mode. -/
def execRet (insn : SockFilterInsn) (s : State) : Effect :=
  let mode := insn.code &&& 0xe0#16
  .ok (.done (if mode = BPF_K then insn.k else s.a))

def execMisc (insn : SockFilterInsn) (s : State) : Effect :=
  if insn.code = BPF_MISC ||| BPF_TAX then { s with x := s.a }.advance
  else if insn.code = BPF_MISC ||| BPF_TXA then { s with a := s.x }.advance
  else kill

/-- One round of the loop. -/
def execInsn (insn : SockFilterInsn) (data : List (BitVec 8)) (s : State) : Effect :=
  let cls := insn.code &&& 0x07#16
  if cls = BPF_LD then execLd insn data s
  else if cls = BPF_LDX then execLdx insn s
  else if cls = BPF_ST then execStore insn s.a s
  else if cls = BPF_STX then execStore insn s.x s
  else if cls = BPF_ALU then execAlu insn s
  else if cls = BPF_JMP then execJmp insn s
  else if cls = BPF_RET then execRet insn s
  else if cls = BPF_MISC then execMisc insn s
  else kill

def max_steps : Nat := 4096

/-- The loop with the rounds it has left. -/
def filterLoop (insns : List SockFilterInsn) (data : List (BitVec 8)) : Nat → State →
    Except Trap Word
  | 0, _ => .ok SECCOMP_RET_KILL_PROCESS
  | n + 1, s =>
    match insns[s.pc]? with
    | none => .ok SECCOMP_RET_KILL_PROCESS
    | some insn =>
      match execInsn insn data s with
      | .error t => .error t
      | .ok (.done r) => .ok r
      | .ok (.next s') => filterLoop insns data n s'

def runBpfFilter (insns : List SockFilterInsn) (data : SeccompData) : Except Trap Word :=
  filterLoop insns data.asBytes max_steps {}

/-! ## 3. Classic BPF -/

inductive Width where
  | W | H | B
  deriving DecidableEq, Repr

def Width.bytes : Width → Nat
  | .W => 4
  | .H => 2
  | .B => 1

inductive AluOp where
  | ADD | SUB | MUL | DIV | OR | AND | LSH | RSH | MOD | XOR
  deriving DecidableEq, Repr

inductive JmpOp where
  | JEQ | JGT | JGE | JSET
  deriving DecidableEq, Repr

/-- The operand of an operation: the constant of the instruction or the index register. -/
inductive Src where
  | K | X
  deriving DecidableEq, Repr

inductive Instr where
  | ldAbs (w : Width) | ldInd (w : Width) | ldImm | ldMem | ldLen
  | ldxImm | ldxMem | ldxLen | ldxMsh
  | st | stx
  | alu (op : AluOp) (src : Src) | neg
  | ja | jmp (op : JmpOp) (src : Src)
  | retK | retA
  | tax | txa
  deriving DecidableEq, Repr

/-- The opcodes of the language. -/
def opcodes : List (BitVec 16 × Instr) := [
  (0x20#16, .ldAbs .W), (0x28#16, .ldAbs .H), (0x30#16, .ldAbs .B),
  (0x40#16, .ldInd .W), (0x48#16, .ldInd .H), (0x50#16, .ldInd .B),
  (0x00#16, .ldImm), (0x60#16, .ldMem), (0x80#16, .ldLen),
  (0x01#16, .ldxImm), (0x61#16, .ldxMem), (0x81#16, .ldxLen), (0xb1#16, .ldxMsh),
  (0x02#16, .st), (0x03#16, .stx),
  (0x04#16, .alu .ADD .K), (0x0c#16, .alu .ADD .X), (0x14#16, .alu .SUB .K),
  (0x1c#16, .alu .SUB .X), (0x24#16, .alu .MUL .K), (0x2c#16, .alu .MUL .X),
  (0x34#16, .alu .DIV .K), (0x3c#16, .alu .DIV .X), (0x44#16, .alu .OR .K), (0x4c#16, .alu .OR .X),
  (0x54#16, .alu .AND .K), (0x5c#16, .alu .AND .X), (0x64#16, .alu .LSH .K),
  (0x6c#16, .alu .LSH .X), (0x74#16, .alu .RSH .K), (0x7c#16, .alu .RSH .X),
  (0x84#16, .neg), (0x94#16, .alu .MOD .K), (0x9c#16, .alu .MOD .X),
  (0xa4#16, .alu .XOR .K), (0xac#16, .alu .XOR .X),
  (0x05#16, .ja), (0x15#16, .jmp .JEQ .K), (0x1d#16, .jmp .JEQ .X), (0x25#16, .jmp .JGT .K),
  (0x2d#16, .jmp .JGT .X), (0x35#16, .jmp .JGE .K), (0x3d#16, .jmp .JGE .X),
  (0x45#16, .jmp .JSET .K), (0x4d#16, .jmp .JSET .X),
  (0x06#16, .retK), (0x16#16, .retA), (0x07#16, .tax), (0x87#16, .txa)]

def decode (code : BitVec 16) : Option Instr := opcodes.lookup code

/-- How a program ends. -/
inductive Verdict where
  | value (v : Word)
  | kill
  deriving DecidableEq, Repr

def Src.operand (src : Src) (insn : SockFilterInsn) (s : State) : Word :=
  match src with
  | .K => insn.k
  | .X => s.x

/-- A division by zero has no value; a shift takes its count modulo the width. -/
def AluOp.eval (op : AluOp) (a b : Word) : Option Word :=
  match op with
  | .ADD => some (a + b)
  | .SUB => some (a - b)
  | .MUL => some (a * b)
  | .DIV => if b = 0 then none else some (a / b)
  | .OR => some (a ||| b)
  | .AND => some (a &&& b)
  | .LSH => some (a <<< (b.toNat % 32))
  | .RSH => some (a >>> (b.toNat % 32))
  | .MOD => if b = 0 then none else some (a % b)
  | .XOR => some (a ^^^ b)

def JmpOp.test (op : JmpOp) (a b : Word) : Bool :=
  match op with
  | .JEQ => a = b
  | .JGT => a > b
  | .JGE => a ≥ b
  | .JSET => a &&& b ≠ 0

/-- The word of `n` bytes of the data. -/
def load (data : List (BitVec 8)) (offset n : Nat) : Option Word :=
  if offset + n ≤ data.length then
    some (BitVec.ofNat 32 (littleNat ((data.drop offset).take n)))
  else none

/-- On with the state that is there, a kill without one. -/
def onward : Option State → Outcome State Verdict
  | some s => .next { s with pc := s.pc + 1 }
  | none => .done .kill

/-- The meaning of an instruction. -/
def Instr.exec (i : Instr) (insn : SockFilterInsn) (data : List (BitVec 8)) (s : State) :
    Outcome State Verdict :=
  match i with
  | .ldAbs w => onward ((load data insn.k.toNat w.bytes).map fun v => { s with a := v })
  | .ldInd w =>
    onward ((load data (s.x.toNat + insn.k.toNat) w.bytes).map fun v => { s with a := v })
  | .ldImm => onward (some { s with a := insn.k })
  | .ldMem => onward (s.mem[insn.k.toNat]?.map fun v => { s with a := v })
  | .ldLen => onward (some { s with a := BitVec.ofNat 32 data.length })
  | .ldxImm => onward (some { s with x := insn.k })
  | .ldxMem => onward (s.mem[insn.k.toNat]?.map fun v => { s with x := v })
  | .ldxLen => onward (some { s with x := BitVec.ofNat 32 data.length })
  | .ldxMsh => onward ((load data insn.k.toNat 1).map fun v => { s with x := 4 * (v &&& 0xf#32) })
  | .st =>
    onward (if h : insn.k.toNat < 16 then some { s with mem := s.mem.set insn.k.toNat s.a }
      else none)
  | .stx =>
    onward (if h : insn.k.toNat < 16 then some { s with mem := s.mem.set insn.k.toNat s.x }
      else none)
  | .alu op src => onward ((op.eval s.a (src.operand insn s)).map fun v => { s with a := v })
  | .neg => onward (some { s with a := -s.a })
  | .ja => onward (some { s with pc := s.pc + insn.k.toNat })
  | .jmp op src =>
    let off := if op.test s.a (src.operand insn s) then insn.jt.toNat else insn.jf.toNat
    onward (some { s with pc := s.pc + off })
  | .retK => .done (.value insn.k)
  | .retA => .done (.value s.a)
  | .tax => onward (some { s with x := s.a })
  | .txa => onward (some { s with a := s.x })

/-- One step of a program: an invalid instruction and the end of the program kill. -/
def classicStep (insns : List SockFilterInsn) (data : List (BitVec 8)) (s : State) :
    Outcome State Verdict :=
  match insns[s.pc]? with
  | none => .done .kill
  | some insn =>
    match decode insn.code with
    | none => .done .kill
    | some i => i.exec insn data s

/-- The program, from a state on, ends with this verdict. -/
abbrev Classic (insns : List SockFilterInsn) (data : List (BitVec 8)) : State → Verdict → Prop :=
  Ends (classicStep insns data)

/-- Every opcode of the program is one of the language. -/
def Valid (insns : List SockFilterInsn) : Prop := ∀ insn ∈ insns, (decode insn.code).isSome

/-! ## 4. What the masks make of an opcode -/

def readLd (code : BitVec 16) : Option Instr :=
  let size := code &&& 0x18#16
  let mode := code &&& 0xe0#16
  if mode = BPF_ABS then
    if size = BPF_W then some (.ldAbs .W)
    else if size = BPF_H then some (.ldAbs .H)
    else if size = BPF_B then some (.ldAbs .B)
    else none
  else if mode = BPF_IMM then some .ldImm
  else if mode = BPF_MEM then some .ldMem
  else if mode = BPF_LEN then some .ldLen
  else none

def readLdx (code : BitVec 16) : Option Instr :=
  let mode := code &&& 0xe0#16
  if mode = BPF_IMM then some .ldxImm
  else if mode = BPF_MEM then some .ldxMem
  else if mode = BPF_LEN then some .ldxLen
  else none

def readSrc (code : BitVec 16) : Src := if code &&& 0x08#16 = BPF_K then .K else .X

def readAlu (code : BitVec 16) : Option Instr :=
  let op := code &&& 0xf0#16
  let src := readSrc code
  if op = BPF_ADD then some (.alu .ADD src)
  else if op = BPF_SUB then some (.alu .SUB src)
  else if op = BPF_MUL then some (.alu .MUL src)
  else if op = BPF_DIV then some (.alu .DIV src)
  else if op = BPF_MOD then some (.alu .MOD src)
  else if op = BPF_OR then some (.alu .OR src)
  else if op = BPF_AND then some (.alu .AND src)
  else if op = BPF_LSH then some (.alu .LSH src)
  else if op = BPF_RSH then some (.alu .RSH src)
  else if op = BPF_XOR then some (.alu .XOR src)
  else if op = BPF_NEG then some .neg
  else none

def readJmp (code : BitVec 16) : Option Instr :=
  let op := code &&& 0xf0#16
  let src := readSrc code
  if op = BPF_JA then some .ja
  else if op = BPF_JEQ then some (.jmp .JEQ src)
  else if op = BPF_JGT then some (.jmp .JGT src)
  else if op = BPF_JGE then some (.jmp .JGE src)
  else if op = BPF_JSET then some (.jmp .JSET src)
  else none

def readMisc (code : BitVec 16) : Option Instr :=
  if code = BPF_MISC ||| BPF_TAX then some .tax
  else if code = BPF_MISC ||| BPF_TXA then some .txa
  else none

/-- The instruction the interpreter takes an opcode for. -/
def reading (code : BitVec 16) : Option Instr :=
  let cls := code &&& 0x07#16
  if cls = BPF_LD then readLd code
  else if cls = BPF_LDX then readLdx code
  else if cls = BPF_ST then some .st
  else if cls = BPF_STX then some .stx
  else if cls = BPF_ALU then readAlu code
  else if cls = BPF_JMP then readJmp code
  else if cls = BPF_RET then some (if code &&& 0xe0#16 = BPF_K then .retK else .retA)
  else if cls = BPF_MISC then readMisc code
  else none

/-- An operation whose result goes to the accumulator; one without a result kills. -/
def State.put (s : State) : Option Word → Effect
  | some v => { s with a := v }.advance
  | none => kill

/-- What the interpreter does for an instruction; it has no indirect loads. -/
def Instr.perform (i : Instr) (insn : SockFilterInsn) (data : List (BitVec 8)) (s : State) :
    Effect :=
  match i with
  | .ldAbs w => loadAbs data insn.k w.bytes s
  | .ldInd _ | .ldxMsh => kill
  | .ldImm => { s with a := insn.k }.advance
  | .ldMem =>
    if insn.k.toNat ≥ 16 then kill
    else do
      let v ← s.readMem insn.k
      { s with a := v }.advance
  | .ldLen => { s with a := 64#32 }.advance
  | .ldxImm => { s with x := insn.k }.advance
  | .ldxMem =>
    if insn.k.toNat ≥ 16 then kill
    else do
      let v ← s.readMem insn.k
      { s with x := v }.advance
  | .ldxLen => { s with x := 64#32 }.advance
  | .st => execStore insn s.a s
  | .stx => execStore insn s.x s
  | .alu op src =>
    let operand := src.operand insn s
    match op with
    | .LSH => do
        let n ← shiftCount operand
        { s with a := s.a <<< n }.advance
    | .RSH => do
        let n ← shiftCount operand
        { s with a := s.a >>> n }.advance
    | op => s.put (op.eval s.a operand)
  | .neg => { s with a := -s.a }.advance
  | .ja => s.jump insn.k.toNat
  | .jmp op src =>
    s.jump (if op.test s.a (src.operand insn s) then insn.jt.toNat else insn.jf.toNat)
  | .retK => .ok (.done insn.k)
  | .retA => .ok (.done s.a)
  | .tax => { s with x := s.a }.advance
  | .txa => { s with a := s.x }.advance

/-- The effect of an opcode as the interpreter reads it. -/
def perform (i : Option Instr) (insn : SockFilterInsn) (data : List (BitVec 8)) (s : State) :
    Effect :=
  match i with
  | none => kill
  | some i => i.perform insn data s

section Reading

variable {insn : SockFilterInsn} {data : List (BitVec 8)} {s : State}

theorem operand_readSrc :
    (if insn.code &&& 0x08#16 = BPF_K then insn.k else s.x) =
      (readSrc insn.code).operand insn s := by
  unfold readSrc
  split <;> rfl

theorem perform_ite (c : Prop) [Decidable c] (i j : Option Instr) :
    perform (if c then i else j) insn data s =
      if c then perform i insn data s else perform j insn data s := by
  split <;> rfl

theorem perform_div (src : Src) : perform (some (.alu .DIV src)) insn data s =
    if src.operand insn s = 0 then kill else { s with a := s.a / src.operand insn s }.advance := by
  by_cases h : src.operand insn s = 0
  · simp only [perform, Instr.perform, AluOp.eval, if_pos h, State.put]
  · simp only [perform, Instr.perform, AluOp.eval, if_neg h, State.put]

theorem perform_mod (src : Src) : perform (some (.alu .MOD src)) insn data s =
    if src.operand insn s = 0 then kill else { s with a := s.a % src.operand insn s }.advance := by
  by_cases h : src.operand insn s = 0
  · simp only [perform, Instr.perform, AluOp.eval, if_pos h, State.put]
  · simp only [perform, Instr.perform, AluOp.eval, if_neg h, State.put]

theorem execLd_reading : execLd insn data s = perform (readLd insn.code) insn data s := by
  simp only [execLd, readLd, perform_ite]
  rfl

theorem execLdx_reading (data : List (BitVec 8)) :
    execLdx insn s = perform (readLdx insn.code) insn data s := by
  simp only [execLdx, readLdx, perform_ite]
  rfl

theorem execAlu_reading (data : List (BitVec 8)) :
    execAlu insn s = perform (readAlu insn.code) insn data s := by
  simp only [execAlu, readAlu, operand_readSrc, perform_ite, perform_div, perform_mod]
  rfl

theorem execJmp_reading (data : List (BitVec 8)) :
    execJmp insn s = perform (readJmp insn.code) insn data s := by
  simp only [execJmp, readJmp, operand_readSrc, perform_ite]
  rfl

theorem execMisc_reading (data : List (BitVec 8)) :
    execMisc insn s = perform (readMisc insn.code) insn data s := by
  simp only [execMisc, readMisc, perform_ite]
  rfl

theorem execRet_reading (data : List (BitVec 8)) : execRet insn s =
    perform (some (if insn.code &&& 0xe0#16 = BPF_K then .retK else .retA)) insn data s := by
  simp only [execRet]
  split_ifs <;> rfl

/-- **The interpreter carries out the instruction it takes the opcode for.** -/
theorem execInsn_reading : execInsn insn data s = perform (reading insn.code) insn data s := by
  simp only [execInsn, reading, execLd_reading, execLdx_reading data,
    execAlu_reading data, execJmp_reading data,
    execMisc_reading data, execRet_reading data, perform_ite]
  rfl

end Reading

/-! ## 5. One instruction in both meanings -/

/-- The action of a return value is a kill. -/
def IsKill (r : Word) : Prop :=
  r &&& SECCOMP_RET_ACTION_FULL = SECCOMP_RET_KILL_PROCESS ∨
    r &&& SECCOMP_RET_ACTION_FULL = SECCOMP_RET_KILL_THREAD

instance : DecidablePred IsKill := fun _ => inferInstanceAs (Decidable (_ ∨ _))

theorem isKill_process : IsKill SECCOMP_RET_KILL_PROCESS := by decide

/-- The return value is what the program means. -/
def Agrees (r : Word) : Verdict → Prop
  | .value v => r = v
  | .kill => IsKill r

/-- The sums and the conversions that carrying out the instruction takes stay in their types. -/
def Instr.Fits (i : Instr) (insn : SockFilterInsn) (s : State) : Prop :=
  match i with
  | .ldAbs w => insn.k.toNat + w.bytes < 2 ^ 32
  | .alu .LSH src | .alu .RSH src => (src.operand insn s).toNat < 32
  | _ => True

/-- Carried out in this state, the instruction is a kill. -/
def Instr.Kills (i : Instr) (insn : SockFilterInsn) (s : State) : Prop :=
  match i with
  | .ldAbs w => insn.k.toNat + w.bytes < 2 ^ 32 ∧ 64 < insn.k.toNat + w.bytes
  | .ldInd _ | .ldxMsh => True
  | .ldMem | .ldxMem | .st | .stx => 16 ≤ insn.k.toNat
  | .alu .DIV src | .alu .MOD src => src.operand insn s = 0
  | .retK => IsKill insn.k
  | .retA => IsKill s.a
  | _ => False

/-- The interpreter carries out this instruction and takes it for no other. -/
def Instr.direct : Instr → Bool
  | .ldInd _ | .ldxMsh | .retA => false
  | _ => true

/-- What the interpreter takes the instruction for. -/
def Instr.taken : Instr → Option Instr
  | .ldInd _ | .ldxMsh => none
  | .retA => some .retK
  | i => some i

theorem reading_opcodes : ∀ p ∈ opcodes, reading p.1 = p.2.taken := by decide

theorem reading_of_decode {code : BitVec 16} {i : Instr} (h : decode code = some i) :
    reading code = i.taken := by
  obtain ⟨l, l', hl, -⟩ := lookup_eq_some_iff.1 h
  exact reading_opcodes (code, i) (hl ▸ mem_append_right _ mem_cons_self)

theorem taken_of_direct {i : Instr} (h : i.direct = true) : i.taken = some i := by
  cases i <;> first | rfl | cases h

/-- An effect as a step of the language. -/
def Matches (e : Effect) (o : Outcome State Verdict) : Prop :=
  match e, o with
  | .ok (.next s), .next s' => s = s'
  | .ok (.done r), .done v => Agrees r v
  | _, _ => False

section Instruction

variable {i : Instr} {insn : SockFilterInsn} {data : List (BitVec 8)} {s s' : State}

theorem advance_eq (h : s.pc + 1 < 2 ^ 64) :
    s.advance = .ok (.next { s with pc := s.pc + 1 }) := if_pos h

theorem jump_eq {off : Nat} (h : s.pc + off + 1 < 2 ^ 64) :
    s.jump off = .ok (.next { s with pc := s.pc + off + 1 }) := by
  have hm : (s.pc + off) % 2 ^ 64 = s.pc + off := Nat.mod_eq_of_lt (by omega)
  simp only [State.jump, hm]
  exact advance_eq h

theorem matches_kill : Matches kill (onward none) := isKill_process

theorem matches_advance (h : s.pc + 1 < 2 ^ 64) : Matches s.advance (onward (some s)) := by
  rw [advance_eq h]
  exact rfl

theorem matches_jump {off : Nat} (h : s.pc + off + 1 < 2 ^ 64) :
    Matches (s.jump off) (onward (some { s with pc := s.pc + off })) := by
  rw [jump_eq h]
  exact rfl

theorem matches_loadAbs {n : Nat} (hd : data.length = 64) (hpc : s.pc + 1 < 2 ^ 64)
    (hk : insn.k.toNat + n < 2 ^ 32) :
    Matches (loadAbs data insn.k n s)
      (onward ((load data insn.k.toNat n).map fun v => { s with a := v })) := by
  rw [loadAbs, if_pos hk]
  by_cases h : insn.k.toNat + n > 64
  · rw [if_pos h, load, if_neg (by omega)]
    exact matches_kill
  · have hl : insn.k.toNat + n ≤ data.length := by omega
    rw [if_neg h, load, if_pos hl, readInt, if_pos hl]
    exact matches_advance hpc

theorem matches_readMem {f : Word → State} (hpc : ∀ v, (f v).pc + 1 < 2 ^ 64) :
    Matches (if insn.k.toNat ≥ 16 then kill else do let v ← s.readMem insn.k; (f v).advance)
      (onward (s.mem[insn.k.toNat]?.map f)) := by
  by_cases h : insn.k.toNat ≥ 16
  · rw [if_pos h, Vector.getElem?_eq_none h]
    exact matches_kill
  · rw [if_neg h, State.readMem, Vector.getElem?_eq_getElem (by omega)]
    exact matches_advance (hpc _)

theorem matches_execStore {v : Word} (hpc : s.pc + 1 < 2 ^ 64) : Matches (execStore insn v s)
      (onward (if h : insn.k.toNat < 16 then some { s with mem := s.mem.set insn.k.toNat v }
        else none)) := by
  by_cases h : insn.k.toNat < 16
  · rw [execStore, if_neg (by omega), dif_pos h, State.writeMem, dif_pos h]
    exact matches_advance (s := { s with mem := s.mem.set insn.k.toNat v }) hpc
  · rw [execStore, if_pos (by omega), dif_neg h]
    exact matches_kill

theorem matches_put (hpc : s.pc + 1 < 2 ^ 64) (o : Option Word) :
    Matches (s.put o) (onward (o.map fun v => { s with a := v })) := by
  cases o with
  | none => exact matches_kill
  | some v => exact matches_advance (s := { s with a := v }) hpc

theorem matches_alu {op : AluOp} {src : Src} (hpc : s.pc + 1 < 2 ^ 64)
    (hf : (Instr.alu op src).Fits insn s) :
    Matches ((Instr.alu op src).perform insn data s) ((Instr.alu op src).exec insn data s) := by
  cases op with
  | LSH | RSH =>
    have hf' : (src.operand insn s).toNat < 32 := hf
    simp only [Instr.perform, Instr.exec, AluOp.eval, shiftCount, if_pos hf', Nat.mod_eq_of_lt hf']
    exact matches_advance (s := { s with a := _ }) hpc
  | _ =>
    simp only [Instr.perform, Instr.exec]
    exact matches_put hpc _

/-- **A direct instruction whose sums fit has the effect the language gives it.** -/
theorem perform_matches (hd : data.length = 64) (hpc : s.pc < 4096) (hi : i.direct = true)
    (hf : i.Fits insn s) : Matches (i.perform insn data s) (i.exec insn data s) := by
  have hpc' : s.pc + 1 < 2 ^ 64 := by omega
  cases i with
  | ldAbs w => exact matches_loadAbs hd hpc' hf
  | ldInd w => cases hi
  | ldImm => exact matches_advance (s := { s with a := insn.k }) hpc'
  | ldMem => exact matches_readMem fun _ => hpc'
  | ldLen =>
    simp only [Instr.exec, hd]
    exact matches_advance (s := { s with a := 64#32 }) hpc'
  | ldxImm => exact matches_advance (s := { s with x := insn.k }) hpc'
  | ldxMem => exact matches_readMem fun _ => hpc'
  | ldxLen =>
    simp only [Instr.exec, hd]
    exact matches_advance (s := { s with x := 64#32 }) hpc'
  | ldxMsh => cases hi
  | st => exact matches_execStore hpc'
  | stx => exact matches_execStore hpc'
  | alu op src => exact matches_alu hpc' hf
  | neg => exact matches_advance (s := { s with a := -s.a }) hpc'
  | ja => exact matches_jump (by omega)
  | jmp op src =>
    refine matches_jump ?_
    split <;> omega
  | retK => exact rfl
  | retA => cases hi
  | tax => exact matches_advance (s := { s with x := s.a }) hpc'
  | txa => exact matches_advance (s := { s with a := s.x }) hpc'

theorem shiftCount_error {v : Word} (h : ¬v.toNat < 32) :
    shiftCount v = .error .integerOverflow := if_neg h

/-- **Where a sum does not fit, the kernel stops.** -/
theorem perform_trap (data : List (BitVec 8)) (hf : ¬i.Fits insn s) : ∃ t, i.perform insn data s = .error t := by
  cases i with
  | ldAbs w => exact ⟨_, if_neg hf⟩
  | alu op src =>
    cases op with
    | LSH | RSH =>
      refine ⟨.integerOverflow, ?_⟩
      simp only [Instr.perform, shiftCount_error hf]
      rfl
    | _ => exact (hf trivial).elim
  | _ => exact (hf trivial).elim

theorem onward_pc {o : Option State} (h : onward o = .next s') (ho : ∀ t ∈ o, s.pc ≤ t.pc) :
    s.pc < s'.pc := by
  cases o with
  | none => cases h
  | some t =>
    cases h
    exact Nat.lt_succ_of_le (ho t rfl)

theorem onward_map_pc {o : Option Word} {f : Word → State} (h : onward (o.map f) = .next s')
    (hf : ∀ v, (f v).pc = s.pc) : s.pc < s'.pc := by
  refine onward_pc h fun t ht => ?_
  obtain ⟨v, -, rfl⟩ := Option.map_eq_some_iff.1 ht
  exact Nat.le_of_eq (hf v).symm

theorem onward_some_pc {t : State} (h : onward (some t) = .next s') (ht : s.pc ≤ t.pc) :
    s.pc < s'.pc :=
  onward_pc h fun _ hu => Option.some.inj hu ▸ ht

/-- **Every jump is forward.** -/
theorem exec_pc (h : i.exec insn data s = .next s') : s.pc < s'.pc := by
  cases i with
  | ldAbs w | ldInd w => exact onward_map_pc h fun _ => rfl
  | ldMem | ldxMem | ldxMsh => exact onward_map_pc h fun _ => rfl
  | alu op src => exact onward_map_pc h fun _ => rfl
  | st | stx =>
    refine onward_pc h fun t ht => ?_
    split at ht
    · cases ht
      exact Nat.le_refl _
    · cases ht
  | ja => exact onward_some_pc h (Nat.le_add_right _ _)
  | jmp op src => exact onward_some_pc h (Nat.le_add_right _ _)
  | retK | retA => cases h
  | _ => exact onward_some_pc h (Nat.le_refl _)

/-- The effect is a kill. -/
def Killed (e : Effect) : Prop := ∃ r, e = .ok (.done r) ∧ IsKill r

theorem killed_kill : Killed kill := ⟨_, rfl, isKill_process⟩

theorem not_killed_error {t : Trap} : ¬Killed (.error t) := by
  rintro ⟨r, h, -⟩
  cases h

theorem not_killed_advance : ¬Killed s.advance := by
  rintro ⟨r, h, -⟩
  unfold State.advance at h
  split at h <;> cases h

theorem killed_done {r : Word} : Killed (.ok (.done r)) ↔ IsKill r := by
  constructor
  · rintro ⟨r', h, hr⟩
    cases h
    exact hr
  · exact fun h => ⟨r, rfl, h⟩

theorem killed_put {o : Option Word} : Killed (s.put o) ↔ o = none := by
  cases o with
  | none => exact iff_of_true killed_kill rfl
  | some v => exact iff_of_false not_killed_advance (by simp)

theorem not_killed_bind {α : Type} {x : Except Trap α} {f : α → State} :
    ¬Killed (do let v ← x; (f v).advance) := by
  cases x with
  | error t => exact not_killed_error
  | ok v => exact not_killed_advance

theorem killed_loadAbs {k : Word} {n : Nat} :
    Killed (loadAbs data k n s) ↔ k.toNat + n < 2 ^ 32 ∧ 64 < k.toNat + n := by
  unfold loadAbs
  split
  · next hk =>
      split
      · next h => exact iff_of_true killed_kill ⟨hk, h⟩
      · next h => exact iff_of_false not_killed_bind fun h' => h h'.2
  · next hk => exact iff_of_false not_killed_error fun h => hk h.1

theorem killed_bound {α : Type} {x : Except Trap α} {f : α → State} :
    Killed (if insn.k.toNat ≥ 16 then kill else do let v ← x; (f v).advance) ↔
      16 ≤ insn.k.toNat := by
  split
  · next h => exact iff_of_true killed_kill h
  · next h => exact iff_of_false not_killed_bind h

theorem killed_alu {op : AluOp} {src : Src} :
    Killed ((Instr.alu op src).perform insn data s) ↔ (Instr.alu op src).Kills insn s := by
  cases op with
  | LSH | RSH => exact iff_of_false not_killed_bind id
  | DIV | MOD =>
    simp only [Instr.perform, killed_put, AluOp.eval, Instr.Kills, ite_eq_left_iff, reduceCtorEq,
      imp_false, not_not]
  | _ =>
    simp only [Instr.perform, killed_put, AluOp.eval, Instr.Kills, reduceCtorEq]

/-- **Which instructions end the program with a kill.** -/
theorem killed_perform : Killed (i.perform insn data s) ↔ i.Kills insn s := by
  cases i with
  | ldAbs w => exact killed_loadAbs
  | ldInd w | ldxMsh => exact iff_of_true killed_kill trivial
  | ldMem | ldxMem => exact killed_bound
  | st | stx => exact killed_bound
  | alu op src => exact killed_alu
  | retK | retA => exact killed_done
  | _ => exact iff_of_false not_killed_advance id

end Instruction

/-! ## 6. Whole runs -/

/-- A round of the loop as a step. -/
def filterStep (insns : List SockFilterInsn) (data : List (BitVec 8)) (s : State) :
    Outcome State (Except Trap Word) :=
  match insns[s.pc]? with
  | none => .done (.ok SECCOMP_RET_KILL_PROCESS)
  | some insn =>
    match execInsn insn data s with
    | .error t => .done (.error t)
    | .ok (.done r) => .done (.ok r)
    | .ok (.next s') => .next s'

/-- The language without the indirect loads: a load of this kind is an end. -/
def directStep (insns : List SockFilterInsn) (data : List (BitVec 8)) (s : State) :
    Outcome State Verdict :=
  match insns[s.pc]? with
  | none => .done .kill
  | some insn =>
    match decode insn.code with
    | none => .done .kill
    | some i => if i.direct then i.exec insn data s else .done .kill

/-- What a valid program asks of the interpreter at an instruction that it does not have: that
    `RET A` finds the accumulator equal to the constant, and that an indirect load is either
    outside the data or on the way to a kill anyway. -/
def Instr.Spared (i : Instr) (insns : List SockFilterInsn) (insn : SockFilterInsn)
    (data : List (BitVec 8)) (s : State) : Prop :=
  match i with
  | .retA => s.a = insn.k
  | .ldInd _ | .ldxMsh => ∃ v, Classic insns data s v ∧ Agrees SECCOMP_RET_KILL_PROCESS v
  | _ => True

/-- The interpreter does what it should with the instruction at this state: a valid one has
    sums that fit and is one it has, an invalid one is taken for one that kills here. -/
def Handled (insns : List SockFilterInsn) (data : List (BitVec 8)) (s : State) : Prop :=
  ∀ insn, insns[s.pc]? = some insn →
    match decode insn.code with
    | some i => i.Fits insn s ∧ (Valid insns → i.Spared insns insn data s)
    | none => ∀ i, reading insn.code = some i → i.Kills insn s

/-- There is no valid instruction at this state: the program ended or the opcode is invalid. -/
def Invalid (insns : List SockFilterInsn) (s : State) : Prop :=
  ∀ insn, insns[s.pc]? = some insn → decode insn.code = none

/-- What is asked of the interpreter: it ends without a stop of the kernel, with the result of the
    language if the program is valid, and every invalid instruction, and the end of the program,
    is a kill. -/
structure FilterCorrect (insns : List SockFilterInsn) (data : SeccompData) : Prop where
  ends : ∃ r, runBpfFilter insns data = .ok r ∧
    (Valid insns → ∃ v, Classic insns data.asBytes {} v ∧ Agrees r v)
  kills : ∀ s, Visits (filterStep insns data.asBytes) {} s → Invalid insns s →
    ∃ r, filterStep insns data.asBytes s = .done (.ok r) ∧ IsKill r

section Runs

variable {insns : List SockFilterInsn} {data : List (BitVec 8)} {insn : SockFilterInsn} {i : Instr}
  {s s' : State}

theorem filterStep_eq (h : insns[s.pc]? = some insn) : filterStep insns data s =
    match perform (reading insn.code) insn data s with
    | .error t => .done (.error t)
    | .ok (.done r) => .done (.ok r)
    | .ok (.next s') => .next s' := by
  rw [filterStep, h, ← execInsn_reading]

theorem filterStep_taken (h : insns[s.pc]? = some insn) (hi : decode insn.code = some i) :
    filterStep insns data s =
      match perform i.taken insn data s with
      | .error t => .done (.error t)
      | .ok (.done r) => .done (.ok r)
      | .ok (.next s') => .next s' := by
  rw [filterStep_eq h, reading_of_decode hi]

theorem classicStep_eq (h : insns[s.pc]? = some insn) (hi : decode insn.code = some i) :
    classicStep insns data s = i.exec insn data s := by
  simp only [classicStep, h, hi]

theorem pc_lt_of_some (hlen : insns.length ≤ max_steps) (h : insns[s.pc]? = some insn) :
    s.pc < 4096 :=
  Nat.lt_of_lt_of_le (List.getElem?_eq_some_iff.1 h).1 hlen

/-- A step of the language that is no indirect load is a step of the language. -/
theorem directStep_next (h : directStep insns data s = .next s') :
    ∃ insn i, insns[s.pc]? = some insn ∧ decode insn.code = some i ∧ i.direct = true ∧
      i.exec insn data s = .next s' := by
  unfold directStep at h
  split at h
  · cases h
  next insn hinsn =>
    split at h
    · cases h
    next i hi =>
      split at h
      · next hdir => exact ⟨insn, i, hinsn, hi, hdir, h⟩
      · cases h

theorem visits_classic {t : State} (h : Visits (directStep insns data) s t) :
    Visits (classicStep insns data) s t := by
  refine h.mono fun t t' ht => ?_
  obtain ⟨insn, i, hinsn, hi, -, hexec⟩ := directStep_next ht
  rw [classicStep_eq hinsn hi, hexec]

/-- **At a direct instruction whose sums fit, the loop and the language step alike.** -/
theorem filterStep_direct (hd : data.length = 64) (hlen : insns.length ≤ max_steps)
    (h : insns[s.pc]? = some insn) (hi : decode insn.code = some i) (hdir : i.direct = true)
    (hf : i.Fits insn s) :
    (∃ s', filterStep insns data s = .next s' ∧ i.exec insn data s = .next s') ∨
      ∃ r v, filterStep insns data s = .done (.ok r) ∧ i.exec insn data s = .done v ∧
        Agrees r v := by
  have hm := perform_matches hd (pc_lt_of_some hlen h) hdir hf
  rw [filterStep_taken h hi, taken_of_direct hdir, perform]
  generalize i.perform insn data s = e at hm
  generalize i.exec insn data s = o at hm
  match e, o, hm with
  | .ok (.next s₁), .next s₂, hm => exact .inl ⟨s₁, rfl, congrArg _ hm.symm⟩
  | .ok (.done r), .done v, hm => exact .inr ⟨r, v, rfl, rfl, hm⟩

theorem filterStep_trap (data : List (BitVec 8)) (h : insns[s.pc]? = some insn) (hi : reading insn.code = some i)
    (hf : ¬i.Fits insn s) : ∃ t, filterStep insns data s = .done (.error t) := by
  obtain ⟨t, ht⟩ := perform_trap data hf
  refine ⟨t, ?_⟩
  rw [filterStep_eq h, hi, perform, ht]

theorem filterStep_retA (h : insns[s.pc]? = some insn) (hi : decode insn.code = some .retA) :
    filterStep insns data s = .done (.ok insn.k) := by
  rw [filterStep_taken h hi]
  rfl

theorem filterStep_indirect (h : insns[s.pc]? = some insn) (hi : decode insn.code = some i)
    (ht : i.taken = none) :
    filterStep insns data s = .done (.ok SECCOMP_RET_KILL_PROCESS) := by
  rw [filterStep_taken h hi, ht]
  rfl

theorem killed_iff (h : insns[s.pc]? = some insn) :
    (∃ r, filterStep insns data s = .done (.ok r) ∧ IsKill r) ↔
      ∀ i, reading insn.code = some i → i.Kills insn s := by
  have hiff : (∃ r, filterStep insns data s = .done (.ok r) ∧ IsKill r) ↔
      Killed (perform (reading insn.code) insn data s) := by
    rw [filterStep_eq h]
    generalize perform (reading insn.code) insn data s = e
    match e with
    | .error t => exact iff_of_false (fun ⟨_, he, _⟩ => by cases he) not_killed_error
    | .ok (.done r) =>
      refine ⟨fun ⟨_, he, hr⟩ => ?_, fun hk => ⟨r, rfl, killed_done.1 hk⟩⟩
      cases he
      exact killed_done.2 hr
    | .ok (.next s') =>
      exact iff_of_false (fun ⟨_, he, _⟩ => by cases he) (fun ⟨_, he, _⟩ => by cases he)
  rw [hiff]
  cases reading insn.code with
  | none => exact iff_of_true killed_kill fun _ hi => nomatch hi
  | some i =>
    rw [perform, killed_perform]
    exact ⟨fun hk _ hi => Option.some.inj hi ▸ hk, fun hk => hk i rfl⟩

theorem filterStep_none (h : insns[s.pc]? = none) :
    filterStep insns data s = .done (.ok SECCOMP_RET_KILL_PROCESS) := by
  rw [filterStep, h]

/-- **The loop only goes forward**, and only inside the program. -/
theorem filterStep_pc (hd : data.length = 64) (hlen : insns.length ≤ max_steps)
    (h : filterStep insns data s = .next s') : s.pc < s'.pc ∧ s.pc < insns.length := by
  cases hinsn : insns[s.pc]? with
  | none =>
    rw [filterStep_none hinsn] at h
    cases h
  | some insn =>
    have hpc := pc_lt_of_some hlen hinsn
    refine ⟨?_, (List.getElem?_eq_some_iff.1 hinsn).1⟩
    rw [filterStep_eq hinsn] at h
    cases hi : reading insn.code with
    | none =>
      rw [hi] at h
      cases h
    | some i =>
      rw [hi, perform] at h
      by_cases hf : i.Fits insn s
      · by_cases hdir : i.direct = true
        · have hm := perform_matches hd hpc hdir hf
          split at h
          · cases h
          · cases h
          next s₁ heq =>
            cases h
            rw [heq] at hm
            cases he : i.exec insn data s with
            | next s₂ =>
              rw [he] at hm
              have hs : s' = s₂ := hm
              exact hs ▸ exec_pc he
            | done v =>
              rw [he] at hm
              exact hm.elim
        · cases i <;> first | exact (hdir rfl).elim | cases h
      · obtain ⟨t, ht⟩ := perform_trap data hf
        rw [ht] at h
        cases h

/-- **The loop, with as many rounds as there are instructions left, is the run.** -/
theorem filterLoop_ends (hd : data.length = 64) (hlen : insns.length ≤ max_steps) :
    ∀ (n : Nat) (s : State), insns.length - s.pc ≤ n →
      Ends (filterStep insns data) s (filterLoop insns data n s) := by
  intro n
  induction n with
  | zero =>
    intro s hn
    exact .done (filterStep_none (getElem?_eq_none (by omega)))
  | succ n ih =>
    intro s hn
    rw [filterLoop]
    split
    · next h => exact .done (filterStep_none h)
    next insn h =>
      have hstep : filterStep insns data s = match execInsn insn data s with
          | .error t => .done (.error t)
          | .ok (.done r) => .done (.ok r)
          | .ok (.next s') => .next s' := by
        rw [filterStep, h]
      split
      · next t he => exact .done (by rw [hstep, he])
      · next r he => exact .done (by rw [hstep, he])
      next s' he =>
        have hnext : filterStep insns data s = .next s' := by rw [hstep, he]
        have hpc := filterStep_pc hd hlen hnext
        exact .next hnext (ih s' (by omega))

end Runs

theorem length_littleBytes (n v : Nat) : (littleBytes n v).length = n := by
  induction n generalizing v with
  | zero => rfl
  | succ n ih => exact congrArg (· + 1) (ih _)

@[simp] theorem length_asBytes (d : SeccompData) : d.asBytes.length = 64 := by
  simp [SeccompData.asBytes, length_littleBytes, length_flatMap]

/-! ## 7. The interpreter against the language -/

section Correct

variable {insns : List SockFilterInsn} {data : SeccompData} {s : State}

theorem runBpfFilter_ends (data : SeccompData) (hlen : insns.length ≤ max_steps) :
    Ends (filterStep insns data.asBytes) {} (runBpfFilter insns data) :=
  filterLoop_ends (length_asBytes _) hlen _ _ (Nat.le_trans (Nat.sub_le _ _) hlen)

section

variable (hlen : insns.length ≤ max_steps)
include hlen

/-- **In a run whose states are all handled, the interpreter stays on the path of the language.** -/
theorem visits_direct
    (hh : ∀ s, Visits (directStep insns data.asBytes) {} s → Handled insns data.asBytes s)
    (h : Visits (filterStep insns data.asBytes) {} s) :
    Visits (directStep insns data.asBytes) {} s := by
  induction h with
  | refl => exact .refl
  | @next t t' _ ht ih =>
    refine ih.next ?_
    cases hinsn : insns[t.pc]? with
    | none =>
      rw [filterStep_none hinsn] at ht
      cases ht
    | some insn =>
      have hhandled := hh t ih insn hinsn
      cases hi : decode insn.code with
      | none =>
        simp only [hi] at hhandled
        obtain ⟨r, hr, -⟩ := (killed_iff hinsn).2 hhandled
        rw [hr] at ht
        cases ht
      | some i =>
        simp only [hi] at hhandled
        by_cases hdir : i.direct = true
        · rcases filterStep_direct (length_asBytes _) hlen hinsn hi hdir hhandled.1 with
            ⟨s', hs, he⟩ | ⟨r, v, hs, -⟩
          · rw [hs] at ht
            cases ht
            simp only [directStep, hinsn, hi, if_pos hdir, he]
          · rw [hs] at ht
            cases ht
        · rw [filterStep_taken hinsn hi] at ht
          cases i <;> first | exact (hdir rfl).elim | cases ht

/-- The end of the program at a handled state: the result there is the one of the language. -/
theorem handled_done {R : Except Trap Word}
    (hh : Handled insns data.asBytes s) (hR : filterStep insns data.asBytes s = .done R) :
    ∃ r, R = .ok r ∧ (Invalid insns s → IsKill r) ∧
      (Valid insns → ∃ v, Classic insns data.asBytes s v ∧ Agrees r v) := by
  cases hinsn : insns[s.pc]? with
  | none =>
    rw [filterStep_none hinsn] at hR
    cases hR
    refine ⟨_, rfl, fun _ => isKill_process, fun _ => ⟨.kill, .done ?_, isKill_process⟩⟩
    simp only [classicStep, hinsn]
  | some insn =>
    have hhandled := hh insn hinsn
    cases hi : decode insn.code with
    | none =>
      simp only [hi] at hhandled
      obtain ⟨r, hr, hkill⟩ := (killed_iff hinsn).2 hhandled
      rw [hr] at hR
      cases hR
      refine ⟨r, rfl, fun _ => hkill, fun hv => ?_⟩
      have hsome := hv insn (mem_of_getElem? hinsn)
      rw [hi] at hsome
      cases hsome
    | some i =>
      simp only [hi] at hhandled
      obtain ⟨hf, hspared⟩ := hhandled
      have hvalid : Invalid insns s → False := fun h => by
        have := h insn hinsn
        rw [hi] at this
        cases this
      by_cases hdir : i.direct = true
      · rcases filterStep_direct (length_asBytes _) hlen hinsn hi hdir hf with
          ⟨s', hs, -⟩ | ⟨r, v, hs, he, hagree⟩
        · rw [hs] at hR
          cases hR
        rw [hs] at hR
        cases hR
        refine ⟨r, rfl, fun h => (hvalid h).elim, fun _ => ⟨v, .done ?_, hagree⟩⟩
        rw [classicStep_eq hinsn hi, he]
      cases i with
      | retA =>
        rw [filterStep_retA hinsn hi] at hR
        cases hR
        refine ⟨_, rfl, fun h => (hvalid h).elim, fun hv => ⟨.value s.a, .done ?_, ?_⟩⟩
        · rw [classicStep_eq hinsn hi]
          rfl
        · exact (hspared hv : s.a = insn.k).symm
      | ldInd w | ldxMsh =>
        rw [filterStep_indirect hinsn hi rfl] at hR
        cases hR
        exact ⟨_, rfl, fun h => (hvalid h).elim, fun hv => hspared hv⟩
      | _ => exact (hdir rfl).elim

/-- **If every state of the run is handled, the interpreter is correct.** -/
theorem FilterCorrect.of_handled
    (hh : ∀ s, Visits (directStep insns data.asBytes) {} s → Handled insns data.asBytes s) :
    FilterCorrect insns data where
  ends := by
    obtain ⟨t, ht, hdone⟩ := (runBpfFilter_ends data hlen).last
    have hdirect := visits_direct hlen hh ht
    obtain ⟨r, hr, -, hagree⟩ := handled_done hlen (hh t hdirect) hdone
    refine ⟨r, hr, fun hv => ?_⟩
    obtain ⟨v, hclassic, hrv⟩ := hagree hv
    exact ⟨v, (visits_classic hdirect).ends.2 hclassic, hrv⟩
  kills := by
    intro s hs hinvalid
    have hhandled := hh s (visits_direct hlen hh hs)
    cases hinsn : insns[s.pc]? with
    | none => exact ⟨_, filterStep_none hinsn, isKill_process⟩
    | some insn =>
      have hkills := hhandled insn hinsn
      simp only [hinvalid insn hinsn] at hkills
      exact (killed_iff hinsn).2 hkills

/-- No state that a correct interpreter comes through stops the kernel. -/
theorem FilterCorrect.no_trap (h : FilterCorrect insns data)
    (hs : Visits (filterStep insns data.asBytes) {} s) {t : Trap} :
    filterStep insns data.asBytes s ≠ .done (.error t) := by
  intro ht
  obtain ⟨r, hr, -⟩ := h.ends
  have he := (runBpfFilter_ends data hlen).det (hs.ends_done ht)
  rw [hr] at he
  cases he

theorem FilterCorrect.fits (h : FilterCorrect insns data)
    (hs : Visits (filterStep insns data.asBytes) {} s) {insn : SockFilterInsn} {i : Instr}
    (hinsn : insns[s.pc]? = some insn) (hi : decode insn.code = some i) : i.Fits insn s := by
  by_contra hf
  have hdir : i.direct = true := by
    cases i <;> first | rfl | exact (hf trivial).elim
  have hr : reading insn.code = some i := by rw [reading_of_decode hi, taken_of_direct hdir]
  obtain ⟨t, ht⟩ := filterStep_trap data.asBytes hinsn hr hf
  exact h.no_trap hlen hs ht

/-- A correct interpreter follows the language up to the first load it does not have. -/
theorem FilterCorrect.visits (h : FilterCorrect insns data)
    (hs : Visits (directStep insns data.asBytes) {} s) :
    Visits (filterStep insns data.asBytes) {} s := by
  induction hs with
  | refl => exact .refl
  | @next t t' _ ht ih =>
    obtain ⟨insn, i, hinsn, hi, hdir, hexec⟩ := directStep_next ht
    refine ih.next ?_
    rcases filterStep_direct (length_asBytes _) hlen hinsn hi hdir (h.fits hlen ih hinsn hi) with
      ⟨s', hs, he⟩ | ⟨r, v, -, he, -⟩
    · rw [hexec] at he
      cases he
      exact hs
    · rw [hexec] at he
      cases he

/-- What a correct interpreter returns is what the language says from any state of the run. -/
theorem FilterCorrect.agrees (h : FilterCorrect insns data)
    (hv : Valid insns) (hs : Visits (directStep insns data.asBytes) {} s) {r : Word}
    (hr : filterStep insns data.asBytes s = .done (.ok r)) :
    ∃ v, Classic insns data.asBytes s v ∧ Agrees r v := by
  obtain ⟨r', hr', hagree⟩ := h.ends
  have he := (runBpfFilter_ends data hlen).det ((h.visits hlen hs).ends_done hr)
  rw [hr'] at he
  cases he
  obtain ⟨v, hclassic, hrv⟩ := hagree hv
  exact ⟨v, (visits_classic hs).ends.1 hclassic, hrv⟩

theorem FilterCorrect.handled (h : FilterCorrect insns data)
    (hs : Visits (directStep insns data.asBytes) {} s) : Handled insns data.asBytes s := by
  intro insn hinsn
  have hvisits := h.visits hlen hs
  cases hi : decode insn.code with
  | none =>
    refine (killed_iff hinsn).1 (h.kills s hvisits fun insn' hinsn' => ?_)
    rw [hinsn] at hinsn'
    cases hinsn'
    exact hi
  | some i =>
    refine ⟨h.fits hlen hvisits hinsn hi, fun hv => ?_⟩
    cases i with
    | retA =>
      obtain ⟨v, hclassic, hrv⟩ := h.agrees hlen hv hs (filterStep_retA hinsn hi)
      have hval := hclassic.of_done ((classicStep_eq hinsn hi).trans rfl)
      rw [hval] at hrv
      exact hrv.symm
    | ldInd w | ldxMsh => exact h.agrees hlen hv hs (filterStep_indirect hinsn hi rfl)
    | _ => exact trivial

end

end Correct

/-- **The interpreter is correct exactly if every state of the run is handled.** -/
theorem bpfFilter (insns : List SockFilterInsn) (data : SeccompData)
    (hlen : insns.length ≤ max_steps) :
    FilterCorrect insns data ↔
      ∀ s, Visits (directStep insns data.asBytes) {} s → Handled insns data.asBytes s :=
  ⟨fun h _ hs => h.handled hlen hs, .of_handled hlen⟩

/-- A filter that allows every call is interpreted correctly. -/
theorem bpfFilter_allowAll : FilterCorrect [⟨0x06#16, 0, 0, SECCOMP_RET_ALLOW⟩]
    ⟨0, 0, 0, fun _ => 0⟩ := by
  refine (bpfFilter _ _ (by decide)).2 fun s hs => ?_
  have hstart : s = {} := by
    induction hs with
    | refl => rfl
    | next _ h ih => subst ih; cases h
  subst hstart
  intro insn hinsn
  cases hinsn
  exact ⟨trivial, fun _ => trivial⟩

/-- The filter `A := 0; return A`: zero is a kill, and the constant of the second instruction is the
    action that allows. -/
def returnsAccumulator : List SockFilterInsn :=
  [⟨0x00#16, 0, 0, SECCOMP_RET_KILL_THREAD⟩, ⟨0x16#16, 0, 0, SECCOMP_RET_ALLOW⟩]

theorem bpfFilter_refuted : ¬∀ (insns : List SockFilterInsn) (data : SeccompData),
    1 ≤ insns.length → insns.length ≤ 256 → FilterCorrect insns data := by
  intro h
  obtain ⟨r, hr, hagree⟩ := (h returnsAccumulator ⟨0, 0, 0, fun _ => 0⟩ (by decide) (by decide)).ends
  have hrun : runBpfFilter returnsAccumulator ⟨0, 0, 0, fun _ => 0⟩ = .ok SECCOMP_RET_ALLOW := rfl
  obtain ⟨v, hclassic, hrv⟩ := hagree (by unfold Valid; decide)
  have hfirst : classicStep returnsAccumulator (SeccompData.asBytes ⟨0, 0, 0, fun _ => 0⟩) {} =
      .next { pc := 1 } := rfl
  have hlast : classicStep returnsAccumulator (SeccompData.asBytes ⟨0, 0, 0, fun _ => 0⟩) { pc := 1 } =
      .done (.value SECCOMP_RET_KILL_THREAD) := rfl
  have hval := (hclassic.of_next hfirst).of_done hlast
  rw [hrun] at hr
  cases hr
  rw [hval] at hrv
  have heq : SECCOMP_RET_ALLOW = SECCOMP_RET_KILL_THREAD := hrv
  exact absurd heq (by decide)

end Zigk.Bpf
