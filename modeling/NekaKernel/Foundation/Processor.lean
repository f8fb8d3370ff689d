/-
  Foundation/Processor.lean --- an x86-64 processor on its way through its modes.

  Segment registers hold what they loaded from a descriptor, CR0, CR3, CR4 and EFER
  decide what an address means, and the mode decides which instructions the bytes at
  an address are.  A fault is the end (`none`): where such code runs there are no
  handlers yet.  Left out are 32-bit, PAE and five-level paging, call gates and
  conforming segments, the accessed bits of descriptors and entries, the base of FS and
  GS in 64-bit mode, and the flags of other instructions than `cmp`.

  A program is the list of its instructions with the addresses at which they stand.
-/
import Mathlib.Logic.Function.Basic
import NekaKernel.Foundation.Leads
import NekaKernel.Foundation.Walk

set_option autoImplicit false

namespace NekaKernel.Foundation

/-! ## State -/

inductive Gpr where
  | rax | rcx | rdx | rbx | rsp | rdi
  deriving DecidableEq, Repr

/-- The segment registers other than CS. -/
inductive Sreg where
  | ds | es | ss | fs | gs
  deriving DecidableEq, Repr

inductive Creg where
  | cr0 | cr3 | cr4
  deriving DecidableEq, Repr

/-- The hidden part of a segment register; `limit` is the last offset, and `long` and
`wide` are the L and D bits. -/
structure Segment where
  base : Nat
  limit : Nat
  long : Bool
  wide : Bool
  deriving DecidableEq, Repr

/-- A processor and its memory.  `pc` is the number of the next instruction, `less` is
SF ≠ OF, and `callee` is the address of the function that has been called. -/
structure Processor where
  reg : Gpr → Nat
  seg : Sreg → Segment
  cs : Segment
  gdtBase : Nat
  gdtLimit : Nat
  cr0 : Nat
  cr3 : Nat
  cr4 : Nat
  efer : Nat
  less : Bool
  interrupts : Bool
  pc : Nat
  callee : Option Nat
  mem : Mem

namespace Processor

/-- CR0.PG. -/
def paging (s : Processor) : Bool := s.cr0.testBit 31

/-- EFER.LMA. -/
def longActive (s : Processor) : Bool := s.paging && s.efer.testBit 8

/-- The size of the code that the processor reads instructions as. -/
def bits (s : Processor) : Nat :=
  if s.longActive && s.cs.long then 64 else if s.cs.wide then 32 else 16

/-- On to the next instruction. -/
def advance (s : Processor) : Processor := { s with pc := s.pc + 1 }

def setReg (s : Processor) (r : Gpr) (v : Nat) : Processor :=
  { s with reg := Function.update s.reg r v }

def putSeg (s : Processor) (r : Sreg) (g : Segment) : Processor :=
  { s with seg := Function.update s.seg r g }

/-- Go on at instruction `label` of the code segment `g`. -/
def enter (s : Processor) (g : Segment) (label : Nat) : Processor :=
  { s with cs := g, pc := label }

def putMem (s : Processor) (m : Mem) : Processor := { s with mem := m }

def putEfer (s : Processor) (v : Nat) : Processor := { s with efer := v }

def putCreg (s : Processor) (v : Nat) : Creg → Processor
  | .cr0 => { s with cr0 := v }
  | .cr3 => { s with cr3 := v }
  | .cr4 => { s with cr4 := v }

/-! ## Addresses -/

/-- The translation of a linear address. -/
def translate (s : Processor) (a : Nat) : Option Translation :=
  if s.paging then
    if s.efer.testBit 8 && s.cr4.testBit 5 && !s.cr4.testBit 12 then
      translateVa s.mem s.cr3 a else none
  else some ⟨a, Rights.all⟩

/-- Where a supervisor store to a linear address goes; CR0.WP extends read-only pages
to it. -/
def target (s : Processor) (a : Nat) : Option Nat :=
  (s.translate a).bind fun t => if t.rights.writable || !s.cr0.testBit 16 then
    some t.pa else none

/-- Load `n` bytes from a linear address. -/
def load (s : Processor) : Nat → Nat → Option Nat
  | _, 0 => some 0
  | a, n + 1 =>
      (s.translate a).bind fun t => (load s (a + 1) n).map fun rest =>
        (s.mem t.pa).toNat + 256 * rest

/-- The memory `m` with `n` bytes stored to a linear address. -/
def storeBytes (s : Processor) (m : Mem) : Nat → Nat → Nat → Option Mem
  | _, 0, _ => some m
  | a, n + 1, v => (s.target a).bind fun p => storeBytes s (m.write p 1 v) (a + 1) n (v / 256)

def store (s : Processor) (a n v : Nat) : Option Processor :=
  (s.storeBytes s.mem a n v).map s.putMem

/-- The linear address of `n` bytes of data at an offset. -/
def dataAddress (s : Processor) (off n : Nat) : Option Nat :=
  if s.bits = 64 then some off
  else if off + n ≤ (s.seg .ds).limit + 1 then some (((s.seg .ds).base + off) % 2 ^ 32)
  else none

def loadData (s : Processor) (off n : Nat) : Option Nat :=
  (s.dataAddress off n).bind fun a => s.load a n

def storeData (s : Processor) (off n v : Nat) : Option Processor :=
  (s.dataAddress off n).bind fun a => s.store a n v

/-! ## Segments -/

/-- The descriptor that a selector names. -/
def descriptor (s : Processor) (sel : Nat) : Option Nat :=
  if sel / 8 * 8 + 7 ≤ s.gdtLimit ∧ sel.testBit 2 = false then
    s.load (s.gdtBase + sel / 8 * 8) 8 else none

end Processor

/-- What a segment register keeps of a descriptor. -/
def Segment.ofDescriptor (d : Nat) : Segment :=
  let raw := d % 2 ^ 16 + d / 2 ^ 48 % 2 ^ 4 * 2 ^ 16
  { base := d / 2 ^ 16 % 2 ^ 24 + d / 2 ^ 56 % 2 ^ 8 * 2 ^ 24
    limit := if d.testBit 55 then raw * 4096 + 4095 else raw
    long := d.testBit 53
    wide := d.testBit 54 }

/-- A present nonconforming code segment of level 0. -/
def isCode (d : Nat) : Bool :=
  d.testBit 44 && d.testBit 43 && d.testBit 47 && !d.testBit 42 && d / 2 ^ 45 % 4 == 0

/-- A present writable data segment of level 0. -/
def isData (d : Nat) : Bool :=
  d.testBit 44 && !d.testBit 43 && d.testBit 47 && d.testBit 41 && d / 2 ^ 45 % 4 == 0

namespace Processor

/-- `mov sreg, sel`.  In real mode only the base changes. -/
def loadSegment (s : Processor) (r : Sreg) (sel : Nat) : Option Processor :=
  if s.cr0.testBit 0 then
    (s.descriptor sel).bind fun d =>
      if isData d && sel % 4 == 0 && sel / 8 != 0 then
        some (s.putSeg r (.ofDescriptor d))
      else none
  else some (s.putSeg r { s.seg r with base := 16 * sel })

/-- A far jump to the instruction `label` at linear address `a`.  A target segment with a
base, outside long mode, is left out, and so is a jump that stays in real mode. -/
def farJump (s : Processor) (sel label a : Nat) : Option Processor :=
  if s.cr0.testBit 0 then
    (s.descriptor sel).bind fun d =>
      let cs := Segment.ofDescriptor d
      let toLong := s.longActive && cs.long
      if isCode d && sel % 4 == 0 && a < 2 ^ s.bits && !(toLong && cs.wide) &&
          (toLong || cs.base == 0 && a ≤ cs.limit) then
        some (s.enter cs label)
      else none
  else none

/-! ## Control registers -/

def getCreg (s : Processor) : Creg → Nat
  | .cr0 => s.cr0
  | .cr3 => s.cr3
  | .cr4 => s.cr4

/-- `mov cr, v`, with the faults of the Intel manual for a wrong order. -/
def setCreg (s : Processor) (v : Nat) : Creg → Option Processor
  | .cr0 =>
      if v.testBit 31 && !v.testBit 0 then none
      else if v.testBit 31 && !s.paging && s.efer.testBit 8 &&
        (!s.cr4.testBit 5 || s.cs.long) then none
      else if !v.testBit 31 && s.bits == 64 then none
      else some (s.putCreg v .cr0)
  | .cr3 => some (s.putCreg v .cr3)
  | .cr4 =>
      if s.longActive && (!v.testBit 5 || v.testBit 12 != s.cr4.testBit 12) then none
      else some (s.putCreg v .cr4)

/-- The number of EFER. -/
def msrEfer : Nat := 0xC0000080

/-- `wrmsr`; LMA is not stored, and LME must not change under paging. -/
def setEfer (s : Processor) (v : Nat) : Option Processor :=
  if s.paging && v.testBit 8 != s.efer.testBit 8 then none else some (s.putEfer v)

/-- `lgdt` from an offset; 16-bit code takes 24 bits of the base. -/
def loadGdtr (s : Processor) (off : Nat) : Option Processor :=
  let n := if s.bits = 64 then 8 else 4
  (s.dataAddress off (2 + n)).bind fun a =>
    (s.load a 2).bind fun limit => (s.load (a + 2) n).map fun base =>
      { s with gdtLimit := limit, gdtBase := if s.bits = 16 then base % 2 ^ 24 else base }

end Processor

/-! ## Instructions -/

/-- 32-bit operands unless the name says otherwise. -/
inductive SysInstr where
  | movImm (r : Gpr) (v : Nat)
  /-- `mov` of an address into RSP, in 64-bit code. -/
  | movImm64 (r : Gpr) (v : Nat)
  | movImm16 (r : Gpr) (v : Nat)
  | mov (r r' : Gpr)
  | xorSelf16 (r : Gpr)
  | orImm (r : Gpr) (v : Nat)
  | shlImm (r : Gpr) (n : Nat)
  | inc (r : Gpr)
  | cmpImm (r : Gpr) (v : Nat)
  | jl (label : Nat)
  /-- `mov [a], r`. -/
  | store (a : Nat) (r : Gpr)
  /-- `mov [a + i * 8], r`. -/
  | storeIndexed (a : Nat) (i r : Gpr)
  /-- `mov r, [a]`. -/
  | load (r : Gpr) (a : Nat)
  | load64 (r : Gpr) (a : Nat)
  | getCr (r : Gpr) (c : Creg)
  | setCr (c : Creg) (r : Gpr)
  | rdmsr
  | wrmsr
  /-- `lgdt [a]`. -/
  | lgdt (a : Nat)
  /-- `lgdt [r]`. -/
  | lgdtAt (r : Gpr)
  | farJmp (sel label : Nat)
  | setSeg (r : Sreg) (sel : Gpr)
  /-- A near call, in 64-bit code, of a function outside the program. -/
  | call (a : Nat)
  | callReg (r : Gpr)
  | cli
  | hlt
  | jmp (label : Nat)
  deriving DecidableEq, Repr

/-- Instructions with the size of the code they were assembled for, and the linear
address of each; the one after the last is where the program ends. -/
structure Assembly where
  code : List (Nat × SysInstr)
  addr : Nat → Nat
  ascending : ∀ ⦃i j : Nat⦄, i ≤ j → addr i ≤ addr j

/-- The number of a 32-bit word as a signed one. -/
def signed32 (v : Nat) : Int :=
  if v % 2 ^ 32 < 2 ^ 31 then (v % 2 ^ 32 : Nat) else (v % 2 ^ 32 : Nat) - (2 ^ 32 : Nat)

theorem signed32_of_lt {v : Nat} (h : v < 2 ^ 31) : signed32 v = v := by
  unfold signed32
  rw [Nat.mod_eq_of_lt (by omega), if_pos h]

namespace Processor

/-- Push the return address and leave for `a`. -/
def callTo (s : Processor) (ret a : Nat) : Option Processor :=
  if s.bits = 64 then
    let s := s.setReg .rsp ((s.reg .rsp + 2 ^ 64 - 8) % 2 ^ 64)
    (s.store (s.reg .rsp) 8 ret).map fun s => { s with callee := some a }
  else none

end Processor

/-- What an instruction does, once `pc` has moved on. -/
def SysInstr.exec (P : Assembly) (s : Processor) : SysInstr → Option Processor
  | .movImm r v => some (s.setReg r (v % 2 ^ 32))
  | .movImm64 r v => if s.bits = 64 then some (s.setReg r (v % 2 ^ 64)) else none
  | .movImm16 r v => some (s.setReg r (s.reg r / 2 ^ 16 * 2 ^ 16 + v % 2 ^ 16))
  | .mov r r' => some (s.setReg r (s.reg r' % 2 ^ 32))
  | .xorSelf16 r => some (s.setReg r (s.reg r / 2 ^ 16 * 2 ^ 16))
  | .orImm r v => some (s.setReg r ((s.reg r % 2 ^ 32) ||| v))
  | .shlImm r n => some (s.setReg r ((s.reg r % 2 ^ 32) <<< n % 2 ^ 32))
  | .inc r => some (s.setReg r ((s.reg r + 1) % 2 ^ 32))
  | .cmpImm r v => some { s with less := decide (signed32 (s.reg r) < signed32 v) }
  | .jl label => some (if s.less then { s with pc := label } else s)
  | .store a r => s.storeData a 4 (s.reg r)
  | .storeIndexed a i r =>
      s.storeData (if s.bits = 64 then (a + s.reg i * 8) % 2 ^ 64
        else (a + s.reg i * 8) % 2 ^ 32) 4 (s.reg r)
  | .load r a => (s.loadData a 4).map fun v => s.setReg r v
  | .load64 r a => if s.bits = 64 then (s.loadData a 8).map fun v => s.setReg r v else none
  | .getCr r c => some (s.setReg r (if s.bits = 64 then s.getCreg c else s.getCreg c % 2 ^ 32))
  | .setCr c r => s.setCreg (if s.bits = 64 then s.reg r else s.reg r % 2 ^ 32) c
  | .rdmsr =>
      if s.reg .rcx % 2 ^ 32 = Processor.msrEfer then
        some ((s.setReg .rax (s.efer % 2 ^ 32)).setReg .rdx (s.efer / 2 ^ 32 % 2 ^ 32))
      else none
  | .wrmsr =>
      if s.reg .rcx % 2 ^ 32 = Processor.msrEfer then
        s.setEfer (s.reg .rax % 2 ^ 32 + s.reg .rdx % 2 ^ 32 * 2 ^ 32)
      else none
  | .lgdt a => s.loadGdtr a
  | .lgdtAt r => s.loadGdtr (if s.bits = 64 then s.reg r else s.reg r % 2 ^ 32)
  | .farJmp sel label => s.farJump sel label (P.addr label)
  | .setSeg r sel => s.loadSegment r (s.reg sel % 2 ^ 16)
  | .call a => s.callTo (P.addr s.pc) a
  | .callReg r => s.callTo (P.addr s.pc) (s.reg r)
  | .cli => some { s with interrupts := false }
  -- without interrupts the processor stays here
  | .hlt => none
  | .jmp label => some { s with pc := label }

namespace Processor

/-- The bytes of the next instruction are within the code segment and mapped to
themselves. -/
def Fetches (P : Assembly) (s : Processor) : Prop :=
  (s.bits = 64 ∨ s.cs.base ≤ P.addr s.pc ∧ P.addr (s.pc + 1) ≤ s.cs.base + s.cs.limit + 1) ∧
    ∀ i < P.addr (s.pc + 1) - P.addr s.pc,
      (s.translate (P.addr s.pc + i)).map Translation.pa = some (P.addr s.pc + i)

instance (P : Assembly) (s : Processor) : Decidable (s.Fetches P) :=
  inferInstanceAs (Decidable (_ ∧ _))

/-- One instruction; `none` also where the bytes are not the ones meant for the mode, and
after a call. -/
def step (P : Assembly) (s : Processor) : Option Processor :=
  match P.code[s.pc]? with
  | some (bits, i) =>
      if s.callee = none ∧ s.bits = bits ∧ s.Fetches P then i.exec P s.advance else none
  | none => none

/-! ## Where the first bytes are mapped one to one -/

/-- The first `n` bytes are mapped to themselves, for loads and stores. -/
def Sees (s : Processor) (n : Nat) : Prop := ∀ a < n, ∃ r, s.translate a = some ⟨a, r⟩ ∧
    r.writable = true

variable {P : Assembly} {s s' : Processor} {bits n a k v : Nat} {m : Mem}

theorem sees_of_not_paging (h : s.paging = false) (n : Nat) : s.Sees n := by
  intro a _
  refine ⟨Rights.all, ?_, rfl⟩
  unfold translate
  rw [h]
  rfl

theorem Sees.load (h : s.Sees n) :
    ∀ {k a : Nat}, a + k ≤ n → s.load a k = some (s.mem.read a k) := by
  intro k
  induction k with
  | zero =>
    intro a _
    rfl
  | succ k ih =>
    intro a ha
    obtain ⟨r, htranslate, -⟩ := h a (by omega)
    rw [Processor.load, htranslate, Option.bind_some, ih (by omega)]
    rfl

theorem Sees.target (h : s.Sees n) (ha : a < n) : s.target a = some a := by
  obtain ⟨r, htranslate, hwritable⟩ := h a ha
  unfold Processor.target
  rw [htranslate, Option.bind_some]
  dsimp only
  rw [hwritable]
  rfl

theorem Sees.storeBytes (h : s.Sees n) :
    ∀ {k a v : Nat} {m : Mem}, a + k ≤ n → s.storeBytes m a k v = some (m.write a k v) := by
  intro k
  induction k with
  | zero =>
    intro a v m _
    exact congrArg some (Mem.write_zero m a v).symm
  | succ k ih =>
    intro a v m ha
    rw [Processor.storeBytes, h.target (by omega), Option.bind_some, ih (by omega)]
    exact congrArg some (Mem.write_succ m a k v).symm

theorem Sees.store (h : s.Sees n) (ha : a + k ≤ n) :
    s.store a k v = some (s.putMem (s.mem.write a k v)) := by
  unfold Processor.store
  rw [h.storeBytes ha]
  rfl

/-! ## Running below a bound -/

/-- The processor runs code of one size below the address `n`. -/
structure Ready (P : Assembly) (bits n : Nat) (s : Processor) : Prop where
  callee : s.callee = none
  size : s.bits = bits
  sees : s.Sees n
  inside : P.addr P.code.length ≤ n
  code : bits = 64 ∨ s.cs.base ≤ P.addr 0 ∧ n ≤ s.cs.base + s.cs.limit + 1
  data : bits = 64 ∨ (s.seg .ds).base = 0 ∧ n ≤ (s.seg .ds).limit + 1 ∧ n ≤ 2 ^ 32

/-- What decides how the processor runs. -/
def context (s : Processor) := (s.callee, s.cs, s.seg, s.cr0, s.cr3, s.cr4, s.efer, s.mem)

theorem Ready.congr (R : Ready P bits n s) (h : s'.context = s.context) :
    Ready P bits n s' := by
  obtain ⟨reg, seg, cs, gdtBase, gdtLimit, cr0, cr3, cr4, efer, less, interrupts, pc,
    callee, mem⟩ := s
  obtain ⟨reg', seg', cs', gdtBase', gdtLimit', cr0', cr3', cr4', efer', less', interrupts',
    pc', callee', mem'⟩ := s'
  simp only [context, Prod.mk.injEq] at h
  obtain ⟨rfl, rfl, rfl, rfl, rfl, rfl, rfl, rfl⟩ := h
  exact ⟨R.callee, R.size, R.sees, R.inside, R.code, R.data⟩

theorem Ready.step (R : Ready P bits n s) {i : SysInstr}
    (hcode : P.code[s.pc]? = some (bits, i)) :
    s.step P = i.exec P s.advance := by
  have hlt : s.pc < P.code.length := (List.getElem?_eq_some_iff.mp hcode).1
  have hend : P.addr (s.pc + 1) ≤ n := Nat.le_trans (P.ascending hlt) R.inside
  have hstart : P.addr 0 ≤ P.addr s.pc := P.ascending (Nat.zero_le _)
  have hfetch : s.Fetches P := by
    refine ⟨?_, fun i hi => ?_⟩
    · rw [R.size]
      rcases R.code with h64 | ⟨hbase, hlimit⟩
      · exact .inl h64
      · exact .inr ⟨Nat.le_trans hbase hstart, Nat.le_trans hend hlimit⟩
    · obtain ⟨r, htranslate, -⟩ := R.sees (P.addr s.pc + i) (by omega)
      rw [htranslate]
      rfl
  unfold Processor.step
  rw [hcode]
  exact if_pos ⟨R.callee, R.size, hfetch⟩

theorem Ready.dataAddress (R : Ready P bits n s) (ha : a + k ≤ n) (hk : 0 < k) :
    s.dataAddress a k = some a := by
  unfold Processor.dataAddress
  rw [R.size]
  rcases R.data with h64 | ⟨hbase, hlimit, hn⟩
  · rw [if_pos h64]
  · split
    · rfl
    · rw [if_pos (Nat.le_trans ha hlimit), hbase, Nat.zero_add, Nat.mod_eq_of_lt (by omega)]

theorem Ready.loadData (R : Ready P bits n s) (ha : a + k ≤ n) (hk : 0 < k) :
    s.loadData a k = some (s.mem.read a k) := by
  unfold Processor.loadData
  rw [R.dataAddress ha hk, Option.bind_some, R.sees.load ha]

theorem Ready.storeData (R : Ready P bits n s) (ha : a + k ≤ n) (hk : 0 < k) :
    s.storeData a k v = some (s.putMem (s.mem.write a k v)) := by
  unfold Processor.storeData
  rw [R.dataAddress ha hk, Option.bind_some, R.sees.store ha]

theorem Ready.descriptor (R : Ready P bits n s) {sel : Nat}
    (hlimit : sel / 8 * 8 + 7 ≤ s.gdtLimit) (hglobal : sel.testBit 2 = false)
    (ha : s.gdtBase + sel / 8 * 8 + 8 ≤ n) :
    s.descriptor sel = some (s.mem.read (s.gdtBase + sel / 8 * 8) 8) := by
  unfold Processor.descriptor
  rw [if_pos ⟨hlimit, hglobal⟩, R.sees.load ha]

/-! ## Rules for one instruction -/

theorem Ready.exec_load (R : Ready P bits n s) (r : Gpr) (ha : a + 4 ≤ n) :
    (SysInstr.load r a).exec P s = some (s.setReg r (s.mem.read a 4)) := by
  rw [SysInstr.exec, R.loadData ha (by decide)]
  rfl

theorem Ready.exec_load64 (R : Ready P 64 n s) (r : Gpr) (ha : a + 8 ≤ n) :
    (SysInstr.load64 r a).exec P s = some (s.setReg r (s.mem.read a 8)) := by
  rw [SysInstr.exec, if_pos R.size, R.loadData ha (by decide)]
  rfl

theorem Ready.exec_store (R : Ready P bits n s) (r : Gpr) (ha : a + 4 ≤ n) :
    (SysInstr.store a r).exec P s = some (s.putMem (s.mem.write a 4 (s.reg r))) :=
  R.storeData ha (by decide)

theorem Ready.exec_storeIndexed (R : Ready P 32 n s) (i r : Gpr)
    (ha : a + s.reg i * 8 + 4 ≤ n) :
    (SysInstr.storeIndexed a i r).exec P s =
      some (s.putMem (s.mem.write (a + s.reg i * 8) 4 (s.reg r))) := by
  obtain hwide | ⟨-, -, hn⟩ := R.data
  · cases hwide
  rw [SysInstr.exec, R.size, if_neg (by decide), Nat.mod_eq_of_lt (by omega)]
  exact R.storeData ha (by decide)

theorem Ready.exec_lgdt (R : Ready P bits n s) (hbits : bits ≠ 64) (ha : a + 6 ≤ n) :
    s.loadGdtr a = some { s with
      gdtLimit := s.mem.read a 2
      gdtBase := if bits = 16 then s.mem.read (a + 2) 4 % 2 ^ 24
        else s.mem.read (a + 2) 4 } := by
  unfold Processor.loadGdtr
  dsimp only
  rw [R.size, if_neg hbits, R.dataAddress ha (by decide), Option.bind_some,
    R.sees.load (by omega), Option.bind_some, R.sees.load (by omega)]
  rfl

theorem Ready.exec_lgdtAt (R : Ready P 32 n s) {r : Gpr} (hr : s.reg r = a) (ha : a < 2 ^ 32) :
    (SysInstr.lgdtAt r).exec P s = s.loadGdtr a := by
  rw [SysInstr.exec, R.size, if_neg (by decide), hr, Nat.mod_eq_of_lt ha]

/-- A protected-mode load of a data segment. -/
theorem Ready.loadSegment (R : Ready P bits n s) (r : Sreg) {sel d : Nat}
    (hprotected : s.cr0.testBit 0 = true) (hsel : sel % 8 = 0) (hne : sel / 8 ≠ 0)
    (hlimit : sel / 8 * 8 + 7 ≤ s.gdtLimit) (ha : s.gdtBase + sel / 8 * 8 + 8 ≤ n)
    (hd : s.mem.read (s.gdtBase + sel / 8 * 8) 8 = d) (hdata : isData d = true) :
    s.loadSegment r sel = some (s.putSeg r (.ofDescriptor d)) := by
  have hglobal : sel.testBit 2 = false := by
    rw [Nat.testBit_eq_decide_div_mod_eq]
    exact decide_eq_false (by omega)
  unfold Processor.loadSegment
  rw [if_pos hprotected, R.descriptor hlimit hglobal ha, Option.bind_some, hd, hdata,
    show sel % 4 = 0 by omega]
  simp [hne]

/-- A far jump in protected mode: to 64-bit code in long mode, or to flat code. -/
theorem Ready.farJump (R : Ready P bits n s) {sel label d : Nat}
    (hprotected : s.cr0.testBit 0 = true) (hsel : sel % 8 = 0)
    (hlimit : sel / 8 * 8 + 7 ≤ s.gdtLimit) (hgdt : s.gdtBase + sel / 8 * 8 + 8 ≤ n)
    (hd : s.mem.read (s.gdtBase + sel / 8 * 8) 8 = d) (hcode : isCode d = true)
    (ha : a < 2 ^ bits) (hmode : s.longActive = true ∧ d.testBit 53 = true ∧
      d.testBit 54 = false ∨
      d.testBit 53 = false ∧ (Segment.ofDescriptor d).base = 0 ∧
      a ≤ (Segment.ofDescriptor d).limit) :
    s.farJump sel label a = some (s.enter (.ofDescriptor d) label) := by
  have hglobal : sel.testBit 2 = false := by
    rw [Nat.testBit_eq_decide_div_mod_eq]
    exact decide_eq_false (by omega)
  have hlong : (Segment.ofDescriptor d).long = d.testBit 53 := rfl
  have hwide : (Segment.ofDescriptor d).wide = d.testBit 54 := rfl
  unfold Processor.farJump
  rw [if_pos hprotected, R.descriptor hlimit hglobal hgdt, Option.bind_some, hd]
  dsimp only
  rw [hcode, show sel % 4 = 0 by omega, R.size, decide_eq_true ha, hlong, hwide]
  rcases hmode with ⟨hactive, h53, h54⟩ | ⟨h53, hbase, hle⟩
  · simp [hactive, h53, h54]
  · simp [h53, hbase, hle]

/-- A call with room on the stack. -/
theorem Ready.callTo (R : Ready P 64 n s) {ret top : Nat} (htop : s.reg .rsp = top + 8)
    (ha : top + 8 ≤ n) (hn : n ≤ 2 ^ 64) : s.callTo ret a =
      some { (s.setReg .rsp top).putMem (s.mem.write top 8 ret) with callee := some a } := by
  have R' : Ready P 64 n (s.setReg .rsp top) := R.congr rfl
  have hrsp : (s.setReg .rsp top).reg .rsp = top := rfl
  unfold Processor.callTo
  rw [if_pos R.size, htop, show (top + 8 + 2 ^ 64 - 8) % 2 ^ 64 = top by omega]
  dsimp only
  rw [hrsp, R'.sees.store ha]
  rfl

theorem Ready.exec_getCr (R : Ready P bits n s) (hbits : bits ≠ 64) (r : Gpr) (c : Creg) :
    (SysInstr.getCr r c).exec P s = some (s.setReg r (s.getCreg c % 2 ^ 32)) := by
  rw [SysInstr.exec, R.size, if_neg hbits]

theorem Ready.exec_setCr (R : Ready P bits n s) (hbits : bits ≠ 64) (r : Gpr) (c : Creg) :
    (SysInstr.setCr c r).exec P s = s.setCreg (s.reg r % 2 ^ 32) c := by
  rw [SysInstr.exec, R.size, if_neg hbits]

theorem setCreg_cr4 (h : s.paging = false) (v : Nat) :
    s.setCreg v .cr4 = some (s.putCreg v .cr4) := by
  rw [Processor.setCreg]
  simp only [longActive, h, Bool.false_and, Bool.false_eq_true, if_false]

/-- CR0 without paging. -/
theorem setCreg_cr0_unpaged (R : Ready P bits n s) (hbits : bits ≠ 64) {v : Nat}
    (hv : v.testBit 31 = false) :
    s.setCreg v .cr0 = some (s.putCreg v .cr0) := by
  rw [Processor.setCreg, R.size]
  simp [hv, hbits]

/-- Turning paging on, in the right order. -/
theorem setCreg_cr0 (R : Ready P 32 n s) (hs : s.paging = false) {v : Nat}
    (hprotected : v.testBit 0 = true) (hpaging : v.testBit 31 = true)
    (hpae : s.cr4.testBit 5 = true) (hlong : s.cs.long = false) :
    s.setCreg v .cr0 = some (s.putCreg v .cr0) := by
  rw [Processor.setCreg, R.size]
  simp [hs, hprotected, hpaging, hpae, hlong]

theorem setEfer_of_not_paging (h : s.paging = false) (v : Nat) :
    s.setEfer v = some (s.putEfer v) := by
  rw [Processor.setEfer]
  simp only [h, Bool.false_and, Bool.false_eq_true, if_false]

theorem exec_rdmsr (h : s.reg .rcx % 2 ^ 32 = msrEfer) : SysInstr.rdmsr.exec P s =
    some ((s.setReg .rax (s.efer % 2 ^ 32)).setReg .rdx (s.efer / 2 ^ 32 % 2 ^ 32)) := by
  rw [SysInstr.exec, if_pos h]

theorem exec_wrmsr (h : s.reg .rcx % 2 ^ 32 = msrEfer) (hs : s.paging = false) :
    SysInstr.wrmsr.exec P s =
    some (s.putEfer (s.reg .rax % 2 ^ 32 + s.reg .rdx % 2 ^ 32 * 2 ^ 32)) := by
  rw [SysInstr.exec, if_pos h, setEfer_of_not_paging hs]

theorem Ready.next (R : Ready P bits n s) : Ready P bits n s.advance := R.congr rfl

variable {Q : Processor → Prop}

/-- One instruction that stays in the same context. -/
theorem Ready.plain (R : Ready P bits n s) {i : SysInstr}
    (hcode : P.code[s.pc]? = some (bits, i)) (hexec : i.exec P s.advance = some s')
    (hkeep : s'.context = s.context)
    (rest : Ready P bits n s' → Leads (Processor.step P) Q s') : Leads (Processor.step P) Q s :=
  .step ((R.step hcode).trans hexec) (rest (R.congr hkeep))

theorem context_setReg (s : Processor) (r : Gpr) (v : Nat) :
    (s.advance.setReg r v).context = s.context := rfl

/-- One instruction that sets a register. -/
theorem Ready.sets (R : Ready P bits n s) {i : SysInstr} {r : Gpr}
    (hcode : P.code[s.pc]? = some (bits, i))
    (hexec : i.exec P s.advance = some (s.advance.setReg r v))
    (rest : Ready P bits n (s.advance.setReg r v) →
    Leads (Processor.step P) Q (s.advance.setReg r v)) :
    Leads (Processor.step P) Q s :=
  R.plain hcode hexec (context_setReg s r v) rest

/-- A comparison and the branch on it. -/
theorem Ready.branches (R : Ready P bits n s) {r : Gpr} {label : Nat}
    (hcmp : P.code[s.pc]? = some (bits, .cmpImm r v))
    (hjl : P.code[s.pc + 1]? = some (bits, .jl label))
    (rest : ∀ t, t.context = s.context → t.reg = s.reg → t.interrupts = s.interrupts →
      t.pc = (if signed32 (s.reg r) < signed32 v then label else s.pc + 2) → Ready P bits n t →
      Leads (Processor.step P) Q t) :
    Leads (Processor.step P) Q s := by
  refine R.plain hcmp rfl rfl fun R => ?_
  by_cases hless : signed32 (s.reg r) < signed32 v
  · have hexec : SysInstr.exec P { s.advance with
      less := decide (signed32 (s.reg r) < signed32 v) }.advance (.jl label) =
        some { s.advance with
          less := decide (signed32 (s.reg r) < signed32 v), pc := label } := by
      rw [SysInstr.exec, if_pos]
      · rfl
      · exact decide_eq_true hless
    refine R.plain hjl hexec rfl fun R => rest _ rfl rfl rfl ?_ R
    rw [if_pos hless]
  · have hexec : SysInstr.exec P { s.advance with
      less := decide (signed32 (s.reg r) < signed32 v) }.advance (.jl label) =
        some { s.advance with less := decide (signed32 (s.reg r) < signed32 v) }.advance := by
      rw [SysInstr.exec, if_neg]
      exact ne_true_of_eq_false (decide_eq_false hless)
    refine R.plain hjl hexec rfl fun R => rest _ rfl rfl rfl ?_ R
    rw [if_neg hless]
    rfl

/-- Another data segment that is as large as the code needs. -/
theorem Ready.putSeg (R : Ready P bits n s) (r : Sreg) {g : Segment}
    (hflat : bits = 64 ∨ g.base = 0 ∧ n ≤ g.limit + 1 ∧ n ≤ 2 ^ 32) :
    Ready P bits n (s.putSeg r g) := by
  refine ⟨R.callee, R.size, R.sees, R.inside, R.code, ?_⟩
  by_cases hr : r = .ds
  · rw [hr]
    exact hflat
  · rw [show (s.putSeg r g).seg .ds = s.seg .ds from Function.update_of_ne (Ne.symm hr) _ _]
    exact R.data

/-- In long mode, into a 64-bit segment. -/
theorem Ready.enter (R : Ready P bits n s) (hactive : s.longActive = true) {g : Segment}
    (hlong : g.long = true) (label : Nat) : Ready P 64 n (s.enter g label) := by
  refine ⟨R.callee, ?_, R.sees, R.inside, .inl rfl, .inl rfl⟩
  change (if s.longActive && g.long then 64 else _) = 64
  rw [hactive, hlong]
  rfl

theorem bits_of_not_paging (h : s.paging = false) : s.bits = if s.cs.wide then 32 else 16 := by
  simp [Processor.bits, longActive, h]

/-- Without paging, into flat 32-bit code. -/
theorem Ready.enter32 (R : Ready P bits n s) (hbits : bits ≠ 64) (hs : s.paging = false)
    {g : Segment} (hwide : g.wide = true) (hbase : g.base = 0) (hlimit : n ≤ g.limit + 1)
    (label : Nat) :
    Ready P 32 n (s.enter g label) := by
  refine ⟨R.callee, ?_, R.sees, R.inside, .inr ⟨?_, ?_⟩, .inr (R.data.resolve_left hbits)⟩
  · have hpaging : (s.enter g label).paging = false := hs
    rw [bits_of_not_paging hpaging]
    exact if_pos hwide
  · exact Nat.le_trans (Nat.le_of_eq hbase) (Nat.zero_le _)
  · change n ≤ g.base + g.limit + 1
    omega

/-- Without paging, flat segments reach further. -/
theorem Ready.widen (R : Ready P 32 n s) (hs : s.paging = false) {n' : Nat} (hn : n ≤ n')
    (hcode : s.cs.base = 0) (hlimit : n' ≤ s.cs.limit + 1)
    (hdata : (s.seg .ds).base = 0 ∧ n' ≤ (s.seg .ds).limit + 1 ∧ n' ≤ 2 ^ 32) :
    Ready P 32 n' s :=
  ⟨R.callee, R.size, sees_of_not_paging hs n', Nat.le_trans R.inside hn,
    .inr ⟨Nat.le_trans (Nat.le_of_eq hcode) (Nat.zero_le _), by omega⟩, .inr hdata⟩

/-- Without paging the segments alone decide. -/
theorem Ready.unpaged (R : Ready P bits n s) (hs : s.paging = false)
    (hkeep : (s'.callee, s'.cs, s'.seg) = (s.callee, s.cs, s.seg)) (hs' : s'.paging = false) :
    Ready P bits n s' := by
  simp only [Prod.mk.injEq] at hkeep
  obtain ⟨hcallee, hcs, hseg⟩ := hkeep
  refine ⟨hcallee.trans R.callee, ?_, sees_of_not_paging hs' n, R.inside, ?_, ?_⟩
  · rw [bits_of_not_paging hs', hcs, ← bits_of_not_paging hs]
    exact R.size
  · rw [hcs]
    exact R.code
  · rw [hseg]
    exact R.data

@[simp] theorem paging_advance (s : Processor) : s.advance.paging = s.paging := rfl
@[simp] theorem paging_setReg (s : Processor) (r : Gpr) (v : Nat) :
    (s.setReg r v).paging = s.paging := rfl
@[simp] theorem paging_putMem (s : Processor) (m : Mem) : (s.putMem m).paging = s.paging := rfl

/-- One instruction that stores before there is paging. -/
theorem Ready.stores (R : Ready P bits n s) (hs : s.paging = false) {i : SysInstr}
    (hcode : P.code[s.pc]? = some (bits, i))
    (hexec : i.exec P s.advance = some (s.advance.putMem m))
    (rest : Ready P bits n (s.advance.putMem m) →
    Leads (Processor.step P) Q (s.advance.putMem m)) :
    Leads (Processor.step P) Q s :=
  .step ((R.step hcode).trans hexec) (rest (R.unpaged hs rfl hs))

/-- One instruction before there is paging: it may store and set control registers. -/
theorem Ready.early (R : Ready P bits n s) (hs : s.paging = false) {i : SysInstr}
    (hcode : P.code[s.pc]? = some (bits, i)) (hexec : i.exec P s.advance = some s')
    (hkeep : (s'.callee, s'.cs, s'.seg) = (s.callee, s.cs, s.seg)) (hs' : s'.paging = false)
    (rest : Ready P bits n s' → Leads (Processor.step P) Q s') : Leads (Processor.step P) Q s :=
  .step ((R.step hcode).trans hexec) (rest (R.unpaged hs hkeep hs'))

end Processor

/-- The instructions `is`, for code of one size, stand from number `pc` on. -/
def Assembly.Has (P : Assembly) (pc bits : Nat) (is : List SysInstr) : Prop :=
  ∃ rest, P.code.drop pc = is.map (Prod.mk bits) ++ rest

theorem Assembly.Has.left {P : Assembly} {pc bits : Nat} {is js : List SysInstr}
    (h : P.Has pc bits (is ++ js)) :
    P.Has pc bits is := by
  obtain ⟨rest, hdrop⟩ := h
  exact ⟨js.map (Prod.mk bits) ++ rest, by rw [hdrop, List.map_append, List.append_assoc]⟩

theorem Assembly.Has.right {P : Assembly} {pc bits : Nat} {is js : List SysInstr}
    (h : P.Has pc bits (is ++ js)) :
    P.Has (pc + is.length) bits js := by
  obtain ⟨rest, hdrop⟩ := h
  refine ⟨rest, ?_⟩
  rw [← List.drop_drop, hdrop, List.map_append, List.append_assoc]
  exact List.drop_left' (List.length_map _)

theorem Assembly.Has.get {P : Assembly} {pc bits k : Nat} {is : List SysInstr} {i : SysInstr}
    (h : P.Has pc bits is) (hi : is[k]? = some i) : P.code[pc + k]? = some (bits, i) := by
  obtain ⟨rest, hdrop⟩ := h
  have hlt : k < (is.map (Prod.mk bits)).length := by
    rw [List.length_map]
    exact (List.getElem?_eq_some_iff.mp hi).1
  rw [← List.getElem?_drop, hdrop, List.getElem?_append_left hlt, List.getElem?_map, hi]
  rfl

end NekaKernel.Foundation
