/-
  Context/Cpu.lean --- the instructions that move a CPU between stacks.

  Source: `context_switch64.s`, `isr.s` and `usermode.s`.

  A routine is the list of its instructions in the source's order; `exec` runs
  such a list.  Kernel memory is one flat memory: every address space inherits
  the kernel's identity map (`inherit_kernel_pdpt`), so a change of CR3 does not
  move a stack.
-/
import Mathlib.Logic.Function.Basic
import NekaKernel.Foundation.Words

set_option autoImplicit false

namespace NekaKernel.Context

open NekaKernel.Foundation

/-! ## The CPU -/

/-- The general registers other than RSP. -/
inductive Reg where
  | rax | rbx | rcx | rdx | rsi | rdi | rbp
  | r8 | r9 | r10 | r11 | r12 | r13 | r14 | r15
  deriving DecidableEq, Repr

/-- A CPU and the kernel memory it sees. -/
structure State where
  regs : Reg → UInt64
  rflags : UInt64
  rsp : UInt64
  rip : UInt64
  cs : UInt64
  ss : UInt64
  mem : Mem

namespace State

/-- The current privilege level. -/
def cpl (s : State) : Nat := s.cs.toNat % 4

def setReg (s : State) (r : Reg) (v : UInt64) : State :=
  { s with regs := Function.update s.regs r v }

def push (s : State) (v : UInt64) : State :=
  { s with rsp := s.rsp - 8, mem := s.mem.setWord (s.rsp - 8).toNat v }

/-- The word on top of the stack. -/
def top (s : State) : UInt64 := s.mem.word s.rsp.toNat

/-- Remove the word on top of the stack. -/
def drop (s : State) : State := { s with rsp := s.rsp + 8 }

def pushes (s : State) (vs : List UInt64) : State := vs.foldl push s

end State

/-- The instructions the routines below are made of. -/
inductive Instr where
  | pushfq
  | push (r : Reg)
  | pushImm (v : UInt64)
  | pop (r : Reg)
  | popfq
  /-- `mov [r], rsp`. -/
  | storeRsp (r : Reg)
  /-- `mov rsp, r`. -/
  | setRsp (r : Reg)
  /-- `mov r, rsp`. -/
  | getRsp (r : Reg)
  /-- `add rsp, n`. -/
  | addRsp (n : UInt64)
  /-- `mov ax, n`. -/
  | movAx (n : UInt16)
  /-- `mov ds, ax` and the like: 64-bit code does not use what it loads. -/
  | loadDataSegment
  /-- `call target`, `next` being the address after it. -/
  | call (target next : UInt64)
  | jmp (r : Reg)
  | ret
  | iretq
  deriving DecidableEq, Repr

/-- One instruction. -/
def Instr.step (s : State) : Instr → State
  | .pushfq => s.push s.rflags
  | .push r => s.push (s.regs r)
  | .pushImm v => s.push v
  | .pop r => s.drop.setReg r s.top
  | .popfq => { s.drop with rflags := s.top }
  | .storeRsp r => { s with mem := s.mem.setWord (s.regs r).toNat s.rsp }
  | .setRsp r => { s with rsp := s.regs r }
  | .getRsp r => s.setReg r s.rsp
  | .addRsp n => { s with rsp := s.rsp + n }
  | .movAx n => s.setReg .rax ((s.regs .rax >>> 16) <<< 16 ||| n.toUInt64)
  | .loadDataSegment => s
  | .call target next => { s.push next with rip := target }
  | .jmp r => { s with rip := s.regs r }
  | .ret => { s.drop with rip := s.top }
  | .iretq => { s with
      rip := s.mem.word s.rsp.toNat
      cs := s.mem.word (s.rsp + 8).toNat
      rflags := s.mem.word (s.rsp + 16).toNat
      rsp := s.mem.word (s.rsp + 24).toNat
      ss := s.mem.word (s.rsp + 32).toNat }

/-- A block of instructions, up to a transfer of control at its end. -/
def exec (s : State) (block : List Instr) : State := block.foldl Instr.step s

/-! ## The routines -/

/-- `context_switch64`: the half that saves. -/
def switchOut : List Instr :=
  [.pushfq, .push .rbp, .push .rbx, .push .r12, .push .r13, .push .r14, .push .r15]

/-- `context_switch64`: the half that restores. -/
def switchIn : List Instr :=
  [.pop .r15, .pop .r14, .pop .r13, .pop .r12, .pop .rbx, .pop .rbp, .popfq, .ret]

/-- `context_switch64`, with `old_rsp_ptr` in RDI and `new_rsp` in RSI. -/
def contextSwitch64 : List Instr := switchOut ++ [.storeRsp .rdi, .setRsp .rsi] ++ switchIn

/-- The addresses the linker gave the symbols that are jumped to. -/
structure Symbols where
  threadStart64 : UInt64
  unlockAfterSwitch : UInt64
  /-- After the call in `thread_start64`. -/
  threadStart64Resume : UInt64
  interruptDispatch : UInt64
  /-- After the call in `isr_common_stub`. -/
  isrCommonStubResume : UInt64

/-- `thread_start64`.  `unlock` is what the call of `NKern_UnlockAfterSwitch`
does, from its first instruction to its return. -/
def threadStart64 (S : Symbols) (unlock : State → State) (s : State) : State :=
  let called := exec s [.call S.unlockAfterSwitch S.threadStart64Resume]
  exec (unlock called) [.pop .rax, .jmp .rax]

/-- The vectors that `ISR_ERR` is used for: the CPU pushes their error code. -/
def hasErrorCode (vector : UInt64) : Bool :=
  vector = 8 ∨ vector = 10 ∨ vector = 11 ∨ vector = 12 ∨ vector = 13 ∨ vector = 14 ∨ vector = 17

/-- The entry of a vector: `ISR_NOERR` pushes a dummy error code, `ISR_ERR` finds
the CPU's. -/
def isrEntry (vector : UInt64) : List Instr :=
  if hasErrorCode vector then [.pushImm vector] else [.pushImm 0, .pushImm vector]

/-- The pushes of `isr_common_stub`. -/
def isrPushes : List Instr :=
  [.push .rax, .push .rbx, .push .rcx, .push .rdx, .push .rsi, .push .rdi,
    .push .rbp, .push .r8,
    .push .r9, .push .r10, .push .r11, .push .r12, .push .r13, .push .r14, .push .r15]

/-- `isr_common_stub` up to the call. -/
def isrCommonStub (S : Symbols) : List Instr :=
  isrPushes ++ [.getRsp .rdi, .call S.interruptDispatch S.isrCommonStubResume]

/-- `isr_common_stub` after the call. -/
def isrCommonStubReturn : List Instr :=
  [.pop .r15, .pop .r14, .pop .r13, .pop .r12, .pop .r11, .pop .r10, .pop .r9,
    .pop .r8, .pop .rbp,
    .pop .rdi, .pop .rsi, .pop .rdx, .pop .rcx, .pop .rbx, .pop .rax, .addRsp 16, .iretq]

/-- `enter_usermode(entry, user_stack_top)`. -/
def enterUsermode : List Instr :=
  [.movAx 0x23, .loadDataSegment, .loadDataSegment, .loadDataSegment, .loadDataSegment,
    .pushImm 0x23, .push .rsi, .pushImm 0x202, .pushImm 0x1B, .push .rdi, .iretq]

/-- What the CPU does on an interrupt from ring 3, up to the first instruction
of the vector's entry: it takes RSP0 from the TSS, aligns it, pushes the
interrupted context and, for the vectors that have one, the error code, and
masks interrupts. -/
def trap (rsp0 vector errorCode : UInt64) (s : State) : State :=
  let s' := { s with rsp := rsp0 - rsp0 % 16 }.pushes [s.ss, s.rsp, s.rflags, s.cs, s.rip]
  let s' := if hasErrorCode vector then s'.push errorCode else s'
  { s' with cs := 0x08, ss := 0, rflags := s.rflags &&& 0xFFFFFFFFFFFCBCFF }

/-- An interrupt from ring 3 up to the first instruction of
`interrupt_dispatch`. -/
def interruptEntry (S : Symbols) (rsp0 vector errorCode : UInt64) (s : State) : State :=
  exec (trap rsp0 vector errorCode s) (isrEntry vector ++ isrCommonStub S)

/-! ## Pushes -/

theorem toNat_sub_eight {p : UInt64} (h : 8 ≤ p.toNat) : (p - 8).toNat = p.toNat - 8 := by
  rw [UInt64.toNat_sub_of_le _ _ (by simpa [UInt64.le_iff_toNat_le] using h)]
  rfl

theorem toNat_add_of_lt {p q : UInt64} (h : p.toNat + q.toNat < 2 ^ 64) :
    (p + q).toNat = p.toNat + q.toNat := by
  rw [UInt64.toNat_add, Nat.mod_eq_of_lt h]

namespace State

variable {s : State}

theorem pushes_eq (vs : List UInt64) (h : 8 * vs.length ≤ s.rsp.toNat) :
    s.pushes vs = { s with
      rsp := (s.pushes vs).rsp
      mem := s.mem.pushWords s.rsp.toNat vs } ∧
    (s.pushes vs).rsp.toNat = s.rsp.toNat - 8 * vs.length := by
  induction vs generalizing s with
  | nil => exact ⟨rfl, rfl⟩
  | cons v vs ih =>
    rw [List.length_cons] at h
    have hsub : (s.rsp - 8).toNat = s.rsp.toNat - 8 := toNat_sub_eight (by omega)
    obtain ⟨heq, hrsp⟩ := ih (s := s.push v) (by rw [push, hsub]; omega)
    have hstep : s.pushes (v :: vs) = (s.push v).pushes vs := rfl
    rw [hstep]
    refine ⟨?_, ?_⟩
    · rw [heq]
      simp only [push, hsub, Mem.pushWords]
    · rw [hrsp, push, hsub, List.length_cons]
      omega

/-- The memory after some pushes. -/
theorem pushes_mem {vs : List UInt64} (h : 8 * vs.length ≤ s.rsp.toNat) :
    (s.pushes vs).mem = s.mem.pushWords s.rsp.toNat vs := by
  rw [(pushes_eq vs h).1]

theorem pushes_rsp {vs : List UInt64} (h : 8 * vs.length ≤ s.rsp.toNat) :
    (s.pushes vs).rsp.toNat = s.rsp.toNat - 8 * vs.length :=
  (pushes_eq vs h).2

theorem pushes_append (s : State) (us vs : List UInt64) :
    s.pushes (us ++ vs) = (s.pushes us).pushes vs :=
  List.foldl_append ..

theorem pushes_regs (vs : List UInt64) : (s.pushes vs).regs = s.regs := by
  induction vs generalizing s with
  | nil => rfl
  | cons v vs ih => exact ih (s := s.push v)

end State

/-! ## Blocks of pushes -/

theorem exec_append (s : State) (a b : List Instr) : exec s (a ++ b) = exec (exec s a) b :=
  List.foldl_append ..

/-- What a push instruction pushes. -/
def Instr.operand (s : State) : Instr → Option UInt64
  | .pushfq => some s.rflags
  | .push r => some (s.regs r)
  | .pushImm v => some v
  | _ => none

theorem Instr.step_operand {s : State} {i : Instr} {v : UInt64} (h : i.operand s = some v) :
    i.step s = s.push v := by
  cases i with
  | pushfq | push | pushImm =>
    cases h
    rfl
  | _ => cases h

/-- A block of push instructions is one push of the words they find: pushing
changes none of them. -/
theorem exec_pushes {s : State} {block : List Instr} {vs : List UInt64}
    (h : block.map (Instr.operand s) = vs.map some) : exec s block = s.pushes vs := by
  induction block generalizing s vs with
  | nil =>
    cases vs with
    | nil => rfl
    | cons v vs => simp at h
  | cons i block ih =>
    cases vs with
    | nil => simp at h
    | cons v vs =>
      rw [List.map_cons, List.map_cons, List.cons.injEq] at h
      have hkeep : ∀ i : Instr, i.operand (s.push v) = i.operand s := fun i => by
        cases i <;> rfl
      have hrest : block.map (Instr.operand (s.push v)) = vs.map some := by
        rw [← h.2]
        exact List.map_congr_left fun i _ => hkeep i
      have hstep : exec s (i :: block) = exec (i.step s) block := rfl
      rw [hstep, Instr.step_operand h.1, ih hrest]
      rfl

/-! ## An interrupt from ring 3 -/

/-- What the CPU and the entry of the vector push. -/
def trapWords (vector errorCode : UInt64) (s : State) : List UInt64 :=
  [s.ss, s.rsp, s.rflags, s.cs, s.rip, if hasErrorCode vector then errorCode else 0, vector]

/-- The registers `isr_common_stub` pushes. -/
def stubRegs (s : State) : List UInt64 :=
  [s.regs .rax, s.regs .rbx, s.regs .rcx, s.regs .rdx, s.regs .rsi, s.regs .rdi, s.regs .rbp,
    s.regs .r8, s.regs .r9, s.regs .r10, s.regs .r11, s.regs .r12, s.regs .r13, s.regs .r14,
    s.regs .r15]

theorem exec_isrEntry (rsp0 vector errorCode : UInt64) (s : State) :
    exec (trap rsp0 vector errorCode s) (isrEntry vector) =
      { { s with rsp := rsp0 - rsp0 % 16 }.pushes (trapWords vector errorCode s) with
        cs := 0x08, ss := 0, rflags := s.rflags &&& 0xFFFFFFFFFFFCBCFF } := by
  unfold trap isrEntry trapWords
  cases hasErrorCode vector
  · simp only [Bool.false_eq_true, if_false]
    rfl
  · simp only [if_true]
    rfl

theorem exec_isrCommonStub_mem (S : Symbols) (s : State) :
    (exec s (isrCommonStub S)).mem =
      (s.pushes (stubRegs s ++ [S.isrCommonStubResume])).mem := by
  have hpushes : exec s isrPushes = s.pushes (stubRegs s) := exec_pushes rfl
  rw [isrCommonStub, exec_append, hpushes, State.pushes_append]
  generalize s.pushes (stubRegs s) = t
  rfl

/-- Everything an interrupt from ring 3 pushes before `interrupt_dispatch` runs. -/
def interruptWords (S : Symbols) (vector errorCode : UInt64) (s : State) : List UInt64 :=
  trapWords vector errorCode s ++ (stubRegs s ++ [S.isrCommonStubResume])

/-- An interrupt from ring 3 writes below RSP0 and nowhere else. -/
theorem interruptEntry_mem (S : Symbols) {rsp0 : UInt64} (vector errorCode : UInt64) (s : State)
    (haligned : rsp0.toNat % 16 = 0) (hroom : 184 ≤ rsp0.toNat) :
    (interruptEntry S rsp0 vector errorCode s).mem =
      s.mem.pushWords rsp0.toNat (interruptWords S vector errorCode s) := by
  have hrsp0 : rsp0 - rsp0 % 16 = rsp0 := by
    have hmod : rsp0 % 16 = 0 := by
      rw [← UInt64.toNat_inj, UInt64.toNat_mod]
      exact haligned
    rw [hmod, UInt64.sub_zero]
  let t := exec (trap rsp0 vector errorCode s) (isrEntry vector)
  let s0 : State := { s with rsp := rsp0 }
  have ht : t = { s0.pushes (trapWords vector errorCode s) with
      cs := 0x08, ss := 0, rflags := s.rflags &&& 0xFFFFFFFFFFFCBCFF } := by
    have := exec_isrEntry rsp0 vector errorCode s
    rw [hrsp0] at this
    exact this
  have hlen : 8 * (trapWords vector errorCode s).length ≤ s0.rsp.toNat :=
    Nat.le_trans (by decide : 56 ≤ 184) hroom
  have hrsp : t.rsp.toNat = rsp0.toNat - 56 := by
    rw [ht]
    exact State.pushes_rsp hlen
  have hmem : t.mem = s.mem.pushWords rsp0.toNat (trapWords vector errorCode s) := by
    rw [ht]
    exact State.pushes_mem hlen
  have hregs : stubRegs t = stubRegs s := by
    have : t.regs = s.regs := by
      rw [ht]
      exact State.pushes_regs _
    unfold stubRegs
    rw [this]
  have hlen' : 8 * (stubRegs s ++ [S.isrCommonStubResume]).length ≤ t.rsp.toNat := by
    rw [hrsp, show (stubRegs s ++ [S.isrCommonStubResume]).length = 16 from rfl]
    omega
  have hstub : (interruptEntry S rsp0 vector errorCode s).mem =
      (t.pushes (stubRegs s ++ [S.isrCommonStubResume])).mem := by
    unfold interruptEntry
    rw [exec_append, exec_isrCommonStub_mem]
    exact congrArg (fun regs => (t.pushes (regs ++ [S.isrCommonStubResume])).mem) hregs
  rw [hstub, State.pushes_mem hlen', hmem, hrsp]
  exact (Mem.pushWords_append s.mem (trapWords vector errorCode s) _ rsp0.toNat).symm

end NekaKernel.Context
