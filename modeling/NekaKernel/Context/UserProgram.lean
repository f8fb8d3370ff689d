/-
  Context/UserProgram.lean --- the ring-3 program as the CPU runs it.

  Source: `create_user_process` and `user_program` in `paging64.c`, `usermode.s`,
  `isr.s` and the branch of `interrupt_dispatch` for `int 0x80` in `idt.c`.

  The program is fetched through the tables of its process and decoded byte by byte.
  Its `int 0x80` goes through the gate in memory, onto RSP0 and into
  `interrupt_dispatch`; the timer and the keyboard may interrupt it before any
  instruction.  What the C code and the threads that run meanwhile do with the machine
  is left open but for the words that the stub takes back and the memory that the
  process needs.
-/
import NekaKernel.Console.Machine
import NekaKernel.Context.Interrupt
import NekaKernel.Idt.Gates
import NekaKernel.Paging.Program

set_option autoImplicit false

namespace NekaKernel.Context

open NekaKernel.Foundation NekaKernel.Kernel NekaKernel.Console NekaKernel.Idt NekaKernel.Paging

/-! ## Instructions -/

/-- The instructions of the program. -/
inductive UserInstr where
  /-- `mov r32, imm32`, which clears the upper half of the register. -/
  | movImm (r : Reg) (v : UInt64)
  /-- `int imm8`. -/
  | int (vector : UInt8)
  /-- `jmp rel8`, with the displacement extended. -/
  | jmpRel (d : UInt64)
  deriving DecidableEq, Repr

/-- A 32-bit immediate. -/
def fetchImm32 (m : Mem) (cr3 va : Nat) : Option UInt64 := do
  let b0 ← fetchByte m cr3 va
  let b1 ← fetchByte m cr3 (va + 1)
  let b2 ← fetchByte m cr3 (va + 2)
  let b3 ← fetchByte m cr3 (va + 3)
  return b0.toUInt64 + b1.toUInt64 <<< 8 + b2.toUInt64 <<< 16 + b3.toUInt64 <<< 24

/-- A signed byte. -/
def signExtend8 (b : UInt8) : UInt64 := if b < 0x80 then b.toUInt64 else b.toUInt64 - 0x100

/-- The instruction at `va` and its length; `none` is a fault. -/
def fetchInstr (m : Mem) (cr3 va : Nat) : Option (UserInstr × UInt64) := do
  let opcode ← fetchByte m cr3 va
  if opcode = 0xB8 then
    return (.movImm .rax (← fetchImm32 m cr3 (va + 1)), 5)
  else if opcode = 0xBF then
    return (.movImm .rdi (← fetchImm32 m cr3 (va + 1)), 5)
  else if opcode = 0xCD then
    return (.int (← fetchByte m cr3 (va + 1)), 2)
  else if opcode = 0xEB then
    return (.jmpRel (signExtend8 (← fetchByte m cr3 (va + 1))), 2)
  else none

section Fetch

variable {m : Mem} {sp : Space} {code stack : Nat}

/-- The four instructions of `user_program`. -/
theorem fetchInstr_program (h : Loaded m sp code stack) :
    fetchInstr m sp.pml4 userCodeVa = some (.movImm .rax 1, 5) ∧
    fetchInstr m sp.pml4 (userCodeVa + 5) = some (.movImm .rdi 0x58, 5) ∧
    fetchInstr m sp.pml4 (userCodeVa + 10) = some (.int 0x80, 2) ∧
    fetchInstr m sp.pml4 (userCodeVa + 12) = some (.jmpRel (-4), 2) := by
  have hbyte : ∀ i b, i < 14 → UInt8.ofNat (userProgram.getD i 0) = b →
      fetchByte m sp.pml4 (userCodeVa + i) = some b := fun i b hi hb => hb ▸ h.fetch hi
  have h0 : fetchByte m sp.pml4 userCodeVa = some 0xB8 := hbyte 0 _ (by decide) rfl
  have h1 := hbyte 1 0x01 (by decide) rfl
  have h2 := hbyte 2 0 (by decide) rfl
  have h3 := hbyte 3 0 (by decide) rfl
  have h4 := hbyte 4 0 (by decide) rfl
  have h5 := hbyte 5 0xBF (by decide) rfl
  have h6 := hbyte 6 0x58 (by decide) rfl
  have h7 := hbyte 7 0 (by decide) rfl
  have h8 := hbyte 8 0 (by decide) rfl
  have h9 := hbyte 9 0 (by decide) rfl
  have h10 := hbyte 10 0xCD (by decide) rfl
  have h11 := hbyte 11 0x80 (by decide) rfl
  have h12 := hbyte 12 0xEB (by decide) rfl
  have h13 := hbyte 13 0xFC (by decide) rfl
  refine ⟨?_, ?_, ?_, ?_⟩
  · simp only [fetchInstr, fetchImm32, Nat.add_assoc, Nat.reduceAdd, h0, h1, h2, h3, h4]
    rfl
  · simp only [fetchInstr, fetchImm32, Nat.add_assoc, Nat.reduceAdd, h5, h6, h7, h8, h9]
    rfl
  · simp only [fetchInstr, Nat.add_assoc, Nat.reduceAdd, h10, h11]
    rfl
  · simp only [fetchInstr, Nat.add_assoc, Nat.reduceAdd, h12, h13]
    rfl

end Fetch

/-! ## The system call -/

/-- The statics of `interrupt_dispatch` and the strings that its branch for `int 0x80`
has given to `kprint`. -/
structure Syscalls where
  callCount : UInt32
  shown : Bool
  printed : List CString

def Syscalls.kprint (k : Syscalls) (s : CString) : Syscalls :=
  { k with printed := k.printed ++ [s] }

/-- The branch of `interrupt_dispatch` for vector 128. -/
def Syscalls.dispatch (k : Syscalls) (f : InterruptFrame) : Syscalls :=
  if f.vector = 128 then
    let fromRing3 := f.cs &&& 3 = 3
    if f.rax = 1 then
      let c := (f.rdi &&& 0xFF).toUInt8
      let k := { k with callCount := k.callCount + 1 }
      let k :=
        if k.callCount % 300000 = 1 then
          let buf := cString [c, 0]
          let k := k.kprint (cString (ascii "[ring3] "))
          let k := k.kprint buf
          let k := k.kprint (cString (ascii " (syscall #"))
          let k := k.kprint (kprintHex64 k.callCount.toNat)
          k.kprint (cString (ascii ")\n"))
        else k
      if fromRing3 then
        if !k.shown then
          let k := { k with shown := true }
          k.kprint (cString (ascii "[syscall] confirmed genuine CPL3 caller (CS&3==3)\n"))
        else k
      else k
    else k
  else k

/-- What call number `n` prints, the first one being number 1. -/
def reports (n : Nat) : List CString :=
  (if n % 2 ^ 32 % 300000 = 1 then
    [cString (ascii "[ring3] "), cString [0x58, 0], cString (ascii " (syscall #"),
      kprintHex64 (n % 2 ^ 32), cString (ascii ")\n")]
  else []) ++
  if n = 1 then [cString (ascii "[syscall] confirmed genuine CPL3 caller (CS&3==3)\n")] else []

/-- The statics and the output after `n` calls. -/
def Syscalls.after (n : Nat) : Syscalls where
  callCount := UInt32.ofNat n
  shown := 0 < n
  printed := (List.range n).flatMap fun i => reports (i + 1)

/-- **One call.** -/
theorem dispatch_after {f : InterruptFrame} (n : Nat) (hvector : f.vector = 128)
    (hrax : f.rax = 1) (hrdi : f.rdi = 0x58) (hcs : f.cs = 0x1B) :
    (Syscalls.after n).dispatch f = Syscalls.after (n + 1) := by
  have hring : f.cs &&& 3 = 3 := by
    rw [hcs]
    decide
  have hc : (f.rdi &&& 0xFF).toUInt8 = 0x58 := by
    rw [hrdi]
    decide
  have hcount : UInt32.ofNat n + 1 = UInt32.ofNat (n + 1) := by
    rw [UInt32.ofNat_add]
    rfl
  have hnat : (UInt32.ofNat (n + 1)).toNat = (n + 1) % 2 ^ 32 := UInt32.toNat_ofNat'
  have hthrottle : UInt32.ofNat (n + 1) % 300000 = 1 ↔ (n + 1) % 2 ^ 32 % 300000 = 1 := by
    rw [← UInt32.toNat_inj, UInt32.toNat_mod, hnat]
    rfl
  have hprinted : (Syscalls.after (n + 1)).printed =
      (Syscalls.after n).printed ++ reports (n + 1) := by
    unfold Syscalls.after
    rw [List.range_succ, List.flatMap_append, List.flatMap_singleton]
  unfold Syscalls.dispatch
  rw [if_pos hvector]
  dsimp only
  rw [if_pos hrax, if_pos hring, hc]
  have hcallCount : (Syscalls.after n).callCount + 1 = UInt32.ofNat (n + 1) := hcount
  rw [hcallCount]
  rcases Nat.eq_zero_or_pos n with rfl | hpos
  · rfl
  have hshown : (Syscalls.after n).shown = true := decide_eq_true hpos
  have hnext : Syscalls.after (n + 1) =
      ⟨UInt32.ofNat (n + 1), true, (Syscalls.after n).printed ++ reports (n + 1)⟩ := by
    rw [← hprinted, ← show (Syscalls.after (n + 1)).shown = true
      from decide_eq_true (Nat.succ_pos n)]
    rfl
  rw [hnext, reports, if_neg (show n + 1 ≠ 1 by omega), List.append_nil]
  by_cases hturn : (n + 1) % 2 ^ 32 % 300000 = 1
  · rw [if_pos hturn, if_pos (hthrottle.mpr hturn)]
    simp [Syscalls.kprint, hshown]
  · rw [if_neg hturn, if_neg fun h => hturn (hthrottle.mp h)]
    simp [hshown]

/-! ## The machine -/

namespace Ring3

/-- What is fixed while the process runs: the IDT that `idt_init` has made at `idt`
and the CPU that runs it, RSP0, and the process as `create_user_process` left it. -/
structure Setup where
  symbols : Symbols
  isr : UInt8 → UInt64
  idt : Nat
  before : Interrupts
  cpu : Nat
  rsp0 : UInt64
  process : Created
  room : 192 ≤ (rsp0 - rsp0 % 16).toNat
  /-- The kernel stack is apart from the frames of the process. -/
  frames_apart : ∀ f ∈ process.taken, f + 4096 ≤ (rsp0 - rsp0 % 16).toNat - 192 ∨
    (rsp0 - rsp0 % 16).toNat ≤ f
  /-- The kernel stack is apart from the IDT. -/
  idt_apart : idt + 4096 ≤ (rsp0 - rsp0 % 16).toNat - 192 ∨ (rsp0 - rsp0 % 16).toNat ≤ idt

namespace Setup

variable (K : Setup)

/-- The aligned RSP0. -/
def top : Nat := (K.rsp0 - K.rsp0 % 16).toNat

def interrupts : Interrupts := idtInit K.idt K.isr K.before K.cpu

/-- The CPU's gate for a vector, in memory `m`. -/
def gate (m : Mem) (vector : UInt8) : Option Gate :=
  { K.interrupts with mem := m }.gate K.cpu vector

/-- `int n` from ring 3 ends at `isr n`; otherwise it is a fault. -/
def calls (m : Mem) (vector : UInt8) : Bool :=
  (K.gate m vector).any fun g => g.present = 1 ∧ 3 ≤ g.dpl ∧ g.handler = (K.isr vector).toNat

/-- The words above the return address, the frames of the process, and the IDT. -/
def Kept (t : State) (x : Nat) : Prop :=
  (t.rsp.toNat + 8 ≤ x ∧ x < K.top) ∨ (∃ f ∈ K.process.taken, InFrame f x) ∨
    (K.idt ≤ x ∧ x < K.idt + 4096)

end Setup

/-- What happens from the call of `interrupt_dispatch` to its return, other threads
included.  `others` is what the system calls of other ring-3 threads do meanwhile. -/
structure Handler (K : Setup) where
  run : State → State
  others : Syscalls → Syscalls
  rsp : ∀ t, (run t).rsp = t.rsp + 8
  kept : ∀ t x, K.Kept t x → (run t).mem x = t.mem x

/-- The CPU in the process, and the statics of `interrupt_dispatch`. -/
structure Machine where
  cpu : State
  sys : Syscalls

/-- The interrupts of the machine. -/
inductive Irq where
  | timer
  | keyboard
  deriving DecidableEq, Repr

def Irq.vector : Irq → UInt64
  | .timer => 32
  | .keyboard => 33

/-- A step: an instruction, or an interrupt before it. -/
inductive Act (K : Setup) where
  | run (h : Handler K)
  | irq (i : Irq) (h : Handler K)

/-- Through `vector` from `s`, and back. -/
def Setup.deliver (K : Setup) (vector : UInt64) (h : Handler K) (s : State)
    (k : Syscalls) : Machine :=
  let t := dispatched K.symbols K.rsp0 vector 0 s
  { cpu := exec (h.run t) isrCommonStubReturn
    sys := h.others (k.dispatch (frameAt t.mem (t.regs .rdi).toNat)) }

/-- One instruction of `length` bytes; an `int` that the gate refuses is a fault. -/
def Setup.execInstr (K : Setup) (h : Handler K) (m : Machine) (i : UserInstr)
    (length : UInt64) :
    Option Machine :=
  let next := { m.cpu with rip := m.cpu.rip + length }
  match i with
  | .movImm r v => some { m with cpu := next.setReg r v }
  | .jmpRel d => some { m with cpu := { next with rip := next.rip + d } }
  | .int vector =>
      if K.calls m.cpu.mem vector then some (K.deliver vector.toUInt64 h next m.sys) else none

/-- One step; `none` is a fault of the program.  An interrupt that finds IF off waits. -/
def step (K : Setup) (m : Machine) : Act K → Option Machine
  | .run h => do
      let (i, length) ← fetchInstr m.cpu.mem K.process.cr3 m.cpu.rip.toNat
      K.execInstr h m i length
  | .irq i h =>
      if m.cpu.rflags &&& 0x200 = 0 then some m else some (K.deliver i.vector h m.cpu m.sys)

/-- `enter_usermode(USER_CODE_VA, USER_STACK_TOP)` from `s`, in a world in which the
process has been made and with the IDT in memory. -/
structure Entered (K : Setup) (w : World) (s : State) (m : Machine) : Prop where
  entry : s.regs .rdi = UInt64.ofNat userCodeVa
  stack : s.regs .rsi = 0x50002000
  room : 40 ≤ s.rsp.toNat
  cpu : m.cpu = exec s enterUsermode
  tables : ∀ f ∈ K.process.taken, ∀ i < 512, m.cpu.mem.entry f i = w.page.mem.entry f i
  idt : Mem.Agree K.interrupts.mem m.cpu.mem K.idt (K.idt + 4096)
  sys : m.sys = ⟨0, false, []⟩

/-! ## Through the kernel and back -/

section Deliver

variable {K : Setup} {s : State} {vector : UInt64} {h : Handler K} {k : Syscalls}

theorem entryStack_eq (hcpl : s.cpl = 3) : s.entryStack K.rsp0 = K.rsp0 - K.rsp0 % 16 := by
  unfold State.entryStack
  rw [if_pos hcpl]

/-- Memory that the process needs is out of the reach of the pushes. -/
theorem kept_apart {x : Nat}
    (hx : (∃ f ∈ K.process.taken, InFrame f x) ∨ (K.idt ≤ x ∧ x < K.idt + 4096)) :
    x + 1 ≤ K.top - 192 ∨ K.top ≤ x := by
  unfold Setup.top
  rcases hx with ⟨f, hf, hlo, hhi⟩ | ⟨hlo, hhi⟩
  · have := K.frames_apart f hf
    omega
  · have := K.idt_apart
    omega

/-- **One interrupt.**  The program gets its context back, the dispatcher sees it, and
the memory that the process needs is as it was. -/
theorem deliver_spec (hcpl : s.cpl = 3) (hvector : cpuErrorCode vector = false) :
    ∃ m : Mem, K.deliver vector h s k =
      { cpu := { s with mem := m }
        sys := h.others (k.dispatch (s.frame vector 0 s.rip s.cs s.rflags)) } ∧
      ∀ x, (∃ f ∈ K.process.taken, InFrame f x) ∨ (K.idt ≤ x ∧ x < K.idt + 4096) →
        m x = s.mem x := by
  have htop := entryStack_eq (K := K) hcpl
  have hroom : 192 ≤ (s.entryStack K.rsp0).toNat := htop ▸ K.room
  have hhas : hasErrorCode vector = false := by
    cases hb : hasErrorCode vector with
    | false => rfl
    | true => rw [cpuErrorCode_of_has hb] at hvector; cases hvector
  have hagree : cpuErrorCode vector = hasErrorCode vector := hvector.trans hhas.symm
  let t := dispatched K.symbols K.rsp0 vector 0 s
  have hframe : frameAt t.mem (t.regs .rdi).toNat = s.frame vector 0 s.rip s.cs s.rflags := by
    rw [dispatched_frame hroom, State.handedOver, if_pos hagree, hhas]
    rfl
  have hback : exec (h.run t) isrCommonStubReturn = { s with mem := (h.run t).mem } := by
    refine dispatched_return hroom hagree (h.rsp t) fun x hlo hhi =>
      h.kept t x (Or.inl ⟨hlo, ?_⟩)
    rw [htop] at hhi
    exact hhi
  refine ⟨(h.run t).mem, ?_, fun x hx => ?_⟩
  · exact congrArg₂ Machine.mk hback (congrArg (fun f => h.others (k.dispatch f)) hframe)
  · rw [h.kept t x (Or.inr hx)]
    have hout : x + 1 ≤ (s.entryStack K.rsp0).toNat - 192 ∨
        (s.entryStack K.rsp0).toNat ≤ x := by
      rw [htop]
      exact kept_apart hx
    exact dispatched_agree hroom hout x (Nat.le_refl x) (Nat.lt_succ_self x)

end Deliver

/-! ## The run -/

/-- The offset of the instruction that comes after `n` instructions. -/
def position : Nat → Nat
  | 0 => 0
  | 1 => 5
  | n + 2 => if n % 2 = 0 then 10 else 12

/-- The process after `n` instructions; `alone` says that no other ring-3 thread has
made a system call. -/
structure Inv (K : Setup) (s : State) (alone : Prop) (n : Nat) (m : Machine) : Prop where
  loaded : ∃ sp code stack, Loaded m.cpu.mem sp code stack ∧ sp.pml4 = K.process.cr3 ∧
    ∀ f ∈ sp.frames, f ∈ K.process.taken
  idt : Mem.Agree K.interrupts.mem m.cpu.mem K.idt (K.idt + 4096)
  rip : m.cpu.rip = UInt64.ofNat (userCodeVa + position n)
  cs : m.cpu.cs = 0x1B
  ss : m.cpu.ss = 0x23
  rsp : m.cpu.rsp = 0x50002000
  rflags : m.cpu.rflags = 0x202
  rax : 1 ≤ n → m.cpu.regs .rax = 1
  rdi : 2 ≤ n → m.cpu.regs .rdi = 0x58
  others : ∀ r, r ≠ .rax → r ≠ .rdi → m.cpu.regs r = s.regs r
  sys : alone → m.sys = Syscalls.after ((n - 1) / 2)

section Run

variable {K : Setup} {w : World} {s : State} {alone : Prop} {m : Machine} {n : Nat}

/-- What `enter_usermode` pushes. -/
def usermodeWords (s : State) : List UInt64 := [0x23, s.regs .rsi, 0x202, 0x1B, s.regs .rdi]

/-- `mov ax, SEL_UDATA | 3`. -/
def withUserData (s : State) : State :=
  s.setReg .rax ((s.regs .rax >>> 16) <<< 16 ||| 0x23)

/-- `enter_usermode` leaves the registers but RAX alone and takes the other five words
from its pushes. -/
theorem enterUsermode_spec (hroom : 40 ≤ s.rsp.toNat) :
    (∀ r, r ≠ .rax → (exec s enterUsermode).regs r = s.regs r) ∧
    (exec s enterUsermode).rip = s.regs .rdi ∧
    (exec s enterUsermode).cs = 0x1B ∧ (exec s enterUsermode).rflags = 0x202 ∧
    (exec s enterUsermode).rsp = s.regs .rsi ∧ (exec s enterUsermode).ss = 0x23 := by
  have hlen : 8 * (usermodeWords s).length ≤ (withUserData s).rsp.toNat := hroom
  have hsplit : exec s enterUsermode =
      Instr.step ((withUserData s).pushes (usermodeWords s)) .iretq := rfl
  have hregs : ∀ r, r ≠ .rax → ((withUserData s).pushes (usermodeWords s)).regs r =
      s.regs r := by
    intro r hr
    rw [State.pushes_regs]
    exact Function.update_of_ne hr _ s.regs
  have hrsp : ((withUserData s).pushes (usermodeWords s)).rsp.toNat = s.rsp.toNat - 40 :=
    State.pushes_rsp hlen
  have hlt := s.rsp.toNat_lt
  have hholds : ((withUserData s).pushes (usermodeWords s)).mem.Holds
      ((withUserData s).pushes (usermodeWords s)).rsp.toNat (usermodeWords s).reverse := by
    rw [State.pushes_mem hlen, hrsp]
    exact Mem.holds_pushWords hlen
  rw [hsplit]
  generalize (withUserData s).pushes (usermodeWords s) = u at hregs hrsp hholds
  have hword : ∀ (a : UInt64) v, a.toNat ≤ 32 → u.mem.word (u.rsp.toNat + a.toNat) = v →
      u.mem.word (u.rsp + a).toNat = v := by
    intro a v ha h
    rw [toNat_add_of_lt (by omega)]
    exact h
  obtain ⟨h0, h1, h2, h3, h4, -⟩ := hholds
  exact ⟨hregs, h0, hword 8 _ (by decide) h1, hword 16 _ (by decide) h2,
    hword 24 _ (by decide) h3, hword 32 _ (by decide) h4⟩

/-- The process as `enter_usermode` starts it. -/
theorem Entered.inv (h : Entered K w s m)
    (r : Reach Booted World.step (fun _ op => op.Outside) w) (hc : K.process ∈ w.spaces)
    (hkind : K.process.kind = .userProcess) : Inv K s alone 0 m := by
  obtain ⟨hregs, hrip, hcs, hrflags, hrsp, hss⟩ := enterUsermode_spec h.room
  obtain ⟨sp, code, stack, hloaded, hcr3, htaken⟩ := loaded_of_reach r hc hkind
  have hframes : ∀ f ∈ sp.frames, f ∈ K.process.taken := by
    intro f hf
    rw [Space.frames, hloaded.pages] at hf
    rw [htaken]
    simp only [List.mem_cons, List.not_mem_nil, or_false] at hf ⊢
    omega
  refine ⟨⟨sp, code, stack, hloaded.congr fun f hf => h.tables f (hframes f hf), hcr3, hframes⟩,
    h.idt, ?_, ?_, ?_, ?_, ?_, fun hn => ?_, fun hn => ?_, fun r hrax _ => ?_, fun _ => h.sys⟩
  · rw [h.cpu, hrip, h.entry]
    rfl
  · rw [h.cpu, hcs]
  · rw [h.cpu, hss]
  · rw [h.cpu, hrsp, h.stack]
  · rw [h.cpu, hrflags]
  · exact absurd hn (by decide)
  · exact absurd hn (by decide)
  · rw [h.cpu, hregs r hrax]

theorem position_le (n : Nat) : position n ≤ 12 := by
  unfold position
  split
  · decide
  · decide
  · split <;> decide

theorem Inv.rip_toNat (I : Inv K s alone n m) : m.cpu.rip.toNat = userCodeVa + position n := by
  have hle := position_le n
  rw [I.rip]
  refine UInt64.toNat_ofNat_of_lt' ?_
  unfold userCodeVa UInt64.size
  omega

theorem Inv.cpl (I : Inv K s alone n m) : m.cpu.cpl = 3 := by
  unfold State.cpl
  rw [I.cs]
  rfl

/-- The process needs its frames and the IDT. -/
theorem Inv.keep (I : Inv K s alone n m) {mem : Mem}
    (hkeep : ∀ x, (∃ f ∈ K.process.taken, InFrame f x) ∨ (K.idt ≤ x ∧ x < K.idt + 4096) →
      mem x = m.cpu.mem x) :
    (∃ sp code stack, Loaded mem sp code stack ∧ sp.pml4 = K.process.cr3 ∧
      ∀ f ∈ sp.frames, f ∈ K.process.taken) ∧
    Mem.Agree K.interrupts.mem mem K.idt (K.idt + 4096) := by
  obtain ⟨sp, code, stack, hloaded, hcr3, hframes⟩ := I.loaded
  refine ⟨⟨sp, code, stack, hloaded.congr fun f hf i hi => ?_, hcr3, hframes⟩,
    fun x hlo hhi => ?_⟩
  · exact Mem.entry_congr hi fun x hx => hkeep x (Or.inl ⟨f, hframes f hf, hx⟩)
  · rw [hkeep x (Or.inr ⟨hlo, hhi⟩)]
    exact I.idt x hlo hhi

/-- The CPU finds the gates of `idt_init`. -/
theorem Inv.calls (I : Inv K s alone n m) : K.calls m.cpu.mem 0x80 = true := by
  have hidtr : K.interrupts.idtr K.cpu = ⟨4095, K.idt⟩ := Function.update_self _ _ _
  have hgate : K.gate m.cpu.mem 0x80 = K.interrupts.gate K.cpu 0x80 := by
    unfold Setup.gate Interrupts.gate
    simp only [hidtr]
    have hentry : (0x80 : UInt8).toNat * 16 + sizeofIdtEntry ≤ 4096 := by decide
    rw [gateAt_congr (I.idt.mono (by omega) (by omega))]
  unfold Setup.calls
  rw [hgate, Setup.interrupts, gate_idtInit]
  simp

/-- An instruction that is fetched. -/
theorem step_run {h : Handler K} {i : UserInstr} {length : UInt64}
    (hf : fetchInstr m.cpu.mem K.process.cr3 m.cpu.rip.toNat = some (i, length)) :
    step K m (.run h) = K.execInstr h m i length := by
  rw [step, hf]
  rfl

/-- `mov eax, 1`. -/
theorem Inv.run_rax (I : Inv K s alone 0 m) (h : Handler K)
    (hf : fetchInstr m.cpu.mem K.process.cr3 m.cpu.rip.toNat = some (.movImm .rax 1, 5)) :
    ∃ m', step K m (.run h) = some m' ∧ Inv K s alone 1 m' := by
  refine ⟨_, step_run hf, I.loaded, I.idt, ?_, I.cs, I.ss, I.rsp, I.rflags, fun _ => ?_,
    fun hn => ?_, fun r hrax hrdi => ?_, I.sys⟩
  · change m.cpu.rip + 5 = _
    rw [I.rip]
    rfl
  · exact @Function.update_self Reg (fun _ => UInt64) _ Reg.rax 1 m.cpu.regs
  · exact absurd hn (by decide)
  · exact (Function.update_of_ne hrax 1 m.cpu.regs).trans (I.others r hrax hrdi)

/-- `mov edi, 'X'`. -/
theorem Inv.run_rdi (I : Inv K s alone 1 m) (h : Handler K)
    (hf : fetchInstr m.cpu.mem K.process.cr3 m.cpu.rip.toNat = some (.movImm .rdi 0x58, 5)) :
    ∃ m', step K m (.run h) = some m' ∧ Inv K s alone 2 m' := by
  refine ⟨_, step_run hf, I.loaded, I.idt, ?_, I.cs, I.ss, I.rsp, I.rflags, fun _ => ?_,
    fun _ => ?_, fun r hrax hrdi => ?_, I.sys⟩
  · change m.cpu.rip + 5 = _
    rw [I.rip]
    rfl
  · have hne : Reg.rax ≠ Reg.rdi := by decide
    exact (Function.update_of_ne hne 0x58 m.cpu.regs).trans (I.rax (Nat.le_refl 1))
  · exact @Function.update_self Reg (fun _ => UInt64) _ Reg.rdi 0x58 m.cpu.regs
  · exact (Function.update_of_ne hrdi 0x58 m.cpu.regs).trans (I.others r hrax hrdi)

theorem position_even (hn : n % 2 = 0) : position (n + 2) = 10 := if_pos hn

theorem position_odd (hn : n % 2 = 1) : position (n + 2) = 12 := if_neg (by omega)

/-- `int 0x80`: a call more. -/
theorem Inv.run_int (I : Inv K s alone (n + 2) m) (hn : n % 2 = 0) (h : Handler K)
    (hothers : alone → h.others = id)
    (hf : fetchInstr m.cpu.mem K.process.cr3 m.cpu.rip.toNat = some (.int 0x80, 2)) :
    ∃ m', step K m (.run h) = some m' ∧ Inv K s alone (n + 3) m' := by
  have hvector : cpuErrorCode 128 = false := by decide
  obtain ⟨mem, hdeliver, hkeep⟩ := deliver_spec (K := K) (h := h) (k := m.sys)
    (s := { m.cpu with rip := m.cpu.rip + 2 }) I.cpl hvector
  have hstep : step K m (.run h) =
      some (K.deliver 128 h { m.cpu with rip := m.cpu.rip + 2 } m.sys) := by
    rw [step_run hf]
    exact if_pos I.calls
  obtain ⟨hloaded, hidt⟩ := I.keep hkeep
  refine ⟨_, hstep.trans (congrArg some hdeliver), hloaded, hidt, ?_, I.cs, I.ss,
    I.rsp, I.rflags,
    fun _ => I.rax (by omega), fun _ => I.rdi (by omega), I.others, fun halone => ?_⟩
  · change m.cpu.rip + 2 = _
    rw [I.rip, position_even hn, position_odd (n := n + 1) (by omega)]
    rfl
  · have hcalls : (n + 2 - 1) / 2 + 1 = (n + 3 - 1) / 2 := by omega
    dsimp only
    rw [I.sys halone, ← hcalls, hothers halone]
    exact dispatch_after _ rfl (I.rax (by omega)) (I.rdi (by omega)) I.cs

theorem step_jmp {h : Handler K} {d : UInt64}
    (hf : fetchInstr m.cpu.mem K.process.cr3 m.cpu.rip.toNat = some (.jmpRel d, 2)) :
    step K m (.run h) = some { m with cpu := { m.cpu with rip := m.cpu.rip + 2 + d } } := by
  rw [step_run hf]
  rfl

/-- `jmp` back to the call. -/
theorem Inv.run_jmp (I : Inv K s alone (n + 2) m) (hn : n % 2 = 1) (h : Handler K) {d : UInt64}
    (hf : fetchInstr m.cpu.mem K.process.cr3 m.cpu.rip.toNat = some (.jmpRel d, 2))
    (hback : UInt64.ofNat (userCodeVa + 12) + 2 + d = UInt64.ofNat (userCodeVa + 10)) :
    ∃ m', step K m (.run h) = some m' ∧ Inv K s alone (n + 3) m' := by
  refine ⟨{ m with cpu := { m.cpu with rip := m.cpu.rip + 2 + d } }, step_jmp hf,
    I.loaded, I.idt, ?_,
    I.cs, I.ss, I.rsp, I.rflags, fun _ => I.rax (by omega), fun _ => I.rdi (by omega),
      I.others, ?_⟩
  · rw [I.rip, position_odd hn, position_even (n := n + 1) (by omega)]
    exact hback
  · have hcalls : (n + 2 - 1) / 2 = (n + 3 - 1) / 2 := by omega
    rw [← hcalls]
    exact I.sys

/-- **One instruction.**  It is the next one of the program. -/
theorem Inv.run (I : Inv K s alone n m) (h : Handler K) (hothers : alone → h.others = id) :
    ∃ m', step K m (.run h) = some m' ∧ Inv K s alone (n + 1) m' := by
  obtain ⟨sp, code, stack, hloaded, hcr3, -⟩ := I.loaded
  obtain ⟨hfirst, hsecond, hint, hjmp⟩ := fetchInstr_program hloaded
  have hrip := I.rip_toNat
  rw [hcr3] at hfirst hsecond hint hjmp
  match n with
  | 0 => exact I.run_rax h (hrip ▸ hfirst)
  | 1 => exact I.run_rdi h (hrip ▸ hsecond)
  | n + 2 =>
    rcases Nat.mod_two_eq_zero_or_one n with hn | hn
    · rw [position_even hn] at hrip
      exact I.run_int hn h hothers (hrip ▸ hint)
    · rw [position_odd hn] at hrip
      exact I.run_jmp hn h (hrip ▸ hjmp) (by decide)

/-- **One interrupt.**  Nothing changes. -/
theorem Inv.irq (I : Inv K s alone n m) (i : Irq) (h : Handler K)
    (hothers : alone → h.others = id) :
    ∃ m', step K m (.irq i h) = some m' ∧ Inv K s alone n m' := by
  have hvector : cpuErrorCode i.vector = false ∧ i.vector ≠ 128 := by
    cases i <;> exact ⟨by decide, by decide⟩
  obtain ⟨mem, hdeliver, hkeep⟩ := deliver_spec (h := h) (k := m.sys) I.cpl hvector.1
  have hon : ¬ m.cpu.rflags &&& 0x200 = 0 := by
    rw [I.rflags]
    decide
  have hstep : step K m (.irq i h) = some (K.deliver i.vector h m.cpu m.sys) := if_neg hon
  obtain ⟨hloaded, hidt⟩ := I.keep hkeep
  refine ⟨_, hstep.trans (congrArg some hdeliver), hloaded, hidt, I.rip, I.cs, I.ss,
    I.rsp, I.rflags, I.rax, I.rdi, I.others, fun halone => ?_⟩
  dsimp only
  rw [hothers halone, ← I.sys halone]
  exact if_neg hvector.2

/-- The instructions among some steps. -/
def runs : List (Act K) → Nat
  | [] => 0
  | .run _ :: rest => runs rest + 1
  | .irq _ _ :: rest => runs rest

def Act.handler : Act K → Handler K
  | .run h => h
  | .irq _ h => h

/-- Any steps can be taken. -/
theorem Inv.exec (acts : List (Act K)) (hothers : alone → ∀ a ∈ acts, a.handler.others = id) :
    ∀ {n : Nat} {m : Machine}, Inv K s alone n m →
      ∃ m', Foundation.exec (step K) m acts = some m' ∧ Inv K s alone (n + runs acts) m' := by
  induction acts with
  | nil => exact fun I => ⟨_, rfl, I⟩
  | cons a acts ih =>
    intro n m I
    have hstep : ∃ m', step K m a = some m' ∧
        ∃ n', Inv K s alone n' m' ∧ n' + runs acts = n + runs (a :: acts) := by
      have hfirst : alone → a.handler.others = id := fun halone =>
        hothers halone a List.mem_cons_self
      cases a with
      | run h =>
        obtain ⟨m', hm, I'⟩ := I.run h hfirst
        exact ⟨m', hm, n + 1, I', by rw [runs]; omega⟩
      | irq i h =>
        obtain ⟨m', hm, I'⟩ := I.irq i h hfirst
        exact ⟨m', hm, n, I', rfl⟩
    obtain ⟨m', hm, n', I', hcount⟩ := hstep
    obtain ⟨m'', hrest, I''⟩ :=
      ih (fun halone b hb => hothers halone b (List.mem_cons_of_mem _ hb)) I'
    rw [hcount] at I''
    refine ⟨m'', ?_, I''⟩
    rw [Foundation.exec, hm]
    exact hrest

/-- **The program runs for ever.**  In any world in which the process has been made and
nothing is mapped in the gigabyte of its pages, from `enter_usermode` on, whatever the
kernel and the other threads do between `interrupt_dispatch` and its return and whenever
the interrupts come: no step faults, and the CPU is at the next instruction in ring 3
with only RAX and RDI changed.  If no other ring-3 thread makes a system call, the calls
have printed what `reports` lists for each of them. -/
theorem user_program_runs (r : Reach Booted World.step (fun _ op => op.Outside) w)
    (hc : K.process ∈ w.spaces) (hkind : K.process.kind = .userProcess)
    (hentered : Entered K w s m) (acts : List (Act K)) :
    ∃ m', Foundation.exec (step K) m acts = some m' ∧
      ((∀ a ∈ acts, a.handler.others = id) → m'.sys = Syscalls.after ((runs acts - 1) / 2)) ∧
      m'.cpu.rip = UInt64.ofNat (userCodeVa + position (runs acts)) ∧
      m'.cpu.cpl = 3 ∧ m'.cpu.rsp = 0x50002000 ∧ m'.cpu.rflags = 0x202 ∧
      (2 ≤ runs acts → m'.cpu.regs .rax = 1 ∧ m'.cpu.regs .rdi = 0x58) ∧
      ∀ r, r ≠ .rax → r ≠ .rdi → m'.cpu.regs r = s.regs r := by
  obtain ⟨m', hexec, I⟩ := (hentered.inv r hc hkind).exec acts id
  rw [Nat.zero_add] at I
  exact ⟨m', hexec, I.sys, I.rip, I.cpl, I.rsp, I.rflags,
    fun hn => ⟨I.rax (by omega), I.rdi hn⟩, I.others⟩

end Run

/-! ## A process that makes two calls -/

/-- One process made, with its frames in the pool. -/
theorem one_process : ∃ w c, Reach Booted World.step (fun _ op => op.Outside) w ∧ c ∈ w.spaces ∧
    c.kind = .userProcess ∧ ∀ f ∈ c.taken, 0x200000 ≤ f ∧ f + 4096 ≤ 0x240000 := by
  obtain ⟨w₀, w, hinit, hboot, hrun⟩ := exists_run 0x200000 [.createUserProcess]
    (by unfold IsFrame; decide) (by decide) (by decide)
  have hpool : ∀ f ∈ w₀.page.supply, 0x200000 ≤ f ∧ f + 4096 ≤ 0x240000 := by
    intro f hf
    have hbase : IsFrame 0x200000 := by
      unfold IsFrame
      decide
    obtain ⟨pd, hsupply, -⟩ := pagingInitKernelMap_spec
      (fun f hf => poolFrames_table hbase (by decide) hf)
      (poolFrames_nodup _) hinit
    have hin : f ∈ poolFrames 0x200000 := by
      change f ∈ (poolState 0x200000).supply
      rw [hsupply]
      simp [hf]
    obtain ⟨i, hi, rfl⟩ := List.mem_map.mp hin
    have hlt : i < 64 := List.mem_range.mp hi
    omega
  obtain ⟨w₁, hstep, hlast⟩ := Option.bind_eq_some_iff.mp hrun
  obtain rfl : w₁ = w := Option.some.inj hlast
  have hops : ∀ op ∈ [Op.createUserProcess], op.Outside := by simp [Op.Outside]
  have hreach := hboot.reach hops hrun
  obtain ⟨⟨cr3, s'⟩, -, rfl⟩ := Option.map_eq_some_iff.mp hstep
  refine ⟨_, _, hreach, List.mem_append_right _ (List.mem_singleton_self _), rfl,
    fun f hf => ?_⟩
  exact hpool f (List.mem_of_mem_take hf)

/-- An IDT at `0x280000` and a kernel stack below `0x270000`, above the pool. -/
def abovePool (w : World) (c : Created)
    (h : ∀ f ∈ c.taken, 0x200000 ≤ f ∧ f + 4096 ≤ 0x240000) :
    Setup where
  symbols := stubAt1M
  isr vector := 0x102000 + 16 * vector.toUInt64
  idt := 0x280000
  before := ⟨w.page.mem, ⟨0, 0⟩, fun _ => ⟨0, 0⟩⟩
  cpu := 0
  rsp0 := 0x270000
  process := c
  room := by decide
  frames_apart := by
    intro f hf
    have htop : ((0x270000 : UInt64) - 0x270000 % 16).toNat = 0x270000 := rfl
    have := h f hf
    rw [htop]
    omega
  idt_apart := by decide

/-- A handler that returns at once. -/
def idle (K : Setup) : Handler K where
  run t := { t with rsp := t.rsp + 8 }
  others := id
  rsp _ := rfl
  kept _ _ _ := rfl

/-- The launcher at the first instruction of `enter_usermode`. -/
def launching (m : Mem) : State where
  regs := fun
    | .rdi => 0x50000000
    | .rsi => 0x50002000
    | _ => 0
  rflags := 0x202
  rsp := 0x260000
  rip := 0x100400
  cs := 0x08
  ss := 0x10
  mem := m

theorem agree_idtSetGates {idt lo hi : Nat} (calls : List GateCall) (m : Mem) (h : hi ≤ idt) :
    Mem.Agree m (idtSetGates idt m calls) lo hi := by
  induction calls generalizing m with
  | nil => exact Mem.Agree.refl m lo hi
  | cons c calls ih =>
    refine Mem.Agree.trans (Mem.agree_writeFields (Or.inl ?_)) (ih _)
    unfold entryAt
    omega

/-- Two calls, with an interrupt before the second instruction and one before the first
`jmp`. -/
def twoCalls (K : Setup) : List (Act K) :=
  [.run (idle K), .irq .timer (idle K), .run (idle K), .run (idle K), .irq .keyboard (idle K),
    .run (idle K), .run (idle K)]

/-- `enter_usermode` writes its five words and nothing else. -/
theorem agree_enterUsermode {s : State} {lo hi : Nat} (hroom : 40 ≤ s.rsp.toNat)
    (hout : hi ≤ s.rsp.toNat - 40 ∨ s.rsp.toNat ≤ lo) :
    Mem.Agree s.mem (exec s enterUsermode).mem lo hi := by
  have hlen : 8 * (usermodeWords s).length ≤ (withUserData s).rsp.toNat := hroom
  have hpushed : (exec s enterUsermode).mem =
      ((withUserData s).pushes (usermodeWords s)).mem := rfl
  rw [hpushed, State.pushes_mem hlen]
  exact Mem.agree_pushWords hout hlen

/-- The launcher's stack is between the pool and the IDT. -/
theorem agree_launching (m : Mem) {lo hi : Nat} (hout : hi ≤ 0x250000 ∨ 0x260000 ≤ lo) :
    Mem.Agree m (exec (launching m) enterUsermode).mem lo hi := by
  have hrsp : (launching m).rsp.toNat = 0x260000 := rfl
  exact agree_enterUsermode (s := launching m) (by omega) (by omega)

theorem entered_abovePool {w : World} {c : Created}
    (hpool : ∀ f ∈ c.taken, 0x200000 ≤ f ∧ f + 4096 ≤ 0x240000) :
    Entered (abovePool w c hpool) w (launching (abovePool w c hpool).interrupts.mem)
      ⟨exec (launching (abovePool w c hpool).interrupts.mem) enterUsermode,
        ⟨0, false, []⟩⟩ where
  entry := rfl
  stack := rfl
  room := show 40 ≤ (0x260000 : UInt64).toNat by decide
  cpu := rfl
  sys := rfl
  tables := by
    intro f hf i hi
    have hframe := hpool f hf
    have htable : Mem.Agree w.page.mem (abovePool w c hpool).interrupts.mem 0 0x240000 :=
      agree_idtSetGates _ _ (show 0x240000 ≤ 0x280000 by decide)
    have hstack : Mem.Agree _ _ 0 0x240000 :=
      agree_launching (abovePool w c hpool).interrupts.mem (by decide)
    refine Mem.entry_congr hi fun x hx => htable.trans hstack x (Nat.zero_le x) ?_
    exact Nat.lt_of_lt_of_le hx.2 hframe.2
  idt := agree_launching _ (Or.inr (show 0x260000 ≤ 0x280000 by decide))

theorem user_program_runs_two_calls :
    ∃ (K : Setup) (w : World) (s : State) (m m' : Machine), Entered K w s m ∧
      Foundation.exec (step K) m (twoCalls K) = some m' ∧ m'.sys.callCount = 2 ∧
      m'.sys.printed.length = 6 ∧ m'.cpu.cpl = 3 := by
  obtain ⟨w, c, hreach, hc, hkind, hpool⟩ := one_process
  have hentered := entered_abovePool (w := w) hpool
  obtain ⟨m', hexec, hsys, -, hcpl, -⟩ :=
    user_program_runs hreach hc hkind hentered (twoCalls _)
  replace hsys := hsys (by simp [twoCalls, Act.handler, idle])
  rw [show runs (twoCalls (abovePool w c hpool)) = 5 from rfl] at hsys
  refine ⟨_, w, _, _, m', hentered, hexec, ?_, ?_, hcpl⟩
  · rw [hsys]
    rfl
  · rw [hsys]
    rfl

end Ring3

end NekaKernel.Context
