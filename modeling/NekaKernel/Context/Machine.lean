/-
  Context/Machine.lean --- one CPU, the kernel stacks and the threads on them.

  Source: `sched64.c`, `gdt64.c`, `isr.s` and `usermode.s`.

  A thread in the kernel is on the stack array of its `thread64_t` or, inside an
  interrupt it took in ring 3, on the `kstack0` of the CPU.  The code a thread
  runs, the C code around the assembly routines and the interrupts that ring 0
  takes on its own stack are one kind of step, `run`: nothing is said about it
  but where it may write.
-/
import NekaKernel.Context.Frame
import NekaKernel.Foundation.Run

set_option autoImplicit false

namespace NekaKernel.Context

open NekaKernel.Foundation NekaKernel.Kernel NekaKernel.Sched

/-! ## Stacks -/

/-- `KSTACK0_SIZE`. -/
def kstack0Size : Nat := 8192

/-- `MAX_TSS_CPUS`. -/
def maxTssCpus : Nat := 4

/-- Where the linker put the thread table, `kstack0[][]`, `dummy_rsp[]` and the
symbols. -/
structure Layout extends ThreadTable where
  kstack0 : Nat
  kstack0_aligned : kstack0 % 16 = 0
  kstack0_range : kstack0 + maxTssCpus * kstack0Size < 2 ^ 64
  kstack0_apart : kstack0 + maxTssCpus * kstack0Size ≤ base ∨
    base + maxThreads64 * sizeofThread64 ≤ kstack0
  dummyRsp : Nat
  dummyRsp_range : dummyRsp + 8 * 16 < 2 ^ 64
  dummyRsp_table : dummyRsp + 8 * 16 ≤ base ∨ base + maxThreads64 * sizeofThread64 ≤ dummyRsp
  dummyRsp_kstack0 : dummyRsp + 8 * 16 ≤ kstack0 ∨ kstack0 + maxTssCpus * kstack0Size ≤ dummyRsp
  symbols : Symbols

namespace Layout

variable (L : Layout)

/-- `&kstack0[c][0]`. -/
def kstackBase (c : Nat) : Nat := L.kstack0 + c * kstack0Size

/-- `&kstack0[c][KSTACK0_SIZE]`. -/
def kstackTop (c : Nat) : Nat := L.kstackBase c + kstack0Size

/-- `&t->rsp`, or `&dummy_rsp[c]` for the boot context. -/
def rspPtr (c : Cpu) : Option Tid → Nat
  | some t => L.base + t * sizeofThread64
  | none => L.dummyRsp + 8 * c

/-- The address lies in the thread table. -/
def InTable (x : Nat) : Prop := L.base ≤ x ∧ x < L.base + maxThreads64 * sizeofThread64

/-- The address lies in the stack array of `t`. -/
def InStack (t : Tid) (x : Nat) : Prop := L.stackBase t ≤ x ∧ x < L.stackTop t

/-- The address lies in the `kstack0` of `c`, which has one. -/
def InKstack0 (c x : Nat) : Prop := c < maxTssCpus ∧ L.kstackBase c ≤ x ∧ x < L.kstackTop c

instance (c x : Nat) : Decidable (L.InKstack0 c x) :=
  inferInstanceAs (Decidable (_ ∧ _ ∧ _))

end Layout

/-- `gdt_setup_cpu_tss`, as far as the `rsp0` fields of `tss[]` go. -/
def gdtSetupCpuTss (L : Layout) (rsp0 : Nat → UInt64) (cpuIdx : Int) : Nat → UInt64 :=
  if cpuIdx < 0 ∨ cpuIdx ≥ maxTssCpus then rsp0
  else Function.update rsp0 cpuIdx.toNat (UInt64.ofNat (L.kstackTop cpuIdx.toNat))

/-! ## The machine -/

/-- The CPU with the scheduler, the TSS and what was on the stacks before. -/
structure Machine where
  sched : Scheduler64
  cpu : State
  rsp0 : Nat → UInt64
  /-- The CPU is inside an interrupt taken in ring 3. -/
  onKstack0 : Bool
  /-- History: the entry function each thread was created with. -/
  entry : Tid → UInt64
  /-- History: the context of each thread when it was last suspended. -/
  saved : Tid → Option SavedContext
  /-- History: memory when each thread was last suspended, or created. -/
  image : Tid → Mem

/-- What can happen. -/
inductive Act where
  /-- `sched64_create_thread`; `cr3` is what the thread's address space is set to. -/
  | create (entry : UInt64) (priority cr3 : Nat)
  /-- The code that runs, in either ring, goes on. -/
  | run (code : State → State)
  | enterUsermode
  /-- An interrupt in ring 3. -/
  | interrupt (vector errorCode : UInt64)
  /-- `isr_common_stub` after `interrupt_dispatch` has returned. -/
  | isrReturn
  /-- `sched64_reschedule`, from the pick to the return of `context_switch64`.  The
  code before the call is a `run`: it has left the return address on the stack. -/
  | reschedule

/-- `m` after the creation of `t`, `sched` being what the queues became. -/
def created (L : Layout) (m : Machine) (sched : Scheduler64) (t : Tid)
    (entry : UInt64) : Machine :=
  let mem := createFrame L.toThreadTable L.symbols.threadStart64 m.cpu.mem t entry
  { m with
    sched := sched
    cpu := { m.cpu with mem := mem }
    entry := Function.update m.entry t entry
    saved := Function.update m.saved t none
    image := Function.update m.image t mem }

/-- The call of `context_switch64` from `prev` to `next`. -/
def switchStacks (L : Layout) (c : Cpu) (m : Machine) (prev : Option Tid)
    (next : Tid) : State :=
  let args := (m.cpu.setReg .rdi (UInt64.ofNat (L.rspPtr c prev))).setReg .rsi
    (UInt64.ofNat (m.sched.threads next).rsp)
  exec args contextSwitch64

/-- `m` after that call: `t->rsp` of the thread that left is what was stored at
its address. -/
def switchTo (L : Layout) (c : Cpu) (m : Machine) (prev : Option Tid) (next : Tid) : Machine :=
  let cpu := switchStacks L c m prev next
  let m' := { m with
    cpu := cpu
    onKstack0 := L.InKstack0 c (m.sched.threads next).rsp }
  match prev with
  | none => m'
  | some p =>
      { m' with
        sched := m.sched.modify p fun th => { th with
          rsp := (cpu.mem.word (L.rspPtr c (some p))).toNat }
        saved := Function.update m.saved p (some m.cpu.callerContext)
        image := Function.update m.image p cpu.mem }

/-- One step of the CPU `c`. -/
def step (L : Layout) (c : Cpu) (m : Machine) : Act → Option Machine
  | .create entry priority cr3 =>
      match sched64CreateThread L.toThreadTable m.sched priority cr3 with
      | (.ret (some t), sched) => some (created L m sched t entry)
      | (.ret none, sched) => some { m with sched := sched }
      | _ => none
  | .run code => some { m with cpu := code m.cpu }
  | .enterUsermode =>
      if m.cpu.cpl = 0 then some { m with cpu := exec m.cpu enterUsermode, onKstack0 := false }
      else none
  | .interrupt vector errorCode =>
      -- a CPU without a TSS cannot take it
      if m.cpu.cpl = 3 ∧ c.val < maxTssCpus then
        some { m with
          cpu := interruptEntry L.symbols (m.rsp0 c) vector errorCode m.cpu
          onKstack0 := true }
      else none
  | .isrReturn =>
      if m.cpu.cpl = 0 then
        let cpu := exec m.cpu isrCommonStubReturn
        some { m with cpu := cpu, onKstack0 := m.onKstack0 && cpu.cpl != 3 }
      else none
  | .reschedule =>
      if m.cpu.cpl = 0 then
        match sched64Reschedule m.sched c with
        | (sched, .switch prev next) => some (switchTo L c { m with sched := sched } prev next)
        | (_, .fault) => none
        | (sched, _) => some { m with sched := sched }
      else none

/-- After `sched64_init` and `gdt_setup_cpu_tss`, in the boot context. -/
structure Boot (L : Layout) (c : Cpu) (m : Machine) : Prop where
  sched : ∃ s, m.sched = sched64Init s
  rsp0 : ∃ rsp0, m.rsp0 = gdtSetupCpuTss L rsp0 c.val
  onKstack0 : m.onKstack0 = false

/-! ## What the code may write -/

/-- The addresses that are the running code's own: its thread's stack array, the
CPU's `kstack0` inside an interrupt from ring 3, and what is no kernel stack and
no field of a thread at all. -/
def Owns (L : Layout) (c : Cpu) (m : Machine) (x : Nat) : Prop :=
  (∃ t, m.sched.current c = some t ∧ L.InStack t x) ∨
  (m.onKstack0 = true ∧ L.InKstack0 c x) ∨
  (¬ L.InTable x ∧ ¬ L.InKstack0 c x)

/-- At the first instruction of `context_switch64`: the return address and the
seven words it pushes are on a stack of the running thread. -/
def SwitchRoom (L : Layout) (c : Cpu) (m : Machine) : Prop :=
  match m.sched.current c with
  | some t =>
      (L.stackBase t + 56 ≤ m.cpu.rsp.toNat ∧ m.cpu.rsp.toNat + 8 ≤ L.stackTop t) ∨
      (m.onKstack0 = true ∧ 56 ≤ m.cpu.rsp.toNat ∧ L.InKstack0 c (m.cpu.rsp.toNat - 56) ∧
        m.cpu.rsp.toNat + 8 ≤ L.kstackTop c)
  | none =>
      56 ≤ m.cpu.rsp.toNat ∧
      ∀ x, m.cpu.rsp.toNat - 56 ≤ x → x < m.cpu.rsp.toNat → Owns L c m x

/-- The running code writes only what it owns. -/
def Confined (L : Layout) (c : Cpu) (m : Machine) : Act → Prop
  | .run code => ∀ x, ¬ Owns L c m x → (code m.cpu).mem x = m.cpu.mem x
  | .enterUsermode =>
      40 ≤ m.cpu.rsp.toNat ∧
      ∀ x, m.cpu.rsp.toNat - 40 ≤ x → x < m.cpu.rsp.toNat → Owns L c m x
  | .reschedule =>
      ∀ prev next, (sched64Reschedule m.sched c).2 = .switch prev next → SwitchRoom L c m
  | _ => True

/-- The thread has been created and does not run. -/
def Suspended (c : Cpu) (m : Machine) (t : Tid) : Prop :=
  t.val < m.sched.threadCount ∧ m.sched.current c ≠ some t

/-- Where the stack that `t` was suspended on begins, `r` being its saved RSP. -/
def frameTop (L : Layout) (c : Cpu) (t : Tid) (r : Nat) : Nat :=
  if L.InKstack0 c r then L.kstackTop c else L.stackTop t

/-- What every suspended thread has on its stack, from the frame of
`context_switch64` up to the interrupt frame or the first call, is as it was. -/
def FramesIntact (L : Layout) (c : Cpu) (m : Machine) : Prop :=
  ∀ t, Suspended c m t →
    Mem.Agree (m.image t) m.cpu.mem (m.sched.threads t).rsp
      (frameTop L c t (m.sched.threads t).rsp)

/-- No interrupt is taken in ring 3 while a suspended thread is on the `kstack0`
of the CPU. -/
def KstackFree (L : Layout) (c : Cpu) (m : Machine) : Act → Prop
  | .interrupt _ _ => ∀ t, Suspended c m t → ¬ L.InKstack0 c (m.sched.threads t).rsp
  | _ => True

end NekaKernel.Context
