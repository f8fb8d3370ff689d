/-
  NKern/Machine.lean --- several CPUs in the kernel, one instruction group at a
  time.

  Source: `nkern_lock.c`, `sched64.c` (`sched64_reschedule`,
  `sched64_timer_tick`), `context_switch64.s`, the timer path of `isr.s` and
  `idt.c`, and `fpu.c`.

  The steps of the CPUs interleave in any order, and a timer interrupt may come
  before any step of a CPU whose IF is set.  A test of a shared variable and what
  follows it are steps of their own.  Three kinds of steps make several accesses.
  A counter of `preempt_disable_count[]` goes up or down in one step: its own CPU
  does so with IF clear, but for the decrement of a fresh thread, and there a tick
  between the load and the store finds the counter as it was before the load.  The
  pick of `sched64_reschedule` is made under the lock.  `sched64_timer_tick` runs
  with IF clear and changes the slice of its CPU's own thread only.

  What a CPU still has to do is its stack of frames, the next step on top: a frame
  is a point inside one of the functions above, with the local variables it has
  read.  `context_switch64` puts the frames of the old thread away and takes up
  those that the new thread's `rsp` points to.  While a CPU runs on the stack of a
  thread it overwrites what was put away there, so a second CPU that switches to
  this thread may take up any frames, and from then on each of the two overwrites
  what the other still has to do.

  Some data are notes for the proofs and read by no step: the slots that the open
  sections of a thread incremented, the slot a `NKern_Unlock` should decrement,
  the snapshot at an interrupt, and the two histories.
-/
import NekaKernel.Sched.Scheduler

set_option autoImplicit false

namespace NekaKernel.NKern

open NekaKernel.Sched

/-! ## SIMD state -/

/-- The registers that SSE and x87 instructions use. -/
structure SimdState where
  xmm : Fin 16 → BitVec 128
  mxcsr : BitVec 32
  x87 : Fin 8 → BitVec 80
  fcw : BitVec 16
  fsw : BitVec 16
  ftw : BitVec 16

/-- The control registers that decide whether SSE instructions fault. -/
structure ControlRegs where
  cr0 : BitVec 64
  cr4 : BitVec 64
  deriving DecidableEq

/-- `fpu_init` on the control registers: EM off, MP on, OSFXSR and OSXMMEXCPT
on. -/
def fpuInit (r : ControlRegs) : ControlRegs where
  cr0 := (r.cr0 &&& ~~~(1#64 <<< 2)) ||| 1#64 <<< 1
  cr4 := r.cr4 ||| (1#64 <<< 9 ||| 1#64 <<< 10)

/-- `fninit`. -/
def fninit (x : SimdState) : SimdState := { x with fcw := 0x037F, fsw := 0, ftw := 0xFFFF }

/-- An SSE instruction executes: EM is clear and OSFXSR set. -/
def sseEnabled (r : ControlRegs) : Bool := !r.cr0.getLsbD 2 && r.cr4.getLsbD 9

/-- A note on an interrupt: the CPU, its SIMD state and how many SIMD
instructions it had executed. -/
structure Snapshot where
  simd : SimdState
  home : Cpu
  ops : Nat

/-! ## Frames -/

/-- A point of a function of the kernel, with the locals that are still needed.
Frames named alike belong to one function, in the order of its steps. -/
inductive Frame where
  /-- A thread's own code, with the slots of its open sections. -/
  | code (sections : List Cpu)
  /-- The loop of `kernel_main64` and `ap_entry64`. -/
  | boot
  -- `NKern_Lock`
  | lockIdx
  | lockCli (c : Cpu)
  | lockSave (c : Cpu) (flags : Bool)
  | lockInc (c : Cpu)
  | lockTest (c : Cpu)
  | lockSpin (c : Cpu)
  -- `NKern_Unlock`; `slot` is the one its `NKern_Lock` incremented
  | unlockIdx (slot : Cpu)
  | unlockDec (c slot : Cpu)
  | unlockTest (c : Cpu)
  | unlockRel (c : Cpu)
  | unlockPend (c : Cpu)
  | unlockIf (c : Cpu)
  -- `sched64_reschedule` up to `NKern_LockForSwitch`, which reads its own index
  | reschedIdx
  | lfsIdx (rc : Cpu)
  | lfsCli (rc c : Cpu)
  | lfsInc (rc c : Cpu)
  | lfsTest (rc c : Cpu)
  | lfsSpin (rc c : Cpu)
  -- `sched64_reschedule` under the lock
  | reschedPick (rc : Cpu)
  | reschedSwitch (prev : Option Tid) (next : Tid)
  /-- `popfq; ret` of `context_switch64`, with the IF bit of the saved RFLAGS. -/
  | popfq (flags : Bool)
  -- `NKern_UnlockAfterSwitch`
  | uasIdx
  | uasDec (c : Cpu)
  | uasTest (c : Cpu)
  | uasRel (c : Cpu)
  | uasSti
  /-- `sched64_timer_tick`. -/
  | tick
  /-- `iretq`, with the IF bit of the interrupted code. -/
  | iret (flags : Bool) (snap : Snapshot)

/-- A frame that has just been written: an interrupt frame gets this note. -/
def Frame.noted (snap : Snapshot) : Frame → Frame
  | .iret flags _ => .iret flags snap
  | f => f

/-- What `sched64_create_thread` leaves on the stack of a new thread: RFLAGS with
IF set, `thread_start64` with its call of `NKern_UnlockAfterSwitch`, and the
entry function. -/
def freshContext : List Frame := [.popfq true, .uasIdx, .code []]

/-! ## The machine -/

/-- Which pair of functions an acquisition belongs to. -/
inductive Via where
  /-- `NKern_Lock` / `NKern_Unlock`. -/
  | lock
  /-- `NKern_LockForSwitch` / `NKern_UnlockAfterSwitch`. -/
  | switch
  deriving DecidableEq, Repr

/-- A successful `spin_acquire` or a `spin_release` of `big_kernel_lock`. -/
inductive LockEvent where
  | acquire (k : Cpu) (via : Via)
  | release (k : Cpu) (via : Via)
  deriving DecidableEq, Repr

/-- The CPUs and the variables they share.  `saved` is what a switch to a thread
would take up, and `on` the thread whose stack a CPU is on, `none` for the stack it
booted with.  Two fields are notes: `events` is the history of `big_kernel_lock`,
latest first, and `simdOps` counts the SIMD instructions of each CPU. -/
structure Machine where
  bigKernelLock : Bool
  preemptDisableCount : Cpu → Int
  reschedulePending : Cpu → Bool
  savedIf : Cpu → Bool
  ifFlag : Cpu → Bool
  stack : Cpu → List Frame
  saved : Tid → List Frame
  on : Cpu → Option Tid
  sched : Scheduler64
  control : Cpu → ControlRegs
  simd : Cpu → SimdState
  simdOps : Cpu → Nat
  events : List LockEvent

namespace Machine

def setStack (m : Machine) (k : Cpu) (st : List Frame) : Machine :=
  { m with stack := Function.update m.stack k st }

def setIf (m : Machine) (k : Cpu) (b : Bool) : Machine :=
  { m with ifFlag := Function.update m.ifFlag k b }

def setCount (m : Machine) (c : Cpu) (n : Int) : Machine :=
  { m with preemptDisableCount := Function.update m.preemptDisableCount c n }

def setPending (m : Machine) (c : Cpu) (b : Bool) : Machine :=
  { m with reschedulePending := Function.update m.reschedulePending c b }

def setSavedIf (m : Machine) (c : Cpu) (b : Bool) : Machine :=
  { m with savedIf := Function.update m.savedIf c b }

/-- The test-and-set that succeeds. -/
def acquired (m : Machine) (k : Cpu) (via : Via) : Machine :=
  { m with bigKernelLock := true, events := .acquire k via :: m.events }

/-- `spin_release`. -/
def released (m : Machine) (k : Cpu) (via : Via) : Machine :=
  { m with bigKernelLock := false, events := .release k via :: m.events }

/-- `if (preempt_disable_count[c] > 0) preempt_disable_count[c]--`. -/
def decrement (m : Machine) (c : Cpu) : Machine :=
  if 0 < m.preemptDisableCount c then m.setCount c (m.preemptDisableCount c - 1) else m

/-- The first half of `context_switch64`: RFLAGS and the rest of the old context
are put away, unless it is the boot context, whose `rsp` no one reads. -/
def putAway (m : Machine) (k : Cpu) (rest : List Frame) : Option Tid → Machine
  | some p =>
    { m with saved := Function.update m.saved p (.popfq (m.ifFlag k) :: .uasIdx :: rest) }
  | none => m

/-- The stack pointer of `k` points into the stack of `t`. -/
def setOn (m : Machine) (k : Cpu) (t : Tid) : Machine :=
  { m with on := Function.update m.on k (some t) }

/-- `context_switch64` up to the load of the new stack pointer. -/
def switchStacks (m : Machine) (k : Cpu) (rest : List Frame) (prev : Option Tid) (next : Tid) :
    Machine :=
  ((m.putAway k rest prev).setStack k ((m.putAway k rest prev).saved next)).setOn k next

/-! ### What an update leaves alone -/

@[simp] theorem setStack_stack (m : Machine) (k : Cpu) (st : List Frame) :
    (m.setStack k st).stack k = st :=
  Function.update_self ..
@[simp] theorem setStack_ifFlag (m : Machine) (k : Cpu) (st : List Frame) :
    (m.setStack k st).ifFlag = m.ifFlag := rfl
@[simp] theorem setStack_preemptDisableCount (m : Machine) (k : Cpu) (st : List Frame) :
    (m.setStack k st).preemptDisableCount = m.preemptDisableCount := rfl
@[simp] theorem setStack_sched (m : Machine) (k : Cpu) (st : List Frame) :
    (m.setStack k st).sched = m.sched := rfl
@[simp] theorem setIf_ifFlag (m : Machine) (k : Cpu) (b : Bool) : (m.setIf k b).ifFlag k = b :=
  Function.update_self ..
@[simp] theorem setIf_stack (m : Machine) (k : Cpu) (b : Bool) :
    (m.setIf k b).stack = m.stack := rfl
@[simp] theorem setIf_preemptDisableCount (m : Machine) (k : Cpu) (b : Bool) :
    (m.setIf k b).preemptDisableCount = m.preemptDisableCount := rfl
@[simp] theorem setIf_sched (m : Machine) (k : Cpu) (b : Bool) :
    (m.setIf k b).sched = m.sched := rfl
@[simp] theorem setCount_preemptDisableCount (m : Machine) (k : Cpu) (n : Int) :
    (m.setCount k n).preemptDisableCount k = n :=
  Function.update_self ..
@[simp] theorem setCount_stack (m : Machine) (k : Cpu) (n : Int) :
    (m.setCount k n).stack = m.stack := rfl
@[simp] theorem setCount_ifFlag (m : Machine) (k : Cpu) (n : Int) :
    (m.setCount k n).ifFlag = m.ifFlag := rfl
@[simp] theorem setCount_sched (m : Machine) (k : Cpu) (n : Int) :
    (m.setCount k n).sched = m.sched := rfl
@[simp] theorem setPending_stack (m : Machine) (k : Cpu) (b : Bool) :
    (m.setPending k b).stack = m.stack := rfl
@[simp] theorem setPending_ifFlag (m : Machine) (k : Cpu) (b : Bool) :
    (m.setPending k b).ifFlag = m.ifFlag := rfl
@[simp] theorem setPending_preemptDisableCount (m : Machine) (k : Cpu) (b : Bool) :
    (m.setPending k b).preemptDisableCount = m.preemptDisableCount := rfl
@[simp] theorem setPending_sched (m : Machine) (k : Cpu) (b : Bool) :
    (m.setPending k b).sched = m.sched := rfl
@[simp] theorem setSavedIf_stack (m : Machine) (k : Cpu) (b : Bool) :
    (m.setSavedIf k b).stack = m.stack := rfl
@[simp] theorem setSavedIf_ifFlag (m : Machine) (k : Cpu) (b : Bool) :
    (m.setSavedIf k b).ifFlag = m.ifFlag := rfl
@[simp] theorem setSavedIf_preemptDisableCount (m : Machine) (k : Cpu) (b : Bool) :
    (m.setSavedIf k b).preemptDisableCount = m.preemptDisableCount := rfl
@[simp] theorem setSavedIf_sched (m : Machine) (k : Cpu) (b : Bool) :
    (m.setSavedIf k b).sched = m.sched := rfl
@[simp] theorem acquired_stack (m : Machine) (k : Cpu) (via : Via) :
    (m.acquired k via).stack = m.stack := rfl
@[simp] theorem acquired_ifFlag (m : Machine) (k : Cpu) (via : Via) :
    (m.acquired k via).ifFlag = m.ifFlag := rfl
@[simp] theorem acquired_preemptDisableCount (m : Machine) (k : Cpu) (via : Via) :
    (m.acquired k via).preemptDisableCount = m.preemptDisableCount := rfl
@[simp] theorem acquired_sched (m : Machine) (k : Cpu) (via : Via) :
    (m.acquired k via).sched = m.sched := rfl
@[simp] theorem released_stack (m : Machine) (k : Cpu) (via : Via) :
    (m.released k via).stack = m.stack := rfl
@[simp] theorem released_ifFlag (m : Machine) (k : Cpu) (via : Via) :
    (m.released k via).ifFlag = m.ifFlag := rfl
@[simp] theorem released_preemptDisableCount (m : Machine) (k : Cpu) (via : Via) :
    (m.released k via).preemptDisableCount = m.preemptDisableCount := rfl
@[simp] theorem released_sched (m : Machine) (k : Cpu) (via : Via) :
    (m.released k via).sched = m.sched := rfl

@[simp] theorem setOn_stack (m : Machine) (k : Cpu) (t : Tid) :
    (m.setOn k t).stack = m.stack := rfl
@[simp] theorem setOn_ifFlag (m : Machine) (k : Cpu) (t : Tid) :
    (m.setOn k t).ifFlag = m.ifFlag := rfl
@[simp] theorem setOn_preemptDisableCount (m : Machine) (k : Cpu) (t : Tid) :
    (m.setOn k t).preemptDisableCount = m.preemptDisableCount := rfl

@[simp] theorem putAway_stack (m : Machine) (k : Cpu) (r : List Frame) (p : Option Tid) :
    (m.putAway k r p).stack = m.stack := by cases p <;> rfl
@[simp] theorem putAway_ifFlag (m : Machine) (k : Cpu) (r : List Frame) (p : Option Tid) :
    (m.putAway k r p).ifFlag = m.ifFlag := by cases p <;> rfl
@[simp] theorem putAway_preemptDisableCount (m : Machine) (k : Cpu) (r : List Frame)
    (p : Option Tid) : (m.putAway k r p).preemptDisableCount = m.preemptDisableCount := by
  cases p <;> rfl
@[simp] theorem putAway_sched (m : Machine) (k : Cpu) (r : List Frame) (p : Option Tid) :
    (m.putAway k r p).sched = m.sched := by cases p <;> rfl

theorem putAway_saved_self (m : Machine) (k : Cpu) (r : List Frame) (p : Tid) :
    (m.putAway k r (some p)).saved p = .popfq (m.ifFlag k) :: .uasIdx :: r :=
  Function.update_self ..

theorem putAway_saved_of_ne (m : Machine) (k : Cpu) (r : List Frame) {p : Option Tid} {t : Tid}
    (h : p ≠ some t) : (m.putAway k r p).saved t = m.saved t := by
  cases p with
  | none => rfl
  | some p => exact Function.update_of_ne (fun heq => h (by rw [heq])) _ _

theorem putAway_shared (m : Machine) (k : Cpu) (r : List Frame) (p : Option Tid) :
    (m.putAway k r p).events = m.events ∧ (m.putAway k r p).bigKernelLock = m.bigKernelLock ∧
      (m.putAway k r p).on = m.on := by
  cases p <;> exact ⟨rfl, rfl, rfl⟩

@[simp] theorem decrement_stack (m : Machine) (c : Cpu) : (m.decrement c).stack = m.stack := by
  unfold decrement
  split <;> rfl

@[simp] theorem decrement_ifFlag (m : Machine) (c : Cpu) :
    (m.decrement c).ifFlag = m.ifFlag := by
  unfold decrement
  split <;> rfl

@[simp] theorem decrement_sched (m : Machine) (c : Cpu) : (m.decrement c).sched = m.sched := by
  unfold decrement
  split <;> rfl

theorem decrement_shared (m : Machine) (c : Cpu) :
    (m.decrement c).events = m.events ∧ (m.decrement c).bigKernelLock = m.bigKernelLock ∧
      (m.decrement c).saved = m.saved ∧ (m.decrement c).on = m.on ∧
      (m.decrement c).sched = m.sched := by
  unfold decrement
  split <;> exact ⟨rfl, rfl, rfl, rfl, rfl⟩

/-- A positive counter goes down by one. -/
theorem decrement_count {m : Machine} {c : Cpu} {n : Nat}
    (h : m.preemptDisableCount c = (n : Int) + 1) :
    (m.decrement c).preemptDisableCount c = n := by
  unfold decrement
  rw [if_pos (by omega), setCount_preemptDisableCount]
  omega

end Machine

/-- `NKern_Lock` returns into the code that called it, which has one more open
section. -/
def enterSection (c : Cpu) : List Frame → List Frame
  | .code sections :: r => .code (c :: sections) :: r
  | r => r

/-! ## Steps -/

/-- One step of CPU `k`, with `f` on top of its stack and `r` below it. -/
def Machine.run (m : Machine) (k : Cpu) (r : List Frame) : Frame → Option Machine
  | .code _ => none
  | .boot => some (m.setStack k (.reschedIdx :: .boot :: r))
  | .lockIdx => some (m.setStack k (.lockCli k :: r))
  | .lockCli c => some ((m.setStack k (.lockSave c (m.ifFlag k) :: r)).setIf k false)
  | .lockSave c flags =>
      let m := if m.preemptDisableCount c = 0 then m.setSavedIf c flags else m
      some (m.setStack k (.lockInc c :: r))
  | .lockInc c =>
    some ((m.setStack k (.lockTest c :: r)).setCount c (m.preemptDisableCount c + 1))
  | .lockTest c =>
      if m.preemptDisableCount c = 1 then some (m.setStack k (.lockSpin c :: r))
      else some (m.setStack k (enterSection c r))
  | .lockSpin c =>
      if m.bigKernelLock then some m
      else some ((m.setStack k (enterSection c r)).acquired k .lock)
  | .unlockIdx slot => some (m.setStack k (.unlockDec k slot :: r))
  | .unlockDec c _ => some ((m.setStack k (.unlockTest c :: r)).decrement c)
  | .unlockTest c =>
      if m.preemptDisableCount c = 0 then some (m.setStack k (.unlockRel c :: r))
      else some (m.setStack k r)
  | .unlockRel c => some ((m.setStack k (.unlockPend c :: r)).released k .lock)
  | .unlockPend c =>
      if m.reschedulePending c then
        some ((m.setStack k (.reschedIdx :: .unlockIf c :: r)).setPending c false)
      else some (m.setStack k (.unlockIf c :: r))
  | .unlockIf c =>
      if m.savedIf c then some ((m.setStack k r).setIf k true) else some (m.setStack k r)
  | .reschedIdx => some (m.setStack k (.lfsIdx k :: r))
  | .lfsIdx rc => some (m.setStack k (.lfsCli rc k :: r))
  | .lfsCli rc c => some ((m.setStack k (.lfsInc rc c :: r)).setIf k false)
  | .lfsInc rc c =>
      some ((m.setStack k (.lfsTest rc c :: r)).setCount c (m.preemptDisableCount c + 1))
  | .lfsTest rc c =>
      if m.preemptDisableCount c = 1 then some (m.setStack k (.lfsSpin rc c :: r))
      else some (m.setStack k (.reschedPick rc :: r))
  | .lfsSpin rc _ =>
      if m.bigKernelLock then some m
      else some ((m.setStack k (.reschedPick rc :: r)).acquired k .switch)
  | .reschedPick rc =>
      match sched64Reschedule m.sched rc with
      | (s, .idle) => some ({ m with sched := s }.setStack k (.uasIdx :: r))
      | (s, .same) => some ({ m with sched := s }.setStack k (.uasIdx :: r))
      | (s, .switch prev next) =>
          some ({ m with sched := s }.setStack k (.reschedSwitch prev next :: r))
      | (_, .fault) => none
  | .reschedSwitch prev next => some (m.switchStacks k r prev next)
  | .popfq flags => some ((m.setStack k r).setIf k flags)
  | .uasIdx => some (m.setStack k (.uasDec k :: r))
  | .uasDec c => some ((m.setStack k (.uasTest c :: r)).decrement c)
  | .uasTest c =>
      if m.preemptDisableCount c = 0 then some (m.setStack k (.uasRel c :: r))
      else some (m.setStack k r)
  | .uasRel _ => some ((m.setStack k (.uasSti :: r)).released k .switch)
  | .uasSti => some ((m.setStack k r).setIf k true)
  | .tick =>
      match sched64TimerTick m.sched k (0 < m.preemptDisableCount k) with
      | (s, .nothing) => some ({ m with sched := s }.setStack k r)
      | (s, .requestReschedule) => some (({ m with sched := s }.setStack k r).setPending k true)
      | (s, .reschedule) => some ({ m with sched := s }.setStack k (.reschedIdx :: r))
  | .iret flags _ => some ((m.setStack k r).setIf k flags)

/-- What an interrupt on `k` finds. -/
def Machine.snapshot (m : Machine) (k : Cpu) : Snapshot := ⟨m.simd k, k, m.simdOps k⟩

/-- What may happen next. -/
inductive Move where
  /-- CPU `k` takes the step on top of its stack. -/
  | exec (k : Cpu)
  /-- The thread on `k` calls `NKern_Lock`. -/
  | callLock (k : Cpu)
  /-- The thread on `k` calls the `NKern_Unlock` of its innermost section. -/
  | callUnlock (k : Cpu)
  /-- The thread on `k` changes IF, outside its sections. -/
  | setIf (k : Cpu) (b : Bool)
  /-- A timer interrupt on `k`. -/
  | timer (k : Cpu)
  /-- Whatever runs on `k` executes SSE or x87 instructions. -/
  | simd (k : Cpu) (x : SimdState)
  /-- CPU `j` overwrites what was put away on the stack it is on. -/
  | overwrite (j : Cpu) (st : List Frame)
  /-- CPU `j` overwrites what CPU `k`, on the same stack, still has to do. -/
  | clobber (j k : Cpu) (st : List Frame)

/-- One move, or `none` when it cannot be made. -/
def Machine.step (m : Machine) : Move → Option Machine
  | .exec k =>
      match m.stack k with
      | [] => none
      | f :: r => m.run k r f
  | .callLock k =>
      match m.stack k with
      | .code sections :: r => some (m.setStack k (.lockIdx :: .code sections :: r))
      | _ => none
  | .callUnlock k =>
      match m.stack k with
      | .code (slot :: sections) :: r =>
          some (m.setStack k (.unlockIdx slot :: .code sections :: r))
      | _ => none
  | .setIf k b =>
      match m.stack k with
      | .code [] :: _ => some (m.setIf k b)
      | _ => none
  | .timer k =>
      if m.ifFlag k then
        some ((m.setStack k (.tick :: .iret true (m.snapshot k) :: m.stack k)).setIf k false)
      else none
  | .simd k x =>
      if sseEnabled (m.control k) then
        some { m with
          simd := Function.update m.simd k x
          simdOps := Function.update m.simdOps k (m.simdOps k + 1) }
      else none
  | .overwrite j st =>
      match m.on j with
      | some t =>
          some { m with
            saved := Function.update m.saved t (st.map (Frame.noted (m.snapshot j))) }
      | none => none
  | .clobber j k st =>
      if j ≠ k ∧ m.on j ≠ none ∧ m.on k = m.on j then
        some (m.setStack k (st.map (Frame.noted (m.snapshot j))))
      else none

/-- What a move that was made has found and done. -/
inductive Machine.Moved (m : Machine) : Move → Machine → Prop
  | exec {k : Cpu} {f : Frame} {r : List Frame} {m' : Machine} (hst : m.stack k = f :: r)
      (hrun : m.run k r f = some m') : Moved m (.exec k) m'
  | callLock {k : Cpu} {cs : List Cpu} {r : List Frame} (hst : m.stack k = .code cs :: r) :
      Moved m (.callLock k) (m.setStack k (.lockIdx :: .code cs :: r))
  | callUnlock {k slot : Cpu} {cs : List Cpu} {r : List Frame}
      (hst : m.stack k = .code (slot :: cs) :: r) :
      Moved m (.callUnlock k) (m.setStack k (.unlockIdx slot :: .code cs :: r))
  | setIf {k : Cpu} {r : List Frame} (b : Bool) (hst : m.stack k = .code [] :: r) :
      Moved m (.setIf k b) (m.setIf k b)
  | timer {k : Cpu} (hif : m.ifFlag k = true) :
      Moved m (.timer k)
        ((m.setStack k (.tick :: .iret true (m.snapshot k) :: m.stack k)).setIf k false)
  | simd {k : Cpu} (x : SimdState) (henabled : sseEnabled (m.control k) = true) :
      Moved m (.simd k x) { m with
        simd := Function.update m.simd k x
        simdOps := Function.update m.simdOps k (m.simdOps k + 1) }
  | overwrite {j : Cpu} {t : Tid} (st : List Frame) (hon : m.on j = some t) :
      Moved m (.overwrite j st) { m with
        saved := Function.update m.saved t (st.map (Frame.noted (m.snapshot j))) }
  | clobber {j k : Cpu} {t : Tid} (st : List Frame) (hjk : j ≠ k) (hj : m.on j = some t)
      (hk : m.on k = some t) :
      Moved m (.clobber j k st) (m.setStack k (st.map (Frame.noted (m.snapshot j))))

theorem Machine.moved_of_step {m m' : Machine} {mv : Move} (h : m.step mv = some m') :
    m.Moved mv m' := by
  cases mv with
  | exec k =>
    simp only [Machine.step] at h
    split at h
    · simp at h
    · rename_i hst
      exact .exec hst h
  | callLock k =>
    simp only [Machine.step] at h
    split at h
    · rename_i hst
      rw [Option.some.injEq] at h
      exact h ▸ .callLock hst
    · simp at h
  | callUnlock k =>
    simp only [Machine.step] at h
    split at h
    · rename_i hst
      rw [Option.some.injEq] at h
      exact h ▸ .callUnlock hst
    · simp at h
  | setIf k b =>
    simp only [Machine.step] at h
    split at h
    · rename_i hst
      rw [Option.some.injEq] at h
      exact h ▸ .setIf b hst
    · simp at h
  | timer k =>
    simp only [Machine.step] at h
    split at h
    · rename_i hif
      rw [Option.some.injEq] at h
      exact h ▸ .timer hif
    · simp at h
  | simd k x =>
    simp only [Machine.step] at h
    split at h
    · rename_i henabled
      rw [Option.some.injEq] at h
      exact h ▸ .simd x henabled
    · simp at h
  | overwrite j st =>
    simp only [Machine.step] at h
    split at h
    · rename_i hon
      rw [Option.some.injEq] at h
      exact h ▸ .overwrite st hon
    · simp at h
  | clobber j k st =>
    simp only [Machine.step] at h
    split at h
    · rename_i hon
      obtain ⟨hjk, hsome, hk⟩ := hon
      obtain ⟨t, hj⟩ := Option.ne_none_iff_exists'.mp hsome
      rw [Option.some.injEq] at h
      exact h ▸ .clobber st hjk hj (hk.trans hj)
    · simp at h

/-! ## Where runs start -/

/-- The frames of a context that is inside no section and no switch: a thread's
(`none`), or the boot loop of a CPU.  A thread may rest before and after its
sections, in a handler and at the end of a switch; the boot loop also on its way
into `sched64_reschedule`, since it calls it with IF set. -/
inductive Resting : Option Cpu → List Frame → Prop
  | code : Resting none [.code []]
  | lockIdx : Resting none [.lockIdx, .code []]
  | lockCli (c : Cpu) : Resting none [.lockCli c, .code []]
  | boot (k : Cpu) : Resting (some k) [.boot]
  | reschedIdx {k : Cpu} {r : List Frame} (h : Resting (some k) r) :
      Resting (some k) (.reschedIdx :: r)
  | lfsIdx {k : Cpu} {r : List Frame} (h : Resting (some k) r) :
      Resting (some k) (.lfsIdx k :: r)
  | lfsCli {k : Cpu} {r : List Frame} (h : Resting (some k) r) :
      Resting (some k) (.lfsCli k k :: r)
  | unlockIf {o : Option Cpu} {r : List Frame} (c : Cpu) (h : Resting o r) :
      Resting o (.unlockIf c :: r)
  | uasSti {o : Option Cpu} {r : List Frame} (h : Resting o r) : Resting o (.uasSti :: r)
  | iret {o : Option Cpu} {r : List Frame} (flags : Bool) (snap : Snapshot) (h : Resting o r) :
      Resting o (.iret flags snap :: r)

/-- A context that `context_switch64` may be given: a fresh thread's, or one that
an earlier switch has put away. -/
def Suspended (st : List Frame) : Prop :=
  ∃ flags r, st = .popfq flags :: .uasIdx :: r ∧ Resting none r

/-- A run starts with the threads created, each fresh or suspended, no thread
running, the lock free, and every CPU in its boot loop, on its boot stack, after
`fpu_init`. -/
structure Machine.Initial (L : ThreadTable) (m : Machine) : Prop where
  created : Created L m.sched
  lock : m.bigKernelLock = false
  counts : ∀ k, m.preemptDisableCount k = 0
  booting : ∀ k, m.stack k = [.boot]
  saved : ∀ t, Suspended (m.saved t)
  on : ∀ k, m.on k = none
  control : ∀ k, ∃ r, m.control k = fpuInit r
  events : m.events = []

theorem suspended_freshContext : Suspended freshContext :=
  ⟨true, [.code []], rfl, .code⟩

end NekaKernel.NKern
