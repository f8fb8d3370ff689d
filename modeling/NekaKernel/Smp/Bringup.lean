/-
  Smp/Bringup.lean --- how the BSP brings the other processors up.

  Source: `smp.c` and `ap_trampoline.s`.

  The BSP runs `smp_start_aps`; an AP that got its SIPI runs the trampoline and then
  `ap_entry64`, up to its loop.  They share the page of the trampoline with the
  mailbox in it, `g_ap_index_starting`, `ap_ready[]` and the descriptors.  Every load
  and every store of these is a step, and the steps of the BSP and of the APs come in
  any order.  Delays and what is printed are left out: an AP may be as slow as it
  likes anyway.
-/
import NekaKernel.Heap.World
import NekaKernel.Smp.Descriptors

set_option autoImplicit false

namespace NekaKernel.Smp

open NekaKernel.Foundation NekaKernel.Kernel NekaKernel.Context

/-! ## Constants -/

/-- `TRAMPOLINE_ADDR`. -/
def trampolineAddr : Nat := 0x8000

/-- `MBOX_OFFSET`. -/
def mboxOffset : Nat := 0x100

/-- The size of the assembled trampoline: four words behind `mboxOffset`. -/
def blobSize : Nat := 0x120

/-- `AP_STACK_SIZE`. -/
def apStackSize : Nat := 16 * 1024

/-- `MAX_AP_CPUS`. -/
def maxApCpus : Nat := 8

/-- The initial `timeout`. -/
def apTimeout : Nat := 200000000

/-- `&mbox[k]`. -/
def mbox (k : Nat) : Nat := trampolineAddr + mboxOffset + 8 * k

/-- `stack_top`: `((uint64_t)ap_stack + AP_STACK_SIZE) & ~0xFULL`. -/
def stackTop (apStack : Nat) : Nat := add64 apStack apStackSize &&& (2 ^ 64 - 1 - 15)

/-- What `smp_start_aps` works with: the list of `acpi_find_cpus`, its own ID, the
values for the mailbox, the code of the trampoline and the layout. -/
structure Config where
  apicIds : List Nat
  apicIds_length : apicIds.length ≤ maxApCpus
  bspId : Nat
  kernelCr3 : Nat
  gdtPtrAddr : Nat
  apEntry64 : Nat
  words_lt : kernelCr3 < 2 ^ 64 ∧ gdtPtrAddr < 2 ^ 64 ∧ apEntry64 < 2 ^ 64
  code : Nat → UInt8
  layout : TssLayout

/-- A byte of the trampoline: its code, and the mailbox of zeroes. -/
def Config.blob (cfg : Config) (b : Nat) : Nat :=
  if b < mboxOffset then (cfg.code b).toNat else 0

/-! ## State -/

/-- Where the BSP is in `smp_start_aps`. -/
inductive BspPc where
  /-- The head of the loop. -/
  | next
  /-- The copy of the trampoline, from byte `b` on. -/
  | copy (b : Nat)
  | allocStack
  -- the four words of the mailbox
  | fillCr3
  | fillGdt
  | fillStack
  | fillEntry
  | clearReady
  | setIndex
  -- `send_init_sipi_sipi`
  | sendInit
  | sendSipi1
  | sendSipi2
  /-- The loop on `ap_ready[started]`. -/
  | wait (timeout : Nat)
  /-- The test of `ap_ready[started]` behind that loop. -/
  | confirm
  | done
  /-- `kmalloc` ran out of memory. -/
  | panicked
  deriving DecidableEq, Repr

/-- Where an AP is. -/
inductive ApPc where
  | off
  /-- After INIT. -/
  | waitSipi
  -- the loads of the trampoline
  | loadCr3
  | loadGdt
  | loadStack
  /-- `mov rax, [mbox_ap_entry]` and the call. -/
  | loadEntry (rsp : Nat)
  -- `ap_entry64`
  | setupTss
  | testIndex
  | loadIndex
  | setReady (idx : Nat)
  /-- The loop of `ap_entry64`. -/
  | running
  /-- A processor that loaded something else than the kernel's own tables and code. -/
  | lost
  deriving DecidableEq, Repr

/-- The machine.  The last four fields are notes: the AP that the mailbox was filled
for and that got its INIT, the stacks APs were started on, the APs that set
`ap_ready[]`, and those the BSP counted; the latest comes first. -/
structure State where
  pc : BspPc
  i : Nat
  started : Nat
  apStack : Nat
  low : Mem
  heap : Heap.World
  apReady : Nat → Bool
  gApIndexStarting : Int
  descriptors : Descriptors
  ap : Nat → ApPc
  owner : Option Nat
  starts : List (Nat × Nat)
  signals : List Nat
  confirmed : List Nat

/-- `apic_ids[i]`. -/
def State.target (cfg : Config) (s : State) : Nat := cfg.apicIds.getD s.i 0

/-- AP `a` goes on at `pc`. -/
def State.setAp (s : State) (a : Nat) (pc : ApPc) : State :=
  { s with ap := Function.update s.ap a pc }

theorem State.setAp_self (s : State) (a : Nat) (pc : ApPc) :
    (s.setAp a pc).ap a = pc := Function.update_self _ _ _

/-- `mbox[k] = v`. -/
def State.setMbox (s : State) (k v : Nat) : State := { s with low := s.low.write (mbox k) 8 v }

/-! ## Steps -/

/-- What a Startup IPI does to an AP: only one that waits for it takes it. -/
def sipi (pc : ApPc) : ApPc := if pc = .waitSipi then .loadCr3 else pc

/-- One step of the BSP. -/
def bspStep (cfg : Config) (s : State) : Option State :=
  match s.pc with
  | .next =>
      if s.i < cfg.apicIds.length ∧ s.started < maxApCpus then
        if s.target cfg = cfg.bspId then some { s with i := s.i + 1 }
        else some { s with pc := .copy 0, owner := none }
      else some { s with pc := .done }
  | .copy b =>
      if b < blobSize then
        some { s with
          low := s.low.write (trampolineAddr + b) 1 (cfg.blob b), pc := .copy (b + 1) }
      else some { s with pc := .allocStack }
  | .allocStack =>
      match Heap.kmalloc s.heap.heap apStackSize with
      | (.ret p, heap) =>
          some { s with
            pc := .fillCr3, apStack := p, heap := ⟨heap, (p, apStackSize) :: s.heap.live⟩ }
      | (.panic _ _, _) => some { s with pc := .panicked }
      | (.hang, _) => none
  | .fillCr3 => some { s.setMbox 0 cfg.kernelCr3 with pc := .fillGdt }
  | .fillGdt => some { s.setMbox 1 cfg.gdtPtrAddr with pc := .fillStack }
  | .fillStack => some { s.setMbox 2 (stackTop s.apStack) with pc := .fillEntry }
  | .fillEntry => some { s.setMbox 3 cfg.apEntry64 with pc := .clearReady }
  | .clearReady =>
    some { s with apReady := Function.update s.apReady s.started false, pc := .setIndex }
  | .setIndex => some { s with gApIndexStarting := s.started, pc := .sendInit }
  | .sendInit =>
      -- INIT resets the processor wherever it is
      some { s.setAp (s.target cfg) .waitSipi with
        owner := some (s.target cfg), pc := .sendSipi1 }
  | .sendSipi1 =>
    some { s.setAp (s.target cfg) (sipi (s.ap (s.target cfg))) with pc := .sendSipi2 }
  | .sendSipi2 =>
    some { s.setAp (s.target cfg) (sipi (s.ap (s.target cfg))) with pc := .wait apTimeout }
  | .wait timeout =>
      if s.apReady s.started then some { s with pc := .confirm }
      else if 0 < timeout then some { s with pc := .wait (timeout - 1) }
      else some { s with pc := .confirm }
  | .confirm =>
      if s.apReady s.started then
        some { s with
          started := s.started + 1, confirmed := s.target cfg :: s.confirmed, i := s.i + 1,
            pc := .next }
      else some { s with i := s.i + 1, pc := .next }
  | .done | .panicked => none

/-- One step of AP `a`. -/
def apStep (cfg : Config) (s : State) (a : Nat) : Option State :=
  match s.ap a with
  | .loadCr3 =>
    some (s.setAp a (if s.low.read (mbox 0) 4 = cfg.kernelCr3 then .loadGdt else .lost))
  | .loadGdt =>
    some (s.setAp a (if s.low.read (mbox 1) 4 = cfg.gdtPtrAddr then .loadStack else .lost))
  | .loadStack => some (s.setAp a (.loadEntry (s.low.read (mbox 2) 8)))
  | .loadEntry rsp =>
      -- the call pushes onto the stack, wherever it goes
      some { s.setAp a (if s.low.read (mbox 3) 8 = cfg.apEntry64 then .setupTss else .lost) with
        starts := (a, rsp) :: s.starts }
  | .setupTss =>
      some { s.setAp a .testIndex with
        descriptors := gdtSetupCpuTss cfg.layout s.descriptors a (getCpuIndex a) }
  | .testIndex => some (s.setAp a (if 0 ≤ s.gApIndexStarting then .loadIndex else .running))
  | .loadIndex => some (s.setAp a (.setReady s.gApIndexStarting.toNat))
  | .setReady idx =>
      some { s.setAp a .running with
        apReady := Function.update s.apReady idx true, signals := a :: s.signals }
  | .off | .waitSipi | .running | .lost => none

/-- Who takes a step. -/
inductive Act where
  | bsp
  | ap (a : Nat)
  deriving DecidableEq, Repr

/-- One step of the machine. -/
def step (cfg : Config) (s : State) : Act → Option State
  | .bsp => bspStep cfg s
  | .ap a => apStep cfg s a

/-- At the start of `smp_start_aps`: the other processors are off, and whatever the
kernel has done with the heap before, it is in order.  Fewer than two processors are
left alone. -/
structure Initial (A : Heap.Arena) (cfg : Config) (s : State) : Prop where
  pc : s.pc = if cfg.apicIds.length ≤ 1 then .done else .next
  i : s.i = 0
  started : s.started = 0
  heap : Heap.World.Reachable A s.heap
  apReady : s.apReady = fun _ => false
  gApIndexStarting : s.gApIndexStarting = -1
  descriptors : ∃ d, s.descriptors = gdtInit cfg.layout ⟨d, fun _ => 0, fun _ => none⟩ cfg.bspId
  ap : s.ap = fun _ => .off
  owner : s.owner = none
  starts : s.starts = []
  signals : s.signals = []
  confirmed : s.confirmed = []

end NekaKernel.Smp
