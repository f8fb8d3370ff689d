/-
  Context/Frame.lean --- what a switch leaves on a stack and takes from it.

  Source: `context_switch64.s`, and the part of `sched64_create_thread` in
  `sched64.c` that forges the frame of a new thread.

  The frame is the same eight words whether `context_switch64` pushed it or
  `sched64_create_thread` wrote it; `switchIn_context` is the only place where the
  pops are followed one by one.
-/
import NekaKernel.Context.Cpu
import NekaKernel.Sched.Scheduler

set_option autoImplicit false

namespace NekaKernel.Context

open NekaKernel.Foundation NekaKernel.Sched

/-! ## Contexts -/

/-- What `context_switch64` keeps of a thread. -/
@[ext]
structure SavedContext where
  rbx : UInt64
  rbp : UInt64
  r12 : UInt64
  r13 : UInt64
  r14 : UInt64
  r15 : UInt64
  rflags : UInt64
  rsp : UInt64
  rip : UInt64
  deriving DecidableEq, Repr

/-- The context the CPU is in. -/
def State.context (s : State) : SavedContext where
  rbx := s.regs .rbx
  rbp := s.regs .rbp
  r12 := s.regs .r12
  r13 := s.regs .r13
  r14 := s.regs .r14
  r15 := s.regs .r15
  rflags := s.rflags
  rsp := s.rsp
  rip := s.rip

/-- At the first instruction of a function: the context of its caller, with the
return address and with RSP as it was before the call. -/
def State.callerContext (s : State) : SavedContext :=
  { s.context with rsp := s.rsp + 8, rip := s.top }

/-- The context on its stack, lowest word first. -/
def SavedContext.frame (ctx : SavedContext) : List UInt64 :=
  [ctx.r15, ctx.r14, ctx.r13, ctx.r12, ctx.rbx, ctx.rbp, ctx.rflags, ctx.rip]

/-- The words of the saving half, in the order they are pushed. -/
def State.savedWords (s : State) : List UInt64 :=
  [s.rflags, s.regs .rbp, s.regs .rbx, s.regs .r12, s.regs .r13, s.regs .r14, s.regs .r15]

/-! ## The two halves of `context_switch64` -/

section Switch

variable {s : State} {ctx : SavedContext}

/-- Between the halves: the old stack pointer is stored, the new one loaded. -/
def State.exchange (s : State) : State :=
  { s.pushes s.savedWords with
    mem := (s.pushes s.savedWords).mem.setWord (s.regs .rdi).toNat (s.pushes s.savedWords).rsp
    rsp := s.regs .rsi }

theorem exec_contextSwitch64 : exec s contextSwitch64 = exec s.exchange switchIn := by
  have hout : exec s switchOut = s.pushes s.savedWords := exec_pushes rfl
  have hregs : (s.pushes s.savedWords).regs = s.regs := State.pushes_regs _
  have hmid : exec (s.pushes s.savedWords) [.storeRsp .rdi, .setRsp .rsi] = s.exchange := by
    unfold State.exchange
    generalize s.pushes s.savedWords = saved at hregs ⊢
    rw [← hregs]
    rfl
  rw [contextSwitch64, exec_append, exec_append, hout, hmid]

theorem savedWords_room (hroom : 56 ≤ s.rsp.toNat) :
    8 * s.savedWords.length ≤ s.rsp.toNat := hroom

theorem exchange_mem (hroom : 56 ≤ s.rsp.toNat) :
    s.exchange.mem = (s.mem.pushWords s.rsp.toNat s.savedWords).setWord (s.regs .rdi).toNat
      (s.pushes s.savedWords).rsp := by
  rw [State.exchange, State.pushes_mem (savedWords_room hroom)]

/-- The saving half leaves the caller's context as a frame 56 bytes down. -/
theorem holds_callerContext (hroom : 56 ≤ s.rsp.toNat) :
    (s.mem.pushWords s.rsp.toNat s.savedWords).Holds (s.rsp.toNat - 56)
      s.callerContext.frame := by
  have hlen := savedWords_room hroom
  have hsaved := Mem.holds_pushWords (m := s.mem) hlen
  have hret : (s.mem.pushWords s.rsp.toNat s.savedWords).word s.rsp.toNat = s.top :=
    Mem.word_congr (Mem.agree_pushWords (Or.inr (Nat.le_refl _)) hlen)
  have hsplit : s.callerContext.frame = s.savedWords.reverse ++ [s.top] := rfl
  rw [hsplit, Mem.holds_append]
  refine ⟨hsaved, ?_, trivial⟩
  rw [show s.rsp.toNat - 56 + 8 * s.savedWords.reverse.length = s.rsp.toNat by
    simp [State.savedWords]; omega]
  exact hret

theorem switchIn_mem : (exec s switchIn).mem = s.mem := rfl

/-- The restoring half takes the context back from its frame. -/
theorem switchIn_context (hrange : s.rsp.toNat + 64 < 2 ^ 64)
    (hframe : s.mem.Holds s.rsp.toNat ctx.frame) (hrsp : ctx.rsp.toNat = s.rsp.toNat + 64) :
    (exec s switchIn).context = ctx := by
  have hadd : ∀ n : UInt64, n.toNat ≤ 64 → (s.rsp + n).toNat = s.rsp.toNat + n.toNat :=
    fun n hn => toNat_add_of_lt (by omega)
  obtain ⟨h0, h1, h2, h3, h4, h5, h6, h7, -⟩ := hframe
  have hlast : s.rsp + 64 = ctx.rsp := by
    rw [← UInt64.toNat_inj, hrsp, hadd 64 (by decide)]
    rfl
  have hslots : (exec s switchIn).context =
      { r15 := s.mem.word s.rsp.toNat, r14 := s.mem.word (s.rsp + 8).toNat
        r13 := s.mem.word (s.rsp + 16).toNat, r12 := s.mem.word (s.rsp + 24).toNat
        rbx := s.mem.word (s.rsp + 32).toNat, rbp := s.mem.word (s.rsp + 40).toNat
        rflags := s.mem.word (s.rsp + 48).toNat, rip := s.mem.word (s.rsp + 56).toNat
        rsp := s.rsp + 64 } := by
    simp [exec, switchIn, Instr.step, State.context, State.drop, State.top, State.setReg,
      UInt64.add_assoc]
  rw [hslots, hlast, hadd 8 (by decide), hadd 16 (by decide), hadd 24 (by decide),
    hadd 32 (by decide), hadd 40 (by decide), hadd 48 (by decide), hadd 56 (by decide)]
  exact SavedContext.ext h4 h5 h3 h2 h1 h0 h6 rfl h7

end Switch

/-! ## The frame of a new thread -/

/-- The stores of `sched64_create_thread` into the stack of `t`; `start` is the
address of `thread_start64`. -/
def createFrame (L : ThreadTable) (start : UInt64) (m : Mem) (t : Tid) (entry : UInt64) : Mem :=
  let sp := L.stackTop t
  let sp := sp - 8
  let sp := sp - 8
  let m := m.setWord sp entry
  let sp := sp - 8
  let m := m.setWord sp start
  let sp := sp - 8
  let m := m.setWord sp 0x202
  let sp := sp - 48
  (List.range 6).foldl (fun m i => m.setWord (sp + 8 * i) 0) m

/-- The context that frame stands for. -/
def freshContext (L : ThreadTable) (start : UInt64) (t : Tid) : SavedContext where
  rbx := 0
  rbp := 0
  r12 := 0
  r13 := 0
  r14 := 0
  r15 := 0
  rflags := 0x202
  rsp := UInt64.ofNat (L.stackTop t - 16)
  rip := start

section Create

variable {L : ThreadTable} {start entry : UInt64} {m : Mem} {t : Tid}

theorem stackTop_lt : L.stackTop t < 2 ^ 64 := by
  have hrange := L.in_range
  have ht := t.isLt
  unfold ThreadTable.stackTop ThreadTable.stackBase
  unfold maxThreads64 sizeofThread64 at hrange
  unfold sizeofThread64 stackOffset stackSize64
  omega

theorem stackTop_eq : L.stackTop t = L.stackBase t + 8192 := rfl

/-- `thread64_t` and its stack array keep the alignment of the table. -/
theorem stackTop_aligned : L.stackTop t % 16 = 0 := by
  have haligned := L.aligned
  unfold ThreadTable.stackTop ThreadTable.stackBase sizeofThread64 stackOffset stackSize64
  omega

theorem freshContext_rsp : (freshContext L start t).rsp.toNat = L.stackTop t - 16 := by
  have := stackTop_lt (L := L) (t := t)
  exact UInt64.toNat_ofNat_of_lt' (by unfold UInt64.size; omega)

/-- The stores stay below the padding word. -/
theorem agree_createFrame {lo hi : Nat} (h : hi ≤ L.stackTop t - 80 ∨ L.stackTop t - 8 ≤ lo) :
    Mem.Agree m (createFrame L start m t entry) lo hi := by
  have htop := stackTop_eq (L := L) (t := t)
  unfold createFrame
  simp only [show List.range 6 = [0, 1, 2, 3, 4, 5] from rfl, List.foldl_cons, List.foldl_nil]
  iterate 9 refine Mem.Agree.setWord ?_ (by omega)
  exact Mem.Agree.refl m lo hi

/-- **The forged frame.**  It matches the pops of `context_switch64` slot for
slot, with the entry function on top for `thread_start64`. -/
theorem holds_createFrame : (createFrame L start m t entry).Holds (L.stackTop t - 80)
    ((freshContext L start t).frame ++ [entry]) := by
  have htop := stackTop_eq (L := L) (t := t)
  unfold createFrame
  simp only [show List.range 6 = [0, 1, 2, 3, 4, 5] from rfl, List.foldl_cons, List.foldl_nil]
  generalize hbase : L.stackTop t - 8 - 8 - 8 - 8 - 48 = sp
  have hentry : L.stackTop t - 8 - 8 = sp + 64 := by omega
  have hstart : sp + 64 - 8 = sp + 56 := by omega
  have hflags : sp + 56 - 8 = sp + 48 := by omega
  rw [hentry, hstart, hflags]
  simp (disch := omega) only [freshContext, SavedContext.frame, List.cons_append,
    List.nil_append,
    Mem.Holds, Nat.add_assoc, Mem.word_setWord, Mem.word_setWord_of_disjoint, Nat.reduceAdd,
    Nat.reduceMul, Nat.add_zero, and_self]

end Create

/-! ## `thread_start64` -/

/-- The registers a System V function gives back as it found them. -/
def calleeSaved : List Reg := [.rbx, .rbp, .r12, .r13, .r14, .r15]

/-- `f` is a System V function, from its first instruction to its return: called
with RSP eight off a multiple of sixteen, it keeps the callee-saved registers,
pops its return address and leaves the frames of its callers on a thread's stack
alone. -/
structure FollowsAbi (L : ThreadTable) (f : State → State) : Prop where
  regs : ∀ s : State, s.rsp.toNat % 16 = 8 → ∀ r ∈ calleeSaved, (f s).regs r = s.regs r
  rsp : ∀ s : State, s.rsp.toNat % 16 = 8 → (f s).rsp = s.rsp + 8
  rip : ∀ s : State, s.rsp.toNat % 16 = 8 → (f s).rip = s.top
  stack : ∀ s : State, s.rsp.toNat % 16 = 8 → ∀ t, L.stackBase t ≤ s.rsp.toNat →
    s.rsp.toNat + 8 ≤ L.stackTop t →
      Mem.Agree s.mem (f s).mem (s.rsp.toNat + 8) (L.stackTop t)

/-- **The first steps of a thread.**  From the state the switch leaves,
`thread_start64` reaches the entry function as if it had been called. -/
theorem threadStart64_spec {L : ThreadTable} {S : Symbols} {unlock : State → State} {s : State}
    {t : Tid} (habi : FollowsAbi L unlock) (hrsp : s.rsp.toNat = L.stackTop t - 16) :
    (threadStart64 S unlock s).rip = s.top ∧
    (∀ r ∈ calleeSaved, (threadStart64 S unlock s).regs r = s.regs r) ∧
    (threadStart64 S unlock s).rsp.toNat = L.stackTop t - 8 := by
  have htop := stackTop_eq (L := L) (t := t)
  have haligned := stackTop_aligned (L := L) (t := t)
  have hlt := stackTop_lt (L := L) (t := t)
  let called := exec s [.call S.unlockAfterSwitch S.threadStart64Resume]
  have hcalled : called.rsp.toNat = L.stackTop t - 24 := by
    have hsub : called.rsp.toNat = s.rsp.toNat - 8 := toNat_sub_eight (by omega)
    omega
  have hentry : called.rsp.toNat % 16 = 8 := by omega
  have hback : (unlock called).rsp = s.rsp := by
    rw [habi.rsp called hentry]
    exact UInt64.sub_add_cancel s.rsp 8
  have hword : (unlock called).top = s.top := by
    unfold State.top
    rw [hback]
    have hkept := habi.stack called hentry t (by omega) (by omega)
    rw [Mem.word_congr (hkept.mono (by omega) (by omega))]
    refine Mem.word_setWord_of_disjoint (Or.inr ?_)
    rw [toNat_sub_eight (by omega)]
    omega
  refine ⟨hword, ?_, ?_⟩
  · intro r hr
    have hrax : r ≠ .rax := by
      rintro rfl
      simp [calleeSaved] at hr
    have hkept : (unlock called).regs r = s.regs r := habi.regs called hentry r hr
    rw [← hkept]
    exact Function.update_of_ne hrax _ _
  · have hpop : (threadStart64 S unlock s).rsp = (unlock called).rsp + 8 := rfl
    have hadd : (s.rsp + 8).toNat = s.rsp.toNat + 8 :=
      toNat_add_of_lt (by rw [show (8 : UInt64).toNat = 8 from rfl]; omega)
    rw [hpop, hback, hadd]
    omega

end NekaKernel.Context
