/-
  Sched/Scheduler.lean --- the 64-bit scheduler.

  Source: `sched64.c`, with `thread64_t` and `scheduler64_t` from `kernel64.h`.

  A thread is its index in `threads64[]`, a null pointer is `none`.  The bodies
  below are what the functions do to the scheduler's data; taking and releasing
  the big kernel lock around them, and the switch of stacks at the end of
  `sched64_reschedule`, belong to the modules that model those.  The stack array
  and the `name` of a thread are not fields here: the first is memory, and no
  function reads the second.
-/
import Mathlib.Logic.Function.Basic
import NekaKernel.Foundation.Run
import NekaKernel.Kernel.Basic

set_option autoImplicit false

namespace NekaKernel.Sched

open NekaKernel.Foundation NekaKernel.Kernel

/-! ## Data -/

/-- `NUM_PRIORITIES64`. -/
def numPriorities64 : Nat := 8

/-- `MAX_THREADS64`. -/
def maxThreads64 : Nat := 16

/-- What `get_cpu_index` returns: an index below `MAX_SCHED_CPUS`. -/
abbrev Cpu := Fin 16

/-- An index into `threads64[]`. -/
abbrev Tid := Fin 16

/-- `thread64_state_t`. -/
inductive ThreadState where
  | T64_UNUSED
  | T64_READY
  | T64_RUNNING
  deriving DecidableEq, Repr, Inhabited

/-- `thread64_t`. -/
structure Thread64 where
  rsp : Nat := 0
  cr3 : Nat := 0
  priority : Nat := 0
  state : ThreadState := .T64_UNUSED
  timeSlice : Nat := 0
  next : Option Tid := none
  deriving DecidableEq, Repr, Inhabited

/-- `sizeof(thread64_t)`: 28 bytes of fields, the stack from offset 32, then
`name` and `next`. -/
def sizeofThread64 : Nat := 8240

/-- The offset of `stack` in `thread64_t`. -/
def stackOffset : Nat := 32

/-- `STACK_SIZE64`. -/
def stackSize64 : Nat := 8192

/-- Where the linker put `threads64[]`. -/
structure ThreadTable where
  base : Nat
  base_pos : 0 < base
  aligned : base % 16 = 0
  in_range : base + maxThreads64 * sizeofThread64 < 2 ^ 64

/-- `&t->stack[0]`. -/
def ThreadTable.stackBase (L : ThreadTable) (t : Tid) : Nat :=
  L.base + t * sizeofThread64 + stackOffset

/-- `&t->stack[STACK_SIZE64 / 8]`. -/
def ThreadTable.stackTop (L : ThreadTable) (t : Tid) : Nat := L.stackBase t + stackSize64

/-- The statics of `sched64.c`: `sched64`, `threads64[]`, `thread64_count` and
`loaded_cr3[]`, and the CR3 register of each CPU. -/
structure Scheduler64 where
  readyBitmap : Nat
  readyQueue : Nat → Option Tid
  current : Cpu → Option Tid
  threads : Tid → Thread64
  threadCount : Nat
  loadedCr3 : Cpu → Nat
  cr3 : Cpu → Nat

/-- Change one thread. -/
def Scheduler64.modify (s : Scheduler64) (t : Tid) (f : Thread64 → Thread64) : Scheduler64 :=
  { s with threads := Function.update s.threads t (f (s.threads t)) }

/-! ## The functions -/

/-- The loop of `find_highest_bit64`: the highest set bit at or below `pos`. -/
def scanDown (bitmap : Nat) : Nat → Nat
  | 0 => 0
  | pos + 1 => if bitmap.testBit (pos + 1) then pos + 1 else scanDown bitmap pos

/-- `find_highest_bit64`, `none` being `-1`. -/
def findHighestBit64 (bitmap : Nat) : Option Nat :=
  if bitmap = 0 then none else some (scanDown bitmap 31)

/-- `sched64_init`.  It leaves `threads64[]`, `loaded_cr3[]` and the CR3
registers as they are. -/
def sched64Init (s : Scheduler64) : Scheduler64 :=
  { s with
    readyBitmap := 0, readyQueue := fun _ => none, current := fun _ => none, threadCount := 0 }

/-- `while (tail->next != head) tail = tail->next`.  `none` means that the loop
has not ended after `fuel` iterations or has run into a null pointer. -/
def findTail (threads : Tid → Thread64) (head : Tid) : Nat → Tid → Option Tid
  | 0, _ => none
  | fuel + 1, tail =>
      match (threads tail).next with
      | none => none
      | some n => if n = head then some tail else findTail threads head fuel n

/-- The thread `sched64_create_thread` fills in. -/
def freshThread (L : ThreadTable) (t : Tid) (priority cr3 : Nat) (next : Option Tid) :
    Thread64 where
  rsp := L.stackTop t - 80
  cr3 := cr3
  priority := priority
  state := .T64_READY
  timeSlice := 5
  next := next

/-- `sched64_create_thread`.  `cr3` is what `create_address_space()` returned;
the frame it writes into the stack is in `Context/Frame.lean`. -/
def sched64CreateThread (L : ThreadTable) (s : Scheduler64) (priority cr3 : Nat) :
    Exit (Option Tid) × Scheduler64 :=
  if h : s.threadCount < maxThreads64 ∧ priority < numPriorities64 then
    let t : Tid := ⟨s.threadCount, h.1⟩
    let s := { s with threadCount := s.threadCount + 1 }
    match s.readyQueue priority with
    | none =>
        let s := s.modify t fun _ => freshThread L t priority cr3 (some t)
        (.ret (some t), { s with
          readyQueue := Function.update s.readyQueue priority (some t)
          readyBitmap := s.readyBitmap ||| 1 <<< priority })
    | some head =>
        match findTail s.threads head loopFuel head with
        | none => (.hang, s)
        | some tail =>
            let s := s.modify tail fun th => { th with next := some t }
            let s := s.modify t fun _ => freshThread L t priority cr3 (some head)
            (.ret (some t), { s with readyBitmap := s.readyBitmap ||| 1 <<< priority })
  else (.ret none, s)

/-- How `sched64_reschedule` goes on after the pick. -/
inductive Outcome where
  /-- No ready thread: return to the caller. -/
  | idle
  /-- The pick is the thread that runs already: return to the caller. -/
  | same
  /-- `context_switch64` from `prev` (the boot context when `none`) to `next`. -/
  | switch (prev : Option Tid) (next : Tid)
  /-- A null pointer in a queue whose bit is set. -/
  | fault
  deriving DecidableEq, Repr

/-- The round-robin step: the thread that is picked from the ring of `head`,
and whether the ring is turned to it. -/
def pickNext (s : Scheduler64) (prio : Nat) (head : Tid) (prev : Option Tid) :
    Option Tid × Scheduler64 :=
  if some head = prev ∧ (s.threads head).next ≠ some head then
    ((s.threads head).next, { s with
      readyQueue := Function.update s.readyQueue prio (s.threads head).next })
  else (some head, s)

/-- `if (prev) prev->state = T64_READY`. -/
def markReady (s : Scheduler64) : Option Tid → Scheduler64
  | some p => s.modify p fun th => { th with state := .T64_READY }
  | none => s

/-- The reload of CR3, made only when the address space differs from the one
this CPU loaded last. -/
def loadCr3 (s : Scheduler64) (c : Cpu) (next : Tid) : Scheduler64 :=
  if (s.threads next).cr3 ≠ s.loadedCr3 c then
    { s with
      loadedCr3 := Function.update s.loadedCr3 c (s.threads next).cr3
      cr3 := Function.update s.cr3 c (s.threads next).cr3 }
  else s

/-- `sched64_reschedule` on CPU `c`, between taking the lock and switching
stacks. -/
def sched64Reschedule (s : Scheduler64) (c : Cpu) : Scheduler64 × Outcome :=
  match findHighestBit64 s.readyBitmap with
  | none => (s, .idle)
  | some prio =>
      let prev := s.current c
      match s.readyQueue prio with
      | none => (s, .fault)
      | some head =>
          match pickNext s prio head prev with
          | (none, s) => (s, .fault)
          | (some next, s) =>
              if some next = prev then (s, .same)
              else
                let s := { s with current := Function.update s.current c (some next) }
                let s := s.modify next fun th => { th with state := .T64_RUNNING }
                (loadCr3 (markReady s prev) c next, .switch prev next)

/-- What `sched64_timer_tick` decides. -/
inductive Tick where
  /-- No thread, or the slice is not used up. -/
  | nothing
  /-- `NKern_RequestReschedule()`: the lock is held. -/
  | requestReschedule
  /-- `sched64_reschedule()`. -/
  | reschedule
  deriving DecidableEq, Repr

/-- `sched64_timer_tick` on CPU `c`; `locked` is `NKern_IsLocked()`. -/
def sched64TimerTick (s : Scheduler64) (c : Cpu) (locked : Bool) : Scheduler64 × Tick :=
  match s.current c with
  | none => (s, .nothing)
  | some cur =>
      if 0 < (s.threads cur).timeSlice then
        if (s.threads cur).timeSlice - 1 = 0 then
          (s.modify cur fun th => { th with timeSlice := 5 },
            if locked then .requestReschedule else .reschedule)
        else (s.modify cur fun th => { th with timeSlice := th.timeSlice - 1 }, .nothing)
      else (s, .nothing)

/-! ## What the functions keep

The thread table and the queues are changed in few places; these lemmas say
which, so that later proofs do not open the functions. -/

section Frame

variable {L : ThreadTable} {s : Scheduler64} {c : Cpu} {t : Tid}

@[simp] theorem modify_current (f : Thread64 → Thread64) :
    (s.modify t f).current = s.current := rfl
@[simp] theorem modify_readyQueue (f : Thread64 → Thread64) :
    (s.modify t f).readyQueue = s.readyQueue := rfl
@[simp] theorem modify_readyBitmap (f : Thread64 → Thread64) :
    (s.modify t f).readyBitmap = s.readyBitmap := rfl
@[simp] theorem modify_threadCount (f : Thread64 → Thread64) :
    (s.modify t f).threadCount = s.threadCount := rfl

/-- What a change of one thread keeps of that thread, it keeps of every thread. -/
theorem modify_keeps {β : Type} (g : Thread64 → β) (f : Thread64 → Thread64)
    (hf : ∀ th, g (f th) = g th) (u : Tid) :
    g ((s.modify t f).threads u) = g (s.threads u) := by
  unfold Scheduler64.modify
  by_cases h : u = t
  · subst h
    simp [hf]
  · simp [Function.update_of_ne h]

/-- `s'` has the queues, the rings and the current threads of `s`. -/
structure SameQueues (s s' : Scheduler64) : Prop where
  current : s'.current = s.current
  readyQueue : s'.readyQueue = s.readyQueue
  readyBitmap : s'.readyBitmap = s.readyBitmap
  threadCount : s'.threadCount = s.threadCount
  next : ∀ u, (s'.threads u).next = (s.threads u).next

theorem SameQueues.refl (s : Scheduler64) : SameQueues s s := ⟨rfl, rfl, rfl, rfl, fun _ => rfl⟩

theorem SameQueues.trans {s₁ s₂ s₃ : Scheduler64} (h : SameQueues s₁ s₂)
    (h' : SameQueues s₂ s₃) :
    SameQueues s₁ s₃ :=
  ⟨h'.current.trans h.current, h'.readyQueue.trans h.readyQueue,
    h'.readyBitmap.trans h.readyBitmap, h'.threadCount.trans h.threadCount,
    fun u => (h'.next u).trans (h.next u)⟩

theorem sameQueues_modify (f : Thread64 → Thread64) (hf : ∀ th, (f th).next = th.next) :
    SameQueues s (s.modify t f) :=
  ⟨rfl, rfl, rfl, rfl, modify_keeps Thread64.next f hf⟩

/-- A tick changes time slices only. -/
theorem sched64TimerTick_frame (locked : Bool) :
    SameQueues s (sched64TimerTick s c locked).1 := by
  unfold sched64TimerTick
  cases s.current c with
  | none => exact SameQueues.refl s
  | some cur =>
    dsimp only
    split
    · split
      · dsimp only
        apply sameQueues_modify
        exact fun _ => rfl
      · dsimp only
        apply sameQueues_modify
        exact fun _ => rfl
    · exact SameQueues.refl s

/-- A tick asks for a reschedule at once only when the lock is free. -/
theorem sched64TimerTick_unlocked {locked : Bool} {s' : Scheduler64}
    (h : sched64TimerTick s c locked = (s', .reschedule)) : locked = false := by
  unfold sched64TimerTick at h
  cases hcur : s.current c with
  | none => simp [hcur] at h
  | some cur =>
    rw [hcur] at h
    dsimp only at h
    split at h
    · split at h
      · cases locked with
        | true => simp at h
        | false => rfl
      · simp at h
    · simp at h

/-- On a CPU that runs no thread a tick does nothing at all. -/
theorem sched64TimerTick_of_idle (locked : Bool) (h : s.current c = none) :
    sched64TimerTick s c locked = (s, .nothing) := by
  unfold sched64TimerTick
  rw [h]

theorem markReady_frame (p : Option Tid) : SameQueues s (markReady s p) := by
  cases p with
  | none => exact SameQueues.refl s
  | some p =>
    unfold markReady
    apply sameQueues_modify
    exact fun _ => rfl

theorem loadCr3_frame : SameQueues s (loadCr3 s c t) := by
  unfold loadCr3
  split
  · exact ⟨rfl, rfl, rfl, rfl, fun _ => rfl⟩
  · exact SameQueues.refl s

/-- What of a thread does not depend on its state, `prev->state = T64_READY` keeps. -/
theorem markReady_keeps {β : Type} (g : Thread64 → β)
    (hg : ∀ th st, g { th with state := st } = g th) (p : Option Tid) (u : Tid) :
    g ((markReady s p).threads u) = g (s.threads u) := by
  cases p with
  | none => rfl
  | some p =>
    unfold markReady
    apply modify_keeps g
    exact fun th => hg th .T64_READY

theorem loadCr3_threads : (loadCr3 s c t).threads = s.threads := by
  unfold loadCr3
  split <;> rfl

theorem pickNext_threads (prio : Nat) (head : Tid) (prev : Option Tid) :
    (pickNext s prio head prev).2.threads = s.threads := by
  unfold pickNext
  split <;> rfl

/-- The pick changes nothing of a thread but its state. -/
theorem sched64Reschedule_keeps {β : Type} (g : Thread64 → β)
    (hg : ∀ th st, g { th with state := st } = g th) (u : Tid) :
    g ((sched64Reschedule s c).1.threads u) = g (s.threads u) := by
  unfold sched64Reschedule
  cases findHighestBit64 s.readyBitmap with
  | none => rfl
  | some prio =>
    dsimp only
    cases s.readyQueue prio with
    | none => rfl
    | some head =>
      dsimp only
      have hpick := pickNext_threads (s := s) prio head (s.current c)
      generalize pickNext s prio head (s.current c) = pick at hpick ⊢
      obtain ⟨next, s'⟩ := pick
      cases next with
      | none => exact congrArg (fun threads => g (threads u)) hpick
      | some next =>
        dsimp only
        split
        · exact congrArg (fun threads => g (threads u)) hpick
        · rw [loadCr3_threads, markReady_keeps g hg]
          refine (modify_keeps g _ ?_ u).trans ?_
          · exact fun th => hg th .T64_RUNNING
          · exact congrArg (fun threads => g (threads u)) hpick

/-- What `if (prev) prev->state = T64_READY` makes of the states. -/
theorem markReady_state (p : Option Tid) (u : Tid) :
    ((markReady s p).threads u).state = if some u = p then .T64_READY
      else (s.threads u).state := by
  cases p with
  | none => rfl
  | some p =>
    unfold markReady Scheduler64.modify
    by_cases h : u = p
    · subst h
      simp
    · simp [h]

/-- A switch marks the thread it leaves ready and the one it goes to running;
otherwise no thread changes. -/
theorem sched64Reschedule_state :
    (∃ prev next, (sched64Reschedule s c).2 = .switch prev next ∧
      ∀ u, ((sched64Reschedule s c).1.threads u).state =
        if some u = prev then .T64_READY else if u = next then .T64_RUNNING
        else (s.threads u).state) ∨
    (∀ prev next, (sched64Reschedule s c).2 ≠ .switch prev next) ∧
      (sched64Reschedule s c).1.threads = s.threads := by
  unfold sched64Reschedule
  cases findHighestBit64 s.readyBitmap with
  | none => exact Or.inr ⟨by simp, rfl⟩
  | some prio =>
    dsimp only
    cases s.readyQueue prio with
    | none => exact Or.inr ⟨by simp, rfl⟩
    | some head =>
      dsimp only
      have hpick := pickNext_threads (s := s) prio head (s.current c)
      generalize pickNext s prio head (s.current c) = pick at hpick ⊢
      obtain ⟨next, s'⟩ := pick
      cases next with
      | none => exact Or.inr ⟨by simp, hpick⟩
      | some next =>
        dsimp only at hpick ⊢
        split
        · exact Or.inr ⟨by simp, hpick⟩
        · refine Or.inl ⟨_, _, rfl, fun u => ?_⟩
          rw [loadCr3_threads, markReady_state]
          split
          · rfl
          · unfold Scheduler64.modify
            rw [← hpick]
            by_cases h : u = next
            · subst h
              simp
            · simp [h]

end Frame

/-! ## Well-formed queues -/

/-- A set bit stands for a queue with a head, and the rings stay among the
created threads. -/
structure Wf (s : Scheduler64) : Prop where
  bits : ∀ prio, s.readyBitmap.testBit prio = true →
    prio < numPriorities64 ∧ ∃ t, s.readyQueue prio = some t
  heads : ∀ prio t, s.readyQueue prio = some t → t.val < s.threadCount
  rings : ∀ t : Tid, t.val < s.threadCount →
    ∃ u : Tid, (s.threads t).next = some u ∧ u.val < s.threadCount
  nonempty : 0 < s.threadCount → s.readyBitmap ≠ 0

theorem Wf.congr {s s' : Scheduler64} (W : Wf s) (h : SameQueues s s') : Wf s' := by
  refine ⟨?_, ?_, ?_, ?_⟩
  · rw [h.readyBitmap, h.readyQueue]
    exact W.bits
  · rw [h.readyQueue, h.threadCount]
    exact W.heads
  · intro t
    rw [h.threadCount, h.next]
    exact W.rings t
  · rw [h.threadCount, h.readyBitmap]
    exact W.nonempty

/-- `find_highest_bit64` returns a bit that is set. -/
theorem scanDown_set {bitmap : Nat} :
    ∀ {pos i : Nat}, i ≤ pos → bitmap.testBit i = true →
      bitmap.testBit (scanDown bitmap pos) = true := by
  intro pos
  induction pos with
  | zero =>
    intro i hi hbit
    rw [Nat.le_zero.mp hi] at hbit
    exact hbit
  | succ pos ih =>
    intro i hi hbit
    rw [scanDown]
    split
    · assumption
    · rename_i hclear
      refine ih ?_ hbit
      rcases Nat.lt_or_eq_of_le hi with hlt | rfl
      · exact Nat.le_of_lt_succ hlt
      · exact absurd hbit hclear

/-- `find_highest_bit64` returns the highest one. -/
theorem le_scanDown {bitmap : Nat} :
    ∀ {pos i : Nat}, i ≤ pos → bitmap.testBit i = true → i ≤ scanDown bitmap pos := by
  intro pos
  induction pos with
  | zero =>
    intro i hi _
    exact hi
  | succ pos ih =>
    intro i hi hbit
    rw [scanDown]
    split
    · exact hi
    · rename_i hclear
      refine ih ?_ hbit
      rcases Nat.lt_or_eq_of_le hi with hlt | rfl
      · exact Nat.le_of_lt_succ hlt
      · exact absurd hbit hclear

/-- With threads created there is a highest ready priority, and its queue has a
head. -/
theorem Wf.top {s : Scheduler64} (W : Wf s) (hpos : 0 < s.threadCount) :
    ∃ prio head, findHighestBit64 s.readyBitmap = some prio ∧
      s.readyQueue prio = some head := by
  have hne := W.nonempty hpos
  obtain ⟨i, hi⟩ := Nat.exists_testBit_of_ne_zero hne
  have hle : i ≤ 31 := by
    have := (W.bits i hi).1
    unfold numPriorities64 at this
    omega
  obtain ⟨_, head, hhead⟩ := W.bits _ (scanDown_set hle hi)
  refine ⟨_, head, ?_, hhead⟩
  unfold findHighestBit64
  rw [if_neg hne]

/-- Without threads every bit is clear. -/
theorem Wf.bitmap_zero {s : Scheduler64} (W : Wf s) (hzero : s.threadCount = 0) :
    s.readyBitmap = 0 := by
  by_contra hne
  obtain ⟨i, hi⟩ := Nat.exists_testBit_of_ne_zero hne
  obtain ⟨_, t, ht⟩ := W.bits i hi
  have := W.heads i t ht
  omega

/-! ## What `sched64_reschedule` does -/

theorem sched64Reschedule_of_empty {s : Scheduler64} (h : s.readyBitmap = 0) (c : Cpu) :
    sched64Reschedule s c = (s, .idle) := by
  unfold sched64Reschedule findHighestBit64
  rw [if_pos h]

/-- With a highest queue, what is left is the pick and the switch. -/
theorem sched64Reschedule_of_top {s : Scheduler64} {prio : Nat} {head : Tid} (c : Cpu)
    (htop : findHighestBit64 s.readyBitmap = some prio)
    (hhead : s.readyQueue prio = some head) :
    sched64Reschedule s c =
      match pickNext s prio head (s.current c) with
      | (none, s') => (s', .fault)
      | (some next, s') =>
          if some next = s.current c then (s', .same)
          else
            (loadCr3 (markReady
              (Scheduler64.modify { s' with
                current := Function.update s'.current c (some next) } next
                fun th => { th with state := .T64_RUNNING }) (s.current c)) c next,
              .switch (s.current c) next) := by
  unfold sched64Reschedule
  rw [htop]
  dsimp only
  rw [hhead]

/-- **The pick.**  The head of the highest queue is turned away from if it is
what the CPU runs; what is then the head becomes current. -/
theorem sched64Reschedule_spec {s : Scheduler64} (W : Wf s)
    (hpos : 0 < s.threadCount) (c : Cpu) :
    ∃ prio head next, findHighestBit64 s.readyBitmap = some prio ∧
      s.readyQueue prio = some head ∧
      (if some head = s.current c then (s.threads head).next else some head) = some next ∧
      SameQueues { s with
          current := Function.update s.current c (some next)
          readyQueue := Function.update s.readyQueue prio (some next) }
        (sched64Reschedule s c).1 ∧
      (sched64Reschedule s c).2 =
        if some next = s.current c then .same else .switch (s.current c) next := by
  obtain ⟨prio, head, htop, hhead⟩ := W.top hpos
  obtain ⟨ring, hring, _⟩ := W.rings head (W.heads prio head hhead)
  rw [sched64Reschedule_of_top c htop hhead]
  unfold pickNext
  by_cases hcur : some head = s.current c
  · by_cases halone : ring = head
    · -- a ring of one: nothing is turned and nothing is switched
      subst halone
      rw [if_neg (by simp [hring])]
      dsimp only
      rw [if_pos hcur]
      refine ⟨prio, ring, ring, htop, hhead, by rw [if_pos hcur, hring], ?_,
        by rw [if_pos hcur]⟩
      refine ⟨?_, ?_, rfl, rfl, fun _ => rfl⟩
      · dsimp only
        rw [hcur, Function.update_eq_self]
      · dsimp only
        rw [← hhead, Function.update_eq_self]
    · have hne : some ring ≠ s.current c := by
        rw [← hcur]
        simpa using halone
      rw [if_pos ⟨hcur, by simpa [hring] using halone⟩, hring]
      dsimp only
      rw [if_neg hne]
      refine ⟨prio, head, ring, htop, hhead, by rw [if_pos hcur, hring], ?_, by rw [if_neg hne]⟩
      refine SameQueues.trans ?_ loadCr3_frame
      refine SameQueues.trans ?_ (markReady_frame _)
      exact sameQueues_modify _ fun _ => rfl
  · rw [if_neg (by simp [hcur])]
    dsimp only
    rw [if_neg hcur]
    refine ⟨prio, head, head, htop, hhead, by rw [if_neg hcur], ?_, by rw [if_neg hcur]⟩
    have hsame : SameQueues
        { s with
          current := Function.update s.current c (some head)
          readyQueue := Function.update s.readyQueue prio (some head) }
        { s with current := Function.update s.current c (some head) } := by
      refine ⟨rfl, ?_, rfl, rfl, fun _ => rfl⟩
      dsimp only
      rw [← hhead, Function.update_eq_self]
    refine SameQueues.trans hsame ?_
    refine SameQueues.trans ?_ loadCr3_frame
    refine SameQueues.trans ?_ (markReady_frame _)
    exact sameQueues_modify _ fun _ => rfl

/-- The three ways `sched64_reschedule` can go on, and who is current then. -/
theorem sched64Reschedule_outcomes {s : Scheduler64} (W : Wf s) (c : Cpu) :
    sched64Reschedule s c = (s, .idle) ∨
    (∃ s', sched64Reschedule s c = (s', .same) ∧ s.current c ≠ none ∧ s'.current = s.current) ∨
    ∃ s' next, sched64Reschedule s c = (s', .switch (s.current c) next) ∧
      s'.current = Function.update s.current c (some next) := by
  rcases Nat.eq_zero_or_pos s.threadCount with hzero | hpos
  · exact Or.inl (sched64Reschedule_of_empty (W.bitmap_zero hzero) c)
  · obtain ⟨prio, head, next, _, _, _, hsame, hout⟩ := sched64Reschedule_spec W hpos c
    have hcur : (sched64Reschedule s c).1.current = Function.update s.current c (some next) :=
      hsame.current
    right
    by_cases hnext : some next = s.current c
    · rw [if_pos hnext] at hout
      refine Or.inl ⟨_, Prod.ext rfl hout, ?_, ?_⟩
      · rw [← hnext]
        simp
      · rw [hcur, hnext, Function.update_eq_self]
    · rw [if_neg hnext] at hout
      exact Or.inr ⟨_, next, Prod.ext rfl hout, hcur⟩

/-- What is picked has been created. -/
theorem Wf.pick_lt {s : Scheduler64} {c : Cpu} {prio : Nat} {head next : Tid} (W : Wf s)
    (hhead : s.readyQueue prio = some head)
    (hnext : (if some head = s.current c then (s.threads head).next else some head) =
      some next) :
    next.val < s.threadCount := by
  have hlt := W.heads prio head hhead
  split at hnext
  · obtain ⟨u, hu, hult⟩ := W.rings head hlt
    rw [hu, Option.some.injEq] at hnext
    exact hnext ▸ hult
  · rw [Option.some.injEq] at hnext
    exact hnext ▸ hlt

/-- What a switch does to the CPU's current thread: it goes from that thread to
another one, which has been created. -/
theorem sched64Reschedule_switch {s s' : Scheduler64} {c : Cpu} {prev : Option Tid} {next : Tid}
    (W : Wf s) (h : sched64Reschedule s c = (s', .switch prev next)) :
    prev = s.current c ∧ some next ≠ s.current c ∧ next.val < s.threadCount ∧
      s'.current = Function.update s.current c (some next) ∧
      s'.threadCount = s.threadCount := by
  rcases Nat.eq_zero_or_pos s.threadCount with hzero | hpos
  · rw [sched64Reschedule_of_empty (W.bitmap_zero hzero)] at h
    simp at h
  · obtain ⟨prio, head, pick, _, hhead, hpick, hsame, hout⟩ := sched64Reschedule_spec W hpos c
    rw [h] at hsame hout
    dsimp only at hsame hout
    split at hout
    · cases hout
    · rename_i hne
      cases hout
      exact ⟨rfl, hne, W.pick_lt hhead hpick, hsame.current, hsame.threadCount⟩

/-- Without a switch the CPU keeps its thread. -/
theorem sched64Reschedule_stay {s s' : Scheduler64} {c : Cpu} {out : Outcome} (W : Wf s)
    (h : sched64Reschedule s c = (s', out)) (hstay : ∀ prev next, out ≠ .switch prev next) :
    s'.current = s.current ∧ s'.threadCount = s.threadCount := by
  rcases Nat.eq_zero_or_pos s.threadCount with hzero | hpos
  · rw [sched64Reschedule_of_empty (W.bitmap_zero hzero)] at h
    cases h
    exact ⟨rfl, rfl⟩
  · obtain ⟨prio, head, pick, _, _, _, hsame, hout⟩ := sched64Reschedule_spec W hpos c
    rw [h] at hsame hout
    dsimp only at hsame hout
    split at hout
    · rename_i heq
      refine ⟨?_, hsame.threadCount⟩
      rw [hsame.current]
      dsimp only
      rw [heq, Function.update_eq_self]
    · exact absurd hout (hstay _ _)

/-- The queues stay well formed. -/
theorem Wf.reschedule {s : Scheduler64} (W : Wf s) (c : Cpu) :
    Wf (sched64Reschedule s c).1 := by
  rcases Nat.eq_zero_or_pos s.threadCount with hzero | hpos
  · rw [sched64Reschedule_of_empty (W.bitmap_zero hzero)]
    exact W
  · obtain ⟨prio, head, next, _, hhead, hnext, hsame, _⟩ := sched64Reschedule_spec W hpos c
    have hcreated : next.val < s.threadCount := W.pick_lt hhead hnext
    refine Wf.congr (s := { s with
      current := Function.update s.current c (some next)
      readyQueue := Function.update s.readyQueue prio (some next) }) ?_ hsame
    refine ⟨?_, ?_, W.rings, W.nonempty⟩
    · intro q hq
      refine ⟨(W.bits q hq).1, ?_⟩
      by_cases hqp : q = prio
      · subst hqp
        exact ⟨next, Function.update_self ..⟩
      · obtain ⟨t, ht⟩ := (W.bits q hq).2
        exact ⟨t, by simpa [Function.update_of_ne hqp] using ht⟩
    · intro q t ht
      dsimp only at ht
      by_cases hqp : q = prio
      · subst hqp
        rw [Function.update_self, Option.some.injEq] at ht
        exact ht ▸ hcreated
      · rw [Function.update_of_ne hqp] at ht
        exact W.heads q t ht

/-- What a pick, however it goes on, keeps. -/
theorem Wf.picked {s s' : Scheduler64} {c : Cpu} {out : Outcome} (W : Wf s)
    (h : sched64Reschedule s c = (s', out)) :
    Wf s' ∧ ∀ t, (s'.threads t).rsp = (s.threads t).rsp := by
  have hwf := W.reschedule c
  have hrsp := sched64Reschedule_keeps (s := s) (c := c) Thread64.rsp fun _ _ => rfl
  rw [h] at hwf hrsp
  exact ⟨hwf, hrsp⟩

/-! ## Creation -/

/-- The schedulers that `sched64_init` and any number of successful or refused
calls of `sched64_create_thread` leave. -/
inductive Created (L : ThreadTable) : Scheduler64 → Prop
  | init (s : Scheduler64) : Created L (sched64Init s)
  | create {s s' : Scheduler64} {r : Option Tid} (h : Created L s) (priority cr3 : Nat)
      (hret : sched64CreateThread L s priority cr3 = (.ret r, s')) : Created L s'

theorem Created.next {L : ThreadTable} {s : Scheduler64} (h : Created L s) (priority cr3 : Nat)
    {r : Option Tid} (hret : (sched64CreateThread L s priority cr3).1 = .ret r) :
    Created L (sched64CreateThread L s priority cr3).2 :=
  .create h priority cr3 (Prod.ext hret rfl)

/-- What a call of `sched64_create_thread` that returns can have done. -/
theorem sched64CreateThread_cases {L : ThreadTable} {s s' : Scheduler64} {priority cr3 : Nat}
    {r : Option Tid} (h : sched64CreateThread L s priority cr3 = (.ret r, s')) :
    (r = none ∧ s' = s ∧ ¬ (s.threadCount < maxThreads64 ∧ priority < numPriorities64)) ∨
    ∃ t : Tid, r = some t ∧ t.val = s.threadCount ∧ priority < numPriorities64 ∧
      s'.threadCount = s.threadCount + 1 ∧ s'.readyBitmap = s.readyBitmap ||| 1 <<< priority ∧
      s'.current = s.current ∧
      ((s.readyQueue priority = none ∧
          s'.readyQueue = Function.update s.readyQueue priority (some t) ∧
          s'.threads = Function.update s.threads t (freshThread L t priority cr3 (some t))) ∨
        ∃ head tail, s.readyQueue priority = some head ∧
          findTail s.threads head loopFuel head = some tail ∧ s'.readyQueue = s.readyQueue ∧
          s'.threads = Function.update
            (Function.update s.threads tail { s.threads tail with next := some t })
            t (freshThread L t priority cr3 (some head))) := by
  unfold sched64CreateThread at h
  split at h
  · rename_i hroom
    right
    dsimp only at h
    cases hq : s.readyQueue priority with
    | none =>
      rw [hq] at h
      simp only [Prod.mk.injEq, Exit.ret.injEq] at h
      obtain ⟨hr, rfl⟩ := h
      exact ⟨_, hr.symm, rfl, hroom.2, rfl, rfl, rfl, Or.inl ⟨rfl, rfl, rfl⟩⟩
    | some head =>
      rw [hq] at h
      dsimp only at h
      cases htail : findTail s.threads head loopFuel head with
      | none =>
        rw [htail] at h
        simp at h
      | some tail =>
        rw [htail] at h
        simp only [Prod.mk.injEq, Exit.ret.injEq] at h
        obtain ⟨hr, rfl⟩ := h
        exact ⟨_, hr.symm, rfl, hroom.2, rfl, rfl, rfl,
          Or.inr ⟨head, tail, rfl, htail, rfl, rfl⟩⟩
  · rename_i hfull
    simp only [Prod.mk.injEq, Exit.ret.injEq] at h
    exact Or.inl ⟨h.1.symm, h.2.symm, hfull⟩

/-- Bit `priority` joins the bitmap. -/
theorem testBit_or_shift {bitmap priority q : Nat}
    (h : (bitmap ||| 1 <<< priority).testBit q = true) :
    q = priority ∨ bitmap.testBit q = true := by
  rw [Nat.testBit_or, Nat.one_shiftLeft, Nat.testBit_two_pow, Bool.or_eq_true,
    decide_eq_true_eq] at h
  rcases h with h | h
  · exact Or.inr h
  · exact Or.inl h.symm

theorem wf_sched64Init (s : Scheduler64) : Wf (sched64Init s) := by
  refine ⟨?_, ?_, ?_, ?_⟩ <;> simp [sched64Init]

/-- Creating a thread keeps the queues well formed. -/
theorem Wf.create {L : ThreadTable} {s s' : Scheduler64} {priority cr3 : Nat} {r : Option Tid}
    (W : Wf s) (h : sched64CreateThread L s priority cr3 = (.ret r, s')) : Wf s' := by
  rcases sched64CreateThread_cases h with
    ⟨_, rfl, _⟩ | ⟨t, _, ht, hprio, hcount, hbitmap, _, hring⟩
  · exact W
  have hbits : s'.readyBitmap ≠ 0 := by
    rw [hbitmap]
    intro hzero
    have hset : (s.readyBitmap ||| 1 <<< priority).testBit priority = true := by simp
    rw [hzero] at hset
    simp at hset
  have hold : ∀ u : Tid, u.val < s'.threadCount → u ≠ t → u.val < s.threadCount := by
    intro u hu hne
    have : u.val ≠ t.val := fun heq => hne (Fin.ext heq)
    omega
  rcases hring with ⟨hq, hqueue, hthreads⟩ | ⟨head, tail, hq, _, hqueue, hthreads⟩
  · refine ⟨?_, ?_, ?_, fun _ => hbits⟩
    · intro q hbit
      rw [hbitmap] at hbit
      rw [hqueue]
      by_cases hqp : q = priority
      · subst hqp
        exact ⟨hprio, t, Function.update_self ..⟩
      · rw [Function.update_of_ne hqp]
        exact W.bits q ((testBit_or_shift hbit).resolve_left hqp)
    · intro q u hu
      rw [hqueue] at hu
      by_cases hqp : q = priority
      · subst hqp
        rw [Function.update_self, Option.some.injEq] at hu
        subst hu
        omega
      · rw [Function.update_of_ne hqp] at hu
        have := W.heads q u hu
        omega
    · intro u hu
      rw [hthreads]
      by_cases hut : u = t
      · subst hut
        rw [Function.update_self]
        exact ⟨u, rfl, hu⟩
      · rw [Function.update_of_ne hut]
        obtain ⟨v, hv, hlt⟩ := W.rings u (hold u hu hut)
        exact ⟨v, hv, by omega⟩
  · refine ⟨?_, ?_, ?_, fun _ => hbits⟩
    · intro q hbit
      rw [hbitmap] at hbit
      rw [hqueue]
      rcases testBit_or_shift hbit with rfl | hbit
      · exact ⟨hprio, head, hq⟩
      · exact W.bits q hbit
    · intro q u hu
      rw [hqueue] at hu
      have := W.heads q u hu
      omega
    · intro u hu
      rw [hthreads]
      by_cases hut : u = t
      · subst hut
        have := W.heads priority head hq
        rw [Function.update_self]
        exact ⟨head, rfl, by omega⟩
      · rw [Function.update_of_ne hut]
        by_cases hutail : u = tail
        · subst hutail
          rw [Function.update_self]
          exact ⟨t, rfl, by omega⟩
        · rw [Function.update_of_ne hutail]
          obtain ⟨v, hv, hlt⟩ := W.rings u (hold u hu hut)
          exact ⟨v, hv, by omega⟩

theorem Created.wf {L : ThreadTable} {s : Scheduler64} (h : Created L s) : Wf s := by
  induction h with
  | init s => exact wf_sched64Init s
  | create _ _ _ hret ih => exact ih.create hret

/-- Creating threads makes none of them current. -/
theorem Created.current {L : ThreadTable} {s : Scheduler64} (h : Created L s) :
    ∀ c, s.current c = none := by
  induction h with
  | init s => exact fun _ => rfl
  | create _ _ _ hret ih =>
    rcases sched64CreateThread_cases hret with ⟨_, rfl, _⟩ | ⟨t, _, _, _, _, _, hcur, _⟩
    · exact ih
    · rw [hcur]
      exact ih

end NekaKernel.Sched
