/-
  Sched/Sched32.lean --- the 32-bit scheduler.

  Source: `sched.c`, with `thread_t` and `scheduler_t` from `kernel.h`.

  This is the scheduler of the first, cooperative kernel: one CPU, no lock and no
  address spaces.  As in `Sched/Scheduler.lean` a thread is its index in
  `threads[]` and a null pointer is `none`; the stack array and the `name` of a
  thread are not fields, and the switch of stacks at the end of
  `sched_reschedule` is an outcome.
-/
import NekaKernel.Sched.Scheduler

set_option autoImplicit false

namespace NekaKernel.Sched32

open NekaKernel.Kernel NekaKernel.Sched

/-! ## Data -/

/-- `NUM_PRIORITIES`. -/
def numPriorities : Nat := 8

/-- `MAX_THREADS`. -/
def maxThreads : Nat := 16

/-- `STACK_SIZE`. -/
def stackSize : Nat := 4096

/-- `thread_state_t`. -/
inductive ThreadState where
  | THREAD_UNUSED
  | THREAD_READY
  | THREAD_RUNNING
  | THREAD_SUSPENDED
  deriving DecidableEq, Repr, Inhabited

/-- `thread_t`. -/
structure Thread where
  esp : Nat := 0
  priority : Nat := 0
  state : ThreadState := .THREAD_UNUSED
  timeSlice : Nat := 0
  next : Option Tid := none
  deriving DecidableEq, Repr, Inhabited

/-- `sizeof(thread_t)`: 16 bytes of fields, the stack, then `name` and `next`. -/
def sizeofThread : Nat := 4120

/-- The offset of `stack` in `thread_t`. -/
def stackOffset : Nat := 16

/-- Where the linker put `threads[]`. -/
structure ThreadTable where
  base : Nat
  base_pos : 0 < base
  in_range : base + maxThreads * sizeofThread < 2 ^ 32

/-- `&t->stack[STACK_SIZE / 4]`. -/
def ThreadTable.stackTop (L : ThreadTable) (t : Tid) : Nat :=
  L.base + t * sizeofThread + stackOffset + stackSize

/-- The statics of `sched.c`: `the_scheduler`, `threads[]` and `thread_count`. -/
structure Scheduler where
  readyBitmap : Nat
  readyQueue : Nat → Option Tid
  current : Option Tid
  threads : Tid → Thread
  threadCount : Nat

/-- Change one thread. -/
def Scheduler.modify (s : Scheduler) (t : Tid) (f : Thread → Thread) : Scheduler :=
  { s with threads := Function.update s.threads t (f (s.threads t)) }

/-! ## The functions -/

/-- The loop of `find_highest_bit`: the highest set bit at or below `pos`. -/
def scanDown (bitmap : Nat) : Nat → Nat
  | 0 => 0
  | pos + 1 => if bitmap.testBit (pos + 1) then pos + 1 else scanDown bitmap pos

/-- `find_highest_bit`, `none` being `-1`. -/
def findHighestBit (bitmap : Nat) : Option Nat :=
  if bitmap = 0 then none else some (scanDown bitmap 31)

/-- `sched_init`.  It leaves `threads[]` as it is. -/
def schedInit (s : Scheduler) : Scheduler :=
  { s with readyBitmap := 0, readyQueue := fun _ => none, current := none, threadCount := 0 }

/-- The statics after `sched_init`, on the zeroes the loader leaves. -/
def Scheduler.booted : Scheduler := schedInit ⟨0, fun _ => none, none, fun _ => {}, 0⟩

/-- `while (tail->next != head) tail = tail->next`.  `none` means that the loop
has not ended after `fuel` iterations or has run into a null pointer. -/
def findTail (threads : Tid → Thread) (head : Tid) : Nat → Tid → Option Tid
  | 0, _ => none
  | fuel + 1, tail =>
      match (threads tail).next with
      | none => none
      | some n => if n = head then some tail else findTail threads head fuel n

/-- The thread `sched_create_thread` fills in: five slots for registers and the
address of `entry` are on its stack. -/
def freshThread (L : ThreadTable) (t : Tid) (priority : Nat) (next : Option Tid) : Thread where
  esp := L.stackTop t - 24
  priority := priority
  state := .THREAD_READY
  timeSlice := 5
  next := next

/-- `sched_create_thread`. -/
def schedCreateThread (L : ThreadTable) (s : Scheduler) (priority : Nat) :
    Exit (Option Tid) × Scheduler :=
  if h : s.threadCount < maxThreads ∧ priority < numPriorities then
    let t : Tid := ⟨s.threadCount, h.1⟩
    let s := { s with threadCount := s.threadCount + 1 }
    match s.readyQueue priority with
    | none =>
        let s := s.modify t fun _ => freshThread L t priority (some t)
        (.ret (some t), { s with
          readyQueue := Function.update s.readyQueue priority (some t)
          readyBitmap := s.readyBitmap ||| 1 <<< priority })
    | some head =>
        match findTail s.threads head loopFuel head with
        | none => (.hang, s)
        | some tail =>
            let s := s.modify tail fun th => { th with next := some t }
            let s := s.modify t fun _ => freshThread L t priority (some head)
            (.ret (some t), { s with readyBitmap := s.readyBitmap ||| 1 <<< priority })
  else (.ret none, s)

/-- The round-robin step of `sched_reschedule`. -/
def pickNext (s : Scheduler) (prio : Nat) (head : Tid) (prev : Option Tid) :
    Option Tid × Scheduler :=
  if some head = prev ∧ (s.threads head).next ≠ some head then
    ((s.threads head).next, { s with
      readyQueue := Function.update s.readyQueue prio (s.threads head).next })
  else (some head, s)

/-- `if (prev) prev->state = THREAD_READY`. -/
def markReady (s : Scheduler) : Option Tid → Scheduler
  | some p => s.modify p fun th => { th with state := .THREAD_READY }
  | none => s

/-- `sched_reschedule`, up to `context_switch`. -/
def schedReschedule (s : Scheduler) : Scheduler × Outcome :=
  match findHighestBit s.readyBitmap with
  | none => (s, .idle)
  | some prio =>
      let prev := s.current
      match s.readyQueue prio with
      | none => (s, .fault)
      | some head =>
          match pickNext s prio head prev with
          | (none, s) => (s, .fault)
          | (some next, s) =>
              if some next = prev then (s, .same)
              else
                let s := { s with current := some next }
                let s := s.modify next fun th => { th with state := .THREAD_RUNNING }
                (markReady s prev, .switch prev next)

/-- `sched_timer_tick`, with the outcome of its reschedule if it makes one. -/
def schedTimerTick (s : Scheduler) : Scheduler × Option Outcome :=
  match s.current with
  | none => (s, none)
  | some cur =>
      if 0 < (s.threads cur).timeSlice then
        if (s.threads cur).timeSlice - 1 = 0 then
          let (s, out) := schedReschedule (s.modify cur fun th => { th with timeSlice := 5 })
          (s, some out)
        else (s.modify cur fun th => { th with timeSlice := th.timeSlice - 1 }, none)
      else (s, none)

end NekaKernel.Sched32
