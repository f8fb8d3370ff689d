/-
  Sched/Simulation.lean --- the two schedulers run in lockstep.

  Source: `sched.c` and `sched64.c`.

  `Sim c s s64` says that the 32-bit statics `s` and the 64-bit statics `s64`, seen
  from CPU `c`, agree in everything both have: bitmap, queue heads, current thread,
  number of threads, and priority, state, time slice and link of every thread.
  Each function of one keeps it together with its counterpart, and both give the
  same answer, so it holds along any requests.
-/
import NekaKernel.Sched.Queues
import NekaKernel.Sched.Sched32

set_option autoImplicit false

namespace NekaKernel.Sched

open NekaKernel.Foundation NekaKernel.Kernel

/-! ## Requests -/

/-- What the kernel asks of a scheduler.  `cr3` is what `create_address_space()`
returns in the 64-bit kernel; the 32-bit one has no address spaces. -/
inductive Request where
  | createThread (priority cr3 : Nat)
  | reschedule
  | timerTick
  deriving DecidableEq, Repr

/-- What a request answers: the thread that was created, or the context switch
that was made, with the threads it leaves and enters. -/
inductive Response where
  | created (thread : Option Tid)
  | switched (threads : Option (Option Tid × Tid))
  deriving DecidableEq, Repr

/-- The context switch of an outcome; a null pointer answers nothing. -/
def Outcome.respond : Outcome → Option Response
  | .idle => some (.switched none)
  | .same => some (.switched none)
  | .switch prev next => some (.switched (some (prev, next)))
  | .fault => none

/-- A request to the 64-bit scheduler on CPU `c`, with the NKern lock free. -/
def request64 (L : ThreadTable) (c : Cpu) (s : Scheduler64) :
    Request → Option (Scheduler64 × Response)
  | .createThread priority cr3 =>
      match sched64CreateThread L s priority cr3 with
      | (.ret t, s) => some (s, .created t)
      | _ => none
  | .reschedule => (sched64Reschedule s c).2.respond.map fun r => ((sched64Reschedule s c).1, r)
  | .timerTick =>
      match sched64TimerTick s c false with
      | (s, .reschedule) =>
        (sched64Reschedule s c).2.respond.map fun r => ((sched64Reschedule s c).1, r)
      | (s, _) => some (s, .switched none)

/-- A request to the 32-bit scheduler. -/
def request32 (L : Sched32.ThreadTable) (s : Sched32.Scheduler) :
    Request → Option (Sched32.Scheduler × Response)
  | .createThread priority _ =>
      match Sched32.schedCreateThread L s priority with
      | (.ret t, s) => some (s, .created t)
      | _ => none
  | .reschedule =>
    (Sched32.schedReschedule s).2.respond.map fun r => ((Sched32.schedReschedule s).1, r)
  | .timerTick =>
      match Sched32.schedTimerTick s with
      | (s, some out) => out.respond.map fun r => (s, r)
      | (s, none) => some (s, .switched none)

/-! ## The relation -/

/-- The 64-bit name of a thread state; `THREAD_SUSPENDED` has none. -/
def state64 : Sched32.ThreadState → Option ThreadState
  | .THREAD_UNUSED => some .T64_UNUSED
  | .THREAD_READY => some .T64_READY
  | .THREAD_RUNNING => some .T64_RUNNING
  | .THREAD_SUSPENDED => none

/-- The two threads agree in what both have. -/
structure SameThread (th : Sched32.Thread) (th64 : Thread64) : Prop where
  priority : th64.priority = th.priority
  state : state64 th.state = some th64.state
  timeSlice : th64.timeSlice = th.timeSlice
  next : th64.next = th.next

/-- The two schedulers agree in what both have. -/
structure Sim (c : Cpu) (s : Sched32.Scheduler) (s64 : Scheduler64) : Prop where
  readyBitmap : s64.readyBitmap = s.readyBitmap
  readyQueue : s64.readyQueue = s.readyQueue
  current : s64.current c = s.current
  threadCount : s64.threadCount = s.threadCount
  threads : ∀ t, SameThread (s.threads t) (s64.threads t)

section Sim

variable {c : Cpu} {s : Sched32.Scheduler} {s64 : Scheduler64}

/-- The same change of a thread on both sides. -/
theorem Sim.modify (S : Sim c s s64) (t : Tid) (f : Sched32.Thread → Sched32.Thread)
    (g : Thread64 → Thread64) (hfg : SameThread (f (s.threads t)) (g (s64.threads t))) :
    Sim c (s.modify t f) (s64.modify t g) := by
  refine ⟨S.readyBitmap, S.readyQueue, S.current, S.threadCount, fun u => ?_⟩
  unfold Sched32.Scheduler.modify Scheduler64.modify
  by_cases hu : u = t
  · subst hu
    simpa using hfg
  · simpa [Function.update_of_ne hu] using S.threads u

theorem scanDown_same (bitmap : Nat) :
    ∀ pos, Sched32.scanDown bitmap pos = scanDown bitmap pos := by
  intro pos
  induction pos with
  | zero => rfl
  | succ pos ih => rw [Sched32.scanDown, scanDown, ih]

theorem findHighestBit_same (bitmap : Nat) :
    Sched32.findHighestBit bitmap = findHighestBit64 bitmap := by
  unfold Sched32.findHighestBit findHighestBit64
  rw [scanDown_same]

theorem findTail_same {threads : Tid → Sched32.Thread} {threads64 : Tid → Thread64}
    (h : ∀ t, (threads64 t).next = (threads t).next) (head : Tid) :
    ∀ fuel tail, findTail threads64 head fuel tail =
      Sched32.findTail threads head fuel tail := by
  intro fuel
  induction fuel with
  | zero =>
    intro tail
    rfl
  | succ fuel ih =>
    intro tail
    rw [findTail, Sched32.findTail, h tail]
    cases (threads tail).next with
    | none => rfl
    | some n =>
      dsimp only
      rw [ih n]

theorem sameThread_fresh (L : ThreadTable) (L32 : Sched32.ThreadTable) (t : Tid)
    (priority cr3 : Nat) (next : Option Tid) :
    SameThread (Sched32.freshThread L32 t priority next) (freshThread L t priority cr3 next) :=
  ⟨rfl, rfl, rfl, rfl⟩

/-- **Creation.**  Both refuse, both return the same thread, or both search for ever. -/
theorem Sim.create (S : Sim c s s64) (L : ThreadTable) (L32 : Sched32.ThreadTable)
    (priority cr3 : Nat) :
    (sched64CreateThread L s64 priority cr3).1 = (Sched32.schedCreateThread L32 s priority).1 ∧
      Sim c (Sched32.schedCreateThread L32 s priority).2
        (sched64CreateThread L s64 priority cr3).2 := by
  obtain ⟨bitmap64, queue64, current64, threads64, count64, loaded64, registers64⟩ := s64
  obtain ⟨hbitmap, hqueue, hcurrent, hcount, hthreads⟩ := S
  dsimp only at hbitmap hqueue hcurrent hcount hthreads
  subst hbitmap hqueue hcount
  unfold sched64CreateThread Sched32.schedCreateThread
  by_cases hroom : s.threadCount < maxThreads64 ∧ priority < numPriorities64
  · rw [dif_pos hroom, dif_pos (show s.threadCount < Sched32.maxThreads ∧
      priority < Sched32.numPriorities from hroom)]
    dsimp only
    -- the two statics without the new thread, but with its number counted
    have S₁ : Sim c { s with threadCount := s.threadCount + 1 }
        ⟨s.readyBitmap, s.readyQueue, current64, threads64, s.threadCount + 1, loaded64,
          registers64⟩ :=
      ⟨rfl, rfl, hcurrent, rfl, hthreads⟩
    cases s.readyQueue priority with
    | none =>
      have S₂ := S₁.modify ⟨s.threadCount, hroom.1⟩ (fun _ => _) (fun _ => _)
        (sameThread_fresh L L32 ⟨s.threadCount, hroom.1⟩ priority cr3
          (some ⟨s.threadCount, hroom.1⟩))
      exact ⟨rfl, rfl, rfl, S₂.current, S₂.threadCount, S₂.threads⟩
    | some head =>
      dsimp only
      rw [findTail_same (fun t => (hthreads t).next) head]
      cases Sched32.findTail s.threads head loopFuel head with
      | none => exact ⟨rfl, S₁⟩
      | some tail =>
        have htail : SameThread { s.threads tail with next := some ⟨s.threadCount, hroom.1⟩ }
            { threads64 tail with next := some ⟨s.threadCount, hroom.1⟩ } :=
          ⟨(hthreads tail).priority, (hthreads tail).state, (hthreads tail).timeSlice, rfl⟩
        have S₂ := S₁.modify tail (fun th => { th with next := some ⟨s.threadCount, hroom.1⟩ })
          (fun th => { th with next := some ⟨s.threadCount, hroom.1⟩ }) htail
        have S₃ := S₂.modify ⟨s.threadCount, hroom.1⟩ (fun _ => _) (fun _ => _)
          (sameThread_fresh L L32 ⟨s.threadCount, hroom.1⟩ priority cr3 (some head))
        exact ⟨rfl, rfl, S₃.readyQueue, S₃.current, S₃.threadCount, S₃.threads⟩
  · rw [dif_neg hroom, dif_neg
      (show ¬ (s.threadCount < Sched32.maxThreads ∧ priority < Sched32.numPriorities)
        from hroom)]
    exact ⟨rfl, rfl, rfl, hcurrent, rfl, hthreads⟩

theorem Sim.pick (S : Sim c s s64) (prio : Nat) (head : Tid) (prev : Option Tid) :
    (pickNext s64 prio head prev).1 = (Sched32.pickNext s prio head prev).1 ∧
      Sim c (Sched32.pickNext s prio head prev).2 (pickNext s64 prio head prev).2 := by
  unfold pickNext Sched32.pickNext
  rw [(S.threads head).next]
  split
  · refine ⟨rfl, S.readyBitmap, ?_, S.current, S.threadCount, S.threads⟩
    dsimp only
    rw [S.readyQueue]
  · exact ⟨rfl, S⟩

theorem Sim.markReady (S : Sim c s s64) (p : Option Tid) :
    Sim c (Sched32.markReady s p) (markReady s64 p) := by
  cases p with
  | none => exact S
  | some p =>
    exact S.modify p (fun th => { th with state := .THREAD_READY })
      (fun th => { th with state := .T64_READY })
      ⟨(S.threads p).priority, rfl, (S.threads p).timeSlice, (S.threads p).next⟩

/-- The reload of CR3 is not seen. -/
theorem Sim.loadCr3 (S : Sim c s s64) (d : Cpu) (t : Tid) : Sim c s (loadCr3 s64 d t) := by
  have F : SameQueues s64 (Sched.loadCr3 s64 d t) := loadCr3_frame
  refine ⟨?_, ?_, ?_, ?_, ?_⟩
  · rw [F.readyBitmap, S.readyBitmap]
  · rw [F.readyQueue, S.readyQueue]
  · rw [F.current, S.current]
  · rw [F.threadCount, S.threadCount]
  · rw [loadCr3_threads]
    exact S.threads

/-- **Reschedule.**  Both go the same way. -/
theorem Sim.reschedule (S : Sim c s s64) :
    (sched64Reschedule s64 c).2 = (Sched32.schedReschedule s).2 ∧
      Sim c (Sched32.schedReschedule s).1 (sched64Reschedule s64 c).1 := by
  unfold sched64Reschedule Sched32.schedReschedule
  rw [findHighestBit_same, S.readyBitmap, S.readyQueue, S.current]
  cases findHighestBit64 s.readyBitmap with
  | none => exact ⟨rfl, S⟩
  | some prio =>
    dsimp only
    cases s.readyQueue prio with
    | none => exact ⟨rfl, S⟩
    | some head =>
      dsimp only
      obtain ⟨hpick, Spick⟩ := S.pick prio head s.current
      generalize pickNext s64 prio head s.current = picked64 at hpick Spick
      generalize Sched32.pickNext s prio head s.current = picked at hpick Spick
      obtain ⟨next, t⟩ := picked
      obtain ⟨next64, t64⟩ := picked64
      obtain rfl : next64 = next := hpick
      cases next64 with
      | none => exact ⟨rfl, Spick⟩
      | some next =>
        dsimp only
        split
        · exact ⟨rfl, Spick⟩
        · have S₁ : Sim c { t with current := some next }
              { t64 with current := Function.update t64.current c (some next) } :=
            ⟨Spick.readyBitmap, Spick.readyQueue, Function.update_self _ _ _, Spick.threadCount,
              Spick.threads⟩
          have hthread := Spick.threads next
          have S₂ := S₁.modify next (fun th => { th with state := .THREAD_RUNNING })
            (fun th => { th with state := .T64_RUNNING })
            ⟨hthread.priority, rfl, hthread.timeSlice, hthread.next⟩
          exact ⟨rfl, (S₂.markReady s.current).loadCr3 c next⟩

/-- **Tick.**  Both reschedule at the same ticks, in related states. -/
theorem Sim.tick (S : Sim c s s64) :
    (∃ t, (sched64TimerTick s64 c false) = (t, .nothing) ∧
      (Sched32.schedTimerTick s).2 = none ∧ Sim c (Sched32.schedTimerTick s).1 t) ∨
    ∃ t t32, sched64TimerTick s64 c false = (t, .reschedule) ∧ Sim c t32 t ∧
      Sched32.schedTimerTick s =
        ((Sched32.schedReschedule t32).1, some (Sched32.schedReschedule t32).2) := by
  unfold sched64TimerTick Sched32.schedTimerTick
  rw [S.current]
  cases s.current with
  | none => exact Or.inl ⟨s64, rfl, rfl, S⟩
  | some cur =>
    dsimp only
    have hthread := S.threads cur
    rw [hthread.timeSlice]
    split
    · split
      · refine Or.inr ⟨_, s.modify cur fun th => { th with timeSlice := 5 }, rfl, ?_, rfl⟩
        exact S.modify cur (fun th => { th with timeSlice := 5 })
          (fun th => { th with timeSlice := 5 })
          ⟨hthread.priority, hthread.state, rfl, hthread.next⟩
      · refine Or.inl ⟨_, rfl, rfl, ?_⟩
        exact S.modify cur (fun th => { th with timeSlice := th.timeSlice - 1 })
          (fun th => { th with timeSlice := th.timeSlice - 1 })
          ⟨hthread.priority, hthread.state, congrArg (· - 1) hthread.timeSlice, hthread.next⟩
    · exact Or.inl ⟨s64, rfl, rfl, S⟩

/-! ## One request -/

/-- A reschedule of the 64-bit scheduler always answers. -/
theorem Wf.responds (W : Wf s64) (c : Cpu) :
    ∃ r, (sched64Reschedule s64 c).2.respond = some r := by
  rcases sched64Reschedule_outcomes W c with hidle | ⟨t, hsame, -⟩ | ⟨t, next, hswitch, -⟩
  · rw [hidle]
    exact ⟨_, rfl⟩
  · rw [hsame]
    exact ⟨_, rfl⟩
  · rw [hswitch]
    exact ⟨_, rfl⟩

/-- Related, with the 64-bit queues intact. -/
def InStep (c : Cpu) (s : Sched32.Scheduler) (s64 : Scheduler64) : Prop :=
  Sim c s s64 ∧ ∃ q, Represents s64 q

/-- **Step.**  Every request gets the same answer from both, in related states. -/
theorem InStep.request (h : InStep c s s64) (L : ThreadTable) (L32 : Sched32.ThreadTable)
    (a : Request) :
    ∃ t t64 r, request32 L32 s a = some (t, r) ∧ request64 L c s64 a = some (t64, r) ∧
      InStep c t t64 := by
  obtain ⟨S, q, R⟩ := h
  cases a with
  | createThread priority cr3 =>
    obtain ⟨r, t64, hret⟩ := R.create_returns (L := L) priority cr3
    obtain ⟨hexit, hsim⟩ := S.create L L32 priority cr3
    rw [hret] at hexit hsim
    refine ⟨(Sched32.schedCreateThread L32 s priority).2, t64, .created r, ?_, ?_, hsim, _,
      R.create hret⟩
    · have hret32 : Sched32.schedCreateThread L32 s priority =
          (.ret r, (Sched32.schedCreateThread L32 s priority).2) := Prod.ext hexit.symm rfl
      rw [request32, hret32]
    · rw [request64, hret]
  | reschedule =>
    obtain ⟨hout, hsim⟩ := S.reschedule
    obtain ⟨r, hr⟩ := R.wf.responds c
    refine ⟨_, _, r, ?_, ?_, hsim, _, R.reschedule c⟩
    · rw [request32, ← hout, hr]
      rfl
    · rw [request64, hr]
      rfl
  | timerTick =>
    have Rtick := R.tick c false
    rcases S.tick with ⟨t64, htick, hnone, hsim⟩ | ⟨t64, t, htick, hsim, htick32⟩
    · rw [Scheduler64.apply, htick] at Rtick
      refine ⟨(Sched32.schedTimerTick s).1, t64, .switched none, ?_, ?_, hsim, _, Rtick⟩
      · have htick32 : Sched32.schedTimerTick s = ((Sched32.schedTimerTick s).1, none) :=
          Prod.ext rfl hnone
        rw [request32, htick32]
      · rw [request64, htick]
    · rw [Scheduler64.apply, htick] at Rtick
      obtain ⟨hout, hsim'⟩ := hsim.reschedule
      have W : Wf t64 := by
        have hframe : SameQueues s64 (sched64TimerTick s64 c false).1 :=
          sched64TimerTick_frame false
        rw [htick] at hframe
        exact R.wf.congr hframe
      obtain ⟨r, hr⟩ := W.responds c
      refine ⟨(Sched32.schedReschedule t).1, (sched64Reschedule t64 c).1, r, ?_, ?_,
        hsim', _, Rtick⟩
      · rw [request32, htick32, ← hout]
        dsimp only
        rw [hr]
        rfl
      · rw [request64, htick]
        dsimp only
        rw [hr]
        rfl

end Sim

/-- **The two schedulers simulate each other.**  Any requests, made to the 32-bit
scheduler and to the 64-bit scheduler on one CPU, are all answered, with the same
creations and the same context switches, and leave both with the same current
thread, bitmap, rings, states and time slices. -/
theorem sched64_simulates_sched (L : ThreadTable) (L32 : Sched32.ThreadTable) (c : Cpu)
    (s64 : Scheduler64) (requests : List Request) :
    ∃ t t64 out, execOut (request32 L32) .booted requests = some (t, out) ∧
      execOut (request64 L c) (sched64Init { s64 with threads := fun _ => {} }) requests =
        some (t64, out) ∧
      Sim c t t64 := by
  have hboot : InStep c .booted (sched64Init { s64 with threads := fun _ => {} }) := by
    refine ⟨⟨rfl, rfl, rfl, rfl, fun t => ⟨rfl, rfl, rfl, rfl⟩⟩, _, represents_init _⟩
  obtain ⟨t, t64, out, h32, h64, S, -⟩ :=
    execOut_lockstep (R := InStep c) (fun s s64 a h => h.request L L32 a) requests hboot
  exact ⟨t, t64, out, h32, h64, S⟩

end NekaKernel.Sched
