/-
  Context/Ring3.lean --- the kernel stack of threads in ring 3.

  Source: `gdt64.c`, `isr.s`, `usermode.s`, and `thread_ring3_launcher` and
  `user_program` of `main64.c` and `paging64.c` for the runs at the end.

  RSP0 is set once for each CPU and `sched64_reschedule` does not move it, so all
  threads that are interrupted in ring 3 start on the same words of `kstack0`.  The
  frames of suspended threads survive exactly as long as nobody else gets there.
-/
import Mathlib.Tactic.IntervalCases
import NekaKernel.Context.Stacks

set_option autoImplicit false

namespace NekaKernel.Context

open NekaKernel.Foundation NekaKernel.Kernel NekaKernel.Sched

/-- **Frames survive.**  In a run whose ring-3 interrupts all find the CPU's
`kstack0` free of suspended threads, the interrupt frame and the saved context of
every suspended thread stay as they were. -/
theorem frames_intact {L : Layout} {c : Cpu} {m : Machine}
    (r : Reach (Boot L c) (step L c) (fun m a => Confined L c m a ∧ KstackFree L c m a) m) :
    FramesIntact L c m :=
  (r.invariant (fun _ h => inv_of_boot h) (fun _ _ _ I hok h => inv_step I hok h)).intact

/-! ## Two launchers -/

/-- `thread_start64` and `thread_ring3_launcher` up to `enter_usermode(USER_CODE_VA,
USER_STACK_TOP)`. -/
def launcher (s : State) : State :=
  { (s.setReg .rdi 0x50000000).setReg .rsi 0x50002000 with rsp := s.rsp - 48 }

/-- `user_program` up to its `jmp`: one `int 0x80` later. -/
def userProgram (s : State) : State :=
  { (s.setReg .rax 1).setReg .rdi 0x58 with rip := 0x5000000C }

/-- Two launchers are created and the first one is interrupted in its user
program; the timer's reschedule starts the second, which is interrupted as soon
as it is in ring 3. -/
def twoLaunchers : List Act :=
  [.create 0x102000 5 0x80000, .create 0x102000 5 0x90000, .reschedule, .run launcher,
    .enterUsermode, .run userProgram, .interrupt 32 0, .reschedule, .run launcher,
      .enterUsermode,
    .interrupt 32 0]

theorem confined_enterUsermode {m : Machine} {t : Tid} {rsp : Nat} {on : Bool}
    (hview : m.view = (some t, rsp, on)) (hlo : stacksAt3M.stackBase t + 40 ≤ rsp)
    (hhi : rsp ≤ stacksAt3M.stackTop t) : Confined stacksAt3M 0 m .enterUsermode := by
  have hcur : m.sched.current 0 = some t := congrArg Prod.fst hview
  have hrsp : m.cpu.rsp.toNat = rsp := congrArg (fun v => v.2.1) hview
  refine ⟨by omega, fun x hxlo hxhi => Or.inl ⟨t, hcur, ?_, ?_⟩⟩ <;> omega

theorem switchRoom_kstack0 {m : Machine} {t : Tid} {rsp : Nat}
    (hview : m.view = (some t, rsp, true)) (hlo : 56 ≤ rsp)
    (hk : stacksAt3M.InKstack0 0 (rsp - 56)) (hhi : rsp + 8 ≤ stacksAt3M.kstackTop 0) :
    SwitchRoom stacksAt3M 0 m := by
  have hcur : m.sched.current 0 = some t := congrArg Prod.fst hview
  have hrsp : m.cpu.rsp.toNat = rsp := congrArg (fun v => v.2.1) hview
  have hon : m.onKstack0 = true := congrArg (fun v => v.2.2) hview
  unfold SwitchRoom
  rw [hcur, hrsp]
  exact Or.inr ⟨hon, hlo, hk, hhi⟩

/-- The stack each switch and each trap starts from, and what the two traps leave. -/
theorem twoLaunchers_run :
    (Foundation.exec (step stacksAt3M 0) bootMachine (twoLaunchers.take 2)).map Machine.view =
        some (none, 0x180000, false) ∧
      (Foundation.exec (step stacksAt3M 0) bootMachine (twoLaunchers.take 4)).map Machine.view =
        some (some 0, 0x301FE0, false) ∧
      (Foundation.exec (step stacksAt3M 0) bootMachine (twoLaunchers.take 6)).map
          (fun m => (m.sched.current 0, m.sched.threadCount, (m.sched.threads 1).rsp)) =
        some (some 0, 2, 0x304000) ∧
      (Foundation.exec (step stacksAt3M 0) bootMachine (twoLaunchers.take 7)).map Machine.view =
        some (some 0, 0x241F48, true) ∧
      (Foundation.exec (step stacksAt3M 0) bootMachine (twoLaunchers.take 8)).map
          (fun m => (m.sched.current 0, m.sched.threadCount, (m.sched.threads 0).rsp)) =
        some (some 1, 2, 0x241F10) ∧
      (Foundation.exec (step stacksAt3M 0) bootMachine (twoLaunchers.take 9)).map Machine.view =
        some (some 1, 0x304010, false) ∧
      (Foundation.exec (step stacksAt3M 0) bootMachine twoLaunchers).map
          (fun m => (m.sched.current 0, m.sched.threadCount, (m.sched.threads 0).rsp,
            (m.image 0).word (stacksAt3M.kstackTop 0 - 40),
            m.cpu.mem.word (stacksAt3M.kstackTop 0 - 40))) =
        some (some 1, 2, 0x241F10, 0x5000000C, 0x50000000) := by
  refine ⟨?_, ?_, ?_, ?_, ?_, ?_, ?_⟩ <;> decide +kernel

/-- The steps write only to the stacks they are on. -/
theorem confined_twoLaunchers (k : Nat) (m : Machine) (a : Act) (ha : twoLaunchers[k]? = some a)
    (hm : Foundation.exec (step stacksAt3M 0) bootMachine (twoLaunchers.take k) = some m) :
    Confined stacksAt3M 0 m a := by
  have hk : k < 11 := (List.getElem?_eq_some_iff.mp ha).1
  obtain ⟨hboot, hfirst, -, htrap, -, hsecond, -⟩ := twoLaunchers_run
  interval_cases k <;> cases ha
  · trivial
  · trivial
  · have hv : m.view = (none, 0x180000, false) := view_of_exec hm hboot
    exact fun _ _ _ => switchRoom_boot hv (by decide) (by decide)
  · exact fun _ _ => rfl
  · have hv : m.view = (some 0, 0x301FE0, false) := view_of_exec hm hfirst
    exact confined_enterUsermode hv (by decide) (by decide)
  · exact fun _ _ => rfl
  · trivial
  · have hv : m.view = (some 0, 0x241F48, true) := view_of_exec hm htrap
    exact fun _ _ _ => switchRoom_kstack0 hv (by decide) (by decide) (by decide)
  · exact fun _ _ => rfl
  · have hv : m.view = (some 1, 0x304010, false) := view_of_exec hm hsecond
    exact confined_enterUsermode hv (by decide) (by decide)
  · trivial

/-- At the first interrupt the other launcher has not run: it is on its own
stack. -/
theorem free_firstTrap {m : Machine} {vector errorCode : UInt64}
    (hm : Foundation.exec (step stacksAt3M 0) bootMachine (twoLaunchers.take 6) = some m) :
    KstackFree stacksAt3M 0 m (.interrupt vector errorCode) := by
  have hrun := twoLaunchers_run.2.2.1
  rw [hm] at hrun
  have hfacts := Option.some.inj hrun
  have hcur : m.sched.current 0 = some 0 := congrArg Prod.fst hfacts
  have hcount : m.sched.threadCount = 2 := congrArg (fun v => v.2.1) hfacts
  have hrsp : (m.sched.threads 1).rsp = 0x304000 := congrArg (fun v => v.2.2) hfacts
  rintro t ⟨hlt, hne⟩
  rw [hcount] at hlt
  rw [hcur] at hne
  have ht : t = 1 := by
    have hzero : t.val ≠ 0 := fun heq => hne (congrArg some (Fin.ext heq.symm))
    exact Fin.ext (show t.val = 1 by omega)
  rw [ht, hrsp]
  decide

/-- One launcher, interrupted and suspended while the other is still in the
kernel: its frame is on `kstack0`, and intact. -/
theorem frames_intact_one_launcher :
    ∃ m, Foundation.exec (step stacksAt3M 0) bootMachine (twoLaunchers.take 8) = some m ∧
      Suspended 0 m 0 ∧ stacksAt3M.InKstack0 0 (m.sched.threads 0).rsp ∧
      FramesIntact stacksAt3M 0 m := by
  obtain ⟨-, -, -, -, hrun, -⟩ := twoLaunchers_run
  obtain ⟨m, hm, hfacts⟩ := Option.map_eq_some_iff.mp hrun
  have hcur : m.sched.current 0 = some 1 := congrArg Prod.fst hfacts
  have hcount : m.sched.threadCount = 2 := congrArg (fun v => v.2.1) hfacts
  have hrsp : (m.sched.threads 0).rsp = 0x241F10 := congrArg (fun v => v.2.2) hfacts
  refine ⟨m, hm, ⟨?_, ?_⟩, ?_, frames_intact (L := stacksAt3M) (c := 0) ?_⟩
  · rw [hcount]
    decide
  · rw [hcur]
    decide
  · rw [hrsp]
    decide
  · refine Reach.exec (.start boot_bootMachine) (fun k m a ha hmk => ?_) hm
    have hk : k < 8 := (List.getElem?_eq_some_iff.mp ha).1
    have htake : (twoLaunchers.take 8).take k = twoLaunchers.take k := by
      rw [List.take_take, Nat.min_eq_left (Nat.le_of_lt hk)]
    have ha' : twoLaunchers[k]? = some a := by
      rw [← ha, List.getElem?_take_of_lt hk]
    rw [htake] at hmk
    refine ⟨confined_twoLaunchers k m a ha' hmk, ?_⟩
    by_cases hsix : k = 6
    · subst hsix
      cases ha'
      exact free_firstTrap hmk
    · interval_cases k <;> first
        | exact absurd rfl hsix
        | cases ha'
          trivial

/-- **Two launchers.**  The second interrupt from ring 3 starts at the RSP0 of the
first and overwrites its frame: the suspended thread, interrupted at
`USER_CODE_VA + 12`, would return to `USER_CODE_VA`. -/
theorem second_trap_overwrites_frame :
    ∃ m, Reach (Boot stacksAt3M 0) (step stacksAt3M 0) (Confined stacksAt3M 0) m ∧
      Suspended 0 m 0 ∧
      (m.image 0).word (stacksAt3M.kstackTop 0 - 40) = 0x5000000C ∧
      m.cpu.mem.word (stacksAt3M.kstackTop 0 - 40) = 0x50000000 ∧
      ¬ FramesIntact stacksAt3M 0 m := by
  obtain ⟨-, -, -, -, -, -, hrun⟩ := twoLaunchers_run
  obtain ⟨m, hm, hfacts⟩ := Option.map_eq_some_iff.mp hrun
  have hcur : m.sched.current 0 = some 1 := congrArg Prod.fst hfacts
  have hcount : m.sched.threadCount = 2 := congrArg (fun v => v.2.1) hfacts
  have hrsp : (m.sched.threads 0).rsp = 0x241F10 := congrArg (fun v => v.2.2.1) hfacts
  have himage : (m.image 0).word (stacksAt3M.kstackTop 0 - 40) = 0x5000000C :=
    congrArg (fun v => v.2.2.2.1) hfacts
  have hmem : m.cpu.mem.word (stacksAt3M.kstackTop 0 - 40) = 0x50000000 :=
    congrArg (fun v => v.2.2.2.2) hfacts
  have hsuspended : Suspended 0 m 0 := by
    unfold Suspended
    rw [hcur, hcount]
    decide
  refine ⟨m, Reach.exec (.start boot_bootMachine) confined_twoLaunchers hm, hsuspended, himage,
    hmem, fun hintact => ?_⟩
  have hframe := hintact 0 hsuspended
  rw [hrsp, show frameTop stacksAt3M 0 0 0x241F10 = stacksAt3M.kstackTop 0 from
    if_pos (by decide)] at hframe
  have heq := Mem.word_congr (a := stacksAt3M.kstackTop 0 - 40)
    (hframe.mono (by decide) (by decide))
  rw [himage, hmem] at heq
  exact absurd heq (by decide)

end NekaKernel.Context
