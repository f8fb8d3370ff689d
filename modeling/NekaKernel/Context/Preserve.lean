/-
  Context/Preserve.lean --- a resumed thread finds its registers.

  Source: `context_switch64.s`, `sched64_create_thread` and `sched64_reschedule`.

  What a thread was suspended with stands in memory as the frame below its saved
  stack pointer (`Kept`); the frames stay as they are until it is resumed
  (`Inv.intact`), and the restoring half of `context_switch64` reads them back.  A new
  thread differs only in that `sched64_create_thread` wrote the frame.
-/
import Mathlib.Tactic.IntervalCases
import NekaKernel.Context.Stacks

set_option autoImplicit false

namespace NekaKernel.Context

open NekaKernel.Foundation NekaKernel.Kernel NekaKernel.Sched

/-! ## What the frames hold -/

/-- The context `t` will be resumed with. -/
def Machine.expected (L : Layout) (m : Machine) (t : Tid) : SavedContext :=
  (m.saved t).getD (freshContext L.toThreadTable L.symbols.threadStart64 t)

/-- The words on its stack: a thread that never ran has its entry function above
the frame. -/
def Machine.words (L : Layout) (m : Machine) (t : Tid) : List UInt64 :=
  match m.saved t with
  | some ctx => ctx.frame
  | none => (freshContext L.toThreadTable L.symbols.threadStart64 t).frame ++ [m.entry t]

/-- What `t` had on its stack when it was suspended is what it will be resumed
with. -/
structure KeptAt (L : Layout) (m : Machine) (t : Tid) : Prop where
  holds : (m.image t).Holds (m.sched.threads t).rsp (m.words L t)
  rsp : (m.expected L t).rsp.toNat = (m.sched.threads t).rsp + 64

/-- The same for all suspended threads. -/
def Kept (L : Layout) (c : Cpu) (m : Machine) : Prop := ∀ t, Suspended c m t → KeptAt L m t

section Steps

variable {L : Layout} {c : Cpu} {m m' : Machine} {t next : Tid}

theorem KeptAt.congr (K : KeptAt L m t) (hsaved : m'.saved t = m.saved t)
    (hentry : m'.entry t = m.entry t) (himage : m'.image t = m.image t)
    (hrsp : (m'.sched.threads t).rsp = (m.sched.threads t).rsp) : KeptAt L m' t := by
  have hwords : m'.words L t = m.words L t := by
    unfold Machine.words
    rw [hsaved, hentry]
  have hexpected : m'.expected L t = m.expected L t := by
    unfold Machine.expected
    rw [hsaved]
  refine ⟨?_, ?_⟩
  · rw [himage, hrsp, hwords]
    exact K.holds
  · rw [hrsp, hexpected]
    exact K.rsp

theorem Kept.quiet (K : Kept L c m) (h : Quiet c m m') : Kept L c m' := fun t hs =>
  (K t (h.suspended hs)).congr (by rw [h.saved]) (by rw [h.entry]) (by rw [h.image]) (h.rsp t)

/-- The frame that `sched64_create_thread` forges. -/
theorem keptAt_created {sched : Scheduler64} {entry : UInt64}
    (hrsp : (sched.threads t).rsp = L.stackTop t - 80) :
    KeptAt L (created L m sched t entry) t := by
  have htop := stackTop_eq (L := L.toThreadTable) (t := t)
  have hsaved : (created L m sched t entry).saved t = none := Function.update_self ..
  have hentry : (created L m sched t entry).entry t = entry := Function.update_self ..
  have himage : (created L m sched t entry).image t =
      createFrame L.toThreadTable L.symbols.threadStart64 m.cpu.mem t entry :=
    Function.update_self ..
  have hptr : ((created L m sched t entry).sched.threads t).rsp = L.stackTop t - 80 := hrsp
  refine ⟨?_, ?_⟩
  · unfold Machine.words
    rw [himage, hptr, hsaved, hentry]
    exact holds_createFrame
  · unfold Machine.expected
    rw [hsaved, hptr, Option.getD_none, freshContext_rsp]
    omega

theorem Kept.create (K : Kept L c m) (I : Inv L c m) {sched : Scheduler64} {priority cr3 : Nat}
    {entry : UInt64}
    (h : sched64CreateThread L.toThreadTable m.sched priority cr3 = (.ret (some t), sched)) :
    Kept L c (created L m sched t entry) := by
  obtain ⟨ht, hcount, hcur, hrsp, hothers⟩ := create_rsp h
  intro u hs
  rcases (I.suspended_created ht hcount hcur).mp hs with rfl | hsu
  · exact keptAt_created hrsp
  · have hne : u ≠ t := by
      rintro rfl
      exact Nat.lt_irrefl _ (ht ▸ hsu.1)
    exact (K u hsu).congr (Function.update_of_ne hne ..) (Function.update_of_ne hne ..)
      (Function.update_of_ne hne ..) (hothers u hne)

/-- The frame that the saving half of `context_switch64` leaves. -/
theorem Switched.keptAt (S : Switched L c m m' next) (hroom : SwitchRoom L c m)
    (hcur : m.sched.current c = some t) : KeptAt L m' t := by
  obtain ⟨h56, _⟩ := hroom.owns
  obtain ⟨hrsp, hsaved, himage⟩ := S.leaves t hcur
  obtain ⟨s', _, hcpu⟩ := S.cpu
  obtain ⟨sp, _, hmem⟩ := switchStacks_mem (L := L) (c := c) (m := { m with sched := s' })
    (m.sched.current c) next h56
  have hhome := hroom.home hcur
  refine ⟨?_, ?_⟩
  · unfold Machine.words
    rw [hsaved, himage, hrsp, hcpu, hmem]
    refine (holds_callerContext h56).congr fun x hlo hhi => ?_
    -- the frame is on a stack, and `t->rsp` is not
    have hend : m.cpu.rsp.toNat - 56 + 64 ≤ frameTop L c t (m.cpu.rsp.toNat - 56) :=
      hhome.frame_le
    have hin := hhome.region hlo (Nat.lt_of_lt_of_le hhi hend)
    refine Mem.write_outside ?_
    by_contra hptr
    obtain ⟨hstack, hk⟩ := rspPtr_apart (L := L) (c := c) (t := t) (x := x) (m.sched.current c)
      (by omega) (by omega)
    rcases hin with hin | ⟨_, hin⟩
    · exact hstack hin
    · exact hk hin
  · have hlt := hhome.lt
    have hadd : (m.cpu.rsp + 8).toNat = m.cpu.rsp.toNat + 8 :=
      toNat_add_of_lt (by rw [show (8 : UInt64).toNat = 8 from rfl]; omega)
    unfold Machine.expected
    rw [hsaved, hrsp, Option.getD_some]
    change (m.cpu.rsp + 8).toNat = _
    omega

theorem Kept.switch (K : Kept L c m) (hroom : SwitchRoom L c m) (S : Switched L c m m' next) :
    Kept L c m' := by
  intro t hs
  rcases (S.suspended hs).2 with hcur | hold
  · exact S.keptAt hroom hcur
  · obtain ⟨hrsp, hsaved, himage⟩ := S.stays t hold.2
    exact (K t hold).congr hsaved (by rw [S.entry]) himage hrsp

/-! ## Resuming -/

/-- The words of a suspended thread are part of its frames. -/
theorem KeptAt.words_le (K : KeptAt L m t) (h : Home L c t (m.sched.threads t).rsp) :
    (m.sched.threads t).rsp + 8 * (m.words L t).length ≤
      frameTop L c t (m.sched.threads t).rsp := by
  have hrsp := K.rsp
  unfold Machine.words
  unfold Machine.expected at hrsp
  cases hsaved : m.saved t with
  | some ctx => exact h.frame_le
  | none =>
    have htop := stackTop_eq (L := L.toThreadTable) (t := t)
    rw [hsaved, Option.getD_none, freshContext_rsp] at hrsp
    have hstack : L.InStack t (m.sched.threads t).rsp := ⟨by omega, by omega⟩
    have hlen : ((freshContext L.toThreadTable L.symbols.threadStart64 t).frame ++
        [m.entry t]).length = 9 := rfl
    dsimp only
    unfold frameTop
    rw [hlen, if_neg (InStack.not_inKstack0 hstack)]
    omega

theorem holds_expected {mem : Mem} {a : Nat} (h : mem.Holds a (m.words L t)) :
    mem.Holds a (m.expected L t).frame := by
  unfold Machine.words at h
  unfold Machine.expected
  cases hsaved : m.saved t with
  | some ctx =>
    rw [hsaved] at h
    exact h
  | none =>
    rw [hsaved] at h
    exact (Mem.holds_append.mp h).1

/-- **Resuming.**  After a switch the CPU is in the context that the new thread
was suspended with. -/
theorem Switched.context (S : Switched L c m m' next) (I : Inv L c m) (hroom : SwitchRoom L c m)
    (K : KeptAt L m next) :
    m'.cpu.context = m.expected L next ∧
      m'.cpu.mem.Holds (m.sched.threads next).rsp (m.words L next) := by
  have hs : Suspended c m next := ⟨S.next_lt, S.next_ne⟩
  have hhome := I.home next hs
  have hlt := hhome.lt
  have hwords : m'.cpu.mem.Holds (m.sched.threads next).rsp (m.words L next) := by
    refine K.holds.congr fun x hlo hhi => ?_
    have hhi' := Nat.lt_of_lt_of_le hhi (K.words_le hhome)
    rw [S.framed I hroom ⟨next, hs, hlo, hhi'⟩]
    exact I.intact next hs x hlo hhi'
  refine ⟨?_, hwords⟩
  obtain ⟨s', hres, hcpu⟩ := S.cpu
  have hrsp := (I.wf.picked hres).2 next
  let args := (m.cpu.setReg .rdi (UInt64.ofNat (L.rspPtr c (m.sched.current c)))).setReg .rsi
    (UInt64.ofNat (s'.threads next).rsp)
  have hswitch : m'.cpu = exec args.exchange switchIn := hcpu.trans exec_contextSwitch64
  have hsp : args.exchange.rsp.toNat = (m.sched.threads next).rsp := by
    have hrsi : args.exchange.rsp = UInt64.ofNat (s'.threads next).rsp := rfl
    rw [hrsi, hrsp]
    exact UInt64.toNat_ofNat_of_lt' (by unfold UInt64.size; omega)
  have hmem : args.exchange.mem = m'.cpu.mem := by
    rw [hswitch, switchIn_mem]
  rw [hswitch]
  refine switchIn_context (by omega) ?_ ?_
  · rw [hsp, hmem]
    exact holds_expected hwords
  · rw [hsp]
    exact K.rsp

/-! ## Every run -/

theorem kept_step {a : Act} (h : Inv L c m ∧ Kept L c m)
    (hok : Confined L c m a ∧ KstackFree L c m a) (hstep : step L c m a = some m') :
    Inv L c m' ∧ Kept L c m' := by
  obtain ⟨I, K⟩ := h
  refine ⟨inv_step I hok hstep, ?_⟩
  rcases step_cases I hok.1 hok.2 hstep with
    ⟨_, hquiet⟩ | ⟨_, _, _, _, _, _, hret, rfl⟩ | ⟨_, _, hroom, S⟩
  · exact K.quiet hquiet
  · exact K.create I hret
  · exact K.switch hroom S

theorem kept_of_boot (h : Boot L c m) : Kept L c m := by
  obtain ⟨s, hsched⟩ := h.sched
  intro t hs
  have hlt := hs.1
  rw [hsched] at hlt
  exact absurd hlt (Nat.not_lt_zero _)

/-- The first steps of the thread `t`, from the state `s` in which the switch
leaves the CPU: `thread_start64` calls `NKern_UnlockAfterSwitch` with an aligned
stack and enters `entry` as the ABI wants it. -/
structure FirstRun (L : Layout) (unlock : State → State) (t : Tid) (entry : UInt64)
    (s : State) :
    Prop where
  start : s.rip = L.symbols.threadStart64
  aligned : s.rsp.toNat % 16 = 0
  rip : (threadStart64 L.symbols unlock s).rip = entry
  regs : ∀ r ∈ calleeSaved, (threadStart64 L.symbols unlock s).regs r = 0
  rsp : (threadStart64 L.symbols unlock s).rsp.toNat = L.stackTop t - 8
  entered : (threadStart64 L.symbols unlock s).rsp.toNat % 16 = 8

/-- A thread that is switched to for the first time. -/
theorem Switched.firstRun (S : Switched L c m m' next) (I : Inv L c m)
    (hroom : SwitchRoom L c m) (K : KeptAt L m next) {unlock : State → State}
    (habi : FollowsAbi L.toThreadTable unlock) (hsaved : m.saved next = none) :
    FirstRun L unlock next (m.entry next) m'.cpu := by
  obtain ⟨hcontext, hwords⟩ := S.context I hroom K
  have htop := stackTop_eq (L := L.toThreadTable) (t := next)
  have haligned := stackTop_aligned (L := L.toThreadTable) (t := next)
  have hptr := K.rsp
  unfold Machine.expected at hcontext hptr
  unfold Machine.words at hwords
  rw [hsaved] at hcontext hwords hptr
  rw [Option.getD_none] at hcontext hptr
  rw [freshContext_rsp] at hptr
  have hrsp : m'.cpu.rsp.toNat = L.stackTop next - 16 :=
    (congrArg (fun ctx => ctx.rsp.toNat) hcontext).trans freshContext_rsp
  have hentry : m'.cpu.top = m.entry next := by
    obtain ⟨hword, _⟩ := (Mem.holds_append.mp hwords).2
    rw [← hword]
    unfold State.top
    rw [hrsp, hptr]
    rfl
  have hzero : ∀ r ∈ calleeSaved, m'.cpu.regs r = 0 := by
    intro r hr
    simp only [calleeSaved, List.mem_cons, List.not_mem_nil, or_false] at hr
    rcases hr with rfl | rfl | rfl | rfl | rfl | rfl
    · exact congrArg SavedContext.rbx hcontext
    · exact congrArg SavedContext.rbp hcontext
    · exact congrArg SavedContext.r12 hcontext
    · exact congrArg SavedContext.r13 hcontext
    · exact congrArg SavedContext.r14 hcontext
    · exact congrArg SavedContext.r15 hcontext
  obtain ⟨hrip, hregs, hsp⟩ := threadStart64_spec (S := L.symbols) habi hrsp
  refine ⟨congrArg SavedContext.rip hcontext, ?_, ?_, ?_, hsp, ?_⟩
  · rw [hrsp]
    omega
  · rw [hrip, hentry]
  · intro r hr
    rw [hregs r hr, hzero r hr]
  · rw [hsp]
    omega

end Steps

/-- **Contexts are preserved.**  In every run in which the running code writes
only what it owns, a switch back to a thread finds RBX, RBP, R12 to R15, RFLAGS,
RSP and the return address as they were when the thread was last suspended, and
the first switch to a thread leads to its entry function.  A run without
interrupts from ring 3 meets `KstackFree` as it stands. -/
theorem context_preserved {L : Layout} {c : Cpu} {unlock : State → State}
    (habi : FollowsAbi L.toThreadTable unlock) {m m' : Machine} {prev : Option Tid} {next : Tid}
    (r : Reach (Boot L c) (step L c) (fun m a => Confined L c m a ∧ KstackFree L c m a) m)
    (hconf : Confined L c m .reschedule) (hstep : step L c m .reschedule = some m')
    (hswitch : (sched64Reschedule m.sched c).2 = .switch prev next) :
    (∀ ctx, m.saved next = some ctx → m'.cpu.context = ctx) ∧
      (m.saved next = none → FirstRun L unlock next (m.entry next) m'.cpu) := by
  obtain ⟨I, K⟩ := r.invariant (P := fun m => Inv L c m ∧ Kept L c m)
    (fun _ h => ⟨inv_of_boot h, kept_of_boot h⟩) (fun _ _ _ h hok hs => kept_step h hok hs)
  have hroom : SwitchRoom L c m := hconf prev next hswitch
  have hres : sched64Reschedule m.sched c =
      ((sched64Reschedule m.sched c).1, .switch prev next) :=
    Prod.ext rfl hswitch
  have S : Switched L c m m' next := by
    rw [step] at hstep
    split at hstep
    · rw [hres] at hstep
      cases hstep
      exact I.switched hroom hres
    · cases hstep
  have Knext : KeptAt L m next := K next ⟨S.next_lt, S.next_ne⟩
  refine ⟨fun ctx hsaved => ?_, S.firstRun I hroom Knext habi⟩
  rw [(S.context I hroom Knext).1]
  unfold Machine.expected
  rw [hsaved, Option.getD_some]

/-! ## Two threads -/

/-- A thread that keeps `v` in RBX, at its call of `sched64_reschedule`. -/
def work (v : UInt64) (s : State) : State := { s.setReg .rbx v with rsp := s.rsp - 64 }

/-- Two threads run for a while; the first is suspended. -/
def twoWorkers : List Act :=
  [.create 0x102000 5 0x80000, .create 0x103000 5 0x90000, .reschedule, .run (work 7),
    .reschedule, .run (work 9)]

/-- The stack each switch leaves, and what the last one saves and takes up. -/
theorem twoWorkers_run :
    (Foundation.exec (step stacksAt3M 0) bootMachine (twoWorkers.take 2)).map Machine.view =
        some (none, 0x180000, false) ∧
      (Foundation.exec (step stacksAt3M 0) bootMachine (twoWorkers.take 4)).map Machine.view =
        some (some 0, 0x301FD0, false) ∧
      (Foundation.exec (step stacksAt3M 0) bootMachine twoWorkers).map
          (fun m => (m.view, m.cpu.regs .rbx, (m.saved 0).map SavedContext.rbx,
            (sched64Reschedule m.sched 0).2, (step stacksAt3M 0 m .reschedule).isSome)) =
        some ((some 1, 0x304000, false), 9, some 7, .switch (some 1) 0, true) := by
  decide +kernel

theorem ok_twoWorkers (k : Nat) (m : Machine) (a : Act) (ha : twoWorkers[k]? = some a)
    (hm : Foundation.exec (step stacksAt3M 0) bootMachine (twoWorkers.take k) = some m) :
    Confined stacksAt3M 0 m a ∧ KstackFree stacksAt3M 0 m a := by
  have hk : k < 6 := (List.getElem?_eq_some_iff.mp ha).1
  interval_cases k <;> cases ha <;> refine ⟨?_, trivial⟩
  · trivial
  · trivial
  · have hv : m.view = (none, 0x180000, false) := view_of_exec hm twoWorkers_run.1
    exact fun _ _ _ => switchRoom_boot hv (by decide) (by decide)
  · exact fun _ _ => rfl
  · have hv : m.view = (some 0, 0x301FD0, false) := view_of_exec hm twoWorkers_run.2.1
    exact fun _ _ _ => switchRoom_stack hv (by decide) (by decide)
  · exact fun _ _ => rfl

/-- `NKern_UnlockAfterSwitch`, as far as its caller sees it: interrupts are on and
RAX is lost. -/
def unlockAndReturn (s : State) : State :=
  { s.setReg .rax 0 with rsp := s.rsp + 8, rip := s.top, rflags := s.rflags ||| 0x200 }

theorem followsAbi_unlockAndReturn (L : ThreadTable) : FollowsAbi L unlockAndReturn := by
  refine ⟨fun s _ r hr => ?_, fun _ _ => rfl, fun _ _ => rfl,
    fun s _ _ _ _ => Mem.Agree.refl _ _ _⟩
  refine Function.update_of_ne ?_ _ _
  rintro rfl
  simp [calleeSaved] at hr

/-- The first worker is resumed with its 7 in RBX, whatever the second had. -/
theorem context_preserved_worker :
    ∃ m m' ctx, Foundation.exec (step stacksAt3M 0) bootMachine twoWorkers = some m ∧
      step stacksAt3M 0 m .reschedule = some m' ∧ m.saved 0 = some ctx ∧ ctx.rbx = 7 ∧
      m.cpu.regs .rbx = 9 ∧ m'.cpu.context = ctx := by
  obtain ⟨m, hm, hfacts⟩ := Option.map_eq_some_iff.mp twoWorkers_run.2.2
  simp only [Prod.mk.injEq] at hfacts
  obtain ⟨hview, hrbx, hsaved, hswitch, hsome⟩ := hfacts
  obtain ⟨m', hm'⟩ := Option.isSome_iff_exists.mp hsome
  obtain ⟨ctx, hctx, hseven⟩ := Option.map_eq_some_iff.mp hsaved
  refine ⟨m, m', ctx, hm, hm', hctx, hseven, hrbx, ?_⟩
  have r : Reach (Boot stacksAt3M 0) (step stacksAt3M 0)
      (fun m a => Confined stacksAt3M 0 m a ∧ KstackFree stacksAt3M 0 m a) m :=
    Reach.exec (.start boot_bootMachine) ok_twoWorkers hm
  have hconf : Confined stacksAt3M 0 m .reschedule :=
    fun _ _ _ => switchRoom_stack hview (by decide) (by decide)
  exact (context_preserved (followsAbi_unlockAndReturn _) r hconf hm' hswitch).1 ctx hctx

end NekaKernel.Context
