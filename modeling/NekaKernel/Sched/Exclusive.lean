/-
  Sched/Exclusive.lean --- which CPUs may run which threads.

  Source: `sched64.c`, called as `main64.c` and `smp.c` do: every CPU that comes
  up calls `sched64_reschedule` once from its boot loop, and from then on its
  timer calls `sched64_timer_tick`.

  The pick never asks whether its head is already current on another CPU:
  `T64_RUNNING` is written and never read.  So the threads stay apart exactly as
  long as one CPU does all the rescheduling.
-/
import NekaKernel.Sched.Scheduler

set_option autoImplicit false

namespace NekaKernel.Sched

/-! ## Runs of several CPUs -/

/-- A call into the scheduler. -/
inductive Op where
  | reschedule (c : Cpu)
  | timerTick (c : Cpu) (locked : Bool)
  deriving DecidableEq, Repr

/-- One call; each is atomic under the big kernel lock. -/
def Scheduler64.apply (s : Scheduler64) : Op → Scheduler64
  | .reschedule c => (sched64Reschedule s c).1
  | .timerTick c locked =>
      match sched64TimerTick s c locked with
      | (s, .reschedule) => (sched64Reschedule s c).1
      | (s, _) => s

/-- The scheduler after the calls in order. -/
def runOps (s : Scheduler64) (ops : List Op) : Scheduler64 := ops.foldl Scheduler64.apply s

/-- No thread is current on two CPUs. -/
def Exclusive (s : Scheduler64) : Prop :=
  ∀ c d, s.current c = s.current d → s.current c ≠ none → c = d

/-! ## One CPU -/

/-- Only CPU `c` runs a thread, and it is the head of the highest queue. -/
structure Solo (c : Cpu) (s : Scheduler64) : Prop where
  wf : Wf s
  created : 0 < s.threadCount
  others : ∀ d, d ≠ c → s.current d = none
  head : ∀ t, s.current c = some t →
    ∃ prio, findHighestBit64 s.readyBitmap = some prio ∧ s.readyQueue prio = some t

variable {s s' : Scheduler64} {c d : Cpu}

theorem Solo.exclusive (S : Solo c s) : Exclusive s := by
  have only : ∀ e, s.current e ≠ none → e = c := by
    intro e he
    by_contra hne
    exact he (S.others e hne)
  intro e f heq hne
  rw [only e hne, only f (heq ▸ hne)]

theorem Solo.congr (S : Solo c s) (h : SameQueues s s') : Solo c s' := by
  refine ⟨S.wf.congr h, ?_, ?_, ?_⟩
  · rw [h.threadCount]
    exact S.created
  · rw [h.current]
    exact S.others
  · rw [h.current, h.readyBitmap, h.readyQueue]
    exact S.head

/-- After a reschedule on `c` the thread it runs heads the highest queue. -/
theorem Solo.reschedule (S : Solo c s) :
    Solo c (sched64Reschedule s c).1 ∧ (sched64Reschedule s c).1.current c ≠ none := by
  have W := S.wf.reschedule c
  obtain ⟨prio, head, next, htop, hhead, _, hsame, _⟩ := sched64Reschedule_spec S.wf S.created c
  have hcur : (sched64Reschedule s c).1.current = Function.update s.current c (some next) :=
    hsame.current
  refine ⟨⟨W, ?_, ?_, ?_⟩, ?_⟩
  · rw [hsame.threadCount]
    exact S.created
  · intro e he
    rw [hcur, Function.update_of_ne he]
    exact S.others e he
  · intro t ht
    rw [hcur, Function.update_self, Option.some.injEq] at ht
    subst ht
    refine ⟨prio, ?_, ?_⟩
    · rw [hsame.readyBitmap]
      exact htop
    · rw [hsame.readyQueue]
      exact Function.update_self ..
  · rw [hcur, Function.update_self]
    simp

/-- A tick is nothing, a change of time slices, or that and a reschedule. -/
theorem apply_timerTick_cases (s : Scheduler64) (c : Cpu) (locked : Bool) :
    ∃ s₁, SameQueues s s₁ ∧
      (s.apply (.timerTick c locked) = s₁ ∨
        s.apply (.timerTick c locked) = (sched64Reschedule s₁ c).1) := by
  refine ⟨(sched64TimerTick s c locked).1, sched64TimerTick_frame locked, ?_⟩
  rw [Scheduler64.apply]
  cases htick : sched64TimerTick s c locked with
  | mk s₁ decision =>
    cases decision with
    | nothing => exact Or.inl rfl
    | requestReschedule => exact Or.inl rfl
    | reschedule => exact Or.inr rfl

theorem apply_timerTick_of_idle (locked : Bool) (h : s.current c = none) :
    s.apply (.timerTick c locked) = s := by
  rw [Scheduler64.apply, sched64TimerTick_of_idle locked h]

/-- Ticks on any CPU, and reschedules on `c`, keep `c` alone, and running once
it runs. -/
theorem Solo.apply (S : Solo c s) {op : Op} (hop : ∀ e, op = .reschedule e → e = c) :
    Solo c (s.apply op) ∧ (s.current c ≠ none → (s.apply op).current c ≠ none) := by
  cases op with
  | reschedule e =>
    have he : e = c := hop e rfl
    subst he
    exact ⟨S.reschedule.1, fun _ => S.reschedule.2⟩
  | timerTick e locked =>
    by_cases he : e = c
    · subst he
      obtain ⟨s₁, hsame, happ | happ⟩ := apply_timerTick_cases s e locked
      · rw [happ]
        refine ⟨S.congr hsame, ?_⟩
        rw [hsame.current]
        exact id
      · rw [happ]
        exact ⟨(S.congr hsame).reschedule.1, fun _ => (S.congr hsame).reschedule.2⟩
    · rw [apply_timerTick_of_idle locked (S.others e he)]
      exact ⟨S, id⟩

theorem Solo.runOps {ops : List Op} :
    ∀ {s : Scheduler64}, Solo c s → (∀ e, Op.reschedule e ∈ ops → e = c) →
      Solo c (Sched.runOps s ops) := by
  induction ops with
  | nil =>
    intro s S _
    exact S
  | cons op ops ih =>
    intro s S hops
    have hop : ∀ e, op = .reschedule e → e = c := by
      rintro e rfl
      exact hops e List.mem_cons_self
    exact ih (S.apply hop).1 fun e he => hops e (List.mem_cons_of_mem op he)

/-! ## A second CPU -/

/-- The first reschedule of another CPU picks the thread that `c` runs. -/
theorem Solo.reschedule_other (S : Solo c s) (hrun : s.current c ≠ none) (hd : d ≠ c) :
    ¬ Exclusive (sched64Reschedule s d).1 := by
  obtain ⟨prio, head, next, htop, hhead, hnext, hsame, _⟩ :=
    sched64Reschedule_spec S.wf S.created d
  obtain ⟨t, ht⟩ := Option.ne_none_iff_exists'.mp hrun
  obtain ⟨prio', htop', hhead'⟩ := S.head t ht
  have hprio : prio' = prio := Option.some.inj (htop'.symm.trans htop)
  subst hprio
  have htt : head = t := Option.some.inj (hhead.symm.trans hhead')
  subst htt
  have hidle : some head ≠ s.current d := by
    rw [S.others d hd]
    simp
  rw [if_neg hidle, Option.some.injEq] at hnext
  subst hnext
  have hcur : (sched64Reschedule s d).1.current = Function.update s.current d (some head) :=
    hsame.current
  have hcd : (sched64Reschedule s d).1.current d = some head := by
    rw [hcur]
    exact Function.update_self ..
  have hcc : (sched64Reschedule s d).1.current c = some head := by
    rw [hcur, Function.update_of_ne hd.symm]
    exact ht
  intro hex
  exact hd (hex d c (hcd.trans hcc.symm) (by simp [hcd]))

/-- All states of the run from `s` are exclusive. -/
def StaysExclusive (s : Scheduler64) (ops : List Op) : Prop :=
  ∀ done, done <+: ops → Exclusive (runOps s done)

theorem StaysExclusive.tail {op : Op} {ops : List Op} (h : StaysExclusive s (op :: ops)) :
    StaysExclusive (s.apply op) ops := by
  intro done hdone
  exact h (op :: done) (List.prefix_cons_inj op |>.mpr hdone)

theorem StaysExclusive.first {op : Op} {ops : List Op} (h : StaysExclusive s (op :: ops)) :
    Exclusive (s.apply op) :=
  h [op] (List.prefix_cons_inj op |>.mpr List.nil_prefix)

/-- While `c` runs a thread, an exclusive run reschedules on `c` only. -/
theorem Solo.only_cpu {ops : List Op} :
    ∀ {s : Scheduler64}, Solo c s → s.current c ≠ none → StaysExclusive s ops →
      ∀ e, Op.reschedule e ∈ ops → e = c := by
  induction ops with
  | nil =>
    intro s _ _ _ e he
    simp at he
  | cons op ops ih =>
    intro s S hrun hex e he
    have hop : ∀ e, op = .reschedule e → e = c := by
      rintro e rfl
      by_contra hne
      exact S.reschedule_other hrun hne hex.first
    rcases List.mem_cons.mp he with heq | he
    · exact hop e heq.symm
    · exact ih (S.apply hop).1 ((S.apply hop).2 hrun) hex.tail e he

/-- While no CPU runs a thread, the first CPU that reschedules is the only one. -/
theorem exists_only_cpu {ops : List Op} :
    ∀ {s : Scheduler64}, Wf s → 0 < s.threadCount → (∀ e, s.current e = none) →
      StaysExclusive s ops → ∃ c, ∀ e, Op.reschedule e ∈ ops → e = c := by
  induction ops with
  | nil =>
    intro s _ _ _ _
    exact ⟨0, by simp⟩
  | cons op ops ih =>
    intro s W hpos hidle hex
    cases op with
    | reschedule c =>
      have S : Solo c s := ⟨W, hpos, fun e _ => hidle e, by simp [hidle]⟩
      refine ⟨c, fun e he => ?_⟩
      rcases List.mem_cons.mp he with heq | he
      · exact (Op.reschedule.inj heq)
      · exact S.reschedule.1.only_cpu S.reschedule.2 hex.tail e he
    | timerTick d locked =>
      have htail := hex.tail
      rw [apply_timerTick_of_idle locked (hidle d)] at htail
      obtain ⟨c, hc⟩ := ih W hpos hidle htail
      refine ⟨c, fun e he => hc e ?_⟩
      simpa using he

/-- Without threads nothing ever becomes current. -/
theorem runOps_of_empty {ops : List Op} (hbitmap : s.readyBitmap = 0)
    (hidle : ∀ e, s.current e = none) : runOps s ops = s := by
  induction ops with
  | nil => rfl
  | cons op ops ih =>
    have happ : s.apply op = s := by
      cases op with
      | reschedule c =>
        rw [Scheduler64.apply, sched64Reschedule_of_empty hbitmap]
      | timerTick c locked => exact apply_timerTick_of_idle locked (hidle c)
    unfold runOps at ih ⊢
    rw [List.foldl_cons, happ]
    exact ih

/-! ## Every run -/

/-- **Exclusion.**  After any creations, a run keeps every thread on at most one
CPU exactly when there is no thread or all calls of `sched64_reschedule` come
from one CPU. -/
theorem stays_exclusive_iff (L : ThreadTable) (s : Scheduler64) (h : Created L s)
    (ops : List Op) :
    (∀ done, done <+: ops → Exclusive (runOps s done)) ↔
      s.threadCount = 0 ∨ ∃ c, ∀ e, Op.reschedule e ∈ ops → e = c := by
  constructor
  · intro hex
    rcases Nat.eq_zero_or_pos s.threadCount with hzero | hpos
    · exact Or.inl hzero
    · exact Or.inr (exists_only_cpu h.wf hpos h.current hex)
  · rintro hcond done hdone
    rcases Nat.eq_zero_or_pos s.threadCount with hzero | hpos
    · rw [runOps_of_empty (h.wf.bitmap_zero hzero) h.current]
      intro c d _ hne
      exact absurd (h.current c) hne
    · obtain ⟨c, hc⟩ := hcond.resolve_left (Nat.ne_of_gt hpos)
      have S : Solo c s := ⟨h.wf, hpos, fun e _ => h.current e, by simp [h.current]⟩
      exact (S.runOps fun e he => hc e (hdone.subset he)).exclusive

/-! ## The threads that `main64.c` creates -/

/-- The boot processor. -/
def bsp : Cpu := 0

/-- The first application processor. -/
def ap : Cpu := 1

/-- The first and the third entry of `threads64[]`. -/
def firstThread : Tid := 0

def thirdThread : Tid := 2

/-- A place for `threads64[]`. -/
def tableAt3M : ThreadTable := ⟨0x300000, by decide, by decide, by decide⟩

/-- The statics before `sched64_init`. -/
def zeroStatics : Scheduler64 :=
  ⟨0, fun _ => none, fun _ => none, fun _ => {}, 0, fun _ => 0, fun _ => 0⟩

/-- `ThreadA` and `ThreadB` of priority 5. -/
def twoThreads : Scheduler64 :=
  (sched64CreateThread tableAt3M
    (sched64CreateThread tableAt3M (sched64Init zeroStatics) 5 0x1000).2 5 0x2000).2

/-- ... and `ThreadC-low` of priority 2 and `Ring3Launcher` of priority 5. -/
def bootThreads : Scheduler64 :=
  (sched64CreateThread tableAt3M
    (sched64CreateThread tableAt3M twoThreads 2 0x3000).2 5 0x4000).2

/-- The four threads are created in order, and two CPUs come up and take the first. -/
theorem bootThreads_created :
    (sched64CreateThread tableAt3M (sched64Init zeroStatics) 5 0x1000).1 = .ret (some 0) ∧
    (sched64CreateThread tableAt3M
      (sched64CreateThread tableAt3M (sched64Init zeroStatics) 5 0x1000).2 5 0x2000).1 =
      .ret (some 1) ∧
    (sched64CreateThread tableAt3M twoThreads 2 0x3000).1 = .ret (some 2) ∧
    (sched64CreateThread tableAt3M (sched64CreateThread tableAt3M twoThreads 2 0x3000).2 5
      0x4000).1 = .ret (some 3) ∧
    (runOps bootThreads [.reschedule 0, .reschedule 1]).current 0 = some 0 ∧
    (runOps bootThreads [.reschedule 0, .reschedule 1]).current 1 = some 0 := by
  decide +kernel

theorem created_twoThreads : Created tableAt3M twoThreads := by
  have h₀ : Created tableAt3M (sched64Init zeroStatics) := Created.init zeroStatics
  have h₁ := h₀.next 5 0x1000 bootThreads_created.1
  exact h₁.next 5 0x2000 bootThreads_created.2.1

theorem created_bootThreads : Created tableAt3M bootThreads := by
  have h₃ := created_twoThreads.next 2 0x3000 bootThreads_created.2.2.1
  exact h₃.next 5 0x4000 bootThreads_created.2.2.2.1

/-- The boot CPU alone, through one round of its timer. -/
theorem stays_exclusive_one_cpu :
    Created tableAt3M bootThreads ∧
      ∀ done, done <+: [Op.reschedule 0, .timerTick 0 false, .timerTick 1 false,
        .reschedule 0] →
        Exclusive (runOps bootThreads done) := by
  refine ⟨created_bootThreads, ?_⟩
  refine (stays_exclusive_iff tableAt3M bootThreads created_bootThreads _).mpr (Or.inr ⟨0, ?_⟩)
  simp

/-- Two CPUs come up and both run `ThreadA`, on one stack. -/
theorem second_cpu_runs_same_thread :
    Created tableAt3M bootThreads ∧
      (runOps bootThreads [.reschedule 0, .reschedule 1]).current 0 = some 0 ∧
      (runOps bootThreads [.reschedule 0, .reschedule 1]).current 1 = some 0 ∧
      ¬ Exclusive (runOps bootThreads [.reschedule 0, .reschedule 1]) := by
  obtain ⟨-, -, -, -, h0, h1⟩ := bootThreads_created
  refine ⟨created_bootThreads, h0, h1, ?_⟩
  intro hex
  have : (0 : Cpu) = 1 := hex 0 1 (h0.trans h1.symm) (by simp [h0])
  simp at this

end NekaKernel.Sched
