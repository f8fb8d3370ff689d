/-
  NKern/Counters.lean --- the counters under preemption and migration.

  Source: `nkern_lock.c`, with `get_cpu_index` of `apic.c`.

  `NKern_Lock` reads its CPU's index first and disables interrupts afterwards.
  A timer interrupt between the two may suspend the thread, and another CPU may
  resume it; from then on the thread increments the counter of a CPU it no longer
  runs on, and its `NKern_Unlock` decrements another one.  And a CPU that takes a
  thread another one runs may return past the decrement of its own counter.
-/
import NekaKernel.NKern.Lock

set_option autoImplicit false

namespace NekaKernel.NKern

open NekaKernel.Foundation NekaKernel.Sched

/-! ## The statement -/

/-- The frame stands between the increment of a counter and the matching
decrement. -/
def Frame.counted : Frame → Bool
  | .code (_ :: _) => true
  | .lockTest _ => true
  | .lockSpin _ => true
  | .unlockIdx _ => true
  | .unlockDec _ _ => true
  | .lfsTest _ _ => true
  | .lfsSpin _ _ => true
  | .reschedPick _ => true
  | .reschedSwitch _ _ => true
  | .uasIdx => true
  | .uasDec _ => true
  | _ => false

/-- **Counter agreement.** -/
structure CountersAgree (m : Machine) : Prop where
  /-- `NKern_Unlock` decrements the slot that its `NKern_Lock` incremented. -/
  sameSlot : ∀ k c slot r, m.stack k = .unlockDec c slot :: r → c = slot
  /-- While nobody is in a section all counters are 0. -/
  idle : (∀ k, ∀ f ∈ m.stack k, f.counted = false) → ∀ k, m.preemptDisableCount k = 0
  /-- An outermost `NKern_Lock` finds 1 in its counter and goes on to
  `spin_acquire`. -/
  lockAcquires : ∀ k c r, m.stack k = .lockTest c :: .code [] :: r → m.preemptDisableCount c = 1
  /-- And so does every `NKern_LockForSwitch`. -/
  switchAcquires : ∀ k rc c r, m.stack k = .lfsTest rc c :: r → m.preemptDisableCount c = 1

/-! ## Shapes and counters -/

section Tops

variable {k : Cpu} {o : Option Cpu} {i : Bool} {st : List Frame} {d : Nat} {v : Option Via}

theorem Arriving.depth_zero (h : Arriving k o st d)
    (hst : ∀ f ∈ st, f.counted = false) : d = 0 := by
  cases h with
  | popfq flags h => simp [Frame.counted] at hst
  | idx h => simp [Frame.counted] at hst
  | dec h => simp [Frame.counted] at hst
  | test h => rfl
  | rel h => rfl

theorem Handling.depth_zero (h : Handling k o st d v) (hst : ∀ f ∈ st, f.counted = false) :
    d = 0 := by
  cases h with
  | rest h => rfl
  | iret flags snap h => exact h.depth_zero fun f hf => hst f (List.mem_cons_of_mem _ hf)

/-- A context none of whose frames is in a section has depth 0. -/
theorem Shape.depth_zero (h : Shape k o i st d v) (hst : ∀ f ∈ st, f.counted = false) :
    d = 0 := by
  cases h with
  | resting h => rfl
  | arriving h => exact h.depth_zero hst
  | handling h => exact h.depth_zero hst
  | tick h => exact h.depth_zero fun f hf => hst f (List.mem_cons_of_mem _ hf)
  | locking h =>
    cases h with
    | code h => simp [Frame.counted] at hst
    | idx h => simp [Frame.counted] at hst
    | cli h => simp [Frame.counted] at hst
    | @save cs flags h =>
      cases cs with
      | nil => rfl
      | cons c cs => simp [Frame.counted] at hst
    | @inc cs h =>
      cases cs with
      | nil => rfl
      | cons c cs => simp [Frame.counted] at hst
    | test h => simp [Frame.counted] at hst
    | spin => simp [Frame.counted] at hst
  | unlocking h =>
    cases h with
    | idx h => simp [Frame.counted] at hst
    | dec h => simp [Frame.counted] at hst
    | @test cs h =>
      cases cs with
      | nil => rfl
      | cons c cs => simp [Frame.counted] at hst
    | rel => rfl
    | pend => rfl
  | calling h =>
    cases h with
    | idx h => rfl
    | lfsIdx h => rfl
    | lfsCli h => rfl
    | lfsInc h => rfl
    | lfsTest h => simp [Frame.counted] at hst
    | lfsSpin h => simp [Frame.counted] at hst
  | picking h => simp [Frame.counted] at hst
  | switching next h => simp [Frame.counted] at hst

end Tops

theorem Inv.countersAgree {m : Machine} {holder : Option (Cpu × Via)} (I : Inv m holder) :
    CountersAgree m := by
  refine ⟨?_, ?_, ?_, ?_⟩
  · intro k c slot r hst
    obtain ⟨_, _, _, hshape, _⟩ := I.cpus k
    rw [hst] at hshape
    exact hshape.atTop
  · intro hidle k
    obtain ⟨_, d, _, hshape, hcount, _⟩ := I.cpus k
    have hd := hshape.depth_zero (hidle k)
    subst hd
    simpa using hcount
  · intro k c r hst
    obtain ⟨_, d, _, hshape, hcount, _⟩ := I.cpus k
    rw [hst] at hshape
    obtain ⟨rfl, cs, hcs, rfl⟩ := hshape.atTop
    obtain ⟨rfl, -⟩ : cs = [] ∧ r = [] := by simpa using hcs.symm
    simpa using hcount
  · intro k rc c r hst
    obtain ⟨_, d, _, hshape, hcount, _⟩ := I.cpus k
    rw [hst] at hshape
    obtain ⟨rfl, rfl⟩ := hshape.atTop
    simpa using hcount

/-! ## Every run -/

/-- **Counter agreement.**  In every run in which no thread is resumed on another
CPU between reading its index and the `cli` of `NKern_Lock`, and no CPU takes a
thread that is current on another one. -/
theorem counters_agree (L : ThreadTable) (m : Machine)
    (h : Reach (Machine.Initial L) Machine.step (fun m mv => ownMove m mv = true) m) :
    CountersAgree m := by
  obtain ⟨_, I⟩ := inv_of_reach (fun _ _ hmv => hmv) h
  exact I.countersAgree

/-- The first thread has taken the lock. -/
def firstSection : List Move :=
  List.replicate 15 (.exec bsp) ++ [.callLock bsp] ++ List.replicate 6 (.exec bsp)

theorem counters_agree_first_section :
    ∃ m, Reach (Machine.Initial tableAt3M) Machine.step (fun m mv => ownMove m mv = true) m ∧
      m.events = [.acquire 0 .lock, .release 0 .switch, .acquire 0 .switch] ∧
      CountersAgree m := by
  have hevents : (execWhile Machine.step ownMove bootMachine firstSection).map Machine.events =
      some [.acquire 0 .lock, .release 0 .switch, .acquire 0 .switch] := by decide +kernel
  obtain ⟨m, hm, hev⟩ := Option.map_eq_some_iff.mp hevents
  have hreach := (Reach.start initial_bootMachine).execWhile (fun _ _ h => h) hm
  exact ⟨m, hreach, hev, counters_agree tableAt3M m hreach⟩

/-! ## Counters that stay up -/

/-- `ThreadA` was preempted on CPU 0 when it had read its index for `NKern_Lock`, and
put away. -/
def preemptedMachine : Machine :=
  { bootMachine with
    saved := Function.update bootMachine.saved firstThread
      [.popfq false, .uasIdx, .iret true (bootMachine.snapshot bsp), .lockCli bsp, .code []] }

theorem initial_preemptedMachine : preemptedMachine.Initial tableAt3M := by
  refine ⟨created_twoThreads, rfl, fun _ => rfl, fun _ => rfl, fun t => ?_, fun _ => rfl,
    fun _ => ⟨_, rfl⟩, rfl⟩
  by_cases ht : t = firstThread
  · subst ht
    exact ⟨false, _, rfl, .iret true _ (.lockCli bsp)⟩
  · have hfresh : preemptedMachine.saved t = freshContext := Function.update_of_ne ht _ _
    rw [hfresh]
    exact suspended_freshContext

/-- CPU 1 resumes `ThreadA`, up to the end of its section. -/
def migration : List Move :=
  List.replicate 21 (.exec ap) ++ .callUnlock ap :: List.replicate 6 (.exec ap)

/-- Nobody is in a section, as a test. -/
def noSection (m : Machine) : Bool :=
  decide (∀ k, ((m.stack k).all fun f => !f.counted) = true)

theorem noSection_spec {m : Machine} (h : noSection m = true) :
    ∀ k, ∀ f ∈ m.stack k, f.counted = false := by
  unfold noSection at h
  intro k f hf
  have hk := of_decide_eq_true h k
  simpa using List.all_eq_true.mp hk f hf

/-- A counter is up while nobody is in a section. -/
theorem not_countersAgree {m : Machine} {k : Cpu} (hno : noSection m = true)
    (hcount : m.preemptDisableCount k = 1) : ¬ CountersAgree m := by
  intro hagree
  have hzero := hagree.idle (noSection_spec hno) k
  omega

/-- **Counters that stay up.**  CPU 1 takes the thread that CPU 0 runs and returns past
the decrement: nobody has called `NKern_Lock`, nobody is in a section, and the counter
of CPU 1 is 1.  And `ThreadA` goes over to CPU 1 between reading its index and its
`cli`: after its section the counter of CPU 0 is 1. -/
theorem counter_stuck :
    (∃ m, Reach (Machine.Initial tableAt3M) Machine.step (fun m mv => ownIndex m mv = true) m ∧
      m.events = [.acquire 1 .switch, .release 0 .switch, .acquire 0 .switch] ∧
      (∀ k, ∀ f ∈ m.stack k, f.counted = false) ∧ m.preemptDisableCount 1 = 1 ∧
      ¬ CountersAgree m) ∧
    ∃ m, Reach (Machine.Initial tableAt3M) Machine.step (fun m mv => ownThread m mv = true) m ∧
      m.events = [.release 1 .lock, .acquire 1 .lock, .release 1 .switch, .acquire 1 .switch] ∧
      (∀ k, ∀ f ∈ m.stack k, f.counted = false) ∧ m.preemptDisableCount 0 = 1 ∧
      ¬ CountersAgree m := by
  refine ⟨?_, ?_⟩
  · have hrun : (execWhile Machine.step ownIndex bootMachine staleSwitch).map (fun m =>
        (m.events, noSection m, m.preemptDisableCount 1)) =
          some ([.acquire 1 .switch, .release 0 .switch, .acquire 0 .switch], true, 1) := by
      decide +kernel
    obtain ⟨m, hm, hfacts⟩ := Option.map_eq_some_iff.mp hrun
    simp only [Prod.mk.injEq] at hfacts
    obtain ⟨hevents, hno, hcount⟩ := hfacts
    exact ⟨m, (Reach.start initial_bootMachine).execWhile (fun _ _ h => h) hm, hevents,
      noSection_spec hno, hcount, not_countersAgree hno hcount⟩
  · have hrun : (execWhile Machine.step ownThread preemptedMachine migration).map (fun m =>
        (m.events, noSection m, m.preemptDisableCount 0)) =
          some ([.release 1 .lock, .acquire 1 .lock, .release 1 .switch, .acquire 1 .switch],
            true, 1) := by
      decide +kernel
    obtain ⟨m, hm, hfacts⟩ := Option.map_eq_some_iff.mp hrun
    simp only [Prod.mk.injEq] at hfacts
    obtain ⟨hevents, hno, hcount⟩ := hfacts
    exact ⟨m, (Reach.start initial_preemptedMachine).execWhile (fun _ _ h => h) hm, hevents,
      noSection_spec hno, hcount, not_countersAgree hno hcount⟩

end NekaKernel.NKern
