/-
  NKern/Masked.lean --- the lock is held with interrupts off.

  Source: `nkern_lock.c`, `context_switch64.s`, and the RFLAGS word that
  `sched64_create_thread` puts on a new stack.

  A suspended thread saved its RFLAGS behind the `cli` of `NKern_LockForSwitch`,
  so its `popfq` leaves IF clear until `NKern_UnlockAfterSwitch` sets it.  The
  RFLAGS of a fresh thread are 0x202: its `popfq` sets IF while its CPU still
  holds the lock for the switch.
-/
import NekaKernel.NKern.Counters

set_option autoImplicit false

namespace NekaKernel.NKern

open NekaKernel.Foundation NekaKernel.Sched

/-! ## The statement -/

/-- **Lock held implies interrupts off**, and no CPU waits for itself. -/
structure Masked (m : Machine) : Prop where
  off : ∀ k, Inside m k ∨ 0 < m.preemptDisableCount k → m.ifFlag k = false
  noSelfSpin : ∀ k f r, m.stack k = f :: r → (∃ c, f = .lockSpin c) ∨
    (∃ rc c, f = .lfsSpin rc c) →
    ¬ Inside m k

/-- The move is not a switch to a thread whose RFLAGS have IF set, that is, to one
that has never run. -/
def notFresh (m : Machine) : Move → Bool
  | .exec k =>
      match m.stack k with
      | .reschedSwitch _ next :: _ =>
          match m.saved next with
          | .popfq true :: _ => false
          | _ => true
      | _ => true
  | _ => true

/-! ## The invariant -/

/-- The lock is held for a switch, and no handler lies above. -/
def Frame.handingOver : Frame → Bool
  | .reschedPick _ => true
  | .reschedSwitch _ _ => true
  | .popfq _ => true
  | .uasIdx => true
  | .uasDec _ => true
  | .uasTest _ => true
  | .uasRel _ => true
  | _ => false

/-- CPU `k` hands the lock over with IF clear, and what it will `popfq` keeps it
clear. -/
def Calm (m : Machine) (k : Cpu) : Prop :=
  m.ifFlag k = false ∧ ∃ f r, m.stack k = f :: r ∧ f.handingOver = true ∧ f ≠ .popfq true

/-- The lock is handed over calmly. -/
def AllCalm (m : Machine) (holder : Option (Cpu × Via)) : Prop :=
  ∀ k, holder = some (k, .switch) → Calm m k

section Steps

variable {m m' : Machine} {holder holder' : Option (Cpu × Via)} {k : Cpu}
    {r : List Frame} {f : Frame}

/-- A step of the hand-over, up to the release. -/
theorem Inv.calm_handOver (I : Inv m holder) (hst : m.stack k = f :: r)
    (hif : m.ifFlag k = false) (hf : f.handingOver = true) (hpop : f ≠ .popfq true)
    (hfresh : notFresh m (.exec k) = true) (hrun : m.run k r f = some m')
    (hevents : m'.events = m.events) : Calm m' k := by
  obtain ⟨o, d, v, hshape, hcount, hholds, howner⟩ := I.cpus k
  rw [hst] at hshape
  generalize hflag : m.ifFlag k = i at hshape
  cases hshape with
  | resting h => cases h <;> simp [Frame.handingOver] at hf
  | arriving h =>
    cases h with
    | popfq flags h =>
      simp only [Machine.run, Option.some.injEq] at hrun
      subst hrun
      have hflags : flags = false := by simpa using hpop
      exact ⟨by simpa using hflags, .uasIdx, _, Machine.setStack_stack .., rfl, by simp⟩
    | idx h =>
      simp only [Machine.run, Option.some.injEq] at hrun
      subst hrun
      exact ⟨hif, .uasDec k, r, by simp, rfl, by simp⟩
    | dec h =>
      simp only [Machine.run, Option.some.injEq] at hrun
      subst hrun
      exact ⟨by simpa using hif, .uasTest k, r, by simp, rfl, by simp⟩
    | test h =>
      simp only [Machine.run] at hrun
      rw [if_pos (by simpa using hcount), Option.some.injEq] at hrun
      subst hrun
      exact ⟨hif, .uasRel k, r, by simp, rfl, by simp⟩
    | rel h =>
      simp only [Machine.run, Option.some.injEq] at hrun
      subst hrun
      simp [Machine.released, Machine.setStack] at hevents
  | handling h =>
    cases h with
    | rest h => cases h <;> simp [Frame.handingOver] at hf
    | iret flags snap h => simp [Frame.handingOver] at hf
  | tick h => simp [Frame.handingOver] at hf
  | locking h => cases h <;> simp [Frame.handingOver] at hf
  | unlocking h => cases h <;> simp [Frame.handingOver] at hf
  | calling h => cases h <;> simp [Frame.handingOver] at hf
  | picking h =>
    simp only [Machine.run] at hrun
    rcases sched64Reschedule_outcomes I.wf k
      with hout | ⟨s, hout, _, _⟩ | ⟨s, next, hout, _⟩ <;>
      rw [hout] at hrun <;> simp only [Option.some.injEq] at hrun <;> subst hrun
    · exact ⟨hif, .uasIdx, r, by simp, rfl, by simp⟩
    · exact ⟨hif, .uasIdx, r, by simp, rfl, by simp⟩
    · exact ⟨hif, .reschedSwitch _ next, r, Machine.setStack_stack .., rfl, by simp⟩
  | @switching prev _ next h =>
    simp only [Machine.run, Machine.switchStacks, Option.some.injEq] at hrun
    subst hrun
    obtain ⟨-, flags, r', hnext, -⟩ := I.suspended_next hst
    refine ⟨by simpa using hif, .popfq flags, .uasIdx :: r', by simp [hnext], rfl, ?_⟩
    -- what was just put away has IF clear, what was put away before is not fresh
    rintro ⟨rfl⟩
    by_cases hp : prev = some next
    · subst hp
      simp [Machine.putAway, hif] at hnext
    · rw [Machine.putAway_saved_of_ne m k r hp] at hnext
      simp [notFresh, hst, hnext] at hfresh

/-- The acquisition for a switch is made with IF clear. -/
theorem Inv.masked_lfsSpin (I : Inv m holder) {rc c : Cpu}
    (hst : m.stack k = .lfsSpin rc c :: r) :
    m.ifFlag k = false := by
  obtain ⟨o, d, v, hshape, _, _, _⟩ := I.cpus k
  rw [hst] at hshape
  generalize m.ifFlag k = i at hshape
  cases hshape with
  | resting h => cases h
  | arriving h => cases h
  | handling h => rfl
  | locking h => rfl
  | unlocking h => rfl
  | calling h => rfl

/-- The step on top of a CPU's stack keeps the hand-over calm. -/
theorem AllCalm.exec (C : AllCalm m holder) (I : Inv m holder) (I' : Inv m' holder')
    (hst : m.stack k = f :: r) (hfresh : notFresh m (.exec k) = true)
    (hrun : m.run k r f = some m') : AllCalm m' holder' := by
  have hreplay := I'.replay
  intro j hj
  subst hj
  rcases run_events hrun with hev | ⟨c, _, hev⟩ | ⟨rc, c, rfl, hev, hst', hif'⟩ | ⟨c, _,
    hev⟩ | ⟨c, _, hev⟩
  · rw [hev, I.replay, Option.some.injEq] at hreplay
    obtain ⟨hif, g, rg, hg, hover, hpop⟩ := C j hreplay
    by_cases hjk : j = k
    · subst hjk
      rw [hst] at hg
      obtain ⟨rfl, rfl⟩ := List.cons.inj hg
      exact I.calm_handOver hst hif hover hpop hfresh hrun hev
    · obtain ⟨hstack, hflag⟩ := run_elsewhere hrun hjk
      exact ⟨hflag.trans hif, g, rg, hstack.trans hg, hover, hpop⟩
  · rw [hev, replay, I.replay] at hreplay
    cases holder <;> simp at hreplay
  · rw [hev, replay, I.replay] at hreplay
    cases holder with
    | some h => simp at hreplay
    | none =>
      simp only [Option.some.injEq, Prod.mk.injEq, and_true] at hreplay
      subst hreplay
      exact ⟨hif'.trans (I.masked_lfsSpin hst), _, r, hst', rfl, by simp⟩
  · rw [hev, replay, I.replay] at hreplay
    cases holder with
    | none => simp at hreplay
    | some h => split at hreplay <;> simp at hreplay
  · rw [hev, replay, I.replay] at hreplay
    cases holder with
    | none => simp at hreplay
    | some h => split at hreplay <;> simp at hreplay

/-- A move that makes no history and finds no hand-over on its CPU. -/
theorem AllCalm.other (C : AllCalm m holder) (I : Inv m holder) (I' : Inv m' holder')
    (hevents : m'.events = m.events)
    (helse : ∀ j, j ≠ k → m'.stack j = m.stack j ∧ m'.ifFlag j = m.ifFlag j)
    (hk : ¬ Calm m k) : AllCalm m' holder' := by
  have hreplay := I'.replay
  rw [hevents, I.replay, Option.some.injEq] at hreplay
  subst hreplay
  intro j hj
  obtain ⟨hif, g, rg, hg, hover, hpop⟩ := C j hj
  by_cases hjk : j = k
  · subst hjk
    exact absurd ⟨hif, g, rg, hg, hover, hpop⟩ hk
  · obtain ⟨hstack, hflag⟩ := helse j hjk
    exact ⟨hflag.trans hif, g, rg, hstack.trans hg, hover, hpop⟩

theorem not_calm_of_code {cs : List Cpu} (hst : m.stack k = .code cs :: r) : ¬ Calm m k := by
  rintro ⟨_, f, r', hst', hf, _⟩
  rw [hst] at hst'
  obtain ⟨rfl, _⟩ := List.cons.inj hst'
  simp [Frame.handingOver] at hf

/-- **Step lemma.** -/
theorem AllCalm.step {mv : Move} (C : AllCalm m holder) (I : Inv m holder) (I' : Inv m' holder')
    (hfresh : notFresh m mv = true) (hstep : m.step mv = some m') : AllCalm m' holder' := by
  cases Machine.moved_of_step hstep with
  | exec hst hrun => exact C.exec I I' hst hfresh hrun
  | callLock hst =>
    exact C.other I I' rfl (fun j hj => ⟨Function.update_of_ne hj _ _, rfl⟩)
      (not_calm_of_code hst)
  | callUnlock hst =>
    exact C.other I I' rfl (fun j hj => ⟨Function.update_of_ne hj _ _, rfl⟩)
      (not_calm_of_code hst)
  | setIf b hst =>
    exact C.other I I' rfl (fun j hj => ⟨rfl, Function.update_of_ne hj _ _⟩)
      (not_calm_of_code hst)
  | timer hif =>
    refine C.other I I' rfl
      (fun j hj => ⟨Function.update_of_ne hj _ _, Function.update_of_ne hj _ _⟩)
      ?_
    rintro ⟨hoff, _⟩
    rw [hif] at hoff
    simp at hoff
  | simd x henabled =>
    have hreplay := I'.replay
    rw [I.replay, Option.some.injEq] at hreplay
    subst hreplay
    exact C
  | overwrite st hon =>
    have hreplay := I'.replay
    rw [I.replay, Option.some.injEq] at hreplay
    subst hreplay
    exact C
  | @clobber j k t st hjk hj hk => exact absurd (I.places.apart j k t hj (.inl hk)) hjk

/-- A context that holds the lock or has counted has IF clear, unless it is on its
way to the release. -/
theorem Shape.masked {o : Option Cpu} {i : Bool} {st : List Frame} {d : Nat} {v : Option Via}
    (h : Shape k o i st d v) (hbusy : d ≠ 0 ∨ v ≠ none) : i = false ∨ v = some .switch := by
  cases h with
  | resting h => simp at hbusy
  | arriving h => exact Or.inr rfl
  | handling h => exact Or.inl rfl
  | tick h => exact Or.inl rfl
  | locking h => exact Or.inl rfl
  | unlocking h => exact Or.inl rfl
  | calling h => exact Or.inl rfl
  | picking h => exact Or.inl rfl
  | switching next h => exact Or.inl rfl

/-- A context that spins holds the lock only below an interrupted hand-over. -/
theorem Shape.of_spin {o : Option Cpu} {i : Bool} {d : Nat} {v : Option Via}
    (h : Shape k o i (f :: r) d v) (hf : (∃ c, f = .lockSpin c) ∨ ∃ rc c, f = .lfsSpin rc c) :
    v = none ∨ v = some .switch := by
  rcases hf with ⟨c, rfl⟩ | ⟨rc, c, rfl⟩
  · cases h with
    | resting h => cases h
    | arriving h => cases h
    | handling h =>
      cases h with
      | rest h => cases h
    | locking h =>
      cases h
      exact Or.inl rfl
    | unlocking h => cases h
    | calling h => cases h
  · cases h with
    | resting h => cases h
    | arriving h => cases h
    | handling h =>
      cases h with
      | rest h => cases h
    | locking h => cases h
    | unlocking h => cases h
    | calling h =>
      cases h with
      | lfsSpin h =>
        cases h with
        | rest h => exact Or.inl rfl
        | iret flags snap h => exact Or.inr rfl

theorem Inv.masked (I : Inv m holder) (C : AllCalm m holder) : Masked m := by
  refine ⟨?_, ?_⟩
  · intro k hbusy
    obtain ⟨o, d, v, hshape, hcount, hholds, _⟩ := I.cpus k
    have hdv : d ≠ 0 ∨ v ≠ none := by
      rcases hbusy with hin | hpos
      · exact Or.inr (hshape.inside_iff.mp hin)
      · exact Or.inl (by omega)
    rcases hshape.masked hdv with hoff | hv
    · exact hoff
    · exact (C k ((hholds _).mp hv)).1
  · intro k f r hst hf hin
    obtain ⟨o, d, v, hshape, _, hholds, _⟩ := I.cpus k
    have hv := hshape.inside_iff.mp hin
    rw [hst] at hshape
    obtain ⟨_, g, rg, hg, hover, _⟩ := C k ((hholds _).mp ((hshape.of_spin hf).resolve_left hv))
    rw [hst] at hg
    obtain ⟨rfl, _⟩ := List.cons.inj hg
    rcases hf with ⟨c, rfl⟩ | ⟨rc, c, rfl⟩ <;> simp [Frame.handingOver] at hover

end Steps

/-! ## Every run -/

/-- The moves under which the lock is held with interrupts off. -/
def calmMove (m : Machine) (mv : Move) : Bool := ownMove m mv && notFresh m mv

/-- **Lock held implies interrupts off**, in every run that switches to threads
that have run before and are current on no other CPU, and in which `NKern_Lock`
stays on the CPU whose index it has read. -/
theorem lock_held_masked (L : ThreadTable) (m : Machine)
    (h : Reach (Machine.Initial L) Machine.step (fun m mv => calmMove m mv = true) m) :
    Masked m := by
  have hinv : ∃ holder, Inv m holder ∧ AllCalm m holder := by
    refine h.invariant (P := fun m => ∃ holder, Inv m holder ∧ AllCalm m holder) ?_ ?_
    · intro m hm
      exact ⟨none, inv_of_initial hm, by simp [AllCalm]⟩
    · rintro m mv m' ⟨holder, I, C⟩ hmv hstep
      obtain ⟨hown, hfresh⟩ := Bool.and_eq_true_iff.mp hmv
      obtain ⟨holder', I'⟩ := inv_step I hown hstep
      exact ⟨holder', I', C.step I I' hfresh hstep⟩
  obtain ⟨holder, I, C⟩ := hinv
  exact I.masked C

/-- The boot machine, with the threads suspended in their own code. -/
def resumedMachine : Machine :=
  { bootMachine with saved := fun _ => [.popfq false, .uasIdx, .code []] }

theorem initial_resumedMachine : resumedMachine.Initial tableAt3M :=
  ⟨created_twoThreads, rfl, fun _ => rfl, fun _ => rfl, fun _ => ⟨false, _, rfl, .code⟩,
    fun _ => rfl, fun _ => ⟨_, rfl⟩, rfl⟩

/-- Behind the `popfq` of a resumed thread IF is still clear. -/
theorem lock_held_masked_resumed :
    ∃ m, Reach (Machine.Initial tableAt3M) Machine.step (fun m mv => calmMove m mv = true) m ∧
      m.events = [.acquire 0 .switch] ∧ m.ifFlag 0 = false ∧ Masked m := by
  have hrun : (execWhile Machine.step calmMove resumedMachine (List.replicate 10 (.exec 0))).map
      (fun m => (m.events, m.ifFlag 0)) = some ([.acquire 0 .switch], false) := by
        decide +kernel
  obtain ⟨m, hm, hfacts⟩ := Option.map_eq_some_iff.mp hrun
  obtain ⟨hevents, hoff⟩ := Prod.mk.inj hfacts
  have hreach := (Reach.start initial_resumedMachine).execWhile (fun _ _ h => h) hm
  exact ⟨m, hreach, hevents, hoff, lock_held_masked tableAt3M m hreach⟩

/-! ## A fresh thread -/

/-- Some frame of `k` is between an acquisition and its release, as a test. -/
def insideTest (m : Machine) (k : Cpu) : Bool := (m.stack k).any Frame.inside

theorem insideTest_spec {m : Machine} {k : Cpu} (h : insideTest m k = true) : Inside m k := by
  unfold insideTest at h
  obtain ⟨f, hf, hin⟩ := List.any_eq_true.mp h
  exact ⟨f, hf, hin⟩

/-- The first switch of the boot CPU sets IF with the lock held and the counter at
1; and if the slice of the thread then ends before the release, the CPU waits for
itself. -/
theorem fresh_thread_unmasked :
    bootMachine.Initial tableAt3M ∧
    (∃ m, exec Machine.step bootMachine (List.replicate 10 (.exec 0)) = some m ∧
      Inside m 0 ∧ m.preemptDisableCount 0 = 1 ∧ m.ifFlag 0 = true ∧ ¬ Masked m) ∧
    ∃ m, exec Machine.step bootMachine freshTicks = some m ∧
      (∃ rc c r, m.stack 0 = .lfsSpin rc c :: r) ∧ Inside m 0 := by
  have hfirst : (exec Machine.step bootMachine (List.replicate 10 (.exec 0))).map
      (fun m => (insideTest m 0, m.preemptDisableCount 0, m.ifFlag 0)) =
        some (true, 1, true) := by
    decide +kernel
  have hspin : (exec Machine.step bootMachine freshTicks).map
      (fun m => (insideTest m 0, spinTest m 0)) = some (true, true) := by decide +kernel
  refine ⟨initial_bootMachine, ?_, ?_⟩
  · obtain ⟨m, hm, hfacts⟩ := Option.map_eq_some_iff.mp hfirst
    simp only [Prod.mk.injEq] at hfacts
    obtain ⟨hin, hcount, hon⟩ := hfacts
    refine ⟨m, hm, insideTest_spec hin, hcount, hon, ?_⟩
    intro hmasked
    have hoff := hmasked.off 0 (Or.inl (insideTest_spec hin))
    rw [hon] at hoff
    simp at hoff
  · obtain ⟨m, hm, hfacts⟩ := Option.map_eq_some_iff.mp hspin
    simp only [Prod.mk.injEq] at hfacts
    obtain ⟨hin, hsp⟩ := hfacts
    exact ⟨m, hm, spinTest_spec hsp, insideTest_spec hin⟩

end NekaKernel.NKern
