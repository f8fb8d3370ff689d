/-
  NKern/Stacks.lean --- whose stack a CPU is on.

  Source: `sched64_reschedule` of `sched64.c`, `context_switch64.s`.

  A CPU is on the stack of its current thread, but for the moment between the pick
  and `context_switch64`.  The pick takes the head of a queue and does not ask
  whether another CPU runs it.  As long as it never does, no two CPUs are on one
  stack, and `context_switch64` finds what an earlier one has put away.
-/
import NekaKernel.NKern.Shape

set_option autoImplicit false

namespace NekaKernel.NKern

open NekaKernel.Foundation NekaKernel.Sched

/-! ## Stacks -/

/-- The frame is the point between the pick and `context_switch64`. -/
def Frame.isSwitch : Frame → Bool
  | .reschedSwitch _ _ => true
  | _ => false

/-- CPU `k` is on the stack of its thread, or about to change over to it. -/
def OnOwn (m : Machine) (k : Cpu) : Prop :=
  match m.stack k with
  | .reschedSwitch prev next :: _ => m.on k = prev ∧ m.sched.current k = some next
  | _ => m.on k = m.sched.current k

/-- Every CPU is on its own stack. -/
structure Stacks (m : Machine) : Prop where
  own : ∀ k, OnOwn m k
  apart : ∀ j k t, m.on j = some t → m.on k = some t ∨ m.sched.current k = some t → j = k

/-- The move is not a pick of a thread that is current on another CPU. -/
def ownThread (m : Machine) : Move → Bool
  | .exec k =>
      match m.stack k with
      | .reschedPick rc :: _ =>
          match (sched64Reschedule m.sched rc).2 with
          | .switch _ next => decide (∀ j, j ≠ k → m.sched.current j ≠ some next)
          | _ => true
      | _ => true
  | _ => true

/-- The move uses the index of the CPU it is made on, and takes no thread from
another one. -/
def ownMove (m : Machine) (mv : Move) : Bool := ownIndex m mv && ownThread m mv

/-- **The invariant**: of the lock, and of the stacks. -/
structure Inv (m : Machine) (holder : Option (Cpu × Via)) : Prop extends LockInv m holder where
  places : Stacks m

theorem inv_of_initial {L : ThreadTable} {m : Machine} (h : m.Initial L) : Inv m none := by
  refine ⟨lockInv_of_initial h, ?_, ?_⟩
  · intro k
    unfold OnOwn
    rw [h.booting k]
    exact (h.on k).trans (h.created.current k).symm
  · intro j k t hj
    rw [h.on j] at hj
    exact absurd hj nofun

/-! ## The pick and the switch are on top -/

section Tops

variable {k : Cpu} {o : Option Cpu} {i : Bool} {f : Frame} {r st : List Frame} {d : Nat}
  {v : Option Via}

theorem Resting.not_switch (h : Resting o st) : ∀ g ∈ st, g.isSwitch = false := by
  induction h with
  | code => simp [Frame.isSwitch]
  | lockIdx => simp [Frame.isSwitch]
  | lockCli c => simp [Frame.isSwitch]
  | boot k => simp [Frame.isSwitch]
  | reschedIdx _ ih => simpa [Frame.isSwitch] using ih
  | lfsIdx _ ih => simpa [Frame.isSwitch] using ih
  | lfsCli _ ih => simpa [Frame.isSwitch] using ih
  | unlockIf c _ ih => simpa [Frame.isSwitch] using ih
  | uasSti _ ih => simpa [Frame.isSwitch] using ih
  | iret flags snap _ ih => simpa [Frame.isSwitch] using ih

theorem Arriving.not_switch (h : Arriving k o st d) : ∀ g ∈ st, g.isSwitch = false := by
  cases h with
  | popfq flags h => simpa [Frame.isSwitch] using h.not_switch
  | idx h => simpa [Frame.isSwitch] using h.not_switch
  | dec h => simpa [Frame.isSwitch] using h.not_switch
  | test h => simpa [Frame.isSwitch] using h.not_switch
  | rel h => simpa [Frame.isSwitch] using h.not_switch

theorem Handling.not_switch (h : Handling k o st d v) : ∀ g ∈ st, g.isSwitch = false := by
  cases h with
  | rest h => exact h.not_switch
  | iret flags snap h => simpa [Frame.isSwitch] using h.not_switch

theorem Calling.not_switch (h : Calling k o st d v) : ∀ g ∈ st, g.isSwitch = false := by
  cases h <;> simpa [Frame.isSwitch] using Handling.not_switch ‹_›

/-- Below the frame on top nothing is about to switch. -/
theorem Shape.below_not_switch (h : Shape k o i (f :: r) d v) (hf : f.isSwitch = false) :
    ∀ g ∈ r, g.isSwitch = false := by
  cases h with
  | resting h => exact fun g hg => h.not_switch g (List.mem_cons_of_mem f hg)
  | arriving h => exact fun g hg => h.not_switch g (List.mem_cons_of_mem f hg)
  | handling h => exact fun g hg => h.not_switch g (List.mem_cons_of_mem f hg)
  | tick h => exact h.not_switch
  | locking h => cases h <;> simp [Frame.isSwitch]
  | unlocking h => cases h <;> simp [Frame.isSwitch]
  | calling h => exact fun g hg => h.not_switch g (List.mem_cons_of_mem f hg)
  | picking h => exact h.not_switch
  | switching next h => simp [Frame.isSwitch] at hf

end Tops

section Steps

variable {m m' : Machine} {holder : Option (Cpu × Via)} {k : Cpu} {r : List Frame} {f : Frame}

theorem enterSection_not_switch (c : Cpu) (hr : ∀ g ∈ r, g.isSwitch = false) :
    ∀ g ∈ enterSection c r, g.isSwitch = false := by
  unfold enterSection
  split
  · simpa [Frame.isSwitch] using hr
  · exact hr

theorem OnOwn.congr (h : OnOwn m k) (hst : m'.stack k = m.stack k) (hon : m'.on k = m.on k)
    (hcur : m'.sched.current k = m.sched.current k) : OnOwn m' k := by
  unfold OnOwn
  rw [hst, hon, hcur]
  exact h

theorem onOwn_iff (h : ∀ g ∈ m.stack k, g.isSwitch = false) :
    OnOwn m k ↔ m.on k = m.sched.current k := by
  unfold OnOwn
  split
  · rename_i hst
    rw [hst] at h
    simpa [Frame.isSwitch] using h _ List.mem_cons_self
  · exact Iff.rfl

/-- A CPU whose top frame is not about to switch is on the stack of its thread. -/
theorem Stacks.on_eq (S : Stacks m) (hst : m.stack k = f :: r) (hf : f.isSwitch = false) :
    m.on k = m.sched.current k := by
  have hown := S.own k
  unfold OnOwn at hown
  rw [hst] at hown
  cases f with
  | reschedSwitch prev next => simp [Frame.isSwitch] at hf
  | _ => exact hown

/-- Who picks or switches holds the lock. -/
theorem LockInv.holder_of_top (I : LockInv m holder) (hst : m.stack k = f :: r)
    (hf : (∃ rc, f = .reschedPick rc) ∨ ∃ prev next, f = .reschedSwitch prev next) :
    holder = some (k, .switch) := by
  obtain ⟨o, d, v, hshape, -, hholds, -⟩ := I.cpus k
  rw [hst] at hshape
  rcases hf with ⟨rc, rfl⟩ | ⟨prev, next, rfl⟩
  · exact (hholds _).mp hshape.atTop.2
  · exact (hholds _).mp hshape.atTop.2

/-- While one CPU picks or switches, the others are on the stacks of their threads. -/
theorem Inv.on_eq_of_holder (I : Inv m (some (k, .switch))) {j : Cpu} (hj : j ≠ k) :
    m.on j = m.sched.current j := by
  rcases hst : m.stack j with _ | ⟨f, r⟩
  · have hown := I.places.own j
    unfold OnOwn at hown
    rwa [hst] at hown
  · refine I.places.on_eq hst ?_
    cases f with
    | reschedSwitch prev next =>
      have hholder := I.holder_of_top hst (.inr ⟨prev, next, rfl⟩)
      simp only [Option.some.injEq, Prod.mk.injEq, and_true] at hholder
      exact absurd hholder.symm hj
    | _ => rfl

/-- Nobody is on the stack that `context_switch64` takes up, unless it is the one it
has just left. -/
theorem Stacks.next_free (S : Stacks m) {prev : Option Tid} {next : Tid}
    (hst : m.stack k = .reschedSwitch prev next :: r) :
    m.on k = prev ∧ (prev = some next ∨ ∀ j, m.on j ≠ some next) := by
  have hown := S.own k
  unfold OnOwn at hown
  rw [hst] at hown
  obtain ⟨hon, hcur⟩ := hown
  refine ⟨hon, ?_⟩
  by_cases hsame : prev = some next
  · exact .inl hsame
  · refine .inr fun j hj => ?_
    have hjk : j = k := S.apart j k next hj (.inr hcur)
    subst hjk
    exact hsame (hon.symm.trans hj)

/-- A stack that nobody is on after `context_switch64` is the one it has left, or one
that nobody was on. -/
theorem free_of_switched {prev : Option Tid} {next t : Tid} (hon : m.on k = prev)
    (hfree : ∀ j, (m.switchStacks k r prev next).on j ≠ some t) :
    prev = some t ∨ ∀ j, m.on j ≠ some t := by
  by_cases hsame : prev = some t
  · exact .inl hsame
  · refine .inr fun j hj => ?_
    by_cases hjk : j = k
    · subst hjk
      exact hsame (hon.symm.trans hj)
    · refine hfree j ?_
      rw [Machine.switchStacks, Machine.setOn]
      dsimp only [Machine.setStack]
      rw [Function.update_of_ne hjk, (m.putAway_shared k r prev).2.2]
      exact hj

/-- What was put away on a stack that nobody is on can be taken up again. -/
theorem LockInv.suspended_putAway (I : LockInv m holder) {prev : Option Tid} {t : Tid}
    (hprev : prev = none ∨ Resting none r) (hfree : prev = some t ∨ ∀ j, m.on j ≠ some t) :
    Suspended ((m.putAway k r prev).saved t) := by
  by_cases hsame : prev = some t
  · subst hsame
    rw [Machine.putAway_saved_self]
    exact ⟨_, r, rfl, hprev.resolve_left nofun⟩
  · rw [Machine.putAway_saved_of_ne m k r hsame]
    exact I.saved t (hfree.resolve_left hsame)

/-- What `context_switch64` takes up was put away by an earlier one. -/
theorem Inv.suspended_next (I : Inv m holder) {prev : Option Tid} {next : Tid}
    (hst : m.stack k = .reschedSwitch prev next :: r) :
    m.on k = prev ∧ Suspended ((m.putAway k r prev).saved next) := by
  obtain ⟨hon, hfree⟩ := I.places.next_free hst
  obtain ⟨_, _, _, hshape, -⟩ := I.cpus k
  rw [hst] at hshape
  exact ⟨hon, I.suspended_putAway hshape.atTop.1 hfree⟩

/-- A step that neither picks nor switches leaves the CPU where it is. -/
theorem run_stays (hst : m.stack k = f :: r) (hpick : ∀ rc, f ≠ .reschedPick rc)
    (hf : f.isSwitch = false) (hr : ∀ g ∈ r, g.isSwitch = false)
    (hrun : m.run k r f = some m') :
    m'.on = m.on ∧ m'.sched.current = m.sched.current ∧
    ∀ g ∈ m'.stack k, g.isSwitch = false := by
  cases f with
  | code cs => simp [Machine.run] at hrun
  | reschedPick rc => exact absurd rfl (hpick rc)
  | reschedSwitch prev next => simp [Frame.isSwitch] at hf
  | lockTest c =>
    simp only [Machine.run] at hrun
    split at hrun <;> simp only [Option.some.injEq] at hrun <;> subst hrun <;>
      refine ⟨rfl, rfl, ?_⟩ <;> rw [Machine.setStack_stack]
    · simpa [Frame.isSwitch] using hr
    · exact enterSection_not_switch c hr
  | lockSpin c =>
    simp only [Machine.run] at hrun
    split at hrun <;> simp only [Option.some.injEq] at hrun <;> subst hrun <;>
      refine ⟨rfl, rfl, ?_⟩
    · rw [hst]
      simpa [Frame.isSwitch] using hr
    · rw [Machine.acquired_stack, Machine.setStack_stack]
      exact enterSection_not_switch c hr
  | tick =>
    have hframe : SameQueues m.sched
      (sched64TimerTick m.sched k (decide (0 < m.preemptDisableCount k))).1 :=
        sched64TimerTick_frame _
    simp only [Machine.run] at hrun
    split at hrun <;> rename_i htick <;> rw [htick] at hframe <;>
      simp only [Option.some.injEq] at hrun <;> subst hrun <;>
      exact ⟨rfl, hframe.current, by simpa [Frame.isSwitch] using hr⟩
  | lfsSpin rc c =>
    simp only [Machine.run] at hrun
    split at hrun <;> simp only [Option.some.injEq] at hrun <;> subst hrun <;>
      refine ⟨rfl, rfl, ?_⟩
    · rw [hst]
      simpa [Frame.isSwitch] using hr
    · simpa [Frame.isSwitch] using hr
  | unlockDec c slot | uasDec c =>
    simp only [Machine.run, Option.some.injEq] at hrun
    subst hrun
    obtain ⟨-, -, -, hon, hsched⟩ := Machine.decrement_shared (m.setStack k (_ :: r)) c
    refine ⟨hon, congrArg Scheduler64.current hsched, ?_⟩
    rw [Machine.decrement_stack, Machine.setStack_stack]
    simpa [Frame.isSwitch] using hr
  | _ =>
    simp only [Machine.run] at hrun
    (repeat' split at hrun) <;> simp only [Option.some.injEq] at hrun <;> subst hrun <;>
      exact ⟨rfl, rfl, by simpa [Frame.isSwitch] using hr⟩

/-- A step of `k` changes the context and the IF of `k` only. -/
theorem run_elsewhere (h : m.run k r f = some m') {j : Cpu} (hj : j ≠ k) :
    m'.stack j = m.stack j ∧ m'.ifFlag j = m.ifFlag j := by
  cases f <;> simp only [Machine.run] at h <;> (repeat' split at h) <;>
    simp only [Option.some.injEq, reduceCtorEq] at h <;> subst h <;>
    simp [Machine.setStack, Machine.setIf, Machine.setCount, Machine.setPending,
      Machine.setSavedIf, Machine.acquired, Machine.released, Machine.switchStacks,
        Machine.setOn,
      Function.update_of_ne hj]

/-- A step that leaves everybody on its stack. -/
theorem Stacks.congr (S : Stacks m) (hon : m'.on = m.on)
    (hcurrent : m'.sched.current = m.sched.current)
    (helse : ∀ j, j ≠ k → m'.stack j = m.stack j) (hk : OnOwn m' k) : Stacks m' := by
  refine ⟨?_, ?_⟩
  · intro j
    by_cases hj : j = k
    · subst hj
      exact hk
    · have hown := S.own j
      unfold OnOwn at hown ⊢
      rw [helse j hj, hon, hcurrent]
      exact hown
  · rw [hon, hcurrent]
    exact S.apart

end Steps

end NekaKernel.NKern
