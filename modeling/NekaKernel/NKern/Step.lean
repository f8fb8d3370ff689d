/-
  NKern/Step.lean --- every step keeps the invariant of the lock.

  One lemma for each function that a CPU can be in; `inv_step` puts them
  together and `inv_of_reach` carries the invariant along a run.
-/
import NekaKernel.NKern.Stacks

set_option autoImplicit false

namespace NekaKernel.NKern

open NekaKernel.Foundation NekaKernel.Sched

section Steps

variable {m m' : Machine} {holder : Option (Cpu × Via)} {k : Cpu} {o : Option Cpu} {d : Nat}
  {v : Option Via} {r : List Frame} {f : Frame}

/-- A step that touches nothing but the context of CPU `k`, its IF and its
counter. -/
theorem LockInv.same (I : LockInv m holder) (E : Elsewhere k m m')
    (hshared : m'.events = m.events ∧ m'.bigKernelLock = m.bigKernelLock ∧ m'.saved = m.saved ∧
      m'.on = m.on ∧ m'.sched = m.sched)
    (hshape : Shape k o (m'.ifFlag k) (m'.stack k) d v)
    (hcount : m'.preemptDisableCount k = (d : Int))
    (hholds : ∀ via, v = some via ↔ holder = some (k, via))
    (howner : o = none ∨ o = some k ∧ m.sched.current k = none) : LockInv m' holder := by
  obtain ⟨hevents, hlock, hsaved, hon, hsched⟩ := hshared
  refine I.keep E hevents hlock ?_ (hsched ▸ I.wf) ⟨o, d, v, hshape, hcount, hholds, ?_⟩
  · rw [hsaved, hon]
    exact I.saved
  · rw [hsched]
    exact howner

/-- A context at rest. -/
theorem LockInv.run_resting (I : LockInv m holder) (h : Resting o (f :: r))
    (hcount : m.preemptDisableCount k = 0)
    (hholds : ∀ via, (none : Option Via) = some via ↔ holder = some (k, via))
    (howner : o = none ∨ o = some k ∧ m.sched.current k = none)
    (hown : ∀ c, f = .lockCli c → c = k) (hrun : m.run k r f = some m') :
    LockInv m' holder := by
  have E := Elsewhere.refl k m
  cases h with
  | code => simp [Machine.run] at hrun
  | lockIdx =>
    simp only [Machine.run, Option.some.injEq] at hrun
    subst hrun
    refine I.same (E.setStack _) ⟨rfl, rfl, rfl, rfl, rfl⟩ ?_ hcount hholds howner
    simpa using Shape.resting (.lockCli k)
  | lockCli c =>
    have hc : c = k := hown c rfl
    subst hc
    simp only [Machine.run, Option.some.injEq] at hrun
    subst hrun
    refine I.same ((E.setStack _).setIf _) ⟨rfl, rfl, rfl, rfl, rfl⟩ ?_ hcount hholds howner
    have hsave : Locking c [.lockSave c (m.ifFlag c), .code []] 0 none := .save _ (by simp)
    simpa using Shape.locking hsave
  | boot k' =>
    simp only [Machine.run, Option.some.injEq] at hrun
    subst hrun
    refine I.same (E.setStack _) ⟨rfl, rfl, rfl, rfl, rfl⟩ ?_ hcount hholds howner
    simpa using Shape.resting (.reschedIdx (.boot k'))
  | reschedIdx h =>
    obtain ⟨rfl⟩ : some _ = some k := (howner.resolve_left (by simp)).1
    simp only [Machine.run, Option.some.injEq] at hrun
    subst hrun
    refine I.same (E.setStack _) ⟨rfl, rfl, rfl, rfl, rfl⟩ ?_ hcount hholds howner
    simpa using Shape.resting (.lfsIdx h)
  | lfsIdx h =>
    obtain ⟨rfl⟩ : some _ = some k := (howner.resolve_left (by simp)).1
    simp only [Machine.run, Option.some.injEq] at hrun
    subst hrun
    refine I.same (E.setStack _) ⟨rfl, rfl, rfl, rfl, rfl⟩ ?_ hcount hholds howner
    simpa using Shape.resting (.lfsCli h)
  | lfsCli h =>
    obtain ⟨rfl⟩ : some _ = some k := (howner.resolve_left (by simp)).1
    simp only [Machine.run, Option.some.injEq] at hrun
    subst hrun
    refine I.same ((E.setStack _).setIf _) ⟨rfl, rfl, rfl, rfl, rfl⟩ ?_ hcount hholds howner
    simpa using Shape.calling (.lfsInc (.rest h))
  | unlockIf c h =>
    simp only [Machine.run] at hrun
    split at hrun <;> simp only [Option.some.injEq] at hrun <;> subst hrun
    · refine I.same ((E.setStack _).setIf _) ⟨rfl, rfl, rfl, rfl, rfl⟩ ?_ hcount hholds howner
      simpa using Shape.resting h
    · refine I.same (E.setStack _) ⟨rfl, rfl, rfl, rfl, rfl⟩ ?_ hcount hholds howner
      simpa using Shape.resting h
  | uasSti h =>
    simp only [Machine.run, Option.some.injEq] at hrun
    subst hrun
    refine I.same ((E.setStack _).setIf _) ⟨rfl, rfl, rfl, rfl, rfl⟩ ?_ hcount hholds howner
    simpa using Shape.resting h
  | iret flags snap h =>
    simp only [Machine.run, Option.some.injEq] at hrun
    subst hrun
    refine I.same ((E.setStack _).setIf _) ⟨rfl, rfl, rfl, rfl, rfl⟩ ?_ hcount hholds howner
    simpa using Shape.resting h

/-- Who holds the lock, when a shape says that the CPU does. -/
theorem holder_eq {via : Via} (hholds : ∀ w, some via = some w ↔ holder = some (k, w)) :
    holder = some (k, via) := (hholds via).mp rfl

/-- `popfq` and `NKern_UnlockAfterSwitch`. -/
theorem LockInv.run_arriving (I : LockInv m holder) (h : Arriving k o (f :: r) d)
    (hcount : m.preemptDisableCount k = (d : Int))
    (hholds : ∀ via, some Via.switch = some via ↔ holder = some (k, via))
    (howner : o = none ∨ o = some k ∧ m.sched.current k = none) (hrun : m.run k r f = some m') :
    ∃ holder', LockInv m' holder' := by
  have E := Elsewhere.refl k m
  cases h with
  | popfq flags h =>
    simp only [Machine.run, Option.some.injEq] at hrun
    subst hrun
    refine ⟨holder, I.same ((E.setStack _).setIf _) ⟨rfl, rfl, rfl, rfl, rfl⟩
      ?_ hcount hholds howner⟩
    simpa using Shape.arriving (.idx h)
  | idx h =>
    simp only [Machine.run, Option.some.injEq] at hrun
    subst hrun
    refine ⟨holder, I.same (E.setStack _) ⟨rfl, rfl, rfl, rfl, rfl⟩ ?_ hcount hholds howner⟩
    simpa using Shape.arriving (.dec h)
  | dec h =>
    simp only [Machine.run, Option.some.injEq] at hrun
    subst hrun
    refine ⟨holder, I.same (d := 0) (E.setStack _).decrement
      (Machine.decrement_shared _ k) ?_ ?_
      hholds howner⟩
    · simpa using Shape.arriving (.test h)
    · exact Machine.decrement_count (by simpa using hcount)
  | test h =>
    simp only [Machine.run] at hrun
    rw [if_pos (by simpa using hcount), Option.some.injEq] at hrun
    subst hrun
    refine ⟨holder, I.same (E.setStack _) ⟨rfl, rfl, rfl, rfl, rfl⟩ ?_ hcount hholds howner⟩
    simpa using Shape.arriving (.rel h)
  | rel h =>
    simp only [Machine.run, Option.some.injEq] at hrun
    subst hrun
    have hholder := holder_eq hholds
    subst hholder
    refine ⟨none, I.release ((E.setStack _).released _) rfl rfl rfl rfl rfl
      ⟨o, 0, none, ?_, hcount, by simp, howner⟩⟩
    simpa using Shape.resting (.uasSti h)

/-- The end of a handler. -/
theorem LockInv.run_handling (I : LockInv m holder) (h : Handling k o (f :: r) d v)
    (hcount : m.preemptDisableCount k = (d : Int))
    (hholds : ∀ via, v = some via ↔ holder = some (k, via))
    (howner : o = none ∨ o = some k ∧ m.sched.current k = none)
    (hown : ∀ c, f = .lockCli c → c = k) (hrun : m.run k r f = some m') :
    LockInv m' holder := by
  cases h with
  | rest h => exact I.run_resting h hcount hholds howner hown hrun
  | iret flags snap h =>
    simp only [Machine.run, Option.some.injEq] at hrun
    subst hrun
    refine I.same (((Elsewhere.refl k m).setStack _).setIf _) ⟨rfl, rfl, rfl, rfl, rfl⟩
      ?_ hcount hholds
      howner
    simpa using Shape.arriving h

/-- `sched64_timer_tick`: it goes on to `sched64_reschedule` only at depth 0. -/
theorem LockInv.run_tick (I : LockInv m holder) (h : Handling k o r d v)
    (hcount : m.preemptDisableCount k = (d : Int))
    (hholds : ∀ via, v = some via ↔ holder = some (k, via))
    (howner : o = none ∨ o = some k ∧ m.sched.current k = none) (hif : m.ifFlag k = false)
    (hrun : m.run k r .tick = some m') : LockInv m' holder := by
  have hframe : SameQueues m.sched
      (sched64TimerTick m.sched k (decide (0 < m.preemptDisableCount k))).1 :=
        sched64TimerTick_frame _
  simp only [Machine.run] at hrun
  cases htick : sched64TimerTick m.sched k (decide (0 < m.preemptDisableCount k)) with
  | mk s decision =>
    rw [htick] at hrun hframe
    -- whatever was decided, only time slices have changed so far
    have E : Elsewhere k m { m with sched := s } :=
      ⟨fun _ _ => rfl, fun _ _ => rfl, fun _ _ => rfl, fun j _ => congrFun hframe.current j⟩
    have howner' : o = none ∨ o = some k ∧ s.current k = none := by
      rw [hframe.current]
      exact howner
    have hwf : Wf s := I.wf.congr hframe
    cases decision with
    | nothing =>
      simp only [Option.some.injEq] at hrun
      subst hrun
      refine I.keep (E.setStack _) rfl rfl I.saved hwf ⟨o, d, v, ?_, hcount, hholds, howner'⟩
      simpa [hif] using Shape.handling h
    | requestReschedule =>
      simp only [Option.some.injEq] at hrun
      subst hrun
      refine I.keep ((E.setStack _).setPending _ _) rfl rfl I.saved hwf
        ⟨o, d, v, ?_, hcount, hholds, howner'⟩
      simpa [hif] using Shape.handling h
    | reschedule =>
      have hzero : d = 0 := by
        have := sched64TimerTick_unlocked htick
        rw [decide_eq_false_iff_not] at this
        omega
      subst hzero
      simp only [Option.some.injEq] at hrun
      subst hrun
      refine I.keep (E.setStack _) rfl rfl I.saved hwf ⟨o, 0, v, ?_, hcount, hholds, howner'⟩
      simpa [hif] using Shape.calling (.idx h)

/-- `NKern_Lock` behind its `cli`. -/
theorem LockInv.run_locking (I : LockInv m holder) (h : Locking k (f :: r) d v)
    (hcount : m.preemptDisableCount k = (d : Int))
    (hholds : ∀ via, v = some via ↔ holder = some (k, via)) (hif : m.ifFlag k = false)
    (hrun : m.run k r f = some m') : ∃ holder', LockInv m' holder' := by
  have E := Elsewhere.refl k m
  have howner : (none : Option Cpu) = none ∨ (none : Option Cpu) = some k ∧
      m.sched.current k = none := Or.inl rfl
  cases h with
  | code h => simp [Machine.run] at hrun
  | idx h =>
    simp only [Machine.run, Option.some.injEq] at hrun
    subst hrun
    refine ⟨holder, I.same (E.setStack _) ⟨rfl, rfl, rfl, rfl, rfl⟩ ?_ hcount hholds howner⟩
    simpa [hif] using Shape.locking (.cli h)
  | cli h =>
    simp only [Machine.run, Option.some.injEq] at hrun
    subst hrun
    refine ⟨holder, I.same ((E.setStack _).setIf _) ⟨rfl, rfl, rfl, rfl, rfl⟩
      ?_ hcount hholds howner⟩
    simpa using Shape.locking (.save _ h)
  | save flags h =>
    simp only [Machine.run, Option.some.injEq] at hrun
    subst hrun
    split
    · refine ⟨holder, I.same ((E.setSavedIf _ _).setStack _) ⟨rfl, rfl, rfl, rfl, rfl⟩
        ?_ hcount hholds
        howner⟩
      simpa [hif] using Shape.locking (.inc h)
    · refine ⟨holder, I.same (E.setStack _) ⟨rfl, rfl, rfl, rfl, rfl⟩ ?_ hcount hholds howner⟩
      simpa [hif] using Shape.locking (.inc h)
  | @inc cs h =>
    simp only [Machine.run, Option.some.injEq] at hrun
    subst hrun
    refine ⟨holder, I.same (d := cs.length + 1) ((E.setStack _).setCount _)
      ⟨rfl, rfl, rfl, rfl, rfl⟩ ?_ ?_
      hholds howner⟩
    · simpa [hif] using Shape.locking (.test h)
    · simpa using hcount
  | @test cs h =>
    simp only [Machine.run] at hrun
    split at hrun <;> simp only [Option.some.injEq] at hrun <;> subst hrun
    · rename_i hone
      have hcs : cs = [] := List.eq_nil_of_length_eq_zero (by omega)
      subst hcs
      refine ⟨holder, I.same (E.setStack _) ⟨rfl, rfl, rfl, rfl, rfl⟩ ?_ hcount hholds howner⟩
      simpa [hif] using Shape.locking (Locking.spin (k := k))
    · -- an inner section: the lock is held already
      rename_i hne
      obtain ⟨c, cs', rfl⟩ : ∃ c cs', cs = c :: cs' := by
        cases cs with
        | nil => exact absurd hcount hne
        | cons c cs' => exact ⟨c, cs', rfl⟩
      refine ⟨holder, I.same (E.setStack _) ⟨rfl, rfl, rfl, rfl, rfl⟩ ?_ hcount hholds howner⟩
      have hall : ∀ e ∈ k :: c :: cs', e = k := by simpa using h
      simpa [hif, enterSection] using Shape.locking (.code hall)
  | spin =>
    simp only [Machine.run] at hrun
    split at hrun <;> simp only [Option.some.injEq] at hrun <;> subst hrun
    · exact ⟨holder, I⟩
    · rename_i hfree
      have hnone : holder = none := by
        have := I.lock
        cases holder <;> simp_all
      subst hnone
      refine ⟨_, I.acquire .lock ((E.setStack _).acquired _) rfl rfl rfl rfl rfl
        ⟨none, 1, some .lock, ?_, hcount, by simp, howner⟩⟩
      have hall : ∀ e ∈ [k], e = k := by simp
      simpa [hif, enterSection] using Shape.locking (.code hall)

/-- `NKern_Unlock`. -/
theorem LockInv.run_unlocking (I : LockInv m holder) (h : Unlocking k (f :: r) d v)
    (hcount : m.preemptDisableCount k = (d : Int))
    (hholds : ∀ via, v = some via ↔ holder = some (k, via)) (hif : m.ifFlag k = false)
    (hrun : m.run k r f = some m') : ∃ holder', LockInv m' holder' := by
  have E := Elsewhere.refl k m
  have howner : (none : Option Cpu) = none ∨ (none : Option Cpu) = some k ∧
      m.sched.current k = none := Or.inl rfl
  cases h with
  | idx h =>
    simp only [Machine.run, Option.some.injEq] at hrun
    subst hrun
    refine ⟨holder, I.same (E.setStack _) ⟨rfl, rfl, rfl, rfl, rfl⟩ ?_ hcount hholds howner⟩
    simpa [hif] using Shape.unlocking (.dec h)
  | @dec cs h =>
    simp only [Machine.run, Option.some.injEq] at hrun
    subst hrun
    refine ⟨holder, I.same (d := cs.length) (E.setStack _).decrement
      (Machine.decrement_shared _ k)
      ?_ ?_ hholds howner⟩
    · simpa [hif] using Shape.unlocking (.test h)
    · exact Machine.decrement_count (by simpa using hcount)
  | @test cs h =>
    simp only [Machine.run] at hrun
    split at hrun <;> simp only [Option.some.injEq] at hrun <;> subst hrun
    · rename_i hzero
      have hcs : cs = [] := List.eq_nil_of_length_eq_zero (by omega)
      subst hcs
      refine ⟨holder, I.same (E.setStack _) ⟨rfl, rfl, rfl, rfl, rfl⟩ ?_ hcount hholds howner⟩
      simpa [hif] using Shape.unlocking (Unlocking.rel (k := k))
    · rename_i hne
      obtain ⟨c, cs', rfl⟩ : ∃ c cs', cs = c :: cs' := by
        cases cs with
        | nil => exact absurd hcount hne
        | cons c cs' => exact ⟨c, cs', rfl⟩
      refine ⟨holder, I.same (E.setStack _) ⟨rfl, rfl, rfl, rfl, rfl⟩ ?_ hcount hholds howner⟩
      simpa [hif] using Shape.locking (.code h)
  | rel =>
    simp only [Machine.run, Option.some.injEq] at hrun
    subst hrun
    have hholder := holder_eq hholds
    subst hholder
    refine ⟨none, I.release ((E.setStack _).released _) rfl rfl rfl rfl rfl
      ⟨none, 0, none, ?_, hcount, by simp, howner⟩⟩
    simpa [hif] using Shape.unlocking (Unlocking.pend (k := k))
  | pend =>
    simp only [Machine.run] at hrun
    split at hrun <;> simp only [Option.some.injEq] at hrun <;> subst hrun
    · refine ⟨holder, I.same ((E.setStack _).setPending _ _) ⟨rfl, rfl, rfl, rfl, rfl⟩
        ?_ hcount hholds
        howner⟩
      simpa [hif] using Shape.calling (.idx (.rest (.unlockIf k .code)))
    · refine ⟨holder, I.same (E.setStack _) ⟨rfl, rfl, rfl, rfl, rfl⟩ ?_ hcount hholds howner⟩
      simpa using Shape.resting (.unlockIf k .code)

/-- `sched64_reschedule` up to the acquisition by `NKern_LockForSwitch`. -/
theorem LockInv.run_calling (I : LockInv m holder) (h : Calling k o (f :: r) d v)
    (hcount : m.preemptDisableCount k = (d : Int))
    (hholds : ∀ via, v = some via ↔ holder = some (k, via))
    (howner : o = none ∨ o = some k ∧ m.sched.current k = none) (hif : m.ifFlag k = false)
    (hrun : m.run k r f = some m') : ∃ holder', LockInv m' holder' := by
  have E := Elsewhere.refl k m
  cases h with
  | idx h =>
    simp only [Machine.run, Option.some.injEq] at hrun
    subst hrun
    refine ⟨holder, I.same (E.setStack _) ⟨rfl, rfl, rfl, rfl, rfl⟩ ?_ hcount hholds howner⟩
    simpa [hif] using Shape.calling (.lfsIdx h)
  | lfsIdx h =>
    simp only [Machine.run, Option.some.injEq] at hrun
    subst hrun
    refine ⟨holder, I.same (E.setStack _) ⟨rfl, rfl, rfl, rfl, rfl⟩ ?_ hcount hholds howner⟩
    simpa [hif] using Shape.calling (.lfsCli h)
  | lfsCli h =>
    simp only [Machine.run, Option.some.injEq] at hrun
    subst hrun
    refine ⟨holder, I.same ((E.setStack _).setIf _) ⟨rfl, rfl, rfl, rfl, rfl⟩
      ?_ hcount hholds howner⟩
    simpa using Shape.calling (.lfsInc h)
  | lfsInc h =>
    simp only [Machine.run, Option.some.injEq] at hrun
    subst hrun
    refine ⟨holder, I.same (d := 1) ((E.setStack _).setCount _) ⟨rfl, rfl, rfl, rfl, rfl⟩
      ?_ ?_ hholds
      howner⟩
    · simpa [hif] using Shape.calling (.lfsTest h)
    · simp [hcount]
  | lfsTest h =>
    simp only [Machine.run] at hrun
    rw [if_pos (by simpa using hcount), Option.some.injEq] at hrun
    subst hrun
    refine ⟨holder, I.same (E.setStack _) ⟨rfl, rfl, rfl, rfl, rfl⟩ ?_ hcount hholds howner⟩
    simpa [hif] using Shape.calling (.lfsSpin h)
  | lfsSpin h =>
    simp only [Machine.run] at hrun
    split at hrun <;> simp only [Option.some.injEq] at hrun <;> subst hrun
    · exact ⟨holder, I⟩
    · rename_i hfree
      have hnone : holder = none := by
        have := I.lock
        cases holder <;> simp_all
      subst hnone
      -- the lock is free, so the call does not lie upon a context that arrives
      cases h with
      | iret flags snap h => exact absurd (holder_eq hholds) (by simp)
      | rest h =>
        refine ⟨_, I.acquire .switch ((E.setStack _).acquired _) rfl rfl rfl rfl rfl
          ⟨o, 1, some .switch, ?_, hcount, by simp, howner⟩⟩
        simpa [hif] using Shape.picking h

/-- The pick under the lock. -/
theorem LockInv.run_picking (I : LockInv m holder) (h : Resting o r)
    (hcount : m.preemptDisableCount k = 1)
    (hholds : ∀ via, some Via.switch = some via ↔ holder = some (k, via))
    (howner : o = none ∨ o = some k ∧ m.sched.current k = none) (hif : m.ifFlag k = false)
    (hrun : m.run k r (.reschedPick k) = some m') : LockInv m' holder := by
  have hwf := I.wf.reschedule k
  simp only [Machine.run] at hrun
  rcases sched64Reschedule_outcomes I.wf k
    with hidle | ⟨s, hsame, hne, hcur⟩ | ⟨s, next, hswitch, hcur⟩
  · rw [hidle] at hrun
    simp only [Option.some.injEq] at hrun
    subst hrun
    refine I.keep ((Elsewhere.refl k m).setStack _) rfl rfl I.saved I.wf
      ⟨o, 1, some .switch, ?_, hcount, hholds, howner⟩
    simpa using Shape.arriving (.idx h)
  · rw [hsame] at hrun hwf
    simp only [Option.some.injEq] at hrun
    subst hrun
    have E : Elsewhere k m { m with sched := s } :=
      ⟨fun _ _ => rfl, fun _ _ => rfl, fun _ _ => rfl, fun j _ => congrFun hcur j⟩
    refine I.keep (E.setStack _) rfl rfl I.saved hwf
      ⟨o, 1, some .switch, ?_, hcount, hholds, Or.inl ?_⟩
    · simpa using Shape.arriving (.idx h)
    · exact howner.resolve_right fun hboot => hne hboot.2
  · rw [hswitch] at hrun hwf
    simp only [Option.some.injEq] at hrun
    subst hrun
    have E : Elsewhere k m { m with sched := s } := by
      refine ⟨fun _ _ => rfl, fun _ _ => rfl, fun _ _ => rfl, fun j hj => ?_⟩
      dsimp only
      rw [hcur]
      exact Function.update_of_ne hj _ _
    -- the boot context is not put away, a thread's is at rest
    have hprev : m.sched.current k = none ∨ Resting none r := by
      rcases howner with rfl | hboot
      · exact Or.inr h
      · exact Or.inl hboot.2
    refine I.keep (E.setStack _) rfl rfl I.saved hwf
      ⟨none, 1, some .switch, ?_, hcount, hholds, Or.inl rfl⟩
    simpa [hif] using Shape.switching next hprev

/-- `context_switch64`: the lock goes over to the context that is taken up. -/
theorem LockInv.run_switching (I : LockInv m holder) {prev : Option Tid} {next : Tid}
    (h : prev = none ∨ Resting none r) (hcount : m.preemptDisableCount k = 1)
    (hholds : ∀ via, some Via.switch = some via ↔ holder = some (k, via))
    (hon : m.on k = prev) (hnext : Suspended ((m.putAway k r prev).saved next))
    (hrun : m.run k r (.reschedSwitch prev next) = some m') : LockInv m' holder := by
  simp only [Machine.run, Machine.switchStacks, Option.some.injEq] at hrun
  subst hrun
  have E : Elsewhere k m (m.putAway k r prev) := by
    refine ⟨?_, ?_, ?_, ?_⟩ <;> intro j _ <;> simp
  obtain ⟨hevents, hlock, hstays⟩ := m.putAway_shared k r prev
  have hwf : Wf (m.putAway k r prev).sched := by
    rw [Machine.putAway_sched]
    exact I.wf
  refine I.keep ((E.setStack _).setOn _) hevents hlock ?_ hwf
    ⟨none, 1, some .switch, ?_, by simpa using hcount, hholds, Or.inl rfl⟩
  · intro t hfree
    exact I.suspended_putAway h (free_of_switched hon hfree)
  · obtain ⟨flags, r', hsaved, hr'⟩ := hnext
    rw [Machine.setOn_stack, Machine.setStack_stack, hsaved]
    exact Shape.arriving (.popfq flags hr')

/-- The step on top of a CPU's stack. -/
theorem LockInv.exec (I : LockInv m holder) (hst : m.stack k = f :: r)
    (hown : ∀ c, f = .lockCli c → c = k)
    (hnext : ∀ prev next, f = .reschedSwitch prev next →
      m.on k = prev ∧ Suspended ((m.putAway k r prev).saved next))
    (hrun : m.run k r f = some m') : ∃ holder', LockInv m' holder' := by
  obtain ⟨o, d, v, hshape, hcount, hholds, howner⟩ := I.cpus k
  rw [hst] at hshape
  generalize hflag : m.ifFlag k = i at hshape
  cases hshape with
  | resting h => exact ⟨holder, I.run_resting h hcount hholds howner hown hrun⟩
  | arriving h => exact I.run_arriving h hcount hholds howner hrun
  | handling h => exact ⟨holder, I.run_handling h hcount hholds howner hown hrun⟩
  | tick h => exact ⟨holder, I.run_tick h hcount hholds howner hflag hrun⟩
  | locking h => exact I.run_locking h hcount hholds hflag hrun
  | unlocking h => exact I.run_unlocking h hcount hholds hflag hrun
  | calling h => exact I.run_calling h hcount hholds howner hflag hrun
  | picking h => exact ⟨holder, I.run_picking h hcount hholds howner hflag hrun⟩
  | switching next h =>
    obtain ⟨hon, hsaved⟩ := hnext _ _ rfl
    exact ⟨holder, I.run_switching h hcount hholds hon hsaved hrun⟩

/-- A thread's own code is outside every section, or in sections of this CPU. -/
theorem Shape.of_code {i : Bool} {cs : List Cpu} (h : Shape k o i (.code cs :: r) d v) :
    r = [] ∧ o = none ∧ d = cs.length ∧ v = viaOf cs ∧ (∀ e ∈ cs, e = k) ∧
      (cs ≠ [] → i = false) := by
  cases h with
  | resting h =>
    cases h
    exact ⟨rfl, rfl, rfl, rfl, by simp, by simp⟩
  | arriving h => cases h
  | handling h =>
    cases h with
    | rest h =>
      cases h
      exact ⟨rfl, rfl, rfl, rfl, by simp, by simp⟩
  | locking h =>
    cases h with
    | code h => exact ⟨rfl, rfl, rfl, rfl, h, fun _ => rfl⟩
  | unlocking h => cases h
  | calling h => cases h

/-- `NKern_Lock()` is called. -/
theorem LockInv.callLock (I : LockInv m holder) {cs : List Cpu}
    (hst : m.stack k = .code cs :: r) :
    LockInv (m.setStack k (.lockIdx :: .code cs :: r)) holder := by
  obtain ⟨o, d, v, hshape, hcount, hholds, howner⟩ := I.cpus k
  rw [hst] at hshape
  obtain ⟨rfl, rfl, rfl, rfl, hall, hoff⟩ := hshape.of_code
  refine I.same ((Elsewhere.refl k m).setStack _) ⟨rfl, rfl, rfl, rfl, rfl⟩
    ?_ hcount hholds howner
  cases cs with
  | nil => simpa using Shape.resting .lockIdx
  | cons c cs => simpa [hoff (by simp)] using Shape.locking (.idx hall)

/-- `NKern_Unlock()` is called from the innermost section. -/
theorem LockInv.callUnlock (I : LockInv m holder) {slot : Cpu} {cs : List Cpu}
    (hst : m.stack k = .code (slot :: cs) :: r) :
    LockInv (m.setStack k (.unlockIdx slot :: .code cs :: r)) holder := by
  obtain ⟨o, d, v, hshape, hcount, hholds, howner⟩ := I.cpus k
  rw [hst] at hshape
  obtain ⟨rfl, rfl, rfl, rfl, hall, hoff⟩ := hshape.of_code
  have hslot : slot = k := hall slot List.mem_cons_self
  subst hslot
  refine I.same ((Elsewhere.refl slot m).setStack _) ⟨rfl, rfl, rfl, rfl, rfl⟩
    ?_ hcount hholds howner
  simpa [hoff (by simp)] using
    Shape.unlocking (.idx fun e he => hall e (List.mem_cons_of_mem slot he))

/-- A thread changes IF outside its sections. -/
theorem LockInv.setIf (I : LockInv m holder) (b : Bool) (hst : m.stack k = .code [] :: r) :
    LockInv (m.setIf k b) holder := by
  obtain ⟨o, d, v, hshape, hcount, hholds, howner⟩ := I.cpus k
  rw [hst] at hshape
  obtain ⟨rfl, rfl, rfl, rfl, -, -⟩ := hshape.of_code
  refine I.same ((Elsewhere.refl k m).setIf b) ⟨rfl, rfl, rfl, rfl, rfl⟩ ?_ hcount hholds howner
  simpa [hst] using Shape.resting .code

/-- An interrupt finds a context at rest or on its way to the release. -/
theorem LockInv.timer (I : LockInv m holder) (hif : m.ifFlag k = true) :
    LockInv ((m.setStack k (.tick :: .iret true (m.snapshot k) :: m.stack k)).setIf k false)
      holder := by
  obtain ⟨o, d, v, hshape, hcount, hholds, howner⟩ := I.cpus k
  refine I.same (((Elsewhere.refl k m).setStack _).setIf false) ⟨rfl, rfl, rfl, rfl, rfl⟩
    ?_ hcount hholds
    howner
  rw [hif] at hshape
  generalize m.stack k = st at hshape
  cases hshape with
  | resting h => simpa using Shape.tick (.rest (.iret true (m.snapshot k) h))
  | arriving h => simpa using Shape.tick (.iret true (m.snapshot k) h)

/-! ## The stacks -/

/-- The pick: the thread that is taken is current on no other CPU, so no other CPU
is on its stack. -/
theorem Inv.places_pick (I : Inv m holder) {rc : Cpu} (hst : m.stack k = .reschedPick rc :: r)
    (hown : ownThread m (.exec k) = true) (hrun : m.run k r (.reschedPick rc) = some m') :
    Stacks m' := by
  have S := I.places
  have hholder := I.holder_of_top hst (.inl ⟨rc, rfl⟩)
  subst hholder
  obtain ⟨_, _, _, hshape, -⟩ := I.cpus k
  rw [hst] at hshape
  obtain ⟨rfl, -⟩ := hshape.atTop
  have hbelow := hshape.below_not_switch rfl
  have hhere : m.on rc = m.sched.current rc := S.on_eq hst rfl
  have hstay : ∀ st : List Frame, (∀ g ∈ st, g.isSwitch = false) →
      ∀ s : Scheduler64, s.current = m.sched.current →
        Stacks ({ m with sched := s }.setStack rc st) := by
    intro st hst' s hcur
    refine S.congr (k := rc) rfl hcur (fun j hj => Function.update_of_ne hj _ _) ?_
    refine (onOwn_iff ?_).mpr (hhere.trans (congrFun hcur rc).symm)
    rwa [Machine.setStack_stack]
  simp only [Machine.run] at hrun
  rcases sched64Reschedule_outcomes I.wf rc
    with hidle | ⟨s, hsame, -, hcur⟩ | ⟨s, next, hswitch, hcur⟩
  · rw [hidle] at hrun
    simp only [Option.some.injEq] at hrun
    subst hrun
    exact hstay _ (by simpa [Frame.isSwitch] using hbelow) m.sched rfl
  · rw [hsame] at hrun
    simp only [Option.some.injEq] at hrun
    subst hrun
    exact hstay _ (by simpa [Frame.isSwitch] using hbelow) s hcur
  · rw [hswitch] at hrun
    simp only [Option.some.injEq] at hrun
    subst hrun
    have hfree : ∀ j, j ≠ rc → m.sched.current j ≠ some next := by
      unfold ownThread at hown
      simpa only [hst, hswitch, decide_eq_true_eq] using hown
    have hnow : s.current rc = some next := by rw [hcur, Function.update_self]
    have helse : ∀ j, j ≠ rc → s.current j = m.sched.current j := by
      intro j hj
      rw [hcur, Function.update_of_ne hj]
    refine ⟨?_, ?_⟩
    · intro j
      by_cases hj : j = rc
      · subst hj
        unfold OnOwn
        rw [Machine.setStack_stack]
        exact ⟨hhere, hnow⟩
      · exact (S.own j).congr (Function.update_of_ne hj _ _) rfl (helse j hj)
    · intro j l t hj hl
      change m.on j = some t at hj
      change m.on l = some t ∨ s.current l = some t at hl
      by_cases hlk : l = rc
      · subst hlk
        by_cases hjl : j = l
        · exact hjl
        · refine S.apart j l t hj (hl.imp_right fun hlt => ?_)
          have htn : some t = some next := hlt.symm.trans hnow
          rw [htn] at hj
          exact absurd ((I.on_eq_of_holder hjl).symm.trans hj) (hfree j hjl)
      · rw [helse l hlk] at hl
        exact S.apart j l t hj hl

/-- `context_switch64`: nobody else was on the stack that is taken up. -/
theorem Inv.places_switch (I : Inv m holder) {prev : Option Tid} {next : Tid}
    (hst : m.stack k = .reschedSwitch prev next :: r)
    (hrun : m.run k r (.reschedSwitch prev next) = some m') : Stacks m' := by
  have S := I.places
  have hholder := I.holder_of_top hst (.inr ⟨prev, next, rfl⟩)
  subst hholder
  obtain ⟨flags, r', hsaved, hr'⟩ := (I.suspended_next hst).2
  have hown := S.own k
  unfold OnOwn at hown
  rw [hst] at hown
  obtain ⟨-, hcur⟩ := hown
  simp only [Machine.run, Machine.switchStacks, hsaved, Option.some.injEq] at hrun
  subst hrun
  have hsched : (m.putAway k r prev).sched = m.sched := Machine.putAway_sched ..
  have hon : (m.putAway k r prev).on = m.on := (m.putAway_shared k r prev).2.2
  have hstack : (m.putAway k r prev).stack = m.stack := Machine.putAway_stack ..
  refine ⟨?_, ?_⟩
  · intro j
    unfold OnOwn
    by_cases hj : j = k
    · subst hj
      rw [Machine.setOn_stack, Machine.setStack_stack]
      dsimp only [Machine.setOn, Machine.setStack]
      rw [Function.update_self, hsched]
      exact hcur.symm
    · have hown := S.own j
      unfold OnOwn at hown
      dsimp only [Machine.setOn, Machine.setStack]
      rw [Function.update_of_ne hj, Function.update_of_ne hj, hon, hstack, hsched]
      exact hown
  · intro j l t hj hl
    dsimp only [Machine.setOn, Machine.setStack] at hj hl
    rw [hon] at hj hl
    rw [hsched] at hl
    by_cases hjk : j = k
    · subst hjk
      rw [Function.update_self, Option.some.injEq] at hj
      subst hj
      by_cases hlj : l = j
      · exact hlj.symm
      · rw [Function.update_of_ne hlj] at hl
        have hlast : m.on l = some next := by
          rcases hl with hl | hl
          · exact hl
          · exact (I.on_eq_of_holder hlj).trans hl
        exact (S.apart l j next hlast (.inr hcur)).symm
    · rw [Function.update_of_ne hjk] at hj
      by_cases hlk : l = k
      · subst hlk
        refine S.apart j l t hj (.inr ?_)
        rcases hl with hl | hl
        · rw [Function.update_self] at hl
          exact hcur.trans hl
        · exact hl
      · rw [Function.update_of_ne hlk] at hl
        exact S.apart j l t hj hl

/-- The step on top of a CPU's stack leaves every CPU on its own stack. -/
theorem Inv.places_exec (I : Inv m holder) (hst : m.stack k = f :: r)
    (hown : ownThread m (.exec k) = true) (hrun : m.run k r f = some m') : Stacks m' := by
  obtain ⟨_, _, _, hshape, -⟩ := I.cpus k
  rw [hst] at hshape
  have hrest : (∀ rc, f ≠ .reschedPick rc) → f.isSwitch = false → Stacks m' := by
    intro hpick hf
    obtain ⟨hon, hcur, hstack⟩ := run_stays hst hpick hf (hshape.below_not_switch hf) hrun
    refine I.places.congr hon hcur (fun j hj => (run_elsewhere hrun hj).1) ?_
    rw [onOwn_iff hstack, hon, hcur]
    exact I.places.on_eq hst hf
  cases f with
  | reschedPick rc => exact I.places_pick hst hown hrun
  | reschedSwitch prev next => exact I.places_switch hst hrun
  | _ => exact hrest nofun rfl

/-! ## Every move -/

/-- A move that puts other frames on one CPU, and leaves the rest alone. -/
theorem Stacks.setStack (S : Stacks m) (hhere : m.on k = m.sched.current k)
    (hf : f.isSwitch = false) :
    Stacks (m.setStack k (f :: r)) := by
  refine S.congr (k := k) rfl rfl (fun j hj => Function.update_of_ne hj _ _) ?_
  unfold OnOwn
  rw [Machine.setStack_stack]
  cases f with
  | reschedSwitch prev next => simp [Frame.isSwitch] at hf
  | _ => exact hhere

/-- Where an interrupt may come nothing is about to switch. -/
theorem Inv.on_eq_of_unmasked (I : Inv m holder) (hif : m.ifFlag k = true) :
    m.on k = m.sched.current k := by
  obtain ⟨_, _, _, hshape, -⟩ := I.cpus k
  rw [hif] at hshape
  refine (onOwn_iff ?_).mp (I.places.own k)
  generalize m.stack k = st at hshape
  cases hshape with
  | resting h => exact h.not_switch
  | arriving h => exact h.not_switch

/-- **Step lemma.**  Every move keeps the invariant, if it uses the index of its CPU
and takes no thread from another one. -/
theorem inv_step {mv : Move} (I : Inv m holder) (hown : ownMove m mv = true)
    (hstep : m.step mv = some m') : ∃ holder', Inv m' holder' := by
  obtain ⟨hindex, hthread⟩ := Bool.and_eq_true_iff.mp hown
  cases Machine.moved_of_step hstep with
  | @exec k f r m' hst hrun =>
    have hcli : ∀ c, f = .lockCli c → c = k := by
      rintro c rfl
      exact eq_of_ownIndex hindex hst
    have hnext : ∀ prev next, f = .reschedSwitch prev next →
        m.on k = prev ∧ Suspended ((m.putAway k r prev).saved next) := by
      rintro prev next rfl
      exact I.suspended_next hst
    obtain ⟨holder', I'⟩ := I.exec hst hcli hnext hrun
    exact ⟨holder', I', I.places_exec hst hthread hrun⟩
  | callLock hst =>
    exact ⟨holder, I.callLock hst, I.places.setStack (I.places.on_eq hst rfl) rfl⟩
  | callUnlock hst =>
    exact ⟨holder, I.callUnlock hst, I.places.setStack (I.places.on_eq hst rfl) rfl⟩
  | @setIf k r b hst => exact ⟨holder, I.setIf b hst, I.places.own, I.places.apart⟩
  | @timer k hif =>
    have S : Stacks (m.setStack k (.tick :: .iret true (m.snapshot k) :: m.stack k)) :=
      I.places.setStack (I.on_eq_of_unmasked hif) rfl
    exact ⟨holder, I.timer hif, S.own, S.apart⟩
  | simd x henabled =>
    exact ⟨holder, ⟨I.replay, I.lock, I.cpus, I.saved, I.wf⟩, I.places.own, I.places.apart⟩
  | @overwrite j t st hon =>
    refine ⟨holder, ⟨I.replay, I.lock, I.cpus, ?_, I.wf⟩, I.places.own, I.places.apart⟩
    intro t' hfree
    have hne : t' ≠ t := fun heq => hfree j (by rw [heq]; exact hon)
    dsimp only
    rw [Function.update_of_ne hne]
    exact I.saved t' hfree
  | @clobber j k t st hjk hj hk => exact absurd (I.places.apart j k t hj (.inl hk)) hjk

end Steps

/-- **Run lemma.**  The invariant holds in every state of a run of such moves. -/
theorem inv_of_reach {L : ThreadTable} {ok : Machine → Move → Prop}
    (hok : ∀ m mv, ok m mv → ownMove m mv = true) {m : Machine}
    (h : Reach (Machine.Initial L) Machine.step ok m) : ∃ holder, Inv m holder :=
  h.invariant (P := fun m => ∃ holder, Inv m holder) (fun _ hi => ⟨none, inv_of_initial hi⟩)
    (fun m mv _ ⟨_, I⟩ hmv hs => inv_step I (hok m mv hmv) hs)

end NekaKernel.NKern
