/-
  NKern/Lock.lean --- the big kernel lock and its hand-over across switches.

  Source: `nkern_lock.c`, `sched64.c`, `context_switch64.s`.

  `NKern_LockForSwitch` takes the lock in one thread and
  `NKern_UnlockAfterSwitch` releases it in another; in between there are four
  ways out of `sched64_reschedule`.  Two things keep the release from coming.  A
  second CPU that takes the thread another one runs finds its stack overwritten
  and returns past the release.  And a fresh thread arrives with IF set: a tick
  that ends its slice behind the decrement makes its CPU wait for its own lock.
  In runs without these every acquisition for a switch is released.
-/
import NekaKernel.NKern.Step
import NekaKernel.Sched.Exclusive

set_option autoImplicit false

namespace NekaKernel.NKern

open NekaKernel.Foundation NekaKernel.Sched

/-! ## Between an acquisition and its release -/

/-- The frame stands between a successful `spin_acquire` and the matching
`spin_release`. -/
def Frame.inside : Frame → Bool
  | .code (_ :: _) => true
  | .unlockIdx _ => true
  | .unlockDec _ _ => true
  | .unlockTest _ => true
  | .unlockRel _ => true
  | .reschedPick _ => true
  | .reschedSwitch _ _ => true
  | .uasIdx => true
  | .uasDec _ => true
  | .uasTest _ => true
  | .uasRel _ => true
  | _ => false

/-- CPU `k` is between an acquisition and its release. -/
def Inside (m : Machine) (k : Cpu) : Prop := ∃ f ∈ m.stack k, f.inside = true

theorem Resting.not_inside {o : Option Cpu} {st : List Frame} (h : Resting o st) :
    ∀ f ∈ st, f.inside = false := by
  induction h with
  | code => simp [Frame.inside]
  | lockIdx => simp [Frame.inside]
  | lockCli c => simp [Frame.inside]
  | boot k => simp [Frame.inside]
  | reschedIdx _ ih => simpa [Frame.inside] using ih
  | lfsIdx _ ih => simpa [Frame.inside] using ih
  | lfsCli _ ih => simpa [Frame.inside] using ih
  | unlockIf c _ ih => simpa [Frame.inside] using ih
  | uasSti _ ih => simpa [Frame.inside] using ih
  | iret flags snap _ ih => simpa [Frame.inside] using ih

theorem Arriving.inside {k : Cpu} {o : Option Cpu} {st : List Frame} {d : Nat}
    (h : Arriving k o st d) : ∃ f ∈ st, f.inside = true := by
  cases h <;> simp [Frame.inside]

theorem Handling.inside_iff {k : Cpu} {o : Option Cpu} {st : List Frame} {d : Nat}
    {v : Option Via} (h : Handling k o st d v) : (∃ f ∈ st, f.inside = true) ↔ v ≠ none := by
  cases h with
  | rest h => simpa using h.not_inside
  | iret flags snap h => simpa [Frame.inside] using h.inside

/-- A shape holds the lock exactly when one of its frames is inside. -/
theorem Shape.inside_iff {k : Cpu} {o : Option Cpu} {i : Bool} {st : List Frame} {d : Nat}
    {v : Option Via} (h : Shape k o i st d v) : (∃ f ∈ st, f.inside = true) ↔ v ≠ none := by
  cases h with
  | resting h => simpa using h.not_inside
  | arriving h => simpa using h.inside
  | handling h => exact h.inside_iff
  | tick h => simpa [Frame.inside] using h.inside_iff
  | locking h =>
    cases h with
    | code h => simp [Frame.inside]
    | idx h => simp [Frame.inside]
    | cli h => simp [Frame.inside]
    | @save cs flags h => cases cs <;> simp [Frame.inside]
    | @inc cs h => cases cs <;> simp [Frame.inside]
    | @test cs h => cases cs <;> simp [Frame.inside]
    | spin => simp [Frame.inside]
  | unlocking h => cases h <;> simp [Frame.inside]
  | calling h => cases h <;> simpa [Frame.inside] using Handling.inside_iff ‹_›
  | picking h => simp [Frame.inside]
  | switching next h => simp [Frame.inside]

section State

variable {m : Machine} {holder : Option (Cpu × Via)} {k : Cpu} {r : List Frame}

theorem Inv.inside_iff (I : Inv m holder) (k : Cpu) :
    Inside m k ↔ ∃ via, holder = some (k, via) := by
  obtain ⟨o, d, v, hshape, _, hholds, _⟩ := I.cpus k
  unfold Inside
  rw [hshape.inside_iff]
  constructor
  · intro hv
    obtain ⟨via, hvia⟩ := Option.ne_none_iff_exists'.mp hv
    exact ⟨via, (hholds via).mp hvia⟩
  · rintro ⟨via, hvia⟩ hv
    rw [(hholds via).mpr hvia] at hv
    simp at hv

/-- At most one CPU is inside. -/
theorem Inv.exclusive (I : Inv m holder) {j k : Cpu} (hj : Inside m j)
    (hk : Inside m k) : j = k := by
  obtain ⟨via, hvia⟩ := (I.inside_iff j).mp hj
  obtain ⟨via', hvia'⟩ := (I.inside_iff k).mp hk
  rw [hvia] at hvia'
  simp only [Option.some.injEq, Prod.mk.injEq] at hvia'
  exact hvia'.1

theorem Inv.count_nonneg (I : Inv m holder) (k : Cpu) : 0 ≤ m.preemptDisableCount k := by
  obtain ⟨_, d, _, _, hcount, _, _⟩ := I.cpus k
  rw [hcount]
  exact Int.natCast_nonneg d

/-- A context that is back in its own code has given everything back. -/
theorem Inv.atRest (I : Inv m holder) (h : m.stack k = .code [] :: r ∨ m.stack k = .boot :: r) :
    m.preemptDisableCount k = 0 ∧ ¬ Inside m k := by
  obtain ⟨o, d, v, hshape, hcount, hholds, _⟩ := I.cpus k
  have hdv : d = 0 ∧ v = none := by
    rcases h with h | h
    · rw [h] at hshape
      obtain ⟨_, _, hd, hv, _, _⟩ := hshape.of_code
      exact ⟨hd, hv⟩
    · rw [h] at hshape
      exact hshape.atTop
  obtain ⟨rfl, rfl⟩ := hdv
  refine ⟨by simpa using hcount, ?_⟩
  unfold Inside
  rw [hshape.inside_iff]
  simp

/-- `spin_release` is executed at depth 0, with the CPU's own index. -/
theorem Inv.releasing (I : Inv m holder) {c : Cpu}
    (h : m.stack k = .unlockRel c :: r ∨ m.stack k = .uasRel c :: r) :
    c = k ∧ m.preemptDisableCount k = 0 := by
  obtain ⟨o, d, v, hshape, hcount, _, _⟩ := I.cpus k
  have hcd : c = k ∧ d = 0 := by
    rcases h with h | h
    · rw [h] at hshape
      exact hshape.atTop
    · rw [h] at hshape
      exact hshape.atTop
  obtain ⟨rfl, rfl⟩ := hcd
  exact ⟨rfl, by simpa using hcount⟩

/-- `sched64_reschedule` is entered at depth 0. -/
theorem Inv.rescheduling (I : Inv m holder) (h : m.stack k = .reschedIdx :: r) :
    m.preemptDisableCount k = 0 := by
  obtain ⟨o, d, v, hshape, hcount, _, _⟩ := I.cpus k
  rw [h] at hshape
  have hd : d = 0 := hshape.atTop
  subst hd
  simpa using hcount

end State

/-! ## The hand-over -/

/-- How many steps of its own, at most, a context of a CPU that holds the lock for a
switch is away from the `spin_release`; 0 where it does not come to one. -/
def stepsToRelease : List Frame → Nat
  | .reschedPick _ :: _ => 7
  | .reschedSwitch _ _ :: _ => 6
  | .popfq _ :: _ => 5
  | .uasIdx :: _ => 4
  | .uasDec _ :: _ => 3
  | .uasTest _ :: _ => 2
  | .uasRel _ :: _ => 1
  | .tick :: st | .iret _ _ :: st => stepsToRelease st + 1
  | _ => 0

/-- The move is not a tick that ends the slice of its thread between the decrement
and the `spin_release` of a `NKern_UnlockAfterSwitch` that runs with IF set. -/
def noLateTick (m : Machine) : Move → Bool
  | .exec k =>
      match m.stack k with
      | .tick :: .iret _ _ :: .uasTest _ :: _ | .tick :: .iret _ _ :: .uasRel _ :: _ =>
          decide ((sched64TimerTick m.sched k (0 < m.preemptDisableCount k)).2 ≠ .reschedule)
      | _ => true
  | _ => true

/-- The moves under which the lock is handed over. -/
def handsOver (m : Machine) (mv : Move) : Bool := ownMove m mv && noLateTick m mv

/-- A step of CPU `c`. -/
def Move.isExec (c : Cpu) : Move → Bool
  | .exec k => k == c
  | _ => false

/-- A timer interrupt on CPU `c`. -/
def Move.isTimer (c : Cpu) : Move → Bool
  | .timer k => k == c
  | _ => false

section HandOver

variable {m m' : Machine} {holder : Option (Cpu × Via)} {c k : Cpu} {r : List Frame} {f : Frame}

/-- The only steps that make history. -/
theorem run_events (h : m.run k r f = some m') :
    m'.events = m.events ∨
    (∃ c, f = .lockSpin c ∧ m'.events = .acquire k .lock :: m.events) ∨
    (∃ rc c, f = .lfsSpin rc c ∧ m'.events = .acquire k .switch :: m.events ∧
      m'.stack k = .reschedPick rc :: r ∧ m'.ifFlag k = m.ifFlag k) ∨
    (∃ c, f = .unlockRel c ∧ m'.events = .release k .lock :: m.events) ∨
    ∃ c, f = .uasRel c ∧ m'.events = .release k .switch :: m.events := by
  cases f with
  | lockSpin c =>
    simp only [Machine.run] at h
    split at h <;> simp only [Option.some.injEq] at h <;> subst h
    · exact Or.inl rfl
    · exact Or.inr (Or.inl ⟨c, rfl, rfl⟩)
  | lfsSpin rc c =>
    simp only [Machine.run] at h
    split at h <;> simp only [Option.some.injEq] at h <;> subst h
    · exact Or.inl rfl
    · exact Or.inr (Or.inr (Or.inl ⟨rc, c, rfl, rfl, Machine.setStack_stack .., rfl⟩))
  | unlockRel c =>
    simp only [Machine.run, Option.some.injEq] at h
    subst h
    exact Or.inr (Or.inr (Or.inr (Or.inl ⟨c, rfl, rfl⟩)))
  | uasRel c =>
    simp only [Machine.run, Option.some.injEq] at h
    subst h
    exact Or.inr (Or.inr (Or.inr (Or.inr ⟨c, rfl, rfl⟩)))
  | unlockDec c slot =>
    simp only [Machine.run, Option.some.injEq] at h
    subst h
    exact Or.inl (Machine.decrement_shared _ c).1
  | uasDec c =>
    simp only [Machine.run, Option.some.injEq] at h
    subst h
    exact Or.inl (Machine.decrement_shared _ c).1
  | reschedSwitch prev next =>
    simp only [Machine.run, Option.some.injEq] at h
    subst h
    exact Or.inl (m.putAway_shared k r prev).1
  | _ =>
    left
    simp only [Machine.run] at h
    (repeat' split at h) <;> simp only [Option.some.injEq, reduceCtorEq] at h
      <;> subst h <;> rfl

/-- The history only grows. -/
theorem run_history (h : m.run k r f = some m') : m.events <:+ m'.events := by
  rcases run_events h with hev | ⟨_, _, hev⟩ | ⟨_, _, _, hev, _⟩ | ⟨_, _, hev⟩ | ⟨_, _, hev⟩
  · exact ⟨[], hev.symm⟩
  all_goals exact ⟨[_], hev.symm⟩

theorem step_history {mv : Move} (h : m.step mv = some m') : m.events <:+ m'.events := by
  cases Machine.moved_of_step h with
  | exec hst hrun => exact run_history hrun
  | _ => exact List.suffix_refl _

/-- While CPU `c` holds the lock another one takes no step that makes history. -/
theorem LockInv.events_of_other {via : Via} (I : LockInv m (some (c, via)))
    {holder' : Option (Cpu × Via)} (I' : LockInv m' holder') (hk : k ≠ c)
    (hrun : m.run k r f = some m') : m'.events = m.events := by
  have hreplay := I'.replay
  have hne : c ≠ k := fun heq => hk heq.symm
  rcases run_events hrun with hev | ⟨_, _, hev⟩ | ⟨_, _, _, hev, _⟩ | ⟨_, _, hev⟩ | ⟨_, _, hev⟩
  · exact hev
  all_goals
    rw [hev, NKern.replay, I.replay] at hreplay
    simp [hne] at hreplay

theorem Arriving.stepsToRelease_pos {o : Option Cpu} {st : List Frame} {d : Nat}
    (h : Arriving k o st d) : 0 < stepsToRelease st := by
  cases h <;> exact Nat.succ_pos _

theorem Arriving.stepsToRelease_le {o : Option Cpu} {st : List Frame} {d : Nat}
    (h : Arriving k o st d) : stepsToRelease st ≤ 5 := by
  cases h <;> simp [stepsToRelease]

/-- A context on its way to the release takes one step towards it. -/
theorem nearer_arriving {o : Option Cpu} {d : Nat}
    (h : Arriving c o (f :: r) d) (hcount : m.preemptDisableCount c = (d : Int))
    (hrun : m.run c r f = some m') :
    m'.events = .release c .switch :: m.events ∨ m'.events = m.events ∧
      0 < stepsToRelease (m'.stack c) ∧
      stepsToRelease (m'.stack c) + 1 ≤ stepsToRelease (f :: r) := by
  cases h with
  | popfq flags h =>
    simp only [Machine.run, Option.some.injEq] at hrun
    subst hrun
    rw [Machine.setIf_stack, Machine.setStack_stack]
    exact .inr ⟨rfl, Nat.succ_pos 3, Nat.le_refl 5⟩
  | idx h =>
    simp only [Machine.run, Option.some.injEq] at hrun
    subst hrun
    rw [Machine.setStack_stack]
    exact .inr ⟨rfl, Nat.succ_pos 2, Nat.le_refl 4⟩
  | dec h =>
    simp only [Machine.run, Option.some.injEq] at hrun
    subst hrun
    rw [Machine.decrement_stack, Machine.setStack_stack]
    exact .inr ⟨(Machine.decrement_shared _ c).1, Nat.succ_pos 1, Nat.le_refl 3⟩
  | test h =>
    simp only [Machine.run] at hrun
    rw [if_pos (by simpa using hcount), Option.some.injEq] at hrun
    subst hrun
    rw [Machine.setStack_stack]
    exact .inr ⟨rfl, Nat.succ_pos 0, Nat.le_refl 2⟩
  | rel h =>
    simp only [Machine.run, Option.some.injEq] at hrun
    subst hrun
    exact .inl rfl

/-- A tick on the way to the release returns to it, unless it ends a slice behind
the decrement. -/
theorem nearer_tick {o : Option Cpu} {d : Nat}
    (hst : m.stack c = .tick :: r) (h : Handling c o r d (some .switch))
    (hcount : m.preemptDisableCount c = (d : Int)) (hlate : noLateTick m (.exec c) = true)
    (hrun : m.run c r .tick = some m') : m'.events = m.events ∧ m'.stack c = r := by
  simp only [Machine.run] at hrun
  cases htick : sched64TimerTick m.sched c (decide (0 < m.preemptDisableCount c)) with
  | mk s decision =>
    rw [htick] at hrun
    cases decision with
    | nothing =>
      simp only [Option.some.injEq] at hrun
      subst hrun
      exact ⟨rfl, Machine.setStack_stack ..⟩
    | requestReschedule =>
      simp only [Option.some.injEq] at hrun
      subst hrun
      exact ⟨rfl, Machine.setStack_stack ..⟩
    | reschedule =>
      have hzero : d = 0 := by
        have hopen := sched64TimerTick_unlocked htick
        rw [decide_eq_false_iff_not] at hopen
        omega
      subst hzero
      cases h with
      | iret flags snap h => cases h <;> simp [noLateTick, hst, htick] at hlate

/-- All three outcomes of the pick lead on. -/
theorem LockInv.nearer_pick (I : LockInv m holder)
    (hrun : m.run c r (.reschedPick c) = some m') :
    m'.events = m.events ∧ 0 < stepsToRelease (m'.stack c) ∧
    stepsToRelease (m'.stack c) ≤ 6 := by
  simp only [Machine.run] at hrun
  rcases sched64Reschedule_outcomes I.wf c with hidle | ⟨s, hsame, _, _⟩ | ⟨s, next, hswitch, _⟩
  · rw [hidle] at hrun
    simp only [Option.some.injEq] at hrun
    subst hrun
    rw [Machine.setStack_stack]
    exact ⟨rfl, Nat.succ_pos 3, Nat.le_add_right 4 2⟩
  · rw [hsame] at hrun
    simp only [Option.some.injEq] at hrun
    subst hrun
    rw [Machine.setStack_stack]
    exact ⟨rfl, Nat.succ_pos 3, Nat.le_add_right 4 2⟩
  · rw [hswitch] at hrun
    simp only [Option.some.injEq] at hrun
    subst hrun
    rw [Machine.setStack_stack]
    exact ⟨rfl, Nat.succ_pos 5, Nat.le_refl 6⟩

/-- **Towards the release.**  Whichever context runs on the CPU that holds the lock
for a switch, its next step releases it or brings the release nearer: the early
returns of `sched64_reschedule`, a resumed thread and a fresh one. -/
theorem Inv.nearer (I : Inv m (some (c, .switch))) (hst : m.stack c = f :: r)
    (hpos : 0 < stepsToRelease (f :: r)) (hlate : noLateTick m (.exec c) = true)
    (hrun : m.run c r f = some m') :
    m'.events = .release c .switch :: m.events ∨ m'.events = m.events ∧
      0 < stepsToRelease (m'.stack c) ∧
      stepsToRelease (m'.stack c) + 1 ≤ stepsToRelease (f :: r) := by
  obtain ⟨o, d, v, hshape, hcount, hholds, -⟩ := I.cpus c
  have hv : v = some .switch := (hholds _).mpr rfl
  rw [hst] at hshape
  generalize m.ifFlag c = i at hshape
  cases hshape with
  | resting h => exact absurd hv nofun
  | arriving h => exact nearer_arriving h hcount hrun
  | handling h =>
    cases h with
    | rest h => exact absurd hv nofun
    | iret flags snap h =>
      simp only [Machine.run, Option.some.injEq] at hrun
      subst hrun
      rw [Machine.setIf_stack, Machine.setStack_stack]
      exact .inr ⟨rfl, h.stepsToRelease_pos, Nat.le_refl _⟩
  | tick h =>
    subst hv
    obtain ⟨hevents, hstack⟩ := nearer_tick hst h hcount hlate hrun
    rw [hstack]
    refine .inr ⟨hevents, ?_, Nat.le_refl _⟩
    cases h with
    | iret flags snap h => exact Nat.succ_pos _
  | locking h => cases h <;> simp [stepsToRelease] at hpos
  | unlocking h => cases h <;> simp [stepsToRelease] at hpos
  | calling h => cases h <;> simp [stepsToRelease] at hpos
  | picking h =>
    obtain ⟨hevents, hnext, hle⟩ := I.nearer_pick hrun
    exact .inr ⟨hevents, hnext, Nat.succ_le_succ hle⟩
  | switching next h =>
    obtain ⟨-, flags, r', hsaved, -⟩ := I.suspended_next hst
    simp only [Machine.run, Machine.switchStacks, Option.some.injEq] at hrun
    subst hrun
    rw [Machine.setOn_stack, Machine.setStack_stack, hsaved]
    exact .inr ⟨(m.putAway_shared c r _).1, Nat.succ_pos 4, Nat.le_refl 6⟩

/-- **Step lemma** of the hand-over, for any move of any CPU. -/
theorem Inv.handOver_step {mv : Move} (I : Inv m (some (c, .switch)))
    (hpos : 0 < stepsToRelease (m.stack c)) (hmv : handsOver m mv = true)
    (hstep : m.step mv = some m') :
    m'.events = .release c .switch :: m.events ∨
      (m'.events = m.events ∧ Inv m' (some (c, .switch)) ∧ 0 < stepsToRelease (m'.stack c) ∧
        stepsToRelease (m'.stack c) + (if mv.isExec c then 1 else 0) ≤
          stepsToRelease (m.stack c) + 2 * (if mv.isTimer c then 1 else 0)) := by
  obtain ⟨hown, hlate⟩ := Bool.and_eq_true_iff.mp hmv
  obtain ⟨holder', I'⟩ := inv_step I hown hstep
  have hkept : m'.events = m.events → Inv m' (some (c, .switch)) := by
    intro hevents
    have hreplay := I'.replay
    rw [hevents, I.replay, Option.some.injEq] at hreplay
    exact hreplay ▸ I'
  -- a move that leaves the context of `c` alone
  have hbeside : m'.events = m.events → m'.stack c = m.stack c → mv.isExec c = false →
      m'.events = m.events ∧ Inv m' (some (c, .switch)) ∧ 0 < stepsToRelease (m'.stack c) ∧
        stepsToRelease (m'.stack c) + (if mv.isExec c then 1 else 0) ≤
          stepsToRelease (m.stack c) + 2 * (if mv.isTimer c then 1 else 0) := by
    intro hevents hstack hexec
    refine ⟨hevents, hkept hevents, hstack ▸ hpos, ?_⟩
    rw [hstack, hexec]
    exact Nat.le_add_right _ _
  cases Machine.moved_of_step hstep with
  | @exec k f r m' hst hrun =>
    by_cases hk : k = c
    · subst hk
      rw [hst] at hpos
      refine (I.nearer hst hpos hlate hrun).imp_right fun ⟨hevents, hnext, hle⟩ => ?_
      refine ⟨hevents, hkept hevents, hnext, ?_⟩
      simpa [Move.isExec, Move.isTimer, hst] using hle
    · have hck : c ≠ k := fun heq => hk heq.symm
      exact .inr (hbeside (I.events_of_other I'.toLockInv hk hrun) (run_elsewhere hrun hck).1
        (by simpa [Move.isExec] using hk))
  | @callLock k cs r hst =>
    have hck : c ≠ k := by
      rintro rfl
      simp [hst, stepsToRelease] at hpos
    exact .inr (hbeside rfl (Function.update_of_ne hck _ _) rfl)
  | @callUnlock k slot cs r hst =>
    have hck : c ≠ k := by
      rintro rfl
      simp [hst, stepsToRelease] at hpos
    exact .inr (hbeside rfl (Function.update_of_ne hck _ _) rfl)
  | setIf b hst => exact .inr (hbeside rfl rfl rfl)
  | @timer k hif =>
    by_cases hk : k = c
    · subst hk
      refine .inr ⟨rfl, hkept rfl, ?_, ?_⟩
      · rw [Machine.setIf_stack, Machine.setStack_stack]
        exact Nat.succ_pos _
      · rw [Machine.setIf_stack, Machine.setStack_stack]
        simp [Move.isExec, Move.isTimer, stepsToRelease]
    · have hck : c ≠ k := fun heq => hk heq.symm
      exact .inr (hbeside rfl (Function.update_of_ne hck _ _) rfl)
  | simd x henabled => exact .inr (hbeside rfl rfl rfl)
  | overwrite st hon => exact .inr (hbeside rfl rfl rfl)
  | @clobber j k t st hjk hj hk => exact absurd (I.places.apart j k t hj (.inl hk)) hjk

/-- A CPU that holds the lock for a switch is on its way to the release. -/
def HandsOver (m : Machine) (holder : Option (Cpu × Via)) : Prop :=
  ∀ c, holder = some (c, .switch) → 0 < stepsToRelease (m.stack c)

theorem handsOver_none (m : Machine) : HandsOver m none := by
  intro c h
  cases h

/-- The lock gets to be held for a switch by an acquisition only, right before the
pick. -/
theorem handsOver_of_acquired {mv : Move} {holder' : Option (Cpu × Via)} (I : Inv m holder)
    (I' : Inv m' holder') (hother : ∀ c, holder ≠ some (c, .switch))
    (hstep : m.step mv = some m') : HandsOver m' holder' := by
  rintro c rfl
  have hreplay := I'.replay
  have hsame : m'.events ≠ m.events := by
    intro hev
    rw [hev, I.replay, Option.some.injEq] at hreplay
    exact hother c hreplay
  cases Machine.moved_of_step hstep with
  | @exec k f r m' hst hrun =>
    rcases run_events hrun with hev | ⟨_, _, hev⟩ | ⟨rc, _, _, hev, hstack, _⟩ | ⟨_, _,
      hev⟩ | ⟨_, _, hev⟩
    · exact absurd hev hsame
    · rw [hev, NKern.replay, I.replay] at hreplay
      cases holder <;> simp at hreplay
    · rw [hev, NKern.replay, I.replay] at hreplay
      cases holder with
      | some h => simp at hreplay
      | none =>
        simp only [Option.some.injEq, Prod.mk.injEq, and_true] at hreplay
        subst hreplay
        rw [hstack]
        exact Nat.succ_pos 6
    · rw [hev, NKern.replay, I.replay] at hreplay
      cases holder with
      | none => simp at hreplay
      | some h => split at hreplay <;> simp at hreplay
    · rw [hev, NKern.replay, I.replay] at hreplay
      cases holder with
      | none => simp at hreplay
      | some h => split at hreplay <;> simp at hreplay
  | _ => exact absurd rfl hsame

/-- **Step lemma.** -/
theorem handsOver_step {mv : Move} (I : Inv m holder) (H : HandsOver m holder)
    (hmv : handsOver m mv = true) (hstep : m.step mv = some m') :
    ∃ holder', Inv m' holder' ∧ HandsOver m' holder' := by
  obtain ⟨holder', I'⟩ := inv_step I (Bool.and_eq_true_iff.mp hmv).1 hstep
  by_cases hswitch : ∃ c, holder = some (c, .switch)
  · obtain ⟨c, rfl⟩ := hswitch
    rcases I.handOver_step (H c rfl) hmv hstep with hev | ⟨-, I₁, hpos, -⟩
    · have hreplay := I'.replay
      rw [hev, NKern.replay, I.replay] at hreplay
      simp only [↓reduceIte, Option.some.injEq] at hreplay
      subst hreplay
      exact ⟨none, I', handsOver_none m'⟩
    · refine ⟨_, I₁, fun j hj => ?_⟩
      simp only [Option.some.injEq, Prod.mk.injEq, and_true] at hj
      exact hj ▸ hpos
  · exact ⟨holder', I', handsOver_of_acquired I I' (fun c hc => hswitch ⟨c, hc⟩) hstep⟩

theorem Handling.stepsToRelease_le {o : Option Cpu} {st : List Frame} {d : Nat} {v : Option Via}
    (h : Handling k o st d v) (hv : v = some .switch) : stepsToRelease st ≤ 6 := by
  cases h with
  | rest h => exact absurd hv nofun
  | iret flags snap harriving => exact Nat.succ_le_succ harriving.stepsToRelease_le

theorem Shape.stepsToRelease_le {o : Option Cpu} {i : Bool} {st : List Frame} {d : Nat}
    {v : Option Via} (h : Shape k o i st d v) (hv : v = some .switch) :
    stepsToRelease st ≤ 7 := by
  cases h with
  | resting h => exact absurd hv nofun
  | arriving h => exact Nat.le_trans h.stepsToRelease_le (by decide)
  | handling h => exact Nat.le_trans (h.stepsToRelease_le hv) (by decide)
  | tick h => exact Nat.succ_le_succ (h.stepsToRelease_le hv)
  | locking h => cases h <;> simp [stepsToRelease]
  | unlocking h => cases h <;> simp [stepsToRelease]
  | calling h => cases h <;> simp [stepsToRelease]
  | picking h => exact Nat.le_refl 7
  | switching next h => exact Nat.le_succ 6

/-- A CPU on its way to the release can always take its next step. -/
theorem LockInv.can_step (I : LockInv m holder) (hpos : 0 < stepsToRelease (m.stack c)) :
    (m.step (.exec c)).isSome = true := by
  rcases hst : m.stack c with _ | ⟨f, r⟩
  · simp [hst, stepsToRelease] at hpos
  · simp only [Machine.step, hst]
    rw [hst] at hpos
    cases f with
    | reschedPick rc =>
      simp only [Machine.run]
      rcases sched64Reschedule_outcomes I.wf rc
        with hout | ⟨s, hout, _⟩ | ⟨s, next, hout, _⟩ <;>
        rw [hout] <;> rfl
    | uasTest c =>
      simp only [Machine.run]
      split <;> rfl
    | tick =>
      simp only [Machine.run]
      split <;> rfl
    | reschedSwitch | popfq | uasIdx | uasDec | uasRel | iret => rfl
    | _ => simp [stepsToRelease] at hpos

/-- **The hand-over.**  Until the release comes, CPU `c` takes fewer than seven steps,
and two more for each timer interrupt. -/
theorem Inv.handOver (I : Inv m (some (c, .switch))) (H : HandsOver m (some (c, .switch)))
    {acts : List Move}
    (hguard : Guarded Machine.step (fun m mv => handsOver m mv = true) m acts)
    (hexec : exec Machine.step m acts = some m') :
    (.release c .switch :: m.events) <:+ m'.events ∨
      (m'.events = m.events ∧ acts.countP (Move.isExec c) < 7 + 2 * acts.countP
        (Move.isTimer c) ∧
        (m'.step (.exec c)).isSome = true) := by
  have hstep : ∀ (s : Machine) (a : Move) (s' : Machine),
      s.events = m.events ∧ Inv s (some (c, .switch)) ∧ 0 < stepsToRelease (s.stack c) →
      handsOver s a = true → s.step a = some s' →
      (.release c .switch :: m.events) <:+ s'.events ∨
        (s'.events = m.events ∧ Inv s' (some (c, .switch)) ∧ 0 < stepsToRelease (s'.stack c)) ∧
          stepsToRelease (s'.stack c) + (if a.isExec c then 1 else 0) ≤
            stepsToRelease (s.stack c) + 2 * (if a.isTimer c then 1 else 0) := by
    rintro s a s' ⟨hevents, I', hpos⟩ hok hstep
    rcases I'.handOver_step hpos hok hstep with hev | ⟨hev, hinv, hpos', hle⟩
    · exact .inl ⟨[], (hev.trans (congrArg _ hevents)).symm⟩
    · exact .inr ⟨⟨hev.trans hevents, hinv, hpos'⟩, hle⟩
  have hstays : ∀ (s : Machine) (a : Move) (s' : Machine),
    (.release c .switch :: m.events) <:+ s.events →
      s.step a = some s' → (.release c .switch :: m.events) <:+ s'.events :=
    fun s a s' hs hnext => hs.trans (step_history hnext)
  refine (Guarded.potential hstep hstays ⟨rfl, I, H c rfl⟩ hguard hexec).imp_right ?_
  rintro ⟨⟨hevents, I', hpos⟩, hle⟩
  obtain ⟨o, d, v, hshape, -, hholds, -⟩ := I.cpus c
  have hseven := hshape.stepsToRelease_le ((hholds _).mpr rfl)
  have hfew : acts.countP (Move.isExec c) < 7 + 2 * acts.countP (Move.isTimer c) := by omega
  exact ⟨hevents, hfew, I'.can_step hpos⟩

end HandOver

/-! ## Every run -/

/-- **What the lock guarantees** in a state. -/
structure LockSafe (m : Machine) : Prop where
  /-- The history is one of a lock: every acquisition is followed by the release
  of the same CPU and the same pair of functions before anything else happens,
  and the CPU inside, if there is one, is the one that has acquired last. -/
  history : ∃ holder, replay m.events = some holder ∧ m.bigKernelLock = holder.isSome ∧
    ∀ k, Inside m k ↔ ∃ via, holder = some (k, via)
  exclusive : ∀ j k, Inside m j → Inside m k → j = k
  nonneg : ∀ k, 0 ≤ m.preemptDisableCount k
  /-- The outermost release is made with the counter back at 0. -/
  releasing : ∀ k c r, m.stack k = .unlockRel c :: r ∨ m.stack k = .uasRel c :: r →
    c = k ∧ m.preemptDisableCount k = 0
  /-- A context in its own code, outside its sections, holds nothing. -/
  atRest : ∀ k r, m.stack k = .code [] :: r ∨ m.stack k = .boot :: r →
    m.preemptDisableCount k = 0 ∧ ¬ Inside m k
  /-- `sched64_reschedule` is called with the counter at 0. -/
  rescheduling : ∀ k r, m.stack k = .reschedIdx :: r → m.preemptDisableCount k = 0
  /-- What `sched64_reschedule` has acquired on CPU `c` is released on `c` by whatever
  runs there next, however the steps of the others and the interrupts come: before
  the release CPU `c` takes fewer than seven steps, and two more for each timer
  interrupt, and it can always take the next one. -/
  handOver : ∀ c older, m.events = .acquire c .switch :: older → ∀ acts m',
    Guarded Machine.step (fun m mv => handsOver m mv = true) m acts →
      exec Machine.step m acts = some m' →
        (.release c .switch :: m.events) <:+ m'.events ∨
          (m'.events = m.events ∧
            acts.countP (Move.isExec c) < 7 + 2 * acts.countP (Move.isTimer c) ∧
            (m'.step (.exec c)).isSome = true)

/-- **Lock safety.**  In every run in which each call uses the index of the CPU it
executes on, no CPU takes a thread that is current on another one, and no tick ends
a slice between the decrement and the release of a fresh thread. -/
theorem lock_safe (L : ThreadTable) (m : Machine)
    (h : Reach (Machine.Initial L) Machine.step (fun m mv => handsOver m mv = true) m) :
    LockSafe m := by
  have hinv : ∃ holder, Inv m holder ∧ HandsOver m holder := by
    refine h.invariant (P := fun m => ∃ holder, Inv m holder ∧ HandsOver m holder) ?_ ?_
    · intro m hm
      exact ⟨none, inv_of_initial hm, handsOver_none m⟩
    · rintro m mv m' ⟨holder, I, H⟩ hmv hstep
      exact handsOver_step I H hmv hstep
  obtain ⟨holder, I, H⟩ := hinv
  refine
    { history := ⟨holder, I.replay, I.lock, I.inside_iff⟩
      exclusive := fun _ _ hj hk => I.exclusive hj hk
      nonneg := I.count_nonneg
      releasing := fun _ _ _ hst => I.releasing hst
      atRest := fun _ _ hst => I.atRest hst
      rescheduling := fun _ _ hst => I.rescheduling hst
      handOver := ?_ }
  intro c older hlast acts m' hguard hexec
  have hholder : holder = some (c, .switch) := by
    have hreplay := I.replay
    rw [hlast, NKern.replay] at hreplay
    split at hreplay
    · exact (Option.some.inj hreplay).symm
    · cases hreplay
  subst hholder
  exact I.handOver H hguard hexec

/-! ## A concrete machine -/

/-- SIMD registers after a reset. -/
def zeroSimd : SimdState := ⟨fun _ => 0, 0, fun _ => 0, 0, 0, 0⟩

/-- Two threads of priority 5, every CPU about to enter its boot loop. -/
def bootMachine : Machine where
  bigKernelLock := false
  preemptDisableCount := fun _ => 0
  reschedulePending := fun _ => false
  savedIf := fun _ => false
  ifFlag := fun _ => true
  stack := fun _ => [.boot]
  saved := fun _ => freshContext
  on := fun _ => none
  sched := twoThreads
  control := fun _ => fpuInit ⟨0, 0⟩
  simd := fun _ => fninit zeroSimd
  simdOps := fun _ => 0
  events := []

theorem initial_bootMachine : bootMachine.Initial tableAt3M :=
  ⟨created_twoThreads, rfl, fun _ => rfl, fun _ => rfl, fun _ => suspended_freshContext,
    fun _ => rfl, fun _ => ⟨_, rfl⟩, rfl⟩

/-- Both CPUs come to `NKern_LockForSwitch`; the first one takes the lock and the
second one waits. -/
def bothSwitch : List Move :=
  List.replicate 4 (.exec bsp) ++ List.replicate 5 (.exec ap) ++ List.replicate 3 (.exec bsp) ++
    List.replicate 2 (.exec ap)

/-- The first CPU is interrupted on its way, and the second one goes on waiting. -/
def untilRelease : List Move :=
  [.exec bsp, .exec ap, .exec bsp, .exec bsp, .timer bsp, .exec ap, .exec bsp, .exec bsp] ++
    List.replicate 4 (.exec bsp)

/-- The first CPU releases what it has taken. -/
theorem lock_safe_first_switch :
    ∃ m m', Reach (Machine.Initial tableAt3M) Machine.step
      (fun m mv => handsOver m mv = true) m ∧
      m.events = [.acquire 0 .switch] ∧ LockSafe m ∧
      exec Machine.step m untilRelease = some m' ∧
      [.release 0 .switch, .acquire 0 .switch] <:+ m'.events := by
  have hrun : (execWhile Machine.step handsOver bootMachine bothSwitch).map (fun m =>
      (m.events, (execWhile Machine.step handsOver m untilRelease).isSome)) =
        some ([.acquire 0 .switch], true) := by decide +kernel
  obtain ⟨m, hm, hfacts⟩ := Option.map_eq_some_iff.mp hrun
  obtain ⟨hevents, hsome⟩ := Prod.mk.inj hfacts
  obtain ⟨m', hm'⟩ := Option.isSome_iff_exists.mp hsome
  have hreach := (Reach.start initial_bootMachine).execWhile (fun _ _ h => h) hm
  have hsafe := lock_safe tableAt3M m hreach
  have hexec := exec_of_execWhile hm'
  refine ⟨m, m', hreach, hevents, hsafe, hexec, ?_⟩
  rcases hsafe.handOver 0 [] hevents untilRelease m' (guarded_of_execWhile (fun _ _ h => h) hm')
    hexec with hlast | ⟨-, hfew, -⟩
  · rwa [hevents] at hlast
  · exact absurd hfew (by decide)

/-! ## A release that does not come -/

/-- `n` timer interrupts that end without a reschedule. -/
def idleTicks (k : Cpu) (n : Nat) : List Move :=
  (List.replicate n [Move.timer k, .exec k, .exec k]).flatten

/-- The thread on `k` uses up its slice and `k` switches to the next thread. -/
def useUpSlice (k : Cpu) : List Move := idleTicks k 4 ++ .timer k :: List.replicate 14 (.exec k)

/-- CPU 0 starts `ThreadA`: `thread_start64` has called `NKern_UnlockAfterSwitch`, and
the address behind that call stands where its own was.  Then CPU 1 takes `ThreadA`
too, and returns behind the call. -/
def staleSwitch : List Move :=
  List.replicate 15 (.exec bsp) ++ [.overwrite bsp [.popfq true, .code []]] ++
    List.replicate 10 (.exec ap)

/-- The fresh thread is interrupted between the decrement and the release, five
times. -/
def freshTicks : List Move :=
  List.replicate 12 (.exec bsp) ++ idleTicks bsp 4 ++ .timer bsp :: List.replicate 6 (.exec bsp)

/-- CPU `k` is in its own code and in no section, as a test. -/
def inOwnCode (m : Machine) (k : Cpu) : Bool :=
  match m.stack k with
  | [.code []] => true
  | _ => false

theorem inOwnCode_spec {m : Machine} {k : Cpu} (h : inOwnCode m k = true) :
    m.stack k = [.code []] := by
  unfold inOwnCode at h
  split at h
  · assumption
  · cases h

/-- CPU `k` waits for the lock in `NKern_LockForSwitch`, as a test. -/
def spinTest (m : Machine) (k : Cpu) : Bool :=
  match m.stack k with
  | .lfsSpin _ _ :: _ => true
  | _ => false

theorem spinTest_spec {m : Machine} {k : Cpu} (h : spinTest m k = true) :
    ∃ rc c r, m.stack k = .lfsSpin rc c :: r := by
  unfold spinTest at h
  split at h
  · rename_i rc c r hst
    exact ⟨rc, c, r, hst⟩
  · cases h

/-- A CPU that has taken the lock for a switch and comes to wait for it is not
handing it over. -/
theorem not_lockSafe_of_spin {m : Machine} {k : Cpu} {older : List LockEvent}
    (hevents : m.events = .acquire k .switch :: older) (hlock : m.bigKernelLock = true)
    (hspin : spinTest m k = true) : m.step (.exec k) = some m ∧ ¬ LockSafe m := by
  obtain ⟨rc, c, r, hst⟩ := spinTest_spec hspin
  have hstep : m.step (.exec k) = some m := by simp [Machine.step, hst, Machine.run, hlock]
  refine ⟨hstep, fun hsafe => ?_⟩
  have hok : handsOver m (.exec k) = true := by
    simp [handsOver, ownMove, ownIndex, ownThread, noLateTick, hst]
  rcases hsafe.handOver k older hevents (List.replicate 7 (.exec k)) m
    (guarded_replicate hstep hok 7) (exec_replicate hstep 7) with hlast | ⟨-, hfew, -⟩
  · exact Nat.not_succ_le_self _ hlast.length_le
  · simp [Move.isExec, Move.isTimer] at hfew

/-- **What keeps the release from coming.**  CPU 1 takes the thread that CPU 0 runs,
goes on in its code, and its counter is 1 and the lock held for good.  And on one CPU
the slice of a fresh thread ends between the decrement and the release: it waits for
itself. -/
theorem switch_lock_not_released :
    bootMachine.Initial tableAt3M ∧
    (∃ m, Reach (Machine.Initial tableAt3M) Machine.step (fun m mv => ownIndex m mv = true) m ∧
      m.events = [.acquire 1 .switch, .release 0 .switch, .acquire 0 .switch] ∧
      m.stack 1 = [.code []] ∧ m.preemptDisableCount 1 = 1 ∧ m.ifFlag 1 = true ∧ ¬ LockSafe m) ∧
    ∃ m, Reach (Machine.Initial tableAt3M) Machine.step (fun m mv => ownMove m mv = true) m ∧
      m.events = [.acquire 0 .switch] ∧ m.step (.exec 0) = some m ∧ ¬ LockSafe m := by
  refine ⟨initial_bootMachine, ?_, ?_⟩
  · have hrun : (execWhile Machine.step ownIndex bootMachine staleSwitch).map (fun m =>
        (m.events, inOwnCode m 1, m.preemptDisableCount 1, m.ifFlag 1)) =
          some ([.acquire 1 .switch, .release 0 .switch, .acquire 0 .switch], true,
            1, true) := by
      decide +kernel
    obtain ⟨m, hm, hfacts⟩ := Option.map_eq_some_iff.mp hrun
    simp only [Prod.mk.injEq] at hfacts
    obtain ⟨hevents, hcode, hcount, hon⟩ := hfacts
    have hst := inOwnCode_spec hcode
    refine ⟨m, (Reach.start initial_bootMachine).execWhile (fun _ _ h => h) hm, hevents, hst,
      hcount, hon, fun hsafe => ?_⟩
    have hzero := (hsafe.atRest 1 [] (.inl hst)).1
    rw [hcount] at hzero
    cases hzero
  · have hrun : (execWhile Machine.step ownMove bootMachine freshTicks).map (fun m =>
        (m.events, m.bigKernelLock, spinTest m 0)) =
          some ([.acquire 0 .switch], true, true) := by
      decide +kernel
    obtain ⟨m, hm, hfacts⟩ := Option.map_eq_some_iff.mp hrun
    simp only [Prod.mk.injEq] at hfacts
    obtain ⟨hevents, hlock, hspin⟩ := hfacts
    exact ⟨m, (Reach.start initial_bootMachine).execWhile (fun _ _ h => h) hm, hevents,
      not_lockSafe_of_spin hevents hlock hspin⟩

end NekaKernel.NKern
