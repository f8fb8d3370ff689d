/-
  NKern/Shape.lean --- the contexts that a CPU can be in, and the invariant of
  the lock.

  A shape says of the frames of CPU `k` how many times the context has
  incremented `preempt_disable_count[k]`, and whether it stands between an
  acquisition and its release.  The invariant ties the shapes to the variables:
  each counter is the depth of its CPU's context, and `big_kernel_lock` is held
  by the one CPU whose context stands inside.

  It is kept by every step of which `NKern_Lock` executes its `cli` on the CPU
  whose index it has read: after a preemption between the two the index may be
  that of another CPU, and the counters no longer mean anything.  Of the contexts
  that are put away it says something only while no CPU is on their stack.
-/
import NekaKernel.NKern.Machine

set_option autoImplicit false

namespace NekaKernel.NKern

open NekaKernel.Foundation NekaKernel.Sched

/-! ## The history of the lock -/

/-- Who holds the lock after a history, or `none` if the history is not one of a
lock: an acquisition while it is held, or a release by another CPU or by a
function of the other pair. -/
def replay : List LockEvent → Option (Option (Cpu × Via))
  | [] => some none
  | .acquire k via :: before =>
      match replay before with
      | some none => some (some (k, via))
      | _ => none
  | .release k via :: before =>
      match replay before with
      | some (some holder) => if holder = (k, via) then some none else none
      | _ => none

/-! ## Shapes -/

/-- How a context with these open sections holds the lock. -/
def viaOf : List Cpu → Option Via
  | [] => none
  | _ :: _ => some .lock

@[simp] theorem viaOf_nil : viaOf [] = none := rfl

@[simp] theorem viaOf_cons (c : Cpu) (cs : List Cpu) : viaOf (c :: cs) = some .lock := rfl

/-- After `context_switch64`, or an early return of `sched64_reschedule`: on the
way to the release, with the depth that is still to be given back. -/
inductive Arriving (k : Cpu) (o : Option Cpu) : List Frame → Nat → Prop
  | popfq {r : List Frame} (flags : Bool) (h : Resting o r) :
      Arriving k o (.popfq flags :: .uasIdx :: r) 1
  | idx {r : List Frame} (h : Resting o r) : Arriving k o (.uasIdx :: r) 1
  | dec {r : List Frame} (h : Resting o r) : Arriving k o (.uasDec k :: r) 1
  | test {r : List Frame} (h : Resting o r) : Arriving k o (.uasTest k :: r) 0
  | rel {r : List Frame} (h : Resting o r) : Arriving k o (.uasRel k :: r) 0

/-- What a handler or a call of `sched64_reschedule` may lie upon.  A fresh thread
arrives with IF set, so an interrupt may also have caught it on its way. -/
inductive Handling (k : Cpu) (o : Option Cpu) : List Frame → Nat → Option Via → Prop
  | rest {r : List Frame} (h : Resting o r) : Handling k o r 0 none
  | iret {u : List Frame} {d : Nat} (flags : Bool) (snap : Snapshot) (h : Arriving k o u d) :
      Handling k o (.iret flags snap :: u) d (some .switch)

/-- Inside `NKern_Lock` after its `cli`, or in a section. -/
inductive Locking (k : Cpu) : List Frame → Nat → Option Via → Prop
  | code {c : Cpu} {cs : List Cpu} (h : ∀ e ∈ c :: cs, e = k) :
      Locking k [.code (c :: cs)] (cs.length + 1) (some .lock)
  | idx {c : Cpu} {cs : List Cpu} (h : ∀ e ∈ c :: cs, e = k) :
      Locking k [.lockIdx, .code (c :: cs)] (cs.length + 1) (some .lock)
  | cli {c : Cpu} {cs : List Cpu} (h : ∀ e ∈ c :: cs, e = k) :
      Locking k [.lockCli k, .code (c :: cs)] (cs.length + 1) (some .lock)
  | save {cs : List Cpu} (flags : Bool) (h : ∀ e ∈ cs, e = k) :
      Locking k [.lockSave k flags, .code cs] cs.length (viaOf cs)
  | inc {cs : List Cpu} (h : ∀ e ∈ cs, e = k) :
      Locking k [.lockInc k, .code cs] cs.length (viaOf cs)
  | test {cs : List Cpu} (h : ∀ e ∈ cs, e = k) :
      Locking k [.lockTest k, .code cs] (cs.length + 1) (viaOf cs)
  | spin : Locking k [.lockSpin k, .code []] 1 none

/-- Inside `NKern_Unlock`, up to its test for a pending reschedule. -/
inductive Unlocking (k : Cpu) : List Frame → Nat → Option Via → Prop
  | idx {cs : List Cpu} (h : ∀ e ∈ cs, e = k) :
      Unlocking k [.unlockIdx k, .code cs] (cs.length + 1) (some .lock)
  | dec {cs : List Cpu} (h : ∀ e ∈ cs, e = k) :
      Unlocking k [.unlockDec k k, .code cs] (cs.length + 1) (some .lock)
  | test {cs : List Cpu} (h : ∀ e ∈ cs, e = k) :
      Unlocking k [.unlockTest k, .code cs] cs.length (some .lock)
  | rel : Unlocking k [.unlockRel k, .code []] 0 (some .lock)
  | pend : Unlocking k [.unlockPend k, .code []] 0 none

/-- Inside `sched64_reschedule`, up to the acquisition. -/
inductive Calling (k : Cpu) (o : Option Cpu) : List Frame → Nat → Option Via → Prop
  | idx {st : List Frame} {v : Option Via} (h : Handling k o st 0 v) :
      Calling k o (.reschedIdx :: st) 0 v
  | lfsIdx {st : List Frame} {v : Option Via} (h : Handling k o st 0 v) :
      Calling k o (.lfsIdx k :: st) 0 v
  | lfsCli {st : List Frame} {v : Option Via} (h : Handling k o st 0 v) :
      Calling k o (.lfsCli k k :: st) 0 v
  | lfsInc {st : List Frame} {v : Option Via} (h : Handling k o st 0 v) :
      Calling k o (.lfsInc k k :: st) 0 v
  | lfsTest {st : List Frame} {v : Option Via} (h : Handling k o st 0 v) :
      Calling k o (.lfsTest k k :: st) 1 v
  | lfsSpin {st : List Frame} {v : Option Via} (h : Handling k o st 0 v) :
      Calling k o (.lfsSpin k k :: st) 1 v

/-- The contexts of CPU `k`: whose they are, IF, the frames, the depth and how the
lock is held.  Only a context at rest or on its way to the release may have IF
set. -/
inductive Shape (k : Cpu) : Option Cpu → Bool → List Frame → Nat → Option Via → Prop
  | resting {o : Option Cpu} {i : Bool} {st : List Frame} (h : Resting o st) :
      Shape k o i st 0 none
  | arriving {o : Option Cpu} {i : Bool} {st : List Frame} {d : Nat} (h : Arriving k o st d) :
      Shape k o i st d (some .switch)
  | handling {o : Option Cpu} {st : List Frame} {d : Nat} {v : Option Via}
      (h : Handling k o st d v) : Shape k o false st d v
  | tick {o : Option Cpu} {st : List Frame} {d : Nat} {v : Option Via}
      (h : Handling k o st d v) : Shape k o false (.tick :: st) d v
  | locking {st : List Frame} {d : Nat} {v : Option Via} (h : Locking k st d v) :
      Shape k none false st d v
  | unlocking {st : List Frame} {d : Nat} {v : Option Via} (h : Unlocking k st d v) :
      Shape k none false st d v
  | calling {o : Option Cpu} {st : List Frame} {d : Nat} {v : Option Via}
      (h : Calling k o st d v) : Shape k o false st d v
  | picking {o : Option Cpu} {r : List Frame} (h : Resting o r) :
      Shape k o false (.reschedPick k :: r) 1 (some .switch)
  | switching {prev : Option Tid} {r : List Frame} (next : Tid)
      (h : prev = none ∨ Resting none r) :
      Shape k none false (.reschedSwitch prev next :: r) 1 (some .switch)

/-! ## The frame on top -/

/-- What the shapes of CPU `k` say of a frame on top of the frames `r`. -/
def Frame.AtTop (k : Cpu) (i : Bool) (r : List Frame) (d : Nat) (v : Option Via) : Frame → Prop
  | .boot => d = 0 ∧ v = none
  | .lockSave c _ => c = k ∧ ∃ cs, r = [.code cs] ∧ d = cs.length
  | .lockTest c => c = k ∧ ∃ cs, r = [.code cs] ∧ d = cs.length + 1
  | .unlockDec c slot => c = slot
  | .unlockRel c => c = k ∧ d = 0
  | .unlockPend c => c = k ∧ r = [.code []] ∧ i = false
  | .reschedIdx => d = 0
  | .lfsTest _ c => c = k ∧ d = 1
  | .reschedPick c => c = k ∧ v = some .switch
  | .reschedSwitch prev _ => (prev = none ∨ Resting none r) ∧ v = some .switch
  | .uasTest c => c = k ∧ d = 0
  | .uasRel c => c = k ∧ d = 0
  | _ => True

section Tops

variable {k : Cpu} {o : Option Cpu} {i : Bool} {f : Frame} {r : List Frame} {d : Nat}
    {v : Option Via}

theorem Resting.atTop (h : Resting o (f :: r)) : f.AtTop k i r 0 none := by
  cases h with
  | boot => exact ⟨rfl, rfl⟩
  | reschedIdx h => exact rfl
  | _ => trivial

theorem Arriving.atTop (h : Arriving k o (f :: r) d) : f.AtTop k i r d v := by
  cases h with
  | test h => exact ⟨rfl, rfl⟩
  | rel h => exact ⟨rfl, rfl⟩
  | _ => trivial

theorem Locking.atTop (h : Locking k (f :: r) d v) : f.AtTop k i r d v := by
  cases h with
  | save flags h => exact ⟨rfl, _, rfl, rfl⟩
  | test h => exact ⟨rfl, _, rfl, rfl⟩
  | _ => trivial

theorem Unlocking.atTop (h : Unlocking k (f :: r) d v) : f.AtTop k false r d v := by
  cases h with
  | dec h => exact rfl
  | rel => exact ⟨rfl, rfl⟩
  | pend => exact ⟨rfl, rfl, rfl⟩
  | _ => trivial

theorem Calling.atTop (h : Calling k o (f :: r) d v) : f.AtTop k i r d v := by
  cases h with
  | idx h => exact rfl
  | lfsTest h => exact ⟨rfl, rfl⟩
  | _ => trivial

/-- A frame on top stands where its function says. -/
theorem Shape.atTop (h : Shape k o i (f :: r) d v) : f.AtTop k i r d v := by
  cases h with
  | resting h => exact h.atTop
  | arriving h => exact h.atTop
  | handling h =>
    cases h with
    | rest h => exact h.atTop
    | iret flags snap h => trivial
  | tick h => trivial
  | locking h => exact h.atTop
  | unlocking h => exact h.atTop
  | calling h => exact h.atTop
  | picking h => exact ⟨rfl, rfl⟩
  | switching next h => exact ⟨h, rfl⟩

end Tops

/-! ## The invariant -/

/-- CPU `k` is in a context of some shape, with the depth in its counter and the
lock in its hands exactly when the shape says so.  The boot loop is left for good
with the first thread. -/
def CpuOk (m : Machine) (holder : Option (Cpu × Via)) (k : Cpu) : Prop :=
  ∃ o d v, Shape k o (m.ifFlag k) (m.stack k) d v ∧ m.preemptDisableCount k = (d : Int) ∧
    (∀ via, v = some via ↔ holder = some (k, via)) ∧
    (o = none ∨ o = some k ∧ m.sched.current k = none)

/-- **The invariant of the lock.** -/
structure LockInv (m : Machine) (holder : Option (Cpu × Via)) : Prop where
  replay : replay m.events = some holder
  lock : m.bigKernelLock = holder.isSome
  cpus : ∀ k, CpuOk m holder k
  saved : ∀ t, (∀ k, m.on k ≠ some t) → Suspended (m.saved t)
  wf : Wf m.sched

/-- The move is not a `cli` of `NKern_Lock` on another CPU than the one whose
index it has read. -/
def ownIndex (m : Machine) : Move → Bool
  | .exec k =>
      match m.stack k with
      | .lockCli c :: _ => decide (c = k)
      | _ => true
  | _ => true

theorem eq_of_ownIndex {m : Machine} {k c : Cpu} {r : List Frame}
    (h : ownIndex m (.exec k) = true) (hst : m.stack k = .lockCli c :: r) : c = k := by
  simpa [ownIndex, hst] using h

theorem lockInv_of_initial {L : ThreadTable} {m : Machine} (h : m.Initial L) :
    LockInv m none := by
  refine ⟨?_, h.lock, ?_, fun t _ => h.saved t, h.created.wf⟩
  · rw [h.events]
    rfl
  · intro k
    refine ⟨some k, 0, none, ?_, ?_, by simp, Or.inr ⟨rfl, h.created.current k⟩⟩
    · rw [h.booting k]
      exact .resting (.boot k)
    · simpa using h.counts k

/-! ## Changes on one CPU -/

/-- Nothing of the other CPUs changes. -/
structure Elsewhere (k : Cpu) (m m' : Machine) : Prop where
  stack : ∀ j, j ≠ k → m'.stack j = m.stack j
  ifFlag : ∀ j, j ≠ k → m'.ifFlag j = m.ifFlag j
  count : ∀ j, j ≠ k → m'.preemptDisableCount j = m.preemptDisableCount j
  current : ∀ j, j ≠ k → m'.sched.current j = m.sched.current j

namespace Elsewhere

variable {k : Cpu} {m m' : Machine}

theorem refl (k : Cpu) (m : Machine) : Elsewhere k m m :=
  ⟨fun _ _ => rfl, fun _ _ => rfl, fun _ _ => rfl, fun _ _ => rfl⟩

theorem setStack (E : Elsewhere k m m') (st : List Frame) :
    Elsewhere k m (m'.setStack k st) := by
  refine ⟨?_, E.ifFlag, E.count, E.current⟩
  intro j hj
  rw [← E.stack j hj]
  exact Function.update_of_ne hj _ _

theorem setIf (E : Elsewhere k m m') (b : Bool) : Elsewhere k m (m'.setIf k b) := by
  refine ⟨E.stack, ?_, E.count, E.current⟩
  intro j hj
  rw [← E.ifFlag j hj]
  exact Function.update_of_ne hj _ _

theorem setCount (E : Elsewhere k m m') (n : Int) : Elsewhere k m (m'.setCount k n) := by
  refine ⟨E.stack, E.ifFlag, ?_, E.current⟩
  intro j hj
  rw [← E.count j hj]
  exact Function.update_of_ne hj _ _

theorem decrement (E : Elsewhere k m m') : Elsewhere k m (m'.decrement k) := by
  unfold Machine.decrement
  split
  · exact E.setCount _
  · exact E

theorem setPending (E : Elsewhere k m m') (c : Cpu) (b : Bool) :
    Elsewhere k m (m'.setPending c b) := ⟨E.stack, E.ifFlag, E.count, E.current⟩

theorem setSavedIf (E : Elsewhere k m m') (c : Cpu) (b : Bool) :
    Elsewhere k m (m'.setSavedIf c b) := ⟨E.stack, E.ifFlag, E.count, E.current⟩

theorem acquired (E : Elsewhere k m m') (via : Via) : Elsewhere k m (m'.acquired k via) :=
  ⟨E.stack, E.ifFlag, E.count, E.current⟩

theorem setOn (E : Elsewhere k m m') (t : Tid) : Elsewhere k m (m'.setOn k t) :=
  ⟨E.stack, E.ifFlag, E.count, E.current⟩

theorem released (E : Elsewhere k m m') (via : Via) : Elsewhere k m (m'.released k via) :=
  ⟨E.stack, E.ifFlag, E.count, E.current⟩

end Elsewhere

section Updates

variable {m m' : Machine} {holder holder' : Option (Cpu × Via)} {k : Cpu}

/-- What has not changed on a CPU stays as it was. -/
theorem CpuOk.congr {j : Cpu} (C : CpuOk m holder j) (E : Elsewhere k m m') (hj : j ≠ k)
    (hholder : ∀ via, holder = some (j, via) ↔ holder' = some (j, via)) :
    CpuOk m' holder' j := by
  obtain ⟨o, d, v, hshape, hcount, hholds, howner⟩ := C
  refine ⟨o, d, v, ?_, ?_, ?_, ?_⟩
  · rw [E.ifFlag j hj, E.stack j hj]
    exact hshape
  · rw [E.count j hj]
    exact hcount
  · intro via
    rw [hholds via, hholder via]
  · rw [E.current j hj]
    exact howner

/-- A step that neither takes nor releases the lock. -/
theorem LockInv.keep (I : LockInv m holder) (E : Elsewhere k m m')
    (hevents : m'.events = m.events) (hlock : m'.bigKernelLock = m.bigKernelLock) 
    (hsaved : ∀ t, (∀ k, m'.on k ≠ some t) → Suspended (m'.saved t))
    (hwf : Wf m'.sched) (hk : CpuOk m' holder k) : LockInv m' holder := by
  refine ⟨?_, ?_, ?_, hsaved, hwf⟩
  · rw [hevents]
    exact I.replay
  · rw [hlock]
    exact I.lock
  · intro j
    by_cases hj : j = k
    · subst hj
      exact hk
    · exact (I.cpus j).congr E hj fun _ => Iff.rfl

/-- A successful test-and-set on CPU `k`. -/
theorem LockInv.acquire (I : LockInv m none) (via : Via) (E : Elsewhere k m m')
    (hevents : m'.events = .acquire k via :: m.events) (hlock : m'.bigKernelLock = true)
    (hsaved : m'.saved = m.saved) (hon : m'.on = m.on) (hsched : m'.sched = m.sched)
    (hk : CpuOk m' (some (k, via)) k) : LockInv m' (some (k, via)) := by
  refine ⟨?_, ?_, ?_, ?_, ?_⟩
  · rw [hevents, NKern.replay, I.replay]
  · rw [hlock]
    rfl
  · intro j
    by_cases hj : j = k
    · subst hj
      exact hk
    · refine (I.cpus j).congr E hj fun v => ?_
      have hne : k ≠ j := fun heq => hj heq.symm
      simp [hne]
  · rw [hsaved, hon]
    exact I.saved
  · rw [hsched]
    exact I.wf

/-- A `spin_release` on the CPU that holds the lock. -/
theorem LockInv.release {via : Via} (I : LockInv m (some (k, via))) (E : Elsewhere k m m')
    (hevents : m'.events = .release k via :: m.events) (hlock : m'.bigKernelLock = false)
    (hsaved : m'.saved = m.saved) (hon : m'.on = m.on) (hsched : m'.sched = m.sched)
    (hk : CpuOk m' none k) : LockInv m' none := by
  refine ⟨?_, ?_, ?_, ?_, ?_⟩
  · rw [hevents, NKern.replay, I.replay]
    simp
  · rw [hlock]
    rfl
  · intro j
    by_cases hj : j = k
    · subst hj
      exact hk
    · refine (I.cpus j).congr E hj fun v => ?_
      have hne : k ≠ j := fun heq => hj heq.symm
      simp [hne]
  · rw [hsaved, hon]
    exact I.saved
  · rw [hsched]
    exact I.wf

end Updates

end NekaKernel.NKern
