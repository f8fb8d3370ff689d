/-
  NKern/Restored.lean --- the interrupt flag after a section.

  Source: `nkern_lock.c`, with `sched64_reschedule` of `sched64.c`.

  `NKern_Lock` notes the IF of its caller in `saved_if[]` of its CPU, and the
  outermost `NKern_Unlock` sets IF if the note says so.  When a reschedule is
  pending, `NKern_Unlock` calls `sched64_reschedule` in between, whose
  `NKern_UnlockAfterSwitch` sets IF whatever the caller had, on whichever CPU the
  thread comes back to.
-/
import NekaKernel.NKern.Masked

set_option autoImplicit false

namespace NekaKernel.NKern

open NekaKernel.Foundation NekaKernel.Sched

/-! ## What is watched -/

/-- What a thread's outermost section is remembered by: IF just before its
`NKern_Lock`, and whether its `NKern_Unlock` has found a reschedule pending. -/
structure Note where
  before : Bool
  deferred : Bool
  deriving DecidableEq, Repr

/-- A machine with the notes of the threads that run, and of those put away. -/
structure Watched where
  machine : Machine
  note : Cpu → Option Note
  put : Tid → Option Note

/-- What may happen next. -/
inductive Act where
  | move (mv : Move)
  /-- The thread on `k` calls `NKern_RequestReschedule`. -/
  | requestReschedule (k : Cpu)

/-- The notes of the contexts put away, when CPU `k` leaves that of `prev`. -/
def Watched.putAway (w : Watched) (k : Cpu) : Option Tid → Tid → Option Note
  | some p => Function.update w.put p (w.note k)
  | none => w.put

/-- The notes after a move.  They go with the context when `context_switch64`
changes stacks. -/
def Watched.observe (w : Watched) : Move → (Cpu → Option Note) × (Tid → Option Note)
  | .callLock k =>
      match w.machine.stack k with
      | .code [] :: _ => (Function.update w.note k (some ⟨w.machine.ifFlag k, false⟩), w.put)
      | _ => (w.note, w.put)
  | .exec k =>
      match w.machine.stack k with
      | .unlockPend c :: _ =>
          let seen := (w.note k).map fun n => { n with
            deferred := w.machine.reschedulePending c }
          (Function.update w.note k seen, w.put)
      | .reschedSwitch prev next :: _ =>
          (Function.update w.note k (w.putAway k prev next), w.putAway k prev)
      | _ => (w.note, w.put)
  | _ => (w.note, w.put)

/-- One act, or `none` when it cannot be made. -/
def Watched.step (w : Watched) : Act → Option Watched
  | .move mv => (w.machine.step mv).map fun m => ⟨m, (w.observe mv).1, (w.observe mv).2⟩
  | .requestReschedule k =>
      match w.machine.stack k with
      | .code _ :: _ => some { w with machine := w.machine.setPending k true }
      | _ => none

/-- Nothing has been seen yet. -/
structure Watched.Initial (L : ThreadTable) (w : Watched) : Prop where
  machine : w.machine.Initial L
  note : ∀ k, w.note k = none
  put : ∀ t, w.put t = none

/-- The act uses the index of the CPU it is made on, and takes no thread from another
one. -/
def Watched.ownMove (w : Watched) : Act → Bool
  | .move mv => NKern.ownMove w.machine mv
  | .requestReschedule _ => true

/-! ## Where the flag is kept -/

/-- `saved_if[]` has what the note says. -/
def Note.Saved (n : Note) (s : Bool) : Prop := s = n.before ∧ n.deferred = false

/-- `NKern_Lock` up to its store to `saved_if[]`: an outermost one has the flag in
`b`, for an inner one it is saved already. -/
def Note.Entering (n : Note) (b s : Bool) (r : List Frame) : Prop :=
  (r = [.code []] ∧ n.Saved b) ∨ ∃ c cs, r = [.code (c :: cs)] ∧ n.Saved s

/-- A context of CPU `k` with IF at `i` and `saved_if[k]` at `s` keeps the flag of
the note. -/
def Note.Kept (n : Note) (k : Cpu) (s : Bool) : Bool → List Frame → Prop
  | _, [] => False
  | i, f :: r =>
      match f with
      | .code cs => r = [] ∧ (cs = [] ∨ n.Saved s)
      | .boot => True
      | .lockIdx | .lockCli _ => n.Entering i s r
      | .lockSave _ flags => n.Entering flags s r
      | .lockInc _ | .lockTest _ | .lockSpin _ | .unlockIdx _ | .unlockDec _ _ | .unlockTest _
      | .unlockRel _ | .unlockPend _ => (∃ cs, r = [.code cs]) ∧ n.Saved s
      | .unlockIf c =>
          r = [.code []] ∧ ((n.deferred = true ∧ i = true) ∨ (c = k ∧ i = false ∧ n.Saved s))
      | .tick | .popfq _ => ∀ b, n.Kept k s b r
      | .iret flags _ => flags = true ∧ n.Kept k s true r
      -- `sched64_reschedule` ends with IF set, whatever it was
      | .reschedIdx | .lfsIdx _ | .lfsCli _ _ | .lfsInc _ _ | .lfsTest _ _ | .lfsSpin _ _
      | .reschedPick _ | .reschedSwitch _ _ | .uasIdx | .uasDec _ | .uasTest _ | .uasRel _
      | .uasSti => n.Kept k s true r

/-- **The invariant.** -/
structure Watched.Inv (w : Watched) : Prop where
  lock : ∃ holder, NKern.Inv w.machine holder
  running : ∀ k n, w.note k = some n →
    n.Kept k (w.machine.savedIf k) (w.machine.ifFlag k) (w.machine.stack k)
  waiting : ∀ t n, w.put t = some n → (∀ k, w.machine.on k ≠ some t) →
    ∀ k s i, n.Kept k s i (w.machine.saved t)

/-- A context at rest with IF set depends on no CPU. -/
theorem Note.Kept.elsewhere {n : Note} {k : Cpu} {s : Bool} {o : Option Cpu} {st : List Frame}
    (hst : Resting o st) (h : n.Kept k s true st) (j : Cpu) (t : Bool) :
    n.Kept j t true st := by
  induction hst with
  | code => exact ⟨rfl, .inl rfl⟩
  | lockIdx => exact .inl (h.resolve_right (by simp))
  | lockCli c => exact .inl (h.resolve_right (by simp))
  | boot k => trivial
  | reschedIdx _ ih => exact ih h
  | lfsIdx _ ih => exact ih h
  | lfsCli _ ih => exact ih h
  | unlockIf c _ _ => exact ⟨h.1, .inl (h.2.resolve_right (by simp))⟩
  | uasSti _ ih => exact ih h
  | iret flags snap _ ih => exact ⟨h.1, ih h.2⟩

/-! ## What a step keeps -/

section Steps

variable {m m' : Machine} {holder : Option (Cpu × Via)} {n : Note} {k : Cpu}
    {r : List Frame} {f : Frame}

theorem Machine.decrement_savedIf (m : Machine) (c : Cpu) :
    (m.decrement c).savedIf = m.savedIf := by
  unfold Machine.decrement
  split <;> rfl

/-- A step of `k` leaves `saved_if[]` of the others alone. -/
theorem Inv.run_savedIf (I : Inv m holder) (hst : m.stack k = f :: r)
    (hrun : m.run k r f = some m') {j : Cpu} (hj : j ≠ k) : m'.savedIf j = m.savedIf j := by
  cases f with
  | lockSave c flags =>
    obtain ⟨_, _, _, hshape, _⟩ := I.cpus k
    rw [hst] at hshape
    obtain ⟨rfl, -⟩ := hshape.atTop
    simp only [Machine.run, Option.some.injEq] at hrun
    subst hrun
    split
    · exact Function.update_of_ne hj _ _
    · rfl
  | unlockDec c slot =>
    simp only [Machine.run, Option.some.injEq] at hrun
    subst hrun
    rw [Machine.decrement_savedIf]
    rfl
  | uasDec c =>
    simp only [Machine.run, Option.some.injEq] at hrun
    subst hrun
    rw [Machine.decrement_savedIf]
    rfl
  | reschedSwitch prev next =>
    simp only [Machine.run, Option.some.injEq] at hrun
    subst hrun
    cases prev <;> rfl
  | _ =>
    simp only [Machine.run] at hrun
    (repeat' split at hrun) <;> simp only [Option.some.injEq, reduceCtorEq] at hrun
      <;> subst hrun <;> rfl

/-- The code that `NKern_Lock` returns to is in a section. -/
theorem Note.Kept.enterSection {s i : Bool} (hr : ∃ cs, r = [.code cs])
    (hs : n.Saved s) (c : Cpu) :
    n.Kept k s i (enterSection c r) := by
  obtain ⟨cs, rfl⟩ := hr
  exact ⟨rfl, .inr hs⟩

/-- The point behind `f` on CPU `k`, where there is one only and IF and `saved_if[]`
stay. -/
def Frame.next (k : Cpu) : Frame → Option Frame
  | .lockIdx => some (.lockCli k)
  | .lockInc c => some (.lockTest c)
  | .unlockIdx slot => some (.unlockDec k slot)
  | .unlockDec c _ => some (.unlockTest c)
  | .unlockRel c => some (.unlockPend c)
  | .reschedIdx => some (.lfsIdx k)
  | .lfsIdx rc => some (.lfsCli rc k)
  | .lfsInc rc c => some (.lfsTest rc c)
  | .uasIdx => some (.uasDec k)
  | .uasDec c => some (.uasTest c)
  | .uasRel _ => some .uasSti
  | _ => none

/-- Such a step goes on to the next point. -/
theorem run_next {g : Frame} (hnext : f.next k = some g) (hrun : m.run k r f = some m') :
    m'.stack k = g :: r ∧ m'.savedIf = m.savedIf ∧ m'.ifFlag = m.ifFlag := by
  cases f with
  | unlockDec c slot =>
    cases hnext
    simp only [Machine.run, Option.some.injEq] at hrun
    subst hrun
    rw [Machine.decrement_stack, Machine.setStack_stack, Machine.decrement_savedIf,
      Machine.decrement_ifFlag]
    exact ⟨rfl, rfl, rfl⟩
  | uasDec c =>
    cases hnext
    simp only [Machine.run, Option.some.injEq] at hrun
    subst hrun
    rw [Machine.decrement_stack, Machine.setStack_stack, Machine.decrement_savedIf,
      Machine.decrement_ifFlag]
    exact ⟨rfl, rfl, rfl⟩
  | lockIdx | lockInc | unlockIdx | unlockRel | reschedIdx | lfsIdx | lfsInc
  | uasIdx | uasRel =>
    cases hnext
    simp only [Machine.run, Option.some.injEq] at hrun
    subst hrun
    exact ⟨Function.update_self .., rfl, rfl⟩
  | _ => cases hnext

/-- What is kept at a point is kept at the next one. -/
theorem Note.Kept.next {g : Frame} {s i : Bool} (hnext : f.next k = some g)
    (h : n.Kept k s i (f :: r)) :
    n.Kept k s i (g :: r) := by
  cases f with
  | lockIdx | lockInc | unlockIdx | unlockDec | unlockRel | reschedIdx | lfsIdx | lfsInc
  | uasIdx | uasDec | uasRel =>
    cases hnext
    exact h
  | _ => cases hnext

/-- The outermost `NKern_Lock` saves the IF. -/
theorem Inv.kept_lockSave (I : Inv m holder) {c : Cpu} {flags : Bool}
    (hst : m.stack k = .lockSave c flags :: r) (hrun : m.run k r (.lockSave c flags) = some m')
    (h : n.Kept k (m.savedIf k) (m.ifFlag k) (.lockSave c flags :: r)) :
    n.Kept k (m'.savedIf k) (m'.ifFlag k) (m'.stack k) := by
  obtain ⟨o, d, v, hshape, hcount, -, -⟩ := I.cpus k
  rw [hst] at hshape
  obtain ⟨rfl, cs, rfl, rfl⟩ := hshape.atTop
  simp only [Machine.run, Option.some.injEq] at hrun
  subst hrun
  rw [Machine.setStack_stack]
  refine ⟨⟨cs, rfl⟩, ?_⟩
  rcases h with ⟨hcode, hflags⟩ | ⟨e, es, hcode, hsaved⟩
  · obtain rfl : cs = [] := by simpa using hcode
    rw [if_pos (by simpa using hcount)]
    have hcell : (m.setSavedIf c flags).savedIf c = flags := Function.update_self ..
    exact hcell.symm ▸ hflags
  · obtain rfl : cs = e :: es := by simpa using hcode
    rw [if_neg (by rw [hcount, List.length_cons]; omega)]
    exact hsaved

/-- The spin ends with the lock, or goes on. -/
theorem kept_lockSpin {c : Cpu} (hst : m.stack k = .lockSpin c :: r)
    (hrun : m.run k r (.lockSpin c) = some m')
    (h : n.Kept k (m.savedIf k) (m.ifFlag k) (.lockSpin c :: r)) :
    n.Kept k (m'.savedIf k) (m'.ifFlag k) (m'.stack k) := by
  simp only [Machine.run] at hrun
  split at hrun <;> simp only [Option.some.injEq] at hrun <;> subst hrun
  · rw [hst]
    exact h
  · rw [Machine.acquired_stack, Machine.setStack_stack]
    exact .enterSection h.1 h.2 c

theorem kept_lfsSpin {rc c : Cpu} (hst : m.stack k = .lfsSpin rc c :: r)
    (hrun : m.run k r (.lfsSpin rc c) = some m')
    (h : n.Kept k (m.savedIf k) (m.ifFlag k) (.lfsSpin rc c :: r)) :
    n.Kept k (m'.savedIf k) (m'.ifFlag k) (m'.stack k) := by
  simp only [Machine.run] at hrun
  split at hrun <;> simp only [Option.some.injEq] at hrun <;> subst hrun
  · rw [hst]
    exact h
  · rw [Machine.acquired_stack, Machine.setStack_stack]
    exact h

/-- Only the outermost `NKern_Unlock` looks at the IF it restores. -/
theorem kept_unlockTest {c : Cpu} (hrun : m.run k r (.unlockTest c) = some m')
    (h : n.Kept k (m.savedIf k) (m.ifFlag k) (.unlockTest c :: r)) :
    n.Kept k (m'.savedIf k) (m'.ifFlag k) (m'.stack k) := by
  simp only [Machine.run] at hrun
  split at hrun <;> simp only [Option.some.injEq] at hrun <;> subst hrun <;>
    rw [Machine.setStack_stack]
  · exact h
  · obtain ⟨⟨cs, rfl⟩, hs⟩ := h
    exact ⟨rfl, .inr hs⟩

/-- The IF is set if it was. -/
theorem kept_unlockIf {c : Cpu} (hrun : m.run k r (.unlockIf c) = some m')
    (h : n.Kept k (m.savedIf k) (m.ifFlag k) (.unlockIf c :: r)) :
    n.Kept k (m'.savedIf k) (m'.ifFlag k) (m'.stack k) := by
  obtain ⟨rfl, -⟩ := h
  simp only [Machine.run] at hrun
  split at hrun <;> simp only [Option.some.injEq] at hrun <;> subst hrun
  · rw [Machine.setIf_stack, Machine.setStack_stack]
    exact ⟨rfl, .inl rfl⟩
  · rw [Machine.setStack_stack]
    exact ⟨rfl, .inl rfl⟩

/-- `NKern_UnlockAfterSwitch` finds the counter at 0. -/
theorem Inv.kept_uasTest (I : Inv m holder) {c : Cpu} (hst : m.stack k = .uasTest c :: r)
    (hrun : m.run k r (.uasTest c) = some m')
    (h : n.Kept k (m.savedIf k) (m.ifFlag k) (.uasTest c :: r)) :
    n.Kept k (m'.savedIf k) (m'.ifFlag k) (m'.stack k) := by
  obtain ⟨o, d, v, hshape, hcount, -, -⟩ := I.cpus k
  rw [hst] at hshape
  obtain ⟨rfl, rfl⟩ := hshape.atTop
  simp only [Machine.run] at hrun
  rw [if_pos (by simpa using hcount), Option.some.injEq] at hrun
  subst hrun
  rw [Machine.setStack_stack]
  exact h

/-- The timer's handler, and the way back from it. -/
theorem kept_tick (hrun : m.run k r .tick = some m')
    (h : n.Kept k (m.savedIf k) (m.ifFlag k) (.tick :: r)) :
    n.Kept k (m'.savedIf k) (m'.ifFlag k) (m'.stack k) := by
  simp only [Machine.run] at hrun
  split at hrun <;> simp only [Option.some.injEq] at hrun <;> subst hrun
  · rw [Machine.setStack_stack]
    exact h _
  · rw [Machine.setPending_stack, Machine.setStack_stack]
    exact h _
  · rw [Machine.setStack_stack]
    exact h _

theorem kept_iret {flags : Bool} {snap : Snapshot}
    (hrun : m.run k r (.iret flags snap) = some m')
    (h : n.Kept k (m.savedIf k) (m.ifFlag k) (.iret flags snap :: r)) :
    n.Kept k (m'.savedIf k) (m'.ifFlag k) (m'.stack k) := by
  simp only [Machine.run, Option.some.injEq] at hrun
  subst hrun
  obtain ⟨rfl, hr⟩ := h
  rw [Machine.setIf_stack, Machine.setStack_stack, Machine.setIf_ifFlag]
  exact hr

/-- **Step lemma** for the frame on top, the two steps that change notes apart. -/
theorem Inv.kept_run (I : Inv m holder) (hst : m.stack k = f :: r)
    (hrun : m.run k r f = some m') (hpend : ∀ c, f ≠ .unlockPend c)
    (hswitch : ∀ prev next, f ≠ .reschedSwitch prev next)
    (h : n.Kept k (m.savedIf k) (m.ifFlag k) (f :: r)) :
    n.Kept k (m'.savedIf k) (m'.ifFlag k) (m'.stack k) := by
  rcases hnext : f.next k with _ | g
  case some =>
    -- nothing that the note is about changes
    obtain ⟨hstack, hsaved, hif⟩ := run_next hnext hrun
    rw [hstack, hsaved, hif]
    exact h.next hnext
  cases f with
  | code cs => simp [Machine.run] at hrun
  | unlockPend c => exact absurd rfl (hpend c)
  | reschedSwitch prev next => exact absurd rfl (hswitch prev next)
  | boot =>
    simp only [Machine.run, Option.some.injEq] at hrun
    subst hrun
    rw [Machine.setStack_stack]
    exact trivial
  | lockSave c flags => exact I.kept_lockSave hst hrun h
  | lockTest c =>
    simp only [Machine.run] at hrun
    split at hrun <;> simp only [Option.some.injEq] at hrun <;> subst hrun <;>
      rw [Machine.setStack_stack]
    · exact h
    · exact .enterSection h.1 h.2 c
  | lockSpin c => exact kept_lockSpin hst hrun h
  | unlockTest c => exact kept_unlockTest hrun h
  | unlockIf c => exact kept_unlockIf hrun h
  | lockCli c | lfsCli rc c =>
    simp only [Machine.run, Option.some.injEq] at hrun
    subst hrun
    rw [Machine.setIf_stack, Machine.setStack_stack]
    exact h
  | lfsTest rc c =>
    simp only [Machine.run] at hrun
    split at hrun <;> simp only [Option.some.injEq] at hrun <;> subst hrun <;>
      rw [Machine.setStack_stack] <;> exact h
  | lfsSpin rc c => exact kept_lfsSpin hst hrun h
  | reschedPick rc =>
    simp only [Machine.run] at hrun
    split at hrun <;> simp only [Option.some.injEq, reduceCtorEq] at hrun <;> subst hrun <;>
      rw [Machine.setStack_stack] <;> exact h
  | popfq flags =>
    simp only [Machine.run, Option.some.injEq] at hrun
    subst hrun
    rw [Machine.setIf_stack, Machine.setStack_stack]
    exact h _
  | uasTest c => exact I.kept_uasTest hst hrun h
  | uasSti =>
    simp only [Machine.run, Option.some.injEq] at hrun
    subst hrun
    rw [Machine.setIf_stack, Machine.setStack_stack, Machine.setIf_ifFlag]
    exact h
  | tick => exact kept_tick hrun h
  | iret flags snap => exact kept_iret hrun h
  | _ => cases hnext

/-- The outermost `NKern_Unlock` looks for a pending reschedule, with IF clear. -/
theorem Inv.kept_unlockPend (I : Inv m holder) {c : Cpu} (hst : m.stack k = .unlockPend c :: r)
    (hrun : m.run k r (.unlockPend c) = some m')
    (h : n.Kept k (m.savedIf k) (m.ifFlag k) (.unlockPend c :: r)) :
    Note.Kept { n with deferred := m.reschedulePending c } k (m'.savedIf k) (m'.ifFlag k)
      (m'.stack k) := by
  obtain ⟨_, _, _, hshape, -⟩ := I.cpus k
  rw [hst] at hshape
  obtain ⟨rfl, rfl, hoff⟩ := hshape.atTop
  simp only [Machine.run] at hrun
  split at hrun <;> simp only [Option.some.injEq] at hrun <;> subst hrun
  · rename_i hpending
    rw [Machine.setPending_stack, Machine.setStack_stack]
    exact ⟨rfl, .inl ⟨hpending, rfl⟩⟩
  · rename_i hnone
    rw [Machine.setStack_stack]
    exact ⟨rfl, .inr ⟨rfl, hoff, h.2.1, by simpa using hnone⟩⟩

/-- What is put away is kept by whichever CPU takes it up. -/
theorem Note.Kept.putAway {s : Bool} (hr : Resting none r) (h : n.Kept k s true r)
    (flags : Bool) (j : Cpu) (t b : Bool) : n.Kept j t b (.popfq flags :: .uasIdx :: r) :=
  fun _ => h.elsewhere hr j t

end Steps

section Acts

variable {w w' : Watched} {m' : Machine} {k : Cpu} {r : List Frame} {f : Frame}

/-- Only `context_switch64` puts a context away. -/
theorem run_saved {m : Machine} (hrun : m.run k r f = some m')
    (hswitch : ∀ prev next, f ≠ .reschedSwitch prev next) :
    m'.saved = m.saved ∧ m'.on = m.on := by
  cases f with
  | reschedSwitch prev next => exact absurd rfl (hswitch prev next)
  | unlockDec c slot | uasDec c =>
    simp only [Machine.run, Option.some.injEq] at hrun
    subst hrun
    obtain ⟨-, -, hsaved, hon, -⟩ := Machine.decrement_shared (m.setStack k (_ :: r)) c
    exact ⟨hsaved, hon⟩
  | lockSave c flags =>
    simp only [Machine.run, Option.some.injEq] at hrun
    subst hrun
    split <;> exact ⟨rfl, rfl⟩
  | _ =>
    simp only [Machine.run] at hrun
    (repeat' split at hrun) <;> simp only [Option.some.injEq, reduceCtorEq] at hrun
      <;> subst hrun <;>
      exact ⟨rfl, rfl⟩

theorem Watched.observe_exec (hst : w.machine.stack k = f :: r) (hpend : ∀ c, f ≠ .unlockPend c)
    (hswitch : ∀ prev next, f ≠ .reschedSwitch prev next) :
    w.observe (.exec k) = (w.note, w.put) := by
  unfold Watched.observe
  dsimp only
  rw [hst]
  cases f with
  | unlockPend c => exact absurd rfl (hpend c)
  | reschedSwitch prev next => exact absurd rfl (hswitch prev next)
  | _ => rfl

/-- An act of CPU `k` concerns no other CPU's note. -/
structure Beside (k : Cpu) (w w' : Watched) : Prop where
  note : ∀ j, j ≠ k → w'.note j = w.note j
  savedIf : ∀ j, j ≠ k → w'.machine.savedIf j = w.machine.savedIf j
  ifFlag : ∀ j, j ≠ k → w'.machine.ifFlag j = w.machine.ifFlag j
  stack : ∀ j, j ≠ k → w'.machine.stack j = w.machine.stack j

theorem Watched.Inv.beside (W : w.Inv) (B : Beside k w w')
    (hlock : ∃ holder, NKern.Inv w'.machine holder) (hk : ∀ n, w'.note k = some n →
      n.Kept k (w'.machine.savedIf k) (w'.machine.ifFlag k) (w'.machine.stack k))
    (hwait : ∀ t n, w'.put t = some n → (∀ k, w'.machine.on k ≠ some t) →
      ∀ k s i, n.Kept k s i (w'.machine.saved t)) : w'.Inv := by
  refine ⟨hlock, ?_, hwait⟩
  intro j n hn
  by_cases hj : j = k
  · subst hj
    exact hk n hn
  · rw [B.note j hj] at hn
    rw [B.savedIf j hj, B.ifFlag j hj, B.stack j hj]
    exact W.running j n hn

/-- `context_switch64`: the note goes with the context. -/
theorem Watched.Inv.switch (W : w.Inv) {prev : Option Tid} {next : Tid}
    (hst : w.machine.stack k = .reschedSwitch prev next :: r)
    (hlock : ∃ holder, NKern.Inv (w.machine.switchStacks k r prev next) holder) :
    Watched.Inv ⟨w.machine.switchStacks k r prev next, (w.observe (.exec k)).1,
      (w.observe (.exec k)).2⟩ := by
  have hobserve : w.observe (.exec k) =
      (Function.update w.note k (w.putAway k prev next), w.putAway k prev) := by
    unfold Watched.observe
    dsimp only
    rw [hst]
  rw [hobserve]
  obtain ⟨holder, I⟩ := W.lock
  obtain ⟨hon, hnext⟩ := I.places.next_free hst
  -- what `k` has just put away, or what waits on a stack that nobody is on
  have hput : ∀ t n, w.putAway k prev t = some n →
    (prev = some t ∨ ∀ j, w.machine.on j ≠ some t) →
      ∀ j s i, n.Kept j s i ((w.machine.putAway k r prev).saved t) := by
    intro t n hn hfree j s i
    by_cases ht : prev = some t
    · subst ht
      obtain ⟨_, _, _, hshape, -⟩ := I.cpus k
      rw [hst] at hshape
      have hrest : Resting none r := hshape.atTop.1.resolve_left nofun
      have hnote : w.note k = some n := by
        rw [Watched.putAway, Function.update_self] at hn
        exact hn
      have hkept := W.running k n hnote
      rw [hst] at hkept
      rw [Machine.putAway_saved_self]
      exact Note.Kept.putAway hrest hkept _ j s i
    · have hwaits : w.put t = some n := by
        cases prev with
        | none => exact hn
        | some p =>
          rw [Watched.putAway, Function.update_of_ne (fun heq => ht (by rw [heq]))] at hn
          exact hn
      rw [Machine.putAway_saved_of_ne _ k r ht]
      exact W.waiting t n hwaits (hfree.resolve_left ht) j s i
  refine W.beside (k := k) ⟨?_, ?_, ?_, ?_⟩ hlock ?_
    (fun t n hn hfree => hput t n hn (free_of_switched hon hfree))
  · intro j hj
    exact Function.update_of_ne hj _ _
  · intro j _
    cases prev <;> rfl
  · intro j _
    cases prev <;> rfl
  · intro j hj
    exact (run_elsewhere (m := w.machine) (r := r) (f := .reschedSwitch prev next) rfl hj).1
  · intro n hn
    have hnote : w.putAway k prev next = some n := by
      dsimp only at hn
      rw [Function.update_self] at hn
      exact hn
    dsimp only
    rw [Machine.switchStacks, Machine.setOn_stack, Machine.setStack_stack]
    exact hput next n hnote hnext k _ _

/-- The step on top of a CPU's stack. -/
theorem Watched.Inv.exec (W : w.Inv) (hst : w.machine.stack k = f :: r)
    (hrun : w.machine.run k r f = some m') (hlock : ∃ holder, NKern.Inv m' holder) :
    Watched.Inv ⟨m', (w.observe (.exec k)).1, (w.observe (.exec k)).2⟩ := by
  obtain ⟨holder, I⟩ := W.lock
  by_cases hswitch : ∃ prev next, f = .reschedSwitch prev next
  · obtain ⟨prev, next, rfl⟩ := hswitch
    simp only [Machine.run, Option.some.injEq] at hrun
    subst hrun
    exact W.switch hst hlock
  have hstay : ∀ prev next, f ≠ .reschedSwitch prev next :=
    fun prev next h => hswitch ⟨prev, next, h⟩
  have hwait : ∀ t n, w.put t = some n → (∀ k, m'.on k ≠ some t) →
      ∀ k s i, n.Kept k s i (m'.saved t) := by
    obtain ⟨hsaved, hon⟩ := run_saved hrun hstay
    rw [hsaved, hon]
    exact W.waiting
  have helse : ∀ j, j ≠ k → m'.savedIf j = w.machine.savedIf j ∧
    m'.ifFlag j = w.machine.ifFlag j ∧
      m'.stack j = w.machine.stack j := fun j hj =>
    ⟨I.run_savedIf hst hrun hj, (run_elsewhere hrun hj).2, (run_elsewhere hrun hj).1⟩
  by_cases hpend : ∃ c, f = .unlockPend c
  · obtain ⟨c, rfl⟩ := hpend
    have hobserve : w.observe (.exec k) =
        (Function.update w.note k
          ((w.note k).map fun n => { n with deferred := w.machine.reschedulePending c }),
            w.put) := by
      unfold Watched.observe
      dsimp only
      rw [hst]
    rw [hobserve]
    refine W.beside (k := k) ⟨fun j hj => Function.update_of_ne hj _ _,
      fun j hj => (helse j hj).1,
      fun j hj => (helse j hj).2.1, fun j hj => (helse j hj).2.2⟩ hlock ?_ hwait
    intro n' hn'
    dsimp only at hn'
    rw [Function.update_self] at hn'
    obtain ⟨n, hn, rfl⟩ := Option.map_eq_some_iff.mp hn'
    exact I.kept_unlockPend hst hrun (hst ▸ W.running k n hn)
  · have hother : ∀ c, f ≠ .unlockPend c := fun c h => hpend ⟨c, h⟩
    rw [Watched.observe_exec hst hother hstay]
    refine W.beside (k := k) ⟨fun _ _ => rfl, fun j hj => (helse j hj).1,
      fun j hj => (helse j hj).2.1, fun j hj => (helse j hj).2.2⟩ hlock ?_ hwait
    intro n hn
    exact I.kept_run hst hrun hother hstay (hst ▸ W.running k n hn)

/-- `NKern_Lock()` is called. -/
theorem Watched.Inv.callLock (W : w.Inv) {cs : List Cpu}
    (hst : w.machine.stack k = .code cs :: r)
    (hlock : ∃ holder, NKern.Inv (w.machine.setStack k (.lockIdx :: .code cs :: r)) holder) :
    Watched.Inv ⟨w.machine.setStack k (.lockIdx :: .code cs :: r), (w.observe (.callLock k)).1,
      (w.observe (.callLock k)).2⟩ := by
  obtain ⟨holder, I⟩ := W.lock
  obtain ⟨_, _, _, hshape, -⟩ := I.cpus k
  rw [hst] at hshape
  obtain ⟨rfl, -⟩ := hshape.of_code
  cases cs with
  | nil =>
    have hobserve : w.observe (.callLock k) =
        (Function.update w.note k (some ⟨w.machine.ifFlag k, false⟩), w.put) := by
      unfold Watched.observe
      dsimp only
      rw [hst]
    rw [hobserve]
    refine W.beside (k := k) ⟨fun j hj => Function.update_of_ne hj _ _, fun _ _ => rfl,
      fun _ _ => rfl, fun j hj => Function.update_of_ne hj _ _⟩ hlock ?_ W.waiting
    intro n hn
    dsimp only at hn ⊢
    rw [Function.update_self, Option.some.injEq] at hn
    subst hn
    rw [Machine.setStack_stack]
    exact .inl ⟨rfl, rfl, rfl⟩
  | cons c cs =>
    have hobserve : w.observe (.callLock k) = (w.note, w.put) := by
      unfold Watched.observe
      dsimp only
      rw [hst]
    rw [hobserve]
    refine W.beside (k := k) ⟨fun _ _ => rfl, fun _ _ => rfl, fun _ _ => rfl,
      fun j hj => Function.update_of_ne hj _ _⟩ hlock ?_ W.waiting
    intro n hn
    have hkept := W.running k n hn
    rw [hst] at hkept
    dsimp only
    rw [Machine.setStack_stack]
    exact .inr ⟨c, cs, rfl, hkept.2.resolve_left (by simp)⟩

/-- **Step lemma.** -/
theorem Watched.Inv.move (W : w.Inv) {mv : Move} (hown : NKern.ownMove w.machine mv = true)
    (hstep : w.machine.step mv = some m') :
    Watched.Inv ⟨m', (w.observe mv).1, (w.observe mv).2⟩ := by
  obtain ⟨holder, I⟩ := W.lock
  have hlock := inv_step I hown hstep
  cases Machine.moved_of_step hstep with
  | exec hst hrun => exact W.exec hst hrun hlock
  | callLock hst => exact W.callLock hst hlock
  | @callUnlock k slot cs r hst =>
    refine W.beside (k := k) ⟨fun _ _ => rfl, fun _ _ => rfl, fun _ _ => rfl,
      fun j hj => Function.update_of_ne hj _ _⟩ hlock ?_ W.waiting
    intro n hn
    have hkept := W.running k n hn
    rw [hst] at hkept
    obtain ⟨rfl, hsaved⟩ := hkept
    dsimp only
    rw [Machine.setStack_stack]
    exact ⟨⟨cs, rfl⟩, hsaved.resolve_left (by simp)⟩
  | @setIf k r b hst =>
    refine W.beside (k := k) ⟨fun _ _ => rfl, fun _ _ => rfl,
      fun j hj => Function.update_of_ne hj _ _, fun _ _ => rfl⟩ hlock ?_ W.waiting
    intro n hn
    have hkept := W.running k n hn
    rw [hst] at hkept
    dsimp only
    rw [Machine.setIf_stack, hst]
    exact ⟨hkept.1, .inl rfl⟩
  | @timer k hif =>
    refine W.beside (k := k) ⟨fun _ _ => rfl, fun _ _ => rfl,
      fun j hj => Function.update_of_ne hj _ _,
      fun j hj => Function.update_of_ne hj _ _⟩ hlock ?_ W.waiting
    intro n hn
    have hkept := W.running k n hn
    rw [hif] at hkept
    dsimp only
    rw [Machine.setIf_stack, Machine.setStack_stack]
    exact fun _ => ⟨rfl, hkept⟩
  | simd x henabled => exact ⟨hlock, W.running, W.waiting⟩
  | @overwrite j t st hon =>
    refine ⟨hlock, W.running, fun t' n hn hfree => ?_⟩
    have hne : t' ≠ t := fun heq => hfree j (by rw [heq]; exact hon)
    dsimp only
    rw [Function.update_of_ne hne]
    exact W.waiting t' n hn hfree
  | @clobber j k t st hjk hj hk => exact absurd (I.places.apart j k t hj (.inl hk)) hjk

theorem Watched.Inv.step (W : w.Inv) {a : Act} (hown : w.ownMove a = true)
    (hstep : w.step a = some w') :
    w'.Inv := by
  cases a with
  | move mv =>
    obtain ⟨m', hm, rfl⟩ := Option.map_eq_some_iff.mp hstep
    exact W.move hown hm
  | requestReschedule k =>
    simp only [Watched.step] at hstep
    split at hstep
    · rw [Option.some.injEq] at hstep
      subst hstep
      obtain ⟨holder, I⟩ := W.lock
      have I' : NKern.Inv (w.machine.setPending k true) holder :=
        ⟨I.keep ((Elsewhere.refl k w.machine).setPending k true)
          rfl rfl I.saved I.wf (I.cpus k), I.places.own, I.places.apart⟩
      exact ⟨⟨holder, I'⟩, W.running, W.waiting⟩
    · simp at hstep

end Acts

/-- **Run lemma.** -/
theorem watched_of_reach {L : ThreadTable} {w : Watched}
    (h : Reach (Watched.Initial L) Watched.step (fun w a => w.ownMove a = true) w) : w.Inv := by
  refine h.invariant (fun w hw => ?_) (fun _ _ _ W hown hstep => W.step hown hstep)
  refine ⟨⟨none, inv_of_initial hw.machine⟩, fun k n hn => ?_, fun t n hn => ?_⟩
  · rw [hw.note k] at hn
    cases hn
  · rw [hw.put t] at hn
    cases hn

/-! ## Every run -/

/-- **The interrupt flag after a section.**  In every run in which `NKern_Lock` stays
on the CPU whose index it has read and no CPU takes a thread that is current on another
one: when an outermost `NKern_Unlock` returns, IF is
what it was before the `NKern_Lock` exactly when it was set then, or no reschedule
was pending. -/
theorem interrupt_flag_restored_iff (L : ThreadTable) (w w' : Watched) (k c : Cpu) (n : Note)
    (h : Reach (Watched.Initial L) Watched.step (fun w a => w.ownMove a = true) w)
    (hst : w.machine.stack k = [.unlockIf c, .code []]) (hnote : w.note k = some n)
    (hstep : w.step (.move (.exec k)) = some w') :
    w'.machine.stack k = [.code []] ∧
    (w'.machine.ifFlag k = n.before ↔ n.before = true ∨ n.deferred = false) := by
  obtain ⟨-, hflag⟩ := hst ▸ (watched_of_reach h).running k n hnote
  obtain ⟨m', hrun, rfl⟩ := Option.map_eq_some_iff.mp hstep
  simp only [Machine.step, hst, Machine.run] at hrun
  rcases hflag with ⟨hdeferred, hon⟩ | ⟨rfl, hoff, hsaved, hnot⟩
  · -- `NKern_UnlockAfterSwitch` has set IF already
    have hset : m'.ifFlag k = true ∧ m'.stack k = [.code []] := by
      split at hrun <;> simp only [Option.some.injEq] at hrun <;> subst hrun
      · exact ⟨Machine.setIf_ifFlag .., Machine.setStack_stack ..⟩
      · exact ⟨hon, Machine.setStack_stack ..⟩
    refine ⟨hset.2, ?_⟩
    dsimp only
    rw [hset.1, hdeferred]
    cases n.before <;> simp
  · have hback : m'.ifFlag c = w.machine.savedIf c ∧ m'.stack c = [.code []] := by
      split at hrun <;> simp only [Option.some.injEq] at hrun <;> subst hrun
      · rename_i hs
        exact ⟨(Machine.setIf_ifFlag ..).trans hs.symm, Machine.setStack_stack ..⟩
      · rename_i hs
        exact ⟨hoff.trans (by simpa using hs), Machine.setStack_stack ..⟩
    refine ⟨hback.2, ?_⟩
    dsimp only
    rw [hback.1, hsaved, hnot]
    simp

/-- The boot machine, before anything was seen. -/
def watchedBoot : Watched := ⟨bootMachine, fun _ => none, fun _ => none⟩

theorem initial_watchedBoot : watchedBoot.Initial tableAt3M :=
  ⟨initial_bootMachine, fun _ => rfl, fun _ => rfl⟩

/-- `n` steps of the boot CPU. -/
def bootSteps (n : Nat) : List Act := List.replicate n (.move (.exec bsp))

/-- The first thread clears IF and takes the lock. -/
def maskedSection : List Act :=
  bootSteps 15 ++ [.move (.setIf bsp false), .move (.callLock bsp)] ++ bootSteps 6

/-- The slot with which `NKern_Unlock` is about to restore IF on the boot CPU. -/
def restoring (w : Watched) : Option Cpu :=
  match w.machine.stack bsp with
  | [.unlockIf c, .code []] => some c
  | _ => none

theorem restoring_spec {w : Watched} {c : Cpu} (h : restoring w = some c) :
    w.machine.stack bsp = [.unlockIf c, .code []] := by
  unfold restoring at h
  split at h
  · rename_i hst
    rw [Option.some.injEq] at h
    rw [hst, h]
  · cases h

/-- Nothing is pending, and the thread has IF clear again. -/
theorem interrupt_flag_restored_masked :
    ∃ w w' : Watched, Reach (Watched.Initial tableAt3M) Watched.step
      (fun w a => w.ownMove a = true) w ∧
      w.note bsp = some ⟨false, false⟩ ∧ w.step (.move (.exec bsp)) = some w' ∧
      w'.machine.stack bsp = [.code []] ∧ w'.machine.ifFlag bsp = false := by
  have hrun : (execWhile Watched.step Watched.ownMove watchedBoot
      (maskedSection ++ [.move (.callUnlock bsp)] ++ bootSteps 5)).map
        (fun w => (restoring w, w.note bsp, (w.step (.move (.exec bsp))).isSome)) =
      some (some bsp, some ⟨false, false⟩, true) := by decide +kernel
  obtain ⟨w, hw, hfacts⟩ := Option.map_eq_some_iff.mp hrun
  simp only [Prod.mk.injEq] at hfacts
  obtain ⟨hst, hnote, hsome⟩ := hfacts
  obtain ⟨w', hw'⟩ := Option.isSome_iff_exists.mp hsome
  have hreach := (Reach.start initial_watchedBoot).execWhile (fun _ _ h => h) hw
  obtain ⟨hback, hflag⟩ :=
    interrupt_flag_restored_iff tableAt3M w w' bsp bsp ⟨false, false⟩ hreach
      (restoring_spec hst) hnote hw'
  exact ⟨w, w', hreach, hnote, hw', hback, hflag.mpr (.inr rfl)⟩

/-- The thread asks for a reschedule in its section, is switched out in its
`NKern_Unlock` and resumed on the same CPU: it had IF clear, and has it set. -/
theorem interrupt_flag_lost :
    ∃ w w' : Watched, Reach (Watched.Initial tableAt3M) Watched.step
      (fun w a => w.ownMove a = true) w ∧
      w.note bsp = some ⟨false, true⟩ ∧ w.machine.stack bsp = [.unlockIf bsp, .code []] ∧
      w.step (.move (.exec bsp)) = some w' ∧ w'.machine.ifFlag bsp = true := by
  have hrun : (execWhile Watched.step Watched.ownMove watchedBoot
      (maskedSection ++ [.requestReschedule bsp, .move (.callUnlock bsp)] ++ bootSteps 19 ++
        (useUpSlice bsp).map .move ++ bootSteps 1)).map
        (fun w => (restoring w, w.note bsp,
          (w.step (.move (.exec bsp))).map fun w' => w'.machine.ifFlag bsp)) =
      some (some bsp, some ⟨false, true⟩, some true) := by decide +kernel
  obtain ⟨w, hw, hfacts⟩ := Option.map_eq_some_iff.mp hrun
  simp only [Prod.mk.injEq] at hfacts
  obtain ⟨hst, hnote, hlast⟩ := hfacts
  obtain ⟨w', hw', hon⟩ := Option.map_eq_some_iff.mp hlast
  have hreach := (Reach.start initial_watchedBoot).execWhile (fun _ _ h => h) hw
  exact ⟨w, w', hreach, hnote, restoring_spec hst, hw', hon⟩

end NekaKernel.NKern
