/-
  Sched/Cr3.lean --- the cache of the CR3 register.

  Source: `sched64_reschedule` in `sched64.c`, with the assignment to the
  launcher's `cr3` in `main64.c`.

  `loaded_cr3[c]` is what CPU `c` loaded last, zero before its first switch.  The
  register is reloaded only when the next thread's `cr3` differs from it.
  `alwaysReload` is the reschedule without the cache; the two agree in everything
  but the cache itself, as long as no address space is zero and none is
  reassigned under a running thread.
-/
import NekaKernel.Sched.Queues

set_option autoImplicit false

namespace NekaKernel.Sched

open NekaKernel.Foundation NekaKernel.Kernel

/-! ## Rescheduling without the cache -/

/-- `sched64_reschedule` with `load` in the place of the reload of CR3. -/
def rescheduleWith (load : Scheduler64 → Cpu → Tid → Scheduler64) (s : Scheduler64) (c : Cpu) :
    Scheduler64 × Outcome :=
  match findHighestBit64 s.readyBitmap with
  | none => (s, .idle)
  | some prio =>
      let prev := s.current c
      match s.readyQueue prio with
      | none => (s, .fault)
      | some head =>
          match pickNext s prio head prev with
          | (none, s) => (s, .fault)
          | (some next, s) =>
              if some next = prev then (s, .same)
              else
                let s := { s with current := Function.update s.current c (some next) }
                let s := s.modify next fun th => { th with state := .T64_RUNNING }
                (load (markReady s prev) c next, .switch prev next)

theorem sched64Reschedule_eq (s : Scheduler64) (c : Cpu) :
    sched64Reschedule s c = rescheduleWith loadCr3 s c := rfl

/-- `mov next->cr3, %cr3` without asking. -/
def alwaysReload (s : Scheduler64) (c : Cpu) (next : Tid) : Scheduler64 :=
  { s with cr3 := Function.update s.cr3 c (s.threads next).cr3 }

/-- One call of a scheduler that always reloads. -/
def Scheduler64.applyReloading (s : Scheduler64) : Op → Scheduler64
  | .reschedule c => (rescheduleWith alwaysReload s c).1
  | .timerTick c locked =>
      match sched64TimerTick s c locked with
      | (s, .reschedule) => (rescheduleWith alwaysReload s c).1
      | (s, _) => s

def History.callReloading (L : ThreadTable) (h : History) : Call → Option History
  | .create priority cr3 => h.call L (.create priority cr3)
  | .assignCr3 t cr3 => h.call L (.assignCr3 t cr3)
  | .op o => some { h with sched := h.sched.applyReloading o }

/-- The scheduler with another cache. -/
def Scheduler64.withLoaded (s : Scheduler64) (loaded : Cpu → Nat) : Scheduler64 :=
  { s with loadedCr3 := loaded }

/-! ## The cache is not read elsewhere -/

section Commute

variable {L : ThreadTable} {s : Scheduler64} {c : Cpu} (loaded : Cpu → Nat)

theorem create_withLoaded (priority cr3 : Nat) :
    sched64CreateThread L (s.withLoaded loaded) priority cr3 =
      ((sched64CreateThread L s priority cr3).1,
        (sched64CreateThread L s priority cr3).2.withLoaded loaded) := by
  unfold sched64CreateThread Scheduler64.withLoaded
  dsimp only
  split
  · cases hq : s.readyQueue priority with
    | none => rfl
    | some head =>
      dsimp only
      cases findTail s.threads head loopFuel head <;> rfl
  · rfl

theorem tick_withLoaded (locked : Bool) :
    sched64TimerTick (s.withLoaded loaded) c locked =
      ((sched64TimerTick s c locked).1.withLoaded loaded, (sched64TimerTick s c locked).2) := by
  unfold sched64TimerTick Scheduler64.withLoaded
  dsimp only
  cases s.current c with
  | none => rfl
  | some cur =>
    dsimp only
    split
    · split <;> rfl
    · rfl

/-- The pick is the same for every cache, and changes the queues only. -/
theorem pickNext_withLoaded (s : Scheduler64) (prio : Nat) (head : Tid) (prev : Option Tid) :
    ∃ (pick : Option Tid) (s' : Scheduler64), s'.threads = s.threads ∧
      s'.loadedCr3 = s.loadedCr3 ∧ s'.cr3 = s.cr3 ∧
      ∀ loaded, pickNext (s.withLoaded loaded) prio head prev =
        (pick, s'.withLoaded loaded) := by
  refine ⟨(pickNext s prio head prev).1, (pickNext s prio head prev).2, ?_, ?_, ?_, ?_⟩
  · exact pickNext_threads prio head prev
  · unfold pickNext
    split <;> rfl
  · unfold pickNext
    split <;> rfl
  · intro loaded
    unfold pickNext Scheduler64.withLoaded
    dsimp only
    split <;> rfl

/-- **The switch apart, nothing depends on the reload.**  Either there is no
switch, whatever the reload and the cache are, or the reload is the last thing
done to a state that they had no part in. -/
theorem rescheduleWith_cases (s : Scheduler64) (c : Cpu) :
    (∃ (s' : Scheduler64) (out : Outcome), (∀ prev next, out ≠ .switch prev next) ∧
      s'.threads = s.threads ∧ s'.loadedCr3 = s.loadedCr3 ∧ s'.cr3 = s.cr3 ∧
      ∀ load loaded, rescheduleWith load (s.withLoaded loaded) c =
        (s'.withLoaded loaded, out)) ∨
    ∃ (s' : Scheduler64) (prev : Option Tid) (next : Tid),
      s'.loadedCr3 = s.loadedCr3 ∧ s'.cr3 = s.cr3 ∧
      (∀ u, (s'.threads u).cr3 = (s.threads u).cr3) ∧
      ∀ load loaded, rescheduleWith load (s.withLoaded loaded) c =
        (load (s'.withLoaded loaded) c next, .switch prev next) := by
  unfold rescheduleWith Scheduler64.withLoaded
  dsimp only
  cases findHighestBit64 s.readyBitmap with
  | none => exact Or.inl ⟨s, .idle, by simp, rfl, rfl, rfl, fun _ _ => rfl⟩
  | some prio =>
    dsimp only
    cases s.readyQueue prio with
    | none => exact Or.inl ⟨s, .fault, by simp, rfl, rfl, rfl, fun _ _ => rfl⟩
    | some head =>
      dsimp only
      obtain ⟨pick, s₁, hthreads, hloaded, hcr3, hpick⟩ :=
        pickNext_withLoaded s prio head (s.current c)
      unfold Scheduler64.withLoaded at hpick
      simp only [hpick]
      cases pick with
      | none => exact Or.inl ⟨s₁, .fault, by simp, hthreads, hloaded, hcr3, fun _ _ => rfl⟩
      | some next =>
        dsimp only
        split
        · exact Or.inl ⟨s₁, .same, by simp, hthreads, hloaded, hcr3, fun _ _ => rfl⟩
        · right
          refine ⟨markReady (Scheduler64.modify
            { s₁ with current := Function.update s₁.current c (some next) } next
            fun th => { th with state := .T64_RUNNING }) (s.current c), s.current c, next,
              ?_, ?_, ?_, ?_⟩
          · rw [← hloaded]
            cases s.current c <;> rfl
          · rw [← hcr3]
            cases s.current c <;> rfl
          · intro u
            rw [markReady_keeps Thread64.cr3 fun _ _ => rfl, ← hthreads]
            refine modify_keeps Thread64.cr3 _ ?_ u
            exact fun _ => rfl
          · intro load loaded
            cases s.current c <;> rfl

end Commute

/-! ## The cache and the register -/

/-- A cache entry is zero or what the register holds, and the entry of a CPU that
runs a thread is that thread's address space. -/
structure Cached (s : Scheduler64) : Prop where
  nonzero : ∀ t : Tid, t.val < s.threadCount → (s.threads t).cr3 ≠ 0
  register : ∀ c, s.loadedCr3 c = 0 ∨ s.cr3 c = s.loadedCr3 c
  running : ∀ c t, s.current c = some t → t.val < s.threadCount ∧
    s.loadedCr3 c = (s.threads t).cr3

section Cached

variable {L : ThreadTable} {s s' : Scheduler64} {c : Cpu}

/-- The register of a CPU that runs a thread holds that thread's address space. -/
theorem Cached.cr3_eq (C : Cached s) {t : Tid} (h : s.current c = some t) :
    s.cr3 c = (s.threads t).cr3 := by
  obtain ⟨hlt, hloaded⟩ := C.running c t h
  rcases C.register c with hzero | hreg
  · rw [hzero] at hloaded
    exact absurd hloaded.symm (C.nonzero t hlt)
  · rw [hreg, hloaded]

theorem Cached.congr (C : Cached s) (hsame : SameQueues s s')
    (hloaded : s'.loadedCr3 = s.loadedCr3) (hcr3 : s'.cr3 = s.cr3)
    (hthreads : ∀ t, (s'.threads t).cr3 = (s.threads t).cr3) : Cached s' := by
  refine ⟨?_, ?_, ?_⟩
  · intro t ht
    rw [hthreads]
    exact C.nonzero t (hsame.threadCount ▸ ht)
  · rw [hloaded, hcr3]
    exact C.register
  · intro d t ht
    rw [hsame.threadCount, hloaded, hthreads]
    exact C.running d t (hsame.current ▸ ht)

theorem withLoaded_self (h : s'.loadedCr3 = s.loadedCr3) : s'.withLoaded s.loadedCr3 = s' := by
  unfold Scheduler64.withLoaded
  rw [← h]

/-- Skipping the reload leaves the register as reloading would. -/
theorem loadCr3_eq_alwaysReload {next : Tid} (hnext : (s.threads next).cr3 ≠ 0)
    (hreg : s.loadedCr3 c = 0 ∨ s.cr3 c = s.loadedCr3 c) (loaded : Cpu → Nat) :
    alwaysReload (s.withLoaded loaded) c next = (loadCr3 s c next).withLoaded loaded := by
  unfold loadCr3
  split
  · rfl
  · rename_i hsame
    rw [ne_eq, Decidable.not_not] at hsame
    have hcr3 : s.cr3 c = (s.threads next).cr3 := by
      rcases hreg with hzero | hreg
      · exact absurd (hsame.trans hzero) hnext
      · exact hreg.trans hsame.symm
    unfold alwaysReload Scheduler64.withLoaded
    dsimp only
    rw [← hcr3, Function.update_eq_self]

/-- The cache entry is the next thread's address space after the load. -/
theorem loadCr3_loaded {next : Tid} :
    (loadCr3 s c next).loadedCr3 = Function.update s.loadedCr3 c (s.threads next).cr3 := by
  unfold loadCr3
  split
  · rfl
  · rename_i hsame
    rw [ne_eq, Decidable.not_not] at hsame
    rw [hsame, Function.update_eq_self]

theorem loadCr3_cr3_of_ne {next : Tid} {d : Cpu} (h : d ≠ c) :
    (loadCr3 s c next).cr3 d = s.cr3 d := by
  unfold loadCr3
  split
  · exact Function.update_of_ne h ..
  · rfl

theorem loadCr3_cr3_self {next : Tid} (hnext : (s.threads next).cr3 ≠ 0)
    (hreg : s.loadedCr3 c = 0 ∨ s.cr3 c = s.loadedCr3 c) :
    (loadCr3 s c next).cr3 c = (s.threads next).cr3 := by
  have h := congrArg (fun s => Scheduler64.cr3 s c)
    (loadCr3_eq_alwaysReload hnext hreg s.loadedCr3)
  unfold alwaysReload Scheduler64.withLoaded at h
  dsimp only at h
  rw [Function.update_self] at h
  exact h.symm

/-- A reschedule keeps the cache sound, and is the one without the cache. -/
theorem Cached.reschedule (C : Cached s) (W : Wf s) (c : Cpu) (loaded : Cpu → Nat) :
    Cached (sched64Reschedule s c).1 ∧
      rescheduleWith alwaysReload (s.withLoaded loaded) c =
        ((sched64Reschedule s c).1.withLoaded loaded, (sched64Reschedule s c).2) := by
  have hself : s.withLoaded s.loadedCr3 = s := rfl
  rcases rescheduleWith_cases s c with
    ⟨s', out, hstay, hthreads, hloaded, hcr3, heq⟩ | ⟨s', prev, next, hloaded, hcr3,
      hthreads, heq⟩
  · have hres : sched64Reschedule s c = (s', out) := by
      rw [sched64Reschedule_eq, ← hself, heq, withLoaded_self hloaded]
    obtain ⟨hcur, hcount⟩ := sched64Reschedule_stay W hres hstay
    rw [hres]
    refine ⟨⟨?_, ?_, ?_⟩, heq alwaysReload loaded⟩
    · rw [hcount, hthreads]
      exact C.nonzero
    · rw [hloaded, hcr3]
      exact C.register
    · rw [hcur, hcount, hloaded, hthreads]
      exact C.running
  · have hres : sched64Reschedule s c = (loadCr3 s' c next, .switch prev next) := by
      rw [sched64Reschedule_eq, ← hself, heq, withLoaded_self hloaded]
    obtain ⟨_, _, hlt, hcur, hcount⟩ := sched64Reschedule_switch W hres
    have hnext : (s'.threads next).cr3 ≠ 0 := by
      rw [hthreads]
      exact C.nonzero next hlt
    have hreg : ∀ d, s'.loadedCr3 d = 0 ∨ s'.cr3 d = s'.loadedCr3 d := by
      rw [hloaded, hcr3]
      exact C.register
    rw [hres]
    refine ⟨⟨?_, ?_, ?_⟩, ?_⟩
    · intro t ht
      rw [loadCr3_threads, hthreads]
      exact C.nonzero t (hcount ▸ ht)
    · intro d
      rw [loadCr3_loaded]
      by_cases hd : d = c
      · subst hd
        rw [Function.update_self, loadCr3_cr3_self hnext (hreg d)]
        exact Or.inr rfl
      · rw [Function.update_of_ne hd, loadCr3_cr3_of_ne hd]
        exact hreg d
    · intro d t ht
      rw [hcur] at ht
      rw [hcount, loadCr3_loaded, loadCr3_threads]
      by_cases hd : d = c
      · subst hd
        rw [Function.update_self, Option.some.injEq] at ht
        subst ht
        exact ⟨hlt, Function.update_self ..⟩
      · rw [Function.update_of_ne hd] at ht ⊢
        rw [hloaded, hthreads]
        exact C.running d t ht
    · rw [heq, loadCr3_eq_alwaysReload hnext (hreg c)]

theorem sched64TimerTick_keeps (locked : Bool) {β : Type} (g : Thread64 → β)
    (hg : ∀ th n, g { th with timeSlice := n } = g th) (u : Tid) :
    g ((sched64TimerTick s c locked).1.threads u) = g (s.threads u) := by
  unfold sched64TimerTick
  cases s.current c with
  | none => rfl
  | some cur =>
    dsimp only
    split
    · split
      · dsimp only
        apply modify_keeps g
        exact fun th => hg th 5
      · dsimp only
        apply modify_keeps g
        exact fun th => hg th _
    · rfl

theorem sched64TimerTick_registers (locked : Bool) :
    (sched64TimerTick s c locked).1.loadedCr3 = s.loadedCr3 ∧
      (sched64TimerTick s c locked).1.cr3 = s.cr3 := by
  unfold sched64TimerTick
  cases s.current c with
  | none => exact ⟨rfl, rfl⟩
  | some cur =>
    dsimp only
    split
    · split <;> exact ⟨rfl, rfl⟩
    · exact ⟨rfl, rfl⟩

theorem Cached.apply (C : Cached s) (W : Wf s) (o : Op) (loaded : Cpu → Nat) :
    Cached (s.apply o) ∧ (s.withLoaded loaded).applyReloading o =
      (s.apply o).withLoaded loaded := by
  cases o with
  | reschedule c =>
    obtain ⟨C', heq⟩ := C.reschedule W c loaded
    exact ⟨C', congrArg Prod.fst heq⟩
  | timerTick c locked =>
    have hsame := sched64TimerTick_frame (s := s) (c := c) locked
    obtain ⟨hloaded, hcr3⟩ := sched64TimerTick_registers (s := s) (c := c) locked
    have Ct := C.congr hsame hloaded hcr3
      (sched64TimerTick_keeps locked Thread64.cr3 fun _ _ => rfl)
    have Wt := W.congr hsame
    rw [Scheduler64.apply, Scheduler64.applyReloading, tick_withLoaded]
    generalize sched64TimerTick s c locked = ticked at Ct Wt
    obtain ⟨s₁, decision⟩ := ticked
    cases decision with
    | nothing => exact ⟨Ct, rfl⟩
    | requestReschedule => exact ⟨Ct, rfl⟩
    | reschedule =>
      obtain ⟨C', heq⟩ := Ct.reschedule Wt c loaded
      exact ⟨C', congrArg Prod.fst heq⟩

theorem create_registers {priority cr3 : Nat} {r : Exit (Option Tid)}
    (h : sched64CreateThread L s priority cr3 = (r, s')) :
    s'.loadedCr3 = s.loadedCr3 ∧ s'.cr3 = s.cr3 := by
  unfold sched64CreateThread at h
  split at h
  · dsimp only at h
    cases hq : s.readyQueue priority with
    | none =>
      rw [hq] at h
      cases h
      exact ⟨rfl, rfl⟩
    | some head =>
      rw [hq] at h
      dsimp only at h
      cases htail : findTail s.threads head loopFuel head with
      | none =>
        rw [htail] at h
        cases h
        exact ⟨rfl, rfl⟩
      | some tail =>
        rw [htail] at h
        cases h
        exact ⟨rfl, rfl⟩
  · cases h
    exact ⟨rfl, rfl⟩

/-- A new thread runs nowhere yet. -/
theorem Cached.create (C : Cached s) {priority cr3 : Nat} {r : Option Tid} (hcr3 : cr3 ≠ 0)
    (h : sched64CreateThread L s priority cr3 = (.ret r, s')) : Cached s' := by
  have hregs := create_registers h
  rcases sched64CreateThread_cases h with ⟨_, rfl, _⟩ | ⟨t, rfl, ht, _, hcount, _, hcur, _⟩
  · exact C
  obtain ⟨⟨_, hthread⟩, hothers⟩ := sched64CreateThread_threads h
  have hold : ∀ u : Tid, u.val < s.threadCount → (s'.threads u).cr3 = (s.threads u).cr3 := by
    intro u hu
    have hut : u ≠ t := by
      rintro rfl
      omega
    obtain ⟨_, hkept⟩ := hothers u hut
    rw [hkept]
  refine ⟨?_, ?_, ?_⟩
  · intro u hu
    by_cases hut : u = t
    · subst hut
      rw [hthread]
      exact hcr3
    · have hval : u.val ≠ t.val := fun heq => hut (Fin.ext heq)
      have hlt : u.val < s.threadCount := by omega
      rw [hold u hlt]
      exact C.nonzero u hlt
  · rw [hregs.1, hregs.2]
    exact C.register
  · intro d u hu
    rw [hcur] at hu
    obtain ⟨hlt, hloaded⟩ := C.running d u hu
    rw [hregs.1, hold u hlt]
    exact ⟨by omega, hloaded⟩

/-- A thread that runs nowhere may be given another address space. -/
theorem Cached.assignCr3 (C : Cached s) {t : Tid} {cr3 : Nat} (hcr3 : cr3 ≠ 0)
    (hidle : ∀ c, s.current c ≠ some t) : Cached (s.assignCr3 t cr3) := by
  have hother : ∀ u, u ≠ t → (s.assignCr3 t cr3).threads u = s.threads u := by
    intro u hu
    unfold Scheduler64.assignCr3 Scheduler64.modify
    exact Function.update_of_ne hu ..
  refine ⟨?_, C.register, ?_⟩
  · intro u hu
    by_cases hut : u = t
    · subst hut
      unfold Scheduler64.assignCr3 Scheduler64.modify
      dsimp only
      rw [Function.update_self]
      exact hcr3
    · rw [hother u hut]
      exact C.nonzero u hu
  · intro d u hu
    have hut : u ≠ t := by
      rintro rfl
      exact hidle d hu
    rw [hother u hut]
    exact C.running d u hu

end Cached

/-! ## Runs -/

/-- No address space is zero, and none is assigned to a thread that runs; in
particular it may be assigned to a thread that has not run yet. -/
def Allowed (h : History) : Call → Prop
  | .create _ cr3 => cr3 ≠ 0
  | .assignCr3 t cr3 => cr3 ≠ 0 ∧ ∀ c, h.sched.current c ≠ some t
  | .op _ => True

instance (h : History) (k : Call) : Decidable (Allowed h k) :=
  match k with
  | .create _ cr3 => inferInstanceAs (Decidable (cr3 ≠ 0))
  | .assignCr3 t cr3 => inferInstanceAs (Decidable (cr3 ≠ 0 ∧ ∀ c, h.sched.current c ≠ some t))
  | .op _ => inferInstanceAs (Decidable True)

/-- The history with another cache. -/
def History.withLoaded (h : History) (loaded : Cpu → Nat) : History :=
  { h with sched := h.sched.withLoaded loaded }

section Runs

variable {L : ThreadTable} {h h' : History} {q : Queues} {k : Call}

/-- **Step.**  With and without the cache, a call does the same to everything but
the cache. -/
theorem Cached.call (C : Cached h.sched) (A : Agrees h q) (hok : Allowed h k)
    (hcall : h.call L k = some h') (loaded : Cpu → Nat) :
    Cached h'.sched ∧ (h.withLoaded loaded).callReloading L k =
      some (h'.withLoaded loaded) := by
  cases k with
  | create priority cr3 =>
    rw [History.callReloading]
    unfold History.call at hcall ⊢
    dsimp only at hcall ⊢
    unfold History.withLoaded
    dsimp only
    rw [create_withLoaded]
    obtain ⟨r, s', hret⟩ := A.represents.create_returns (L := L) priority cr3
    have C' := C.create hok hret
    rw [hret] at hcall ⊢
    cases r with
    | none =>
      cases hcall
      exact ⟨C', rfl⟩
    | some t =>
      cases hcall
      exact ⟨C', rfl⟩
  | assignCr3 t cr3 =>
    cases hcall
    exact ⟨C.assignCr3 hok.1 hok.2, rfl⟩
  | op o =>
    cases hcall
    obtain ⟨C', heq⟩ := C.apply A.represents.wf o loaded
    refine ⟨C', ?_⟩
    unfold History.callReloading History.withLoaded
    dsimp only
    rw [heq]

/-- **Run.**  The two schedulers stay together. -/
theorem Cached.exec {calls : List Call} (loaded : Cpu → Nat) :
    ∀ {h : History} {q : Queues}, Cached h.sched → Agrees h q →
      Guarded (History.call L) Allowed h calls →
      ∃ h' q', exec (History.call L) h calls = some h' ∧
        exec (History.callReloading L) (h.withLoaded loaded) calls =
          some (h'.withLoaded loaded) ∧
        Cached h'.sched ∧ Agrees h' q' := by
  induction calls with
  | nil =>
    intro h q C A _
    exact ⟨h, q, rfl, rfl, C, A⟩
  | cons k calls ih =>
    intro h q C A hok
    obtain ⟨mid, hmid, Amid⟩ := A.call L k
    obtain ⟨Cmid, hreload⟩ := C.call A hok.1 hmid loaded
    obtain ⟨h', q', hrun, hrun', C', A'⟩ := ih Cmid Amid (hok.2 mid hmid)
    refine ⟨h', q', ?_, ?_, C', A'⟩
    · rw [Foundation.exec, hmid]
      exact hrun
    · rw [Foundation.exec, hreload]
      exact hrun'

end Runs

/-- Nothing is cached and no thread runs at first, whatever the registers hold. -/
theorem cached_init {s : Scheduler64} (hzero : s.loadedCr3 = fun _ => 0) :
    Cached (sched64Init s) := by
  refine ⟨?_, ?_, ?_⟩
  · simp [sched64Init]
  · intro c
    exact Or.inl (congrFun hzero c)
  · simp [sched64Init]

/-- **The CR3 cache.**  From the statics as the loader leaves them, after any
calls of any CPUs, the register of a CPU that runs a thread holds that thread's
address space, in particular after the next switch; and a scheduler that reloads
the register at every switch is in the same state but for the cache, and goes on
the same way. -/
theorem cr3_cache_sound (L : ThreadTable) (s : Scheduler64) (hzero : s.loadedCr3 = fun _ => 0)
    (calls : List Call) (hok : Guarded (History.call L) Allowed ⟨sched64Init s, []⟩ calls) :
    ∃ h h', exec (History.call L) ⟨sched64Init s, []⟩ calls = some h ∧
      exec (History.callReloading L) ⟨sched64Init s, []⟩ calls = some h' ∧
      (∀ c t, h.sched.current c = some t → h.sched.cr3 c = (h.sched.threads t).cr3) ∧
      (∀ c prev next s', sched64Reschedule h.sched c = (s', .switch prev next) →
        s'.current c = some next ∧ s'.cr3 c = (s'.threads next).cr3) ∧
      h'.made = h.made ∧ h'.sched = { h.sched with loadedCr3 := fun _ => 0 } ∧
      ∀ c, (rescheduleWith alwaysReload h'.sched c).2 = (sched64Reschedule h.sched c).2 := by
  obtain ⟨h, q, hrun, hrun', C, A⟩ :=
    (cached_init hzero).exec (L := L) (fun _ => 0) (agrees_init s) hok
  have hstart : History.withLoaded ⟨sched64Init s, []⟩ (fun _ => 0) = ⟨sched64Init s, []⟩ := by
    unfold History.withLoaded Scheduler64.withLoaded
    rw [← hzero]
    rfl
  rw [hstart] at hrun'
  have W := A.represents.wf
  refine ⟨h, h.withLoaded fun _ => 0, hrun, hrun', fun c t => C.cr3_eq, ?_, rfl, rfl, ?_⟩
  · intro c prev next s' hswitch
    obtain ⟨C', _⟩ := C.reschedule W c fun _ => 0
    obtain ⟨_, _, _, hcur, _⟩ := sched64Reschedule_switch W hswitch
    rw [hswitch] at C'
    have hnext : s'.current c = some next := by
      rw [hcur]
      exact Function.update_self ..
    exact ⟨hnext, C'.cr3_eq hnext⟩
  · intro c
    obtain ⟨_, heq⟩ := C.reschedule W c fun _ => 0
    have hout := congrArg Prod.snd heq
    exact hout

/-- Two CPUs, three threads of which two share an address space, and the
launcher's assignment. -/
def twoCpuCalls : List Call :=
  [.create 5 0x1000, .create 5 0x1000, .create 5 0x4000, .assignCr3 thirdThread 0x7000,
    .op (.reschedule bsp),
    .op (.reschedule ap), .op (.reschedule bsp), .op (.reschedule ap), .op (.reschedule ap)]

theorem cr3_cache_sound_two_cpus :
    ∃ h h', exec (History.call tableAt3M) ⟨sched64Init zeroStatics, []⟩ twoCpuCalls = some h ∧
      exec (History.callReloading tableAt3M) ⟨sched64Init zeroStatics, []⟩
        twoCpuCalls = some h' ∧
      h.sched.current ap = some 2 ∧ h.sched.cr3 ap = 0x7000 ∧
      h'.sched = { h.sched with loadedCr3 := fun _ => 0 } := by
  have hguard : Guarded (History.call tableAt3M) Allowed ⟨sched64Init zeroStatics, []⟩
      twoCpuCalls := by
    obtain ⟨h, hrun⟩ := Option.isSome_iff_exists.mp
      (show (execWhile (History.call tableAt3M) (fun h k => decide (Allowed h k))
        ⟨sched64Init zeroStatics, []⟩ twoCpuCalls).isSome = true by decide +kernel)
    exact guarded_of_execWhile (fun h k => of_decide_eq_true) hrun
  obtain ⟨h, h', hrun, hrun', hsound, _, _, heq, _⟩ :=
    cr3_cache_sound tableAt3M zeroStatics rfl twoCpuCalls hguard
  have hview : (exec (History.call tableAt3M) ⟨sched64Init zeroStatics, []⟩ twoCpuCalls).map
      (fun h => (h.sched.current ap, (h.sched.threads 2).cr3)) = some (some 2, 0x7000) := by
    decide +kernel
  rw [hrun] at hview
  obtain ⟨hcur, hcr3⟩ := Prod.mk.inj (Option.some.inj hview)
  exact ⟨h, h', hrun, hrun', hcur, (hsound ap 2 hcur).trans hcr3, heq⟩

end NekaKernel.Sched
