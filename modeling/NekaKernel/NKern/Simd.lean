/-
  NKern/Simd.lean --- preemption and the SIMD registers.

  Source: `isr.s`, `context_switch64.s`, `fpu.c` and the flags of `build64.sh`.

  `fpu_init` lets all code use SSE, and the compiler is free to.  The interrupt
  stub saves the general registers and `context_switch64` the callee-saved ones;
  neither saves an XMM or x87 register.  So a preempted thread finds them as it
  left them exactly when nobody has touched them.
-/
import NekaKernel.NKern.Masked

set_option autoImplicit false

namespace NekaKernel.NKern

open NekaKernel.Foundation NekaKernel.Sched

/-! ## The path of an interrupt leaves the registers alone -/

/-- An `iretq`, with its note. -/
def Frame.isIret : Frame → Bool
  | .iret _ _ => true
  | _ => false

theorem mem_enterSection {c : Cpu} {r : List Frame} {g : Frame} (hg : g ∈ enterSection c r) :
    g.isIret = false ∨ g ∈ r := by
  unfold enterSection at hg
  split at hg
  · rcases List.mem_cons.mp hg with rfl | hg
    · exact Or.inl rfl
    · exact Or.inr (List.mem_cons_of_mem _ hg)
  · exact Or.inr hg

section Run

variable {m m' : Machine} {k : Cpu} {r : List Frame} {f : Frame}

/-- No step of the handler, of the lock or of a switch saves, restores or changes a
SIMD register. -/
theorem run_simd (h : m.run k r f = some m') : m'.simd = m.simd ∧ m'.simdOps = m.simdOps := by
  cases f <;>
    simp only [Machine.run, Machine.switchStacks, Machine.putAway, Machine.decrement] at h <;>
    (repeat' split at h) <;> simp only [Option.some.injEq, reduceCtorEq] at h <;> subst h <;>
    exact ⟨rfl, rfl⟩

/-- Every `iretq` of a context comes from the context itself or from one that was
put away. -/
theorem run_irets (hst : m.stack k = f :: r) (h : m.run k r f = some m') :
    (∀ g ∈ m'.stack k, g.isIret = false ∨ g = f ∨ g ∈ r ∨ ∃ t, g ∈ m.saved t) ∧
    ∀ t, ∀ g ∈ m'.saved t, g.isIret = false ∨ g ∈ r ∨ g ∈ m.saved t := by
  have hsaved : ∀ t, ∀ g ∈ m.saved t, g.isIret = false ∨ g ∈ r ∨ g ∈ m.saved t :=
    fun t g hg => Or.inr (Or.inr hg)
  cases f with
  | lockTest c =>
    simp only [Machine.run] at h
    split at h <;> simp only [Option.some.injEq] at h <;> subst h <;> refine ⟨?_, hsaved⟩ <;>
      intro g hg <;> rw [Machine.setStack_stack] at hg
    · rcases List.mem_cons.mp hg with rfl | hg
      · exact Or.inl rfl
      · exact Or.inr (Or.inr (Or.inl hg))
    · exact (mem_enterSection hg).imp id fun hg => Or.inr (Or.inl hg)
  | lockSpin c =>
    simp only [Machine.run] at h
    split at h <;> simp only [Option.some.injEq] at h <;> subst h <;> refine ⟨?_, hsaved⟩ <;>
      intro g hg
    · rw [hst] at hg
      rcases List.mem_cons.mp hg with rfl | hg
      · exact Or.inl rfl
      · exact Or.inr (Or.inr (Or.inl hg))
    · rw [Machine.acquired_stack, Machine.setStack_stack] at hg
      exact (mem_enterSection hg).imp id fun hg => Or.inr (Or.inl hg)
  | reschedSwitch prev next =>
    simp only [Machine.run, Machine.switchStacks, Option.some.injEq] at h
    subst h
    have haway : ∀ t, ∀ g ∈ (m.putAway k r prev).saved t,
        g.isIret = false ∨ g ∈ r ∨ g ∈ m.saved t := by
      intro t g hg
      cases prev with
      | none => exact hsaved t g hg
      | some p =>
        dsimp only [Machine.putAway] at hg
        by_cases ht : t = p
        · subst ht
          rw [Function.update_self] at hg
          rcases List.mem_cons.mp hg with rfl | hg
          · exact Or.inl rfl
          · rcases List.mem_cons.mp hg with rfl | hg
            · exact Or.inl rfl
            · exact Or.inr (Or.inl hg)
        · rw [Function.update_of_ne ht] at hg
          exact hsaved t g hg
    refine ⟨?_, haway⟩
    intro g hg
    rw [Machine.setOn_stack, Machine.setStack_stack] at hg
    rcases haway next g hg with hg | hg | hg
    · exact Or.inl hg
    · exact Or.inr (Or.inr (Or.inl hg))
    · exact Or.inr (Or.inr (Or.inr ⟨next, hg⟩))
  | _ =>
    simp only [Machine.run, Machine.decrement] at h
    (repeat' split at h) <;> simp only [Option.some.injEq, reduceCtorEq] at h <;> subst h <;>
      refine ⟨?_, hsaved⟩ <;> intro g hg <;> simp [hst] at hg <;> grind [Frame.isIret]

end Run

/-! ## The notes are true -/

/-- As long as the CPU of the interrupt has executed no SIMD instruction since, its
registers are those of the note. -/
def SnapOk (m : Machine) (snap : Snapshot) : Prop :=
  snap.ops ≤ m.simdOps snap.home ∧
    (snap.ops = m.simdOps snap.home → snap.simd = m.simd snap.home)

/-- All notes of all contexts, running or put away. -/
def AllSnaps (m : Machine) : Prop :=
  (∀ k, ∀ flags snap, .iret flags snap ∈ m.stack k → SnapOk m snap) ∧
    ∀ t, ∀ flags snap, .iret flags snap ∈ m.saved t → SnapOk m snap

section Steps

variable {m m' : Machine} {k : Cpu} {r : List Frame} {f : Frame}

theorem SnapOk.congr {snap : Snapshot} (h : SnapOk m snap)
    (hsimd : m'.simd = m.simd ∧ m'.simdOps = m.simdOps) : SnapOk m' snap := by
  unfold SnapOk
  rw [hsimd.1, hsimd.2]
  exact h

theorem AllSnaps.run (A : AllSnaps m) (hst : m.stack k = f :: r)
    (hrun : m.run k r f = some m') :
    AllSnaps m' := by
  have hsimd := run_simd hrun
  obtain ⟨hstack, hsaved⟩ := run_irets hst hrun
  have hrest : ∀ flags snap, .iret flags snap ∈ r → SnapOk m snap := by
    intro flags snap hmem
    refine A.1 k flags snap ?_
    rw [hst]
    exact List.mem_cons_of_mem f hmem
  refine ⟨?_, ?_⟩
  · intro j flags snap hmem
    by_cases hj : j = k
    · subst hj
      rcases hstack _ hmem with hno | rfl | hr | ⟨t, ht⟩
      · simp [Frame.isIret] at hno
      · refine (A.1 j flags snap ?_).congr hsimd
        rw [hst]
        exact List.mem_cons_self
      · exact (hrest flags snap hr).congr hsimd
      · exact (A.2 t flags snap ht).congr hsimd
    · rw [(run_elsewhere hrun hj).1] at hmem
      exact (A.1 j flags snap hmem).congr hsimd
  · intro t flags snap hmem
    rcases hsaved t _ hmem with hno | hr | ht
    · simp [Frame.isIret] at hno
    · exact (hrest flags snap hr).congr hsimd
    · exact (A.2 t flags snap ht).congr hsimd

/-- Putting frames other than `iretq` on a context. -/
theorem AllSnaps.setStack (A : AllSnaps m) {st : List Frame}
    (hst : ∀ flags snap, .iret flags snap ∈ st → SnapOk m snap) :
    AllSnaps (m.setStack k st) := by
  refine ⟨?_, A.2⟩
  intro j flags snap hmem
  by_cases hj : j = k
  · subst hj
    rw [Machine.setStack_stack] at hmem
    exact hst flags snap hmem
  · refine A.1 j flags snap ?_
    simpa [Machine.setStack, Function.update_of_ne hj] using hmem

/-- An interrupt frame that has just been written has a true note. -/
theorem snapOk_noted {j : Cpu} {st : List Frame} {flags : Bool} {snap : Snapshot}
    (hmem : .iret flags snap ∈ st.map (Frame.noted (m.snapshot j))) : SnapOk m snap := by
  obtain ⟨f, -, hf⟩ := List.mem_map.mp hmem
  cases f with
  | iret flags' snap' =>
    obtain ⟨-, rfl⟩ := Frame.iret.inj hf
    exact ⟨Nat.le_refl _, fun _ => rfl⟩
  | _ => cases hf

/-- **Step lemma.** -/
theorem AllSnaps.step {mv : Move} (A : AllSnaps m) (hstep : m.step mv = some m') :
    AllSnaps m' := by
  cases Machine.moved_of_step hstep with
  | exec hst hrun => exact A.run hst hrun
  | @callLock k cs r hst =>
    refine A.setStack ?_
    intro flags snap hmem
    refine A.1 k flags snap ?_
    rw [hst]
    simpa using hmem
  | @callUnlock k slot cs r hst =>
    refine A.setStack ?_
    intro flags snap hmem
    refine A.1 k flags snap ?_
    rw [hst]
    simpa using hmem
  | setIf b hst => exact A
  | @timer k hif =>
    have hset : AllSnaps (m.setStack k (.tick :: .iret true (m.snapshot k) :: m.stack k)) := by
      refine A.setStack ?_
      intro flags snap hmem
      simp only [List.mem_cons, reduceCtorEq, false_or, Frame.iret.injEq] at hmem
      rcases hmem with ⟨_, rfl⟩ | hmem
      · exact ⟨Nat.le_refl _, fun _ => rfl⟩
      · exact A.1 k flags snap hmem
    exact hset
  | @simd k x henabled =>
    -- the notes of `k` are out of date from now on, the others are not concerned
    have hkeep : ∀ snap, SnapOk m snap → SnapOk { m with
        simd := Function.update m.simd k x
        simdOps := Function.update m.simdOps k (m.simdOps k + 1) } snap := by
      rintro snap ⟨hle, heq⟩
      unfold SnapOk
      dsimp only
      by_cases hk : snap.home = k
      · subst hk
        rw [Function.update_self]
        exact ⟨by omega, fun h => by omega⟩
      · rw [Function.update_of_ne hk, Function.update_of_ne hk]
        exact ⟨hle, heq⟩
    exact ⟨fun j flags snap hmem => hkeep snap (A.1 j flags snap hmem),
      fun t flags snap hmem => hkeep snap (A.2 t flags snap hmem)⟩
  | @overwrite j t st hon =>
    refine ⟨A.1, fun t' flags snap hmem => ?_⟩
    by_cases ht : t' = t
    · subst ht
      dsimp only at hmem
      rw [Function.update_self] at hmem
      exact snapOk_noted (m := m) hmem
    · dsimp only at hmem
      rw [Function.update_of_ne ht] at hmem
      exact A.2 t' flags snap hmem
  | clobber st hjk hj hk => exact A.setStack fun _ _ hmem => snapOk_noted hmem

end Steps

/-! ## Every run -/

/-- A run of freshly created threads. -/
def FreshStart (L : ThreadTable) (m : Machine) : Prop :=
  m.Initial L ∧ ∀ t, m.saved t = freshContext

/-- CPU `k` is about to return from the interrupt noted in `snap`. -/
def Returns (m : Machine) (k : Cpu) (snap : Snapshot) : Prop :=
  ∃ flags r, m.stack k = .iret flags snap :: r

/-- **Preemption transparency.**  In every run, a preempted thread that is resumed
on the CPU it was preempted on, when that CPU has executed no SSE or x87
instruction in between, finds its SIMD registers as they were. -/
theorem preemption_transparent (L : ThreadTable) (m : Machine)
    (h : Reach (FreshStart L) Machine.step (fun _ _ => True) m) (k : Cpu) (snap : Snapshot)
    (hret : Returns m k snap) (hhome : snap.home = k) (hops : m.simdOps k = snap.ops) :
    m.simd k = snap.simd := by
  have A : AllSnaps m := by
    refine h.invariant (P := AllSnaps) ?_ (fun _ _ _ A _ hs => A.step hs)
    rintro m ⟨hinit, hfresh⟩
    refine ⟨?_, ?_⟩
    · intro k flags snap hmem
      simp [hinit.booting k] at hmem
    · intro t flags snap hmem
      simp [hfresh t, freshContext] at hmem
  obtain ⟨flags, r, hst⟩ := hret
  subst hhome
  have hok := A.1 snap.home flags snap (by rw [hst]; exact List.mem_cons_self)
  exact (hok.2 hops.symm).symm

/-! ## Two threads that use SSE -/

/-- The note of the interrupt that CPU `k` is about to return from. -/
def returnNote (m : Machine) (k : Cpu) : Option Snapshot :=
  match m.stack k with
  | .iret _ snap :: _ => some snap
  | _ => none

theorem returnNote_spec {m : Machine} {k : Cpu} {snap : Snapshot}
    (h : returnNote m k = some snap) : Returns m k snap := by
  unfold returnNote at h
  split at h
  · rename_i flags snap' r hst
    rw [Option.some.injEq] at h
    subst h
    exact ⟨flags, r, hst⟩
  · simp at h

/-- Every XMM register holds `v`. -/
def filled (v : BitVec 128) : SimdState := { zeroSimd with xmm := fun _ => v }

/-- The first thread has 1 in its XMM registers when the timer interrupts it; the
handler executes `inside` and is about to return. -/
def interrupted (inside : List Move) : List Move :=
  List.replicate 15 (.exec bsp) ++ [.simd bsp (filled 1), .timer bsp] ++ inside ++ [.exec bsp]

theorem fresh_bootMachine : FreshStart tableAt3M bootMachine :=
  ⟨initial_bootMachine, fun _ => rfl⟩

/-- A handler that leaves SSE alone gives the registers back. -/
theorem preemption_transparent_quiet_handler :
    ∃ m snap, Reach (FreshStart tableAt3M) Machine.step (fun _ _ => True) m ∧ Returns m 0 snap ∧
      snap.simd.xmm 0 = 1 ∧ m.simd 0 = snap.simd := by
  have hrun : (execWhile Machine.step (fun _ _ => true) bootMachine (interrupted [])).bind
      (fun m => (returnNote m 0).map fun snap =>
        (snap.simd.xmm 0, snap.home, decide (m.simdOps 0 = snap.ops))) = some (1, 0, true) := by
    decide +kernel
  obtain ⟨m, hm, hnote⟩ := Option.bind_eq_some_iff.mp hrun
  obtain ⟨snap, hsnap, hfacts⟩ := Option.map_eq_some_iff.mp hnote
  simp only [Prod.mk.injEq, decide_eq_true_eq] at hfacts
  obtain ⟨hxmm, hhome, hops⟩ := hfacts
  have hreach : Reach (FreshStart tableAt3M) Machine.step (fun _ _ => True) m :=
    (Reach.start fresh_bootMachine).execWhile (fun _ _ _ => trivial) hm
  exact ⟨m, snap, hreach, returnNote_spec hsnap, hxmm,
    preemption_transparent tableAt3M m hreach 0 snap (returnNote_spec hsnap) hhome hops⟩

/-- XMM0 behind `char buf[19] = "0x0000000000000000"` in `kprint_hex64`: the first
sixteen characters. -/
def hexBuffer : BitVec 128 := 0x30303030303030303030303030307830

/-- The first thread has 1 in its XMM registers when its slice ends; the second one
calls `kprint_hex64`, and when its slice has ended too the first is resumed, about to
return from its interrupt. -/
def otherPrints : List Move :=
  List.replicate 15 (.exec bsp) ++ [.simd bsp (filled 1)] ++ useUpSlice bsp ++
    [.exec bsp, .simd bsp { filled 1 with
      xmm := fun i => if i.val = 0 then hexBuffer else 1 }] ++
    useUpSlice bsp ++ [.exec bsp]

/-- The thread that was preempted finds the other thread's characters. -/
theorem other_thread_clobbers_xmm :
    FreshStart tableAt3M bootMachine ∧
      ∃ m snap, exec Machine.step bootMachine otherPrints = some m ∧ Returns m 0 snap ∧
        snap.home = 0 ∧ snap.simd.xmm 0 = 1 ∧ (m.simd 0).xmm 0 = hexBuffer ∧
        m.simd 0 ≠ snap.simd := by
  have hrun : (exec Machine.step bootMachine otherPrints).bind
      (fun m => (returnNote m 0).map fun snap => (snap.simd.xmm 0, snap.home, (m.simd 0).xmm 0))
      = some (1, 0, hexBuffer) := by decide +kernel
  obtain ⟨m, hm, hnote⟩ := Option.bind_eq_some_iff.mp hrun
  obtain ⟨snap, hsnap, hfacts⟩ := Option.map_eq_some_iff.mp hnote
  simp only [Prod.mk.injEq] at hfacts
  obtain ⟨hxmm, hhome, hnow⟩ := hfacts
  refine ⟨fresh_bootMachine, m, snap, hm, returnNote_spec hsnap, hhome, hxmm, hnow,
    fun hsame => ?_⟩
  rw [hsame, hxmm] at hnow
  exact absurd hnow (by decide)

end NekaKernel.NKern
