/-
  Smp/Runs.lean --- pieces of runs of the bring-up.

  Source: `smp_start_aps` and `ap_entry64` in `smp.c`, and `ap_trampoline.s`.

  What the BSP does from the head of its loop to the wait, how it waits, and what an
  AP does with a filled mailbox, each as one lemma that extends a run.  Runs may be
  guarded: the guard has to allow every step of the BSP.
-/
import NekaKernel.Context.Stacks
import NekaKernel.Smp.Bringup

set_option autoImplicit false

namespace NekaKernel.Smp

open NekaKernel.Foundation NekaKernel.Kernel

/-- The mailbox holds what an AP needs, with the stack at `p`. -/
structure Filled (cfg : Config) (low : Mem) (p : Nat) : Prop where
  cr3 : low.read (mbox 0) 4 = cfg.kernelCr3
  gdt : low.read (mbox 1) 4 = cfg.gdtPtrAddr
  stack : low.read (mbox 2) 8 = stackTop p
  entry : low.read (mbox 3) 8 = cfg.apEntry64

/-- The trampoline loads the first two words as 32 bits. -/
def Config.Low (cfg : Config) : Prop := cfg.kernelCr3 < 2 ^ 32 ∧ cfg.gdtPtrAddr < 2 ^ 32

/-- The mailbox as the BSP fills it. -/
def fillMbox (cfg : Config) (low : Mem) (p : Nat) : Mem :=
  (((low.write (mbox 0) 8 cfg.kernelCr3).write (mbox 1) 8 cfg.gdtPtrAddr).write (mbox 2) 8
    (stackTop p)).write
    (mbox 3) 8 cfg.apEntry64

theorem mbox_disjoint {j k n m : Nat} (h : j ≠ k) (hn : n ≤ 8) (hm : m ≤ 8) :
    mbox j + n ≤ mbox k ∨ mbox k + m ≤ mbox j := by
  unfold mbox
  omega

theorem stackTop_lt (p : Nat) : stackTop p < 2 ^ 64 := by
  unfold stackTop
  exact Nat.lt_of_le_of_lt Nat.and_le_left (Nat.mod_lt _ (by decide))

/-- What the mailbox holds does not depend on what was there before. -/
theorem agree_fillMbox (cfg : Config) (low low' : Mem) (p : Nat) :
    (fillMbox cfg low p).Agree (fillMbox cfg low' p) (mbox 0) (mbox 4) := by
  intro x hlo hhi
  unfold fillMbox Mem.write
  by_cases h₃ : mbox 3 ≤ x ∧ x < mbox 3 + 8
  · rw [if_pos h₃, if_pos h₃]
  by_cases h₂ : mbox 2 ≤ x ∧ x < mbox 2 + 8
  · rw [if_neg h₃, if_neg h₃, if_pos h₂, if_pos h₂]
  by_cases h₁ : mbox 1 ≤ x ∧ x < mbox 1 + 8
  · rw [if_neg h₃, if_neg h₃, if_neg h₂, if_neg h₂, if_pos h₁, if_pos h₁]
  have h₀ : mbox 0 ≤ x ∧ x < mbox 0 + 8 := by
    unfold mbox at *
    omega
  rw [if_neg h₃, if_neg h₃, if_neg h₂, if_neg h₂, if_neg h₁, if_neg h₁, if_pos h₀, if_pos h₀]

theorem filled_fillMbox {cfg : Config} (hlow : cfg.Low) (low : Mem) (p : Nat) :
    Filled cfg (fillMbox cfg low p) p := by
  have hpart : ∀ (m : Mem) (a v : Nat), v < 2 ^ 32 → (m.write a 8 v).read a 4 = v := by
    intro m a v hv
    have hread := m.read_write_part a 8 v 4 0 (by decide)
    rw [Nat.add_zero, Nat.pow_zero, Nat.div_one] at hread
    rw [hread]
    exact Nat.mod_eq_of_lt hv
  unfold fillMbox
  refine ⟨?_, ?_, ?_, ?_⟩
  · rw [Mem.read_write_of_disjoint (mbox_disjoint (by decide) (by decide) (by decide)),
      Mem.read_write_of_disjoint (mbox_disjoint (by decide) (by decide) (by decide)),
      Mem.read_write_of_disjoint (mbox_disjoint (by decide) (by decide) (by decide))]
    exact hpart _ _ _ hlow.1
  · rw [Mem.read_write_of_disjoint (mbox_disjoint (by decide) (by decide) (by decide)),
      Mem.read_write_of_disjoint (mbox_disjoint (by decide) (by decide) (by decide))]
    exact hpart _ _ _ hlow.2
  · rw [Mem.read_write_of_disjoint (mbox_disjoint (by decide) (by decide) (by decide))]
    exact Mem.read_write_of_lt (stackTop_lt p)
  · exact Mem.read_write_of_lt cfg.words_lt.2.2

section Bsp

variable {cfg : Config} {init : State → Prop} {ok : State → Act → Prop} {s s' : State}

/-- A guard that lets the BSP go on. -/
def AllowsBsp (ok : State → Act → Prop) : Prop := ∀ s, ok s .bsp

theorem reach_bsp (hok : AllowsBsp ok) (r : Reach init (step cfg) ok s)
    (h : bspStep cfg s = some s') :
    Reach init (step cfg) ok s' := .step (a := .bsp) r (hok s) h

/-- The copy of the trampoline ends. -/
theorem reach_copy (hok : AllowsBsp ok) (left : Nat) :
    ∀ {s : State} {b : Nat}, Reach init (step cfg) ok s →
    s.pc = .copy b → b + left = blobSize →
      ∃ low, Reach init (step cfg) ok { s with pc := .allocStack, low := low } := by
  induction left with
  | zero =>
    intro s b r hpc hb
    refine ⟨s.low, reach_bsp hok r ?_⟩
    unfold bspStep
    rw [hpc]
    dsimp only
    rw [if_neg (by omega)]
  | succ left ih =>
    intro s b r hpc hb
    have hstep : bspStep cfg s = some
        { s with
          low := s.low.write (trampolineAddr + b) 1 (cfg.blob b), pc := .copy (b + 1) } := by
      unfold bspStep
      rw [hpc]
      dsimp only
      rw [if_pos (by omega)]
    have hrest := ih (reach_bsp hok r hstep) rfl (by omega)
    exact hrest

/-- The state at the start of the wait for the next AP, with the stack at `p`. -/
def attempted (cfg : Config) (s : State) (low : Mem) (p : Nat)
    (heap : Heap.HeapState) : State :=
  { s with
    pc := .wait apTimeout
    apStack := p
    low := fillMbox cfg low p
    heap := ⟨heap, (p, apStackSize) :: s.heap.live⟩
    apReady := Function.update s.apReady s.started false
    gApIndexStarting := s.started
    ap := Function.update s.ap (s.target cfg) .loadCr3
    owner := some (s.target cfg) }

/-- **An attempt.**  From the head of the loop to the wait. -/
theorem reach_attempt (hok : AllowsBsp ok) (r : Reach init (step cfg) ok s) (hpc : s.pc = .next)
    (hi : s.i < cfg.apicIds.length) (hstarted : s.started < maxApCpus)
    (htarget : s.target cfg ≠ cfg.bspId) {p : Nat} {heap : Heap.HeapState}
    (hkmalloc : Heap.kmalloc s.heap.heap apStackSize = (.ret p, heap)) :
    ∃ low, Reach init (step cfg) ok (attempted cfg s low p heap) := by
  have r₁ : Reach init (step cfg) ok { s with pc := .copy 0, owner := none } := by
    refine reach_bsp hok r ?_
    unfold bspStep
    rw [hpc]
    dsimp only
    rw [if_pos ⟨hi, hstarted⟩, if_neg htarget]
  obtain ⟨low, r₂⟩ := reach_copy hok blobSize r₁ rfl (by omega)
  have r₃ : Reach init (step cfg) ok
      { s with
        pc := .fillCr3, owner := none, low := low, apStack := p
        heap := ⟨heap, (p, apStackSize) :: s.heap.live⟩ } := by
    refine reach_bsp hok r₂ ?_
    simp only [bspStep, hkmalloc]
  -- four words, the two variables, and the three interrupts
  have r₇ := reach_bsp hok (reach_bsp hok (reach_bsp hok (reach_bsp hok r₃ rfl) rfl) rfl) rfl
  have r₉ := reach_bsp hok (reach_bsp hok r₇ rfl) rfl
  have r₁₂ := reach_bsp hok (reach_bsp hok (reach_bsp hok r₉ rfl) rfl) rfl
  have hap : ∀ (ap : Nat → ApPc) (a : Nat),
      Function.update (Function.update (Function.update ap a .waitSipi) a
        (sipi (Function.update ap a .waitSipi a))) a
        (sipi (Function.update (Function.update ap a .waitSipi) a
          (sipi (Function.update ap a .waitSipi a)) a)) =
      Function.update ap a .loadCr3 := by
    intro ap a
    simp only [Function.update_self, Function.update_idem]
    rfl
  refine ⟨low, ?_⟩
  unfold attempted
  rw [← hap]
  exact r₁₂

/-- The wait ends without an answer. -/
theorem reach_timeout (hok : AllowsBsp ok) (timeout : Nat) :
    ∀ {s : State}, Reach init (step cfg) ok s →
    s.pc = .wait timeout → s.apReady s.started = false →
      Reach init (step cfg) ok { s with pc := .confirm } := by
  induction timeout with
  | zero =>
    intro s r hpc hready
    refine reach_bsp hok r ?_
    unfold bspStep
    rw [hpc]
    simp [hready]
  | succ timeout ih =>
    intro s r hpc hready
    have hstep : bspStep cfg s = some { s with pc := .wait timeout } := by
      unfold bspStep
      rw [hpc]
      simp [hready]
    have hrest := ih (reach_bsp hok r hstep) rfl hready
    exact hrest

/-- No AP is counted, and the BSP turns to the next entry. -/
theorem reach_unanswered (hok : AllowsBsp ok) {timeout : Nat} (r : Reach init (step cfg) ok s)
    (hpc : s.pc = .wait timeout) (hready : s.apReady s.started = false) :
    Reach init (step cfg) ok { s with i := s.i + 1, pc := .next } := by
  refine reach_bsp hok (reach_timeout hok timeout r hpc hready) ?_
  simp [bspStep, hready]

/-- The answer is there: the AP is counted. -/
theorem reach_answered (hok : AllowsBsp ok) {timeout : Nat} (r : Reach init (step cfg) ok s)
    (hpc : s.pc = .wait timeout) (hready : s.apReady s.started = true) :
    Reach init (step cfg) ok
      { s with
        started := s.started + 1, confirmed := s.target cfg :: s.confirmed, i := s.i + 1,
        pc := .next } := by
  have hstep : bspStep cfg s = some { s with pc := .confirm } := by
    unfold bspStep
    rw [hpc]
    simp [hready]
  refine reach_bsp hok (reach_bsp hok r hstep) ?_
  simp [bspStep, hready, State.target]

/-- The BSP's own entry is skipped. -/
theorem reach_skip (hok : AllowsBsp ok) (r : Reach init (step cfg) ok s) (hpc : s.pc = .next)
    (hi : s.i < cfg.apicIds.length) (hstarted : s.started < maxApCpus)
    (htarget : s.target cfg = cfg.bspId) :
    Reach init (step cfg) ok { s with i := s.i + 1 } := by
  refine reach_bsp hok r ?_
  unfold bspStep
  rw [hpc]
  dsimp only
  rw [if_pos ⟨hi, hstarted⟩, if_pos htarget]

end Bsp

section Ap

variable {cfg : Config} {init : State → Prop} {ok : State → Act → Prop}
    {s s' : State} {a p : Nat}

/-- A guard that lets AP `a` go on while it has the mailbox, or while `b` has. -/
def AllowsAp (ok : State → Act → Prop) (owner : Option Nat) (a : Nat) : Prop :=
  ∀ s : State, s.owner = owner → ok s (.ap a)

theorem reach_ap (r : Reach init (step cfg) ok s) (hok : AllowsAp ok s.owner a)
    (h : apStep cfg s a = some s') :
    Reach init (step cfg) ok s' := .step (a := .ap a) r (hok s rfl) h

theorem State.setAp_setAp (s : State) (a : Nat) (pc pc' : ApPc) :
    (s.setAp a pc).setAp a pc' = s.setAp a pc' := by
  unfold State.setAp
  simp

/-- **The trampoline.**  With a filled mailbox the AP calls `ap_entry64` on the stack
in it. -/
theorem reach_call (hok : AllowsAp ok s.owner a) (r : Reach init (step cfg) ok s)
    (hpc : s.ap a = .loadCr3) (F : Filled cfg s.low p) :
    Reach init (step cfg) ok { s.setAp a .setupTss with
      starts := (a, stackTop p) :: s.starts } := by
  have r₁ : Reach init (step cfg) ok (s.setAp a .loadGdt) := by
    refine reach_ap r hok ?_
    simp only [apStep, hpc, F.cr3, if_true]
  have r₂ : Reach init (step cfg) ok (s.setAp a .loadStack) := by
    have hgdt : (s.setAp a .loadGdt).low.read (mbox 1) 4 = cfg.gdtPtrAddr := F.gdt
    refine reach_ap r₁ hok ?_
    simp only [apStep, State.setAp_self, hgdt, if_true, State.setAp_setAp]
  have r₃ : Reach init (step cfg) ok (s.setAp a (.loadEntry (stackTop p))) := by
    have hstack : (s.setAp a .loadStack).low.read (mbox 2) 8 = stackTop p := F.stack
    refine reach_ap r₂ hok ?_
    simp only [apStep, State.setAp_self, hstack, State.setAp_setAp]
  have hentry : (s.setAp a (.loadEntry (stackTop p))).low.read (mbox 3) 8 =
    cfg.apEntry64 := F.entry
  refine reach_ap r₃ hok ?_
  simp only [apStep, State.setAp_self, hentry, if_true, State.setAp_setAp]
  rfl

/-- **`ap_entry64`.**  The AP sets its TSS up and signals at the index it finds. -/
theorem reach_signal (hok : AllowsAp ok s.owner a) (r : Reach init (step cfg) ok s)
    (hpc : s.ap a = .setupTss) {idx : Nat} (hidx : s.gApIndexStarting = idx) :
    Reach init (step cfg) ok
      { s.setAp a .running with
        descriptors := gdtSetupCpuTss cfg.layout s.descriptors a (getCpuIndex a)
        apReady := Function.update s.apReady idx true
        signals := a :: s.signals } := by
  have r₁ : Reach init (step cfg) ok
      { s.setAp a .testIndex with
        descriptors := gdtSetupCpuTss cfg.layout s.descriptors a (getCpuIndex a) } := by
    refine reach_ap r hok ?_
    simp only [apStep, hpc]
  have r₂ : Reach init (step cfg) ok
      { s.setAp a .loadIndex with
        descriptors := gdtSetupCpuTss cfg.layout s.descriptors a (getCpuIndex a) } := by
    refine reach_ap r₁ hok ?_
    simp [apStep, State.setAp, hidx]
  have r₃ : Reach init (step cfg) ok
      { s.setAp a (.setReady idx) with
        descriptors := gdtSetupCpuTss cfg.layout s.descriptors a (getCpuIndex a) } := by
    refine reach_ap r₂ hok ?_
    simp [apStep, State.setAp, hidx]
  refine reach_ap r₃ hok ?_
  simp [apStep, State.setAp]

end Ap

/-! ## Whole attempts -/

section Attempts

variable {cfg : Config} {init : State → Prop} {ok : State → Act → Prop} {s : State}

/-- What has changed at the head of the loop after an AP came up on the stack at `p`. -/
structure BroughtUp (cfg : Config) (s : State) (p : Nat) (s' : State) : Prop where
  pc : s'.pc = .next
  i : s'.i = s.i + 1
  started : s'.started = s.started + 1
  live : s'.heap.live = (p, apStackSize) :: s.heap.live
  descriptors : s'.descriptors =
    gdtSetupCpuTss cfg.layout s.descriptors (s.target cfg) (getCpuIndex (s.target cfg))
  ap : s'.ap = Function.update s.ap (s.target cfg) .running
  starts : s'.starts = (s.target cfg, stackTop p) :: s.starts
  signals : s'.signals = s.target cfg :: s.signals
  confirmed : s'.confirmed = s.target cfg :: s.confirmed

/-- **An AP that answers in time.** -/
theorem reach_broughtUp (hlow : cfg.Low) (hok : AllowsBsp ok)
    (hap : AllowsAp ok (some (s.target cfg)) (s.target cfg)) (r : Reach init (step cfg) ok s)
    (hpc : s.pc = .next) (hi : s.i < cfg.apicIds.length) (hstarted : s.started < maxApCpus)
    (htarget : s.target cfg ≠ cfg.bspId) {p : Nat} {heap : Heap.HeapState}
    (hkmalloc : Heap.kmalloc s.heap.heap apStackSize = (.ret p, heap)) :
    ∃ s', Reach init (step cfg) ok s' ∧ BroughtUp cfg s p s' ∧ s'.heap.heap = heap := by
  obtain ⟨low, r₁⟩ := reach_attempt hok r hpc hi hstarted htarget hkmalloc
  have r₂ := reach_call (a := s.target cfg) hap r₁ (Function.update_self _ _ _)
    (filled_fillMbox hlow low p)
  have r₃ := reach_signal (a := s.target cfg) hap r₂ (State.setAp_self _ _ _) rfl
  have r₄ := reach_answered hok r₃ rfl (Function.update_self _ _ _)
  refine ⟨_, r₄, ⟨rfl, rfl, rfl, rfl, rfl, ?_, rfl, rfl, rfl⟩, rfl⟩
  simp only [State.setAp, attempted, Function.update_idem]

end Attempts

/-! ## Starts -/

/-- `smp_start_aps` is called, with a fresh heap. -/
def startState (A : Heap.Arena) (cfg : Config) : State where
  pc := if cfg.apicIds.length ≤ 1 then .done else .next
  i := 0
  started := 0
  apStack := 0
  low := fun _ => 0
  heap := ⟨Heap.heapInit A fun _ => 0, []⟩
  apReady := fun _ => false
  gApIndexStarting := -1
  descriptors := gdtInit cfg.layout ⟨fun _ => 0, fun _ => 0, fun _ => none⟩ cfg.bspId
  ap := fun _ => .off
  owner := none
  starts := []
  signals := []
  confirmed := []

theorem initial_startState (A : Heap.Arena) (cfg : Config) :
    Initial A cfg (startState A cfg) where
  pc := rfl
  i := rfl
  started := rfl
  heap := Reach.start ⟨_, rfl⟩
  apReady := rfl
  gApIndexStarting := rfl
  descriptors := ⟨_, rfl⟩
  ap := rfl
  owner := rfl
  starts := rfl
  signals := rfl
  confirmed := rfl

/-- The stacks and the descriptors between 3 MiB and 4 MiB. -/
def tssAt4M : TssLayout where
  toThreadTable := Context.stacksAt3M.toThreadTable
  kstack0 := 0x340000
  kstack0_aligned := by decide
  kstack0_range := by decide
  kstack0_apart := by decide
  dummyRsp := 0x100000
  dummyRsp_range := Context.stacksAt3M.dummyRsp_range
  dummyRsp_table := Context.stacksAt3M.dummyRsp_table
  dummyRsp_kstack0 := by decide
  symbols := Context.stacksAt3M.symbols
  tss := 0x3F0000
  tss_range := by decide

/-- A machine with these processors. -/
def processors (apicIds : List Nat) (bspId : Nat) (h : apicIds.length ≤ maxApCpus) :
    Config where
  apicIds := apicIds
  apicIds_length := h
  bspId := bspId
  kernelCr3 := 0x360000
  gdtPtrAddr := 0x3F1000
  apEntry64 := 0x101000
  words_lt := by decide
  code := fun _ => 0
  layout := tssAt4M

theorem processors_low (apicIds : List Nat) (bspId : Nat) (h : apicIds.length ≤ maxApCpus) :
    (processors apicIds bspId h).Low := by
  have hcr3 : 0x360000 < 2 ^ 32 := by decide
  have hgdt : 0x3F1000 < 2 ^ 32 := by decide
  exact ⟨hcr3, hgdt⟩

end NekaKernel.Smp
