/-
  Smp/Protocol.lean --- what the bring-up of the processors guarantees.

  Source: `smp_start_aps` and `ap_entry64` in `smp.c`, and `ap_trampoline.s`.

  There is one mailbox and one index for all APs.  An AP that is still on its way
  when the BSP goes on to the next one reads the other's stack and sets the other's
  flag.  As long as no AP goes on after that, every AP has a stack of its own and the
  BSP counts only APs that have answered.
-/
import NekaKernel.Heap.Contract
import NekaKernel.Smp.Runs

set_option autoImplicit false

namespace NekaKernel.Smp

open NekaKernel.Foundation NekaKernel.Kernel

/-! ## Runs without latecomers -/

/-- An AP goes on only as long as the BSP, after the INIT it sent to that AP, has not
begun to copy the trampoline for another. -/
def Timely (s : State) : Act → Prop
  | .bsp => True
  | .ap a => s.owner = some a

/-! ## Stacks -/

section Stacks

variable {A : Heap.Arena} {w : Heap.World} {l : List Seg} {p q : Nat}

theorem apStackSize_le : apStackSize ≤ Heap.maxRequest := by decide

/-- The top of a live stack, rounded down to 16 bytes. -/
theorem stackTop_eq (I : Heap.WorldInv A w l) (hp : (p, apStackSize) ∈ w.live) :
    stackTop p = (p + apStackSize) / 16 * 16 ∧ p + apStackSize < 2 ^ 64 := by
  have hend : p + apStackSize < 2 ^ 64 := by
    obtain ⟨b, hb, -, -, hfit⟩ := I.block_of_live hp apStackSize_le
    have hbounds := I.rep.tiles.mem_bounds hb
    have hrange := A.in_range
    unfold Heap.Arena.top at hbounds
    dsimp only at hfit
    omega
  refine ⟨?_, hend⟩
  unfold stackTop
  rw [add64_of_lt hend, Heap.and_not_fifteen hend]

/-- Two stacks have different tops. -/
theorem stackTop_ne (I : Heap.WorldInv A w l) (hp : (p, apStackSize) ∈ w.live)
    (hq : (q, apStackSize) ∈ w.live) (hne : q ≠ p) : stackTop p ≠ stackTop q := by
  have hapart : Heap.Apart p apStackSize q apStackSize :=
    I.apart_of_live hp hq apStackSize_le apStackSize_le hne
  rw [(stackTop_eq I hp).1, (stackTop_eq I hq).1]
  unfold Heap.Apart apStackSize at *
  omega

end Stacks

/-! ## The invariant -/

/-- From the copy of the trampoline up to INIT. -/
def BspPc.preparing : BspPc → Bool
  | .copy
      _ | .allocStack | .fillCr3 | .fillGdt | .fillStack | .fillEntry | .clearReady | .setIndex
  | .sendInit => true
  | _ => false

/-- From INIT to the end of the attempt. -/
def BspPc.sent : BspPc → Bool
  | .sendSipi1 | .sendSipi2 | .wait _ | .confirm => true
  | _ => false

/-- The stack is allocated, and INIT not yet sent. -/
def BspPc.hasStack : BspPc → Bool
  | .fillCr3 | .fillGdt | .fillStack | .fillEntry | .clearReady | .setIndex | .sendInit => true
  | _ => false

/-- The stack is in the mailbox, and INIT not yet sent. -/
def BspPc.hasMbox : BspPc → Bool
  | .fillEntry | .clearReady | .setIndex | .sendInit => true
  | _ => false

/-- `ap_ready[started]` was cleared in this attempt. -/
def BspPc.cleared : BspPc → Bool
  | .setIndex | .sendInit | .sendSipi1 | .sendSipi2 | .wait _ | .confirm => true
  | _ => false

/-- A flag that is not set. -/
theorem unset {P : Prop} (h : false = true) : P := absurd h Bool.false_ne_true

/-- No AP is being started. -/
theorem unowned {P : Nat → Prop} (a : Nat) (h : none = some a) : P a := by
  cases h

theorem BspPc.preparing_of_hasStack {pc : BspPc} (h : pc.hasStack = true) :
    pc.preparing = true := by
  cases pc <;> first | rfl | cases h

theorem BspPc.preparing_of_hasMbox {pc : BspPc} (h : pc.hasMbox = true) :
    pc.preparing = true := by
  cases pc <;> first | rfl | cases h

theorem BspPc.of_cleared {pc : BspPc} (h : pc.cleared = true) :
    pc.preparing = true ∨ pc.sent = true := by
  cases pc <;> first | exact Or.inl rfl | exact Or.inr rfl | cases h

/-- The AP has not called `ap_entry64` since its INIT. -/
def ApPc.early : ApPc → Bool
  | .off | .waitSipi | .loadCr3 | .loadGdt | .loadStack | .loadEntry _ => true
  | _ => false

/-- What AP `a` has after its INIT: a live stack in the mailbox, which no AP was
started on before it. -/
structure Given (s : State) (a : Nat) : Prop where
  live : (s.apStack, apStackSize) ∈ s.heap.live
  mailbox : s.low.read (mbox 2) 8 = stackTop s.apStack
  unused : (s.ap a).early = true → ∀ x ∈ s.starts, x.2 ≠ stackTop s.apStack
  loaded : ∀ rsp, s.ap a = .loadEntry rsp → rsp = stackTop s.apStack

/-- **The invariant of the runs without latecomers.** -/
structure Inv (A : Heap.Arena) (cfg : Config) (s : State) : Prop where
  heap : ∃ l, Heap.WorldInv A s.heap l
  started : ∀ x ∈ s.starts, ∃ p, (p, apStackSize) ∈ s.heap.live ∧ x.2 = stackTop p
  distinct : s.starts.Pairwise fun x y => x.2 ≠ y.2
  counted : ∀ a ∈ s.confirmed, a ∈ s.signals
  preparing : s.pc.preparing = true → s.owner = none
  sent : s.pc.sent = true → s.owner = some (s.target cfg)
  stack : s.pc.hasStack = true →
    (s.apStack, apStackSize) ∈ s.heap.live ∧ ∀ x ∈ s.starts, x.2 ≠ stackTop s.apStack
  mailbox : s.pc.hasMbox = true → s.low.read (mbox 2) 8 = stackTop s.apStack
  given : ∀ a, s.owner = some a → Given s a
  answered : s.pc.cleared = true → s.apReady s.started = true → s.target cfg ∈ s.signals

theorem Initial.inv {A : Heap.Arena} {cfg : Config} {s : State} (h : Initial A cfg s) :
    Inv A cfg s := by
  have hpc : s.pc = .next ∨ s.pc = .done := by
    rw [h.pc]
    split
    · exact Or.inr rfl
    · exact Or.inl rfl
  have hquiet : s.pc.preparing = false ∧ s.pc.sent = false ∧ s.pc.hasStack = false ∧
    s.pc.hasMbox = false ∧
      s.pc.cleared = false := by
    rcases hpc with hpc | hpc <;> rw [hpc] <;> exact ⟨rfl, rfl, rfl, rfl, rfl⟩
  obtain ⟨h₁, h₂, h₃, h₄, h₅⟩ := hquiet
  exact ⟨Heap.worldInv_of_reach h.heap, by simp [h.starts], by simp [h.starts],
    by simp [h.confirmed],
    by simp [h₁], by simp [h₂], by simp [h₃], by simp [h₄], by simp [h.owner], by simp [h₅]⟩

/-! ## Steps -/

section Steps

variable {A : Heap.Arena} {cfg : Config} {s s' : State}

/-- The stack of the attempt was not on the heap before. -/
theorem Inv.alloc (I : Inv A cfg s) {p : Nat} {h' : Heap.HeapState}
    (h : Heap.kmalloc s.heap.heap apStackSize = (.ret p, h')) :
    (∃ l, Heap.WorldInv A ⟨h', (p, apStackSize) :: s.heap.live⟩ l) ∧
      ∀ x ∈ s.starts, x.2 ≠ stackTop p := by
  obtain ⟨l, W⟩ := I.heap
  obtain ⟨l', W'⟩ := W.kmalloc_ret (by decide) (by decide) h
  refine ⟨⟨l', W'⟩, fun x hx => ?_⟩
  obtain ⟨q, hq, htop⟩ := I.started x hx
  rw [htop]
  have hnodup := W'.nodup
  unfold Heap.World.pointers at hnodup
  rw [List.map_cons, List.nodup_cons] at hnodup
  refine stackTop_ne W' (List.mem_cons_of_mem _ hq) List.mem_cons_self ?_
  rintro rfl
  exact hnodup.1 (List.mem_map_of_mem hq)

/-- It depends on the stack, the heap, the mailbox, the AP and the starts. -/
theorem Given.congr {a : Nat} (G : Given s a) (hstack : s'.apStack = s.apStack)
    (hheap : s'.heap = s.heap) (hlow : s'.low = s.low) (hap : s'.ap a = s.ap a)
    (hstarts : s'.starts = s.starts) : Given s' a := by
  refine ⟨?_, ?_, ?_, ?_⟩
  · rw [hstack, hheap]
    exact G.live
  · rw [hstack, hlow]
    exact G.mailbox
  · rw [hstack, hap, hstarts]
    exact G.unused
  · rw [hstack, hap]
    exact G.loaded

/-- A Startup IPI changes nothing of it. -/
theorem Given.sipi {a : Nat} (G : Given s a) : Given (s.setAp a (sipi (s.ap a))) a := by
  refine ⟨G.live, G.mailbox, fun hearly => G.unused ?_, fun rsp hrsp => G.loaded rsp ?_⟩
  · rw [State.setAp_self] at hearly
    unfold Smp.sipi at hearly
    split at hearly
    · rename_i hwait
      rw [hwait]
      rfl
    · exact hearly
  · rw [State.setAp_self] at hrsp
    unfold Smp.sipi at hrsp
    split at hrsp
    · cases hrsp
    · exact hrsp

/-- **A step of the preparation**: the BSP goes on with the stack it has, and stores into
the blob, `ap_ready[]` or `g_ap_index_starting`. -/
theorem Inv.prepare (I : Inv A cfg s) (hprep : s.pc.preparing = true) {pc : BspPc} {low : Mem}
    {apReady : Nat → Bool} {index : Int} (hsent : pc.sent = false)
    (hstack : pc.hasStack = true → s.pc.hasStack = true)
    (hmbox : pc.hasMbox = true → low.read (mbox 2) 8 = stackTop s.apStack)
    (hready : pc.cleared = true → apReady s.started = true → s.target cfg ∈ s.signals) :
    Inv A cfg { s with
      pc := pc, low := low, apReady := apReady, gApIndexStarting := index } := by
  have hnone := I.preparing hprep
  refine ⟨I.heap, I.started, I.distinct, I.counted, fun _ => hnone, fun h => ?_,
    fun h => I.stack (hstack h), hmbox, fun a ha => ?_, hready⟩
  · exact absurd (hsent.symm.trans h) Bool.false_ne_true
  · exact absurd (hnone.symm.trans ha) (Option.some_ne_none a).symm

/-- The stack of an attempt is allocated. -/
theorem Inv.allocStack (I : Inv A cfg s) (hprep : s.pc.preparing = true) {p : Nat}
    {h' : Heap.HeapState} (h : Heap.kmalloc s.heap.heap apStackSize = (.ret p, h')) :
    Inv A cfg { s with
      pc := .fillCr3, apStack := p, heap := ⟨h', (p, apStackSize) :: s.heap.live⟩ } := by
  have hnone := I.preparing hprep
  obtain ⟨hheap, hfresh⟩ := I.alloc h
  refine ⟨hheap, fun x hx => ?_, I.distinct, I.counted, fun _ => hnone, unset,
    fun _ => ⟨List.mem_cons_self, hfresh⟩, unset, fun a ha => ?_, unset⟩
  · obtain ⟨q, hq, htop⟩ := I.started x hx
    exact ⟨q, List.mem_cons_of_mem _ hq, htop⟩
  · exact absurd (hnone.symm.trans ha) (Option.some_ne_none a).symm

/-- The INIT: what was prepared is the AP's. -/
theorem Inv.sendInit (I : Inv A cfg s) (hpc : s.pc = .sendInit) :
    Inv A cfg { s.setAp (s.target cfg) .waitSipi with
      owner := some (s.target cfg), pc := .sendSipi1 } := by
  obtain ⟨hlive, hunused⟩ := I.stack (by rw [hpc]; rfl)
  refine ⟨I.heap, I.started, I.distinct, I.counted, unset, fun _ => rfl, unset, unset,
    fun a ha => ?_, fun _ => I.answered (by rw [hpc]; rfl)⟩
  obtain rfl := Option.some.inj ha
  refine ⟨hlive, I.mailbox (by rw [hpc]; rfl), fun _ => hunused, fun rsp hrsp => ?_⟩
  have hwait : (s.setAp (s.target cfg) .waitSipi).ap (s.target cfg) = .waitSipi :=
    State.setAp_self ..
  cases hwait.symm.trans hrsp

/-- The BSP goes on after the INIT, or ends. -/
theorem Inv.goTo (I : Inv A cfg s) {pc : BspPc} (hprep : pc.preparing = false)
    (hsent : pc.sent = true → s.pc.sent = true)
    (hcleared : pc.cleared = true → s.pc.cleared = true) : Inv A cfg { s with pc := pc } := by
  have hother : ∀ {P : Prop}, pc.preparing = true → P := by
    intro P h
    exact absurd (hprep.symm.trans h) Bool.false_ne_true
  exact ⟨I.heap, I.started, I.distinct, I.counted, hother, fun h => I.sent (hsent h),
    fun h => hother (BspPc.preparing_of_hasStack h),
      fun h => hother (BspPc.preparing_of_hasMbox h),
    fun a ha => (I.given a ha).congr rfl rfl rfl rfl rfl, fun h => I.answered (hcleared h)⟩

/-- A Startup IPI. -/
theorem Inv.sendSipi (I : Inv A cfg s) (hsent : s.pc.sent = true) :
    Inv A cfg (s.setAp (s.target cfg) (sipi (s.ap (s.target cfg)))) := by
  have howner := I.sent hsent
  refine ⟨I.heap, I.started, I.distinct, I.counted, I.preparing, I.sent, I.stack, I.mailbox,
    fun a ha => ?_, I.answered⟩
  obtain rfl := Option.some.inj (howner.symm.trans ha)
  exact (I.given _ howner).sipi

/-- The BSP turns to the next entry of `apic_ids[]`. -/
theorem Inv.nextAp (I : Inv A cfg s) {i started : Nat} {confirmed : List Nat}
    (hcounted : ∀ a ∈ confirmed, a ∈ s.signals) :
    Inv A cfg { s with pc := .next, i := i, started := started, confirmed := confirmed } :=
  ⟨I.heap, I.started, I.distinct, hcounted, unset, unset, unset, unset,
    fun a ha => (I.given a ha).congr rfl rfl rfl rfl rfl, unset⟩

/-- The attempt on the next entry begins. -/
theorem Inv.attempt (I : Inv A cfg s) : Inv A cfg { s with pc := .copy 0, owner := none } :=
  ⟨I.heap, I.started, I.distinct, I.counted, fun _ => rfl, unset, unset, unset, unowned, unset⟩

theorem Inv.bspStep (I : Inv A cfg s) (h : bspStep cfg s = some s') : Inv A cfg s' := by
  obtain ⟨pc, i, started, apStack, low, heap, apReady, index, descriptors, ap, owner, starts,
    signals, confirmed⟩ := s
  cases pc with
  | next =>
    simp only [Smp.bspStep] at h
    split at h
    · split at h
      · obtain rfl := Option.some.inj h
        exact I.nextAp I.counted
      · obtain rfl := Option.some.inj h
        exact I.attempt
    · obtain rfl := Option.some.inj h
      exact I.goTo rfl unset unset
  | copy b =>
    simp only [Smp.bspStep] at h
    split at h
    · obtain rfl := Option.some.inj h
      exact I.prepare rfl rfl unset unset unset
    · obtain rfl := Option.some.inj h
      exact I.prepare rfl rfl unset unset unset
  | allocStack =>
    simp only [Smp.bspStep] at h
    split at h
    · rename_i p h' hkmalloc
      obtain rfl := Option.some.inj h
      exact I.allocStack rfl hkmalloc
    · obtain rfl := Option.some.inj h
      exact I.goTo rfl unset unset
    · cases h
  | fillCr3 =>
    obtain rfl := Option.some.inj h
    exact I.prepare rfl rfl (fun _ => rfl) unset unset
  | fillGdt =>
    obtain rfl := Option.some.inj h
    exact I.prepare rfl rfl (fun _ => rfl) unset unset
  | fillStack =>
    obtain rfl := Option.some.inj h
    exact I.prepare rfl rfl (fun _ => rfl) (fun _ => Mem.read_write_of_lt (stackTop_lt _)) unset
  | fillEntry =>
    obtain rfl := Option.some.inj h
    refine I.prepare rfl rfl (fun _ => rfl) (fun _ => ?_) unset
    exact (Mem.read_write_of_disjoint (mbox_disjoint (by decide) (by decide) (by decide))).trans
      (I.mailbox rfl)
  | clearReady =>
    obtain rfl := Option.some.inj h
    refine I.prepare rfl rfl (fun _ => rfl) (fun _ => I.mailbox rfl) fun _ hready => ?_
    have hfalse : Function.update apReady started false started = false :=
      Function.update_self ..
    exact absurd (hfalse.symm.trans hready) Bool.false_ne_true
  | setIndex =>
    obtain rfl := Option.some.inj h
    exact I.prepare rfl rfl (fun _ => rfl) (fun _ => I.mailbox rfl) fun _ => I.answered rfl
  | sendInit =>
    obtain rfl := Option.some.inj h
    exact I.sendInit rfl
  | sendSipi1 =>
    obtain rfl := Option.some.inj h
    exact (I.sendSipi rfl).goTo rfl (fun _ => rfl) fun _ => rfl
  | sendSipi2 =>
    obtain rfl := Option.some.inj h
    exact (I.sendSipi rfl).goTo rfl (fun _ => rfl) fun _ => rfl
  | wait timeout =>
    simp only [Smp.bspStep] at h
    split at h
    · obtain rfl := Option.some.inj h
      exact I.goTo rfl (fun _ => rfl) fun _ => rfl
    · split at h
      · obtain rfl := Option.some.inj h
        exact I.goTo rfl (fun _ => rfl) fun _ => rfl
      · obtain rfl := Option.some.inj h
        exact I.goTo rfl (fun _ => rfl) fun _ => rfl
  | confirm =>
    simp only [Smp.bspStep] at h
    split at h
    · rename_i hready
      obtain rfl := Option.some.inj h
      refine I.nextAp fun a ha => ?_
      rcases List.mem_cons.mp ha with rfl | hold
      · exact I.answered rfl hready
      · exact I.counted a hold
    · obtain rfl := Option.some.inj h
      exact I.nextAp I.counted
  | done => cases h
  | panicked => cases h

/-- A step of the AP that the mailbox belongs to, up to the call. -/
theorem Inv.setAp_early (I : Inv A cfg s) {a : Nat} {pc : ApPc} (howner : s.owner = some a)
    (hbefore : (s.ap a).early = true)
    (hrsp : ∀ rsp, pc = .loadEntry rsp → rsp = stackTop s.apStack) :
    Inv A cfg (s.setAp a pc) := by
  have G := I.given a howner
  refine ⟨I.heap, I.started, I.distinct, I.counted, I.preparing, I.sent, I.stack, I.mailbox,
    fun b hb => ?_, I.answered⟩
  obtain rfl : a = b := Option.some.inj (howner.symm.trans hb)
  refine ⟨G.live, G.mailbox, fun _ => G.unused hbefore, fun rsp hpc => hrsp rsp ?_⟩
  rwa [State.setAp_self] at hpc

/-- A step of that AP behind the call. -/
theorem Inv.setAp_late (I : Inv A cfg s) {a : Nat} {pc : ApPc} {descriptors : Descriptors}
    (howner : s.owner = some a) (hafter : pc.early = false) :
    Inv A cfg { s.setAp a pc with descriptors := descriptors } := by
  have G := I.given a howner
  refine ⟨I.heap, I.started, I.distinct, I.counted, I.preparing, I.sent, I.stack, I.mailbox,
    fun b hb => ?_, I.answered⟩
  obtain rfl : a = b := Option.some.inj (howner.symm.trans hb)
  have hpc : (s.setAp a pc).ap a = pc := s.setAp_self a pc
  refine ⟨G.live, G.mailbox, fun hearly => ?_, fun rsp hload => ?_⟩
  · rw [show (s.setAp a pc).ap a = pc from hpc, hafter] at hearly
    cases hearly
  · rw [show (s.setAp a pc).ap a = pc from hpc] at hload
    rw [hload] at hafter
    cases hafter

/-- While an AP has the mailbox the BSP prepares no other. -/
theorem Inv.not_preparing (I : Inv A cfg s) {a : Nat} (howner : s.owner = some a) :
    s.pc.preparing ≠ true := by
  intro hprep
  rw [I.preparing hprep] at howner
  cases howner

/-- The call: the stack of the attempt is used now, and by this AP only. -/
theorem Inv.call (I : Inv A cfg s) {a rsp : Nat} {pc : ApPc} (howner : s.owner = some a)
    (hpc : s.ap a = .loadEntry rsp) (hafter : pc.early = false) :
    Inv A cfg { s.setAp a pc with starts := (a, rsp) :: s.starts } := by
  have G := I.given a howner
  have J : Inv A cfg { s.setAp a pc with descriptors := s.descriptors } :=
    I.setAp_late howner hafter
  have hrsp : rsp = stackTop s.apStack := G.loaded rsp hpc
  have hunused := G.unused (by rw [hpc]; rfl)
  refine ⟨I.heap, fun x hx => ?_, ?_, I.counted, I.preparing, I.sent, fun hstack => ?_,
    I.mailbox, fun b hb => ?_, I.answered⟩
  · rcases List.mem_cons.mp hx with rfl | hold
    · exact ⟨s.apStack, G.live, hrsp⟩
    · exact I.started x hold
  · refine List.pairwise_cons.mpr ⟨fun x hx => ?_, I.distinct⟩
    rw [hrsp]
    exact (hunused x hx).symm
  · exact absurd (BspPc.preparing_of_hasStack hstack) (I.not_preparing howner)
  · obtain rfl : a = b := Option.some.inj (howner.symm.trans hb)
    refine ⟨G.live, G.mailbox, fun hearly => ?_, (J.given a howner).loaded⟩
    rw [show (s.setAp a pc).ap a = pc from s.setAp_self a pc, hafter] at hearly
    cases hearly

/-- The signal is that of the AP the BSP waits for. -/
theorem Inv.signal (I : Inv A cfg s) {a idx : Nat} (howner : s.owner = some a) :
    Inv A cfg { s.setAp a .running with
      apReady := Function.update s.apReady idx true, signals := a :: s.signals } := by
  have J : Inv A cfg { s.setAp a .running with descriptors := s.descriptors } :=
    I.setAp_late howner rfl
  refine ⟨I.heap, I.started, I.distinct, fun b hb => List.mem_cons_of_mem _ (I.counted b hb),
    I.preparing, I.sent,
    I.stack, I.mailbox, fun b hb => (J.given b hb).congr rfl rfl rfl rfl rfl,
      fun hcleared _ => ?_⟩
  rcases BspPc.of_cleared hcleared with hprep | hsent
  · exact absurd hprep (I.not_preparing howner)
  · obtain rfl : a = s.target cfg := Option.some.inj (howner.symm.trans (I.sent hsent))
    exact List.mem_cons_self

theorem Inv.apStep (I : Inv A cfg s) {a : Nat} (howner : s.owner = some a)
    (h : apStep cfg s a = some s') :
    Inv A cfg s' := by
  have G := I.given a howner
  unfold Smp.apStep at h
  cases hpc : s.ap a with
  | off => simp [hpc] at h
  | waitSipi => simp [hpc] at h
  | loadCr3 =>
    simp only [hpc, Option.some.injEq] at h
    subst h
    refine I.setAp_early howner (by rw [hpc]; rfl) fun rsp hload => ?_
    split at hload <;> cases hload
  | loadGdt =>
    simp only [hpc, Option.some.injEq] at h
    subst h
    refine I.setAp_early howner (by rw [hpc]; rfl) fun rsp hload => ?_
    split at hload <;> cases hload
  | loadStack =>
    simp only [hpc, Option.some.injEq] at h
    subst h
    refine I.setAp_early howner (by rw [hpc]; rfl) fun rsp hload => ?_
    obtain rfl := ApPc.loadEntry.inj hload
    exact G.mailbox
  | loadEntry rsp =>
    simp only [hpc, Option.some.injEq] at h
    subst h
    refine I.call howner hpc ?_
    split <;> rfl
  | setupTss =>
    simp only [hpc, Option.some.injEq] at h
    subst h
    exact I.setAp_late howner rfl
  | testIndex =>
    simp only [hpc, Option.some.injEq] at h
    subst h
    refine I.setAp_late howner ?_
    split <;> rfl
  | loadIndex =>
    simp only [hpc, Option.some.injEq] at h
    subst h
    exact I.setAp_late howner rfl
  | setReady idx =>
    simp only [hpc, Option.some.injEq] at h
    subst h
    exact I.signal howner
  | running => simp [hpc] at h
  | lost => simp [hpc] at h

/-- **Run lemma.** -/
theorem inv_of_reach (r : Reach (Initial A cfg) (step cfg) Timely s) : Inv A cfg s := by
  refine Reach.invariant (P := Inv A cfg) (fun _ h => h.inv) ?_ r
  rintro s (_ | a) s' I hok h
  · exact I.bspStep h
  · exact I.apStep hok h

end Steps

/-! ## The protocol -/

/-- The stacks of two starts are tops of live allocations without a common byte. -/
def SeparateStacks (s : State) (x y : Nat × Nat) : Prop :=
  x.2 ≠ y.2 ∧ ∃ p q, (p, apStackSize) ∈ s.heap.live ∧ (q, apStackSize) ∈ s.heap.live ∧
    x.2 = stackTop p ∧ y.2 = stackTop q ∧ Heap.Apart p apStackSize q apStackSize

/-- **Bring-up.**  In every run in which no AP goes on after the BSP has turned to
another, whatever the list of APs: no two starts are on one stack, and every AP that
the BSP counts has signalled. -/
theorem bringup_safe {A : Heap.Arena} {cfg : Config} {s : State}
    (r : Reach (Initial A cfg) (step cfg) Timely s) :
    s.starts.Pairwise (SeparateStacks s) ∧ ∀ a ∈ s.confirmed, a ∈ s.signals := by
  have I := inv_of_reach r
  refine ⟨?_, I.counted⟩
  obtain ⟨l, W⟩ := I.heap
  refine I.distinct.imp_of_mem fun {x y} hx hy hne => ⟨hne, ?_⟩
  obtain ⟨p, hp, hxp⟩ := I.started x hx
  obtain ⟨q, hq, hyq⟩ := I.started y hy
  refine ⟨p, q, hp, hq, hxp, hyq, W.apart_of_live hp hq apStackSize_le apStackSize_le ?_⟩
  rintro rfl
  exact hne (hxp.trans hyq.symm)

/-! ## Two runs -/

/-- The stacks of the fresh heap. -/
theorem kmalloc_first : ∃ p h' l',
    Heap.kmalloc (Heap.heapInit Heap.arenaAt2M fun _ => 0) apStackSize = (.ret p, h') ∧
    Heap.WorldInv Heap.arenaAt2M ⟨h', [(p, apStackSize)]⟩ l' ∧ Heap.HasRoom apStackSize 61 l' :=
  (Heap.worldInv_init (A := Heap.arenaAt2M) ⟨_, rfl⟩).kmalloc_room (by decide) (by decide)
    (Heap.hasRoom_init _)

/-- Both APs of a machine answer in time: each has a stack of its own, and both are
counted. -/
theorem bringup_safe_three_processors : ∃ s stack₁ stack₂,
    Reach (Initial Heap.arenaAt2M (processors [0, 1, 2] 0 (by decide)))
        (step (processors [0, 1, 2] 0 (by decide))) Timely s ∧
      s.starts = [(2, stack₂), (1, stack₁)] ∧ s.confirmed = [2, 1] ∧
      SeparateStacks s (2, stack₂) (1, stack₁) ∧ ∀ a ∈ s.confirmed, a ∈ s.signals := by
  obtain ⟨p, h₁, l₁, hfirst, W, room⟩ := kmalloc_first
  obtain ⟨q, h₂, l₂, hsecond, -, -⟩ := W.kmalloc_room (by decide) (by decide) room
  have hlow := processors_low [0, 1, 2] 0 (by decide)
  have hbsp : AllowsBsp Timely := fun _ => trivial
  have r₀ : Reach (Initial Heap.arenaAt2M (processors [0, 1, 2] 0 (by decide)))
      (step (processors [0, 1, 2] 0 (by decide))) Timely
      (startState Heap.arenaAt2M (processors [0, 1, 2] 0 (by decide))) :=
    .start (initial_startState _ _)
  have r₁ := reach_skip hbsp r₀ rfl (by decide) (by decide) rfl
  obtain ⟨s₁, r₂, U₁, hheap⟩ :=
    reach_broughtUp hlow hbsp (fun _ h => h) r₁ rfl (by decide) (by decide) (by decide) hfirst
  have hi : s₁.i = 2 := U₁.i
  have hstarted : s₁.started = 1 := U₁.started
  have htarget : s₁.target (processors [0, 1, 2] 0 (by decide)) = 2 := by
    unfold State.target
    rw [hi]
    rfl
  have hother : s₁.target (processors [0, 1, 2] 0 (by decide)) ≠ 0 := by
    rw [htarget]
    decide
  obtain ⟨s₂, r₃, U₂, -⟩ := reach_broughtUp hlow hbsp (fun _ h => h) r₂ U₁.pc
    (hi ▸ (by decide : 2 < 3)) (hstarted ▸ (by decide : 1 < maxApCpus)) hother (hheap ▸ hsecond)
  have hstarts : s₂.starts = [(2, stackTop q), (1, stackTop p)] := by
    rw [U₂.starts, U₁.starts, htarget]
    rfl
  have hconfirmed : s₂.confirmed = [2, 1] := by
    rw [U₂.confirmed, U₁.confirmed, htarget]
    rfl
  obtain ⟨hstacks, hsignals⟩ := bringup_safe r₃
  rw [hstarts, List.pairwise_cons] at hstacks
  exact ⟨s₂, _, _, r₃, hstarts, hconfirmed, hstacks.1 _ List.mem_cons_self, hsignals⟩

/-- The AP with ID 1 is late: it starts on the stack of the AP with ID 2, and the BSP
takes its signal for the other's. -/
theorem latecomer_takes_stack : ∃ s stack,
    Reach (Initial Heap.arenaAt2M (processors [0, 1, 2] 0 (by decide)))
      (step (processors [0, 1, 2] 0 (by decide)))
        (fun _ _ => True) s ∧
      (1, stack) ∈ s.starts ∧ (2, stack) ∈ s.starts ∧ 2 ∈ s.confirmed ∧ 2 ∉ s.signals := by
  obtain ⟨p, h₁, l₁, hfirst, W, room⟩ := kmalloc_first
  obtain ⟨q, h₂, l₂, hsecond, -, -⟩ := W.kmalloc_room (by decide) (by decide) room
  have hbsp : AllowsBsp fun _ _ => True := fun _ => trivial
  have r₀ : Reach (Initial Heap.arenaAt2M (processors [0, 1, 2] 0 (by decide)))
      (step (processors [0, 1, 2] 0 (by decide))) (fun _ _ => True)
      (startState Heap.arenaAt2M (processors [0, 1, 2] 0 (by decide))) :=
        .start (initial_startState _ _)
  have r₁ := reach_skip hbsp r₀ rfl (by decide) (by decide) rfl
  -- the BSP gives the first AP up before that has taken a step
  obtain ⟨low₁, r₂⟩ := reach_attempt hbsp r₁ rfl (by decide) (by decide) (by decide) hfirst
  have r₃ := reach_unanswered hbsp r₂ rfl rfl
  obtain ⟨low₂, r₄⟩ := reach_attempt hbsp r₃ rfl (show 2 < 3 by decide) (show 0 < 8 by decide)
    (show 2 ≠ 0 by decide) hsecond
  -- now it goes on, with the mailbox of the second
  have hfilled := filled_fillMbox (processors_low [0, 1, 2] 0 (by decide)) low₂ q
  have r₅ := reach_call (a := 1) (fun _ _ => trivial) r₄ rfl hfilled
  have r₆ := reach_signal (a := 1) (fun _ _ => trivial) r₅ rfl rfl
  have r₇ := reach_answered hbsp r₆ rfl rfl
  have r₈ := reach_call (a := 2) (fun _ _ => trivial) r₇ rfl hfilled
  exact ⟨_, stackTop q, r₈, List.mem_cons_of_mem _ List.mem_cons_self, List.mem_cons_self,
    show 2 ∈ [2] by decide, show 2 ∉ [1] by decide⟩

end NekaKernel.Smp
