/-
  Context/Stacks.lean --- who is on which stack, over whole runs.

  The invariant says where the saved stack pointers of the suspended threads can
  be, and that at most one thread, running or suspended, is on the CPU's
  `kstack0`.  From it the running code owns nothing of a suspended thread's
  frames (`Inv.not_owned`), which is what every step below uses.  The one step
  that can break it is an interrupt in ring 3, so the runs here take those only
  with `kstack0` free.
-/
import NekaKernel.Context.Machine
import NekaKernel.Sched.Exclusive

set_option autoImplicit false

namespace NekaKernel.Context

open NekaKernel.Foundation NekaKernel.Kernel NekaKernel.Sched

/-! ## The regions of memory -/

section Regions

variable {L : Layout} {c : Cpu} {t u : Tid} {x r : Nat}

theorem InStack.inTable (h : L.InStack t x) : L.InTable x := by
  have ht := t.isLt
  unfold Layout.InStack ThreadTable.stackTop ThreadTable.stackBase stackOffset stackSize64 at h
  unfold Layout.InTable maxThreads64
  unfold sizeofThread64 at *
  omega

theorem InStack.unique (ht : L.InStack t x) (hu : L.InStack u x) : t = u := by
  unfold Layout.InStack ThreadTable.stackTop ThreadTable.stackBase stackOffset stackSize64
    sizeofThread64 at ht hu
  apply Fin.ext
  omega

theorem InKstack0.not_inTable (h : L.InKstack0 c x) : ¬ L.InTable x := by
  have hapart := L.kstack0_apart
  unfold Layout.InKstack0 Layout.kstackTop Layout.kstackBase at h
  unfold Layout.InTable
  unfold maxTssCpus at *
  unfold kstack0Size at *
  omega

theorem InStack.not_inKstack0 (h : L.InStack t x) : ¬ L.InKstack0 c x :=
  fun hk => InKstack0.not_inTable hk (InStack.inTable h)

/-- `t->rsp` and `dummy_rsp[]` are on no stack. -/
theorem rspPtr_apart (prev : Option Tid) (hlo : L.rspPtr c prev ≤ x)
    (hhi : x < L.rspPtr c prev + 8) : ¬ L.InStack t x ∧ ¬ L.InKstack0 c x := by
  cases prev with
  | some p =>
    have hp := p.isLt
    have htable : L.InTable x := by
      simp only [Layout.rspPtr] at hlo hhi
      unfold Layout.InTable maxThreads64
      unfold sizeofThread64 at *
      omega
    refine ⟨?_, fun hk => InKstack0.not_inTable hk htable⟩
    simp only [Layout.rspPtr] at hlo hhi
    unfold Layout.InStack ThreadTable.stackTop ThreadTable.stackBase stackOffset stackSize64
    unfold sizeofThread64 at *
    omega
  | none =>
    have htable := L.dummyRsp_table
    have hkstack := L.dummyRsp_kstack0
    have hcpu := c.isLt
    simp only [Layout.rspPtr] at hlo hhi
    refine ⟨fun hs => ?_, fun hk => ?_⟩
    · have hin := InStack.inTable hs
      unfold Layout.InTable at hin
      omega
    · unfold Layout.InKstack0 Layout.kstackTop Layout.kstackBase at hk
      unfold maxTssCpus kstack0Size at *
      omega

theorem kstackTop_lt (hc : c.val < maxTssCpus) : L.kstackTop c < 2 ^ 64 := by
  have hrange := L.kstack0_range
  unfold Layout.kstackTop Layout.kstackBase
  unfold maxTssCpus kstack0Size at *
  omega

theorem kstackTop_aligned : L.kstackTop c % 16 = 0 := by
  have haligned := L.kstack0_aligned
  unfold Layout.kstackTop Layout.kstackBase kstack0Size
  omega

/-- A saved stack pointer of `t`, with the frame above it, is on one of the two
stacks `t` can be on. -/
def Home (L : Layout) (c : Cpu) (t : Tid) (r : Nat) : Prop :=
  (L.stackBase t ≤ r ∧ r + 64 ≤ L.stackTop t) ∨ (L.InKstack0 c r ∧ r + 64 ≤ L.kstackTop c)

theorem Home.frame_le (h : Home L c t r) : r + 64 ≤ frameTop L c t r := by
  unfold frameTop
  rcases h with hown | hk
  · have hnot : ¬ L.InKstack0 c r := InStack.not_inKstack0 (t := t) ⟨hown.1, by omega⟩
    rw [if_neg hnot]
    exact hown.2
  · rw [if_pos hk.1]
    exact hk.2

theorem Home.lt (h : Home L c t r) : r + 64 < 2 ^ 64 := by
  rcases h with hown | hk
  · exact Nat.lt_of_le_of_lt hown.2 stackTop_lt
  · exact Nat.lt_of_le_of_lt hk.2 (kstackTop_lt hk.1.1)

/-- What lies between a saved stack pointer and the top of its stack. -/
theorem Home.region (h : Home L c t r) (hlo : r ≤ x) (hhi : x < frameTop L c t r) :
    L.InStack t x ∨ (L.InKstack0 c r ∧ L.InKstack0 c x) := by
  unfold frameTop at hhi
  rcases h with hown | hk
  · have hnot : ¬ L.InKstack0 c r := InStack.not_inKstack0 (t := t) ⟨hown.1, by omega⟩
    rw [if_neg hnot] at hhi
    exact Or.inl ⟨by omega, hhi⟩
  · rw [if_pos hk.1] at hhi
    exact Or.inr ⟨hk.1, hk.1.1, Nat.le_trans hk.1.2.1 hlo, hhi⟩

end Regions

/-! ## The invariant -/

/-- Where the threads are. -/
structure Inv (L : Layout) (c : Cpu) (m : Machine) : Prop where
  wf : Wf m.sched
  rsp0 : c.val < maxTssCpus → (m.rsp0 c).toNat = L.kstackTop c
  running : ∀ t, m.sched.current c = some t → t.val < m.sched.threadCount
  home : ∀ t, Suspended c m t → Home L c t (m.sched.threads t).rsp
  intact : FramesIntact L c m
  alone : ∀ t u, Suspended c m t → Suspended c m u → L.InKstack0 c (m.sched.threads t).rsp →
    L.InKstack0 c (m.sched.threads u).rsp → t = u
  free : m.onKstack0 = true → ∀ t, Suspended c m t → ¬ L.InKstack0 c (m.sched.threads t).rsp

/-- The address is in the frames of a suspended thread. -/
def Framed (L : Layout) (c : Cpu) (m : Machine) (x : Nat) : Prop :=
  ∃ t, Suspended c m t ∧ (m.sched.threads t).rsp ≤ x ∧
    x < frameTop L c t (m.sched.threads t).rsp

/-- `m'` has the threads of `m`, each as it was suspended. -/
structure SameThreads (c : Cpu) (m m' : Machine) : Prop where
  threadCount : m'.sched.threadCount = m.sched.threadCount
  current : m'.sched.current c = m.sched.current c
  rsp : ∀ t, (m'.sched.threads t).rsp = (m.sched.threads t).rsp
  rsp0 : m'.rsp0 = m.rsp0
  image : m'.image = m.image

section Steps

variable {L : Layout} {c : Cpu} {m m' : Machine}

theorem Inv.region (I : Inv L c m) {t : Tid} {x : Nat}
    (hs : Suspended c m t) (hlo : (m.sched.threads t).rsp ≤ x)
    (hhi : x < frameTop L c t (m.sched.threads t).rsp) :
    L.InStack t x ∨ (L.InKstack0 c (m.sched.threads t).rsp ∧ L.InKstack0 c x) :=
  (I.home t hs).region hlo hhi

/-- **Ownership.**  The running code owns nothing of a suspended thread's
frames. -/
theorem Inv.not_owned (I : Inv L c m) {x : Nat} (hx : Framed L c m x) :
    ¬ Owns L c m x := by
  obtain ⟨t, hs, hlo, hhi⟩ := hx
  rcases I.region hs hlo hhi with hstack | ⟨hrsp, hk⟩
  · rintro (⟨u, hcur, hown⟩ | ⟨_, hk⟩ | ⟨hout, _⟩)
    · rw [InStack.unique hown hstack] at hcur
      exact hs.2 hcur
    · exact InStack.not_inKstack0 hstack hk
    · exact hout (InStack.inTable hstack)
  · rintro (⟨u, _, hown⟩ | ⟨hon, _⟩ | ⟨_, hout⟩)
    · exact InStack.not_inKstack0 hown hk
    · exact I.free hon t hs hrsp
    · exact hout hk

theorem SameThreads.suspended (h : SameThreads c m m') {t : Tid} (hs : Suspended c m' t) :
    Suspended c m t := by
  unfold Suspended at hs
  rw [h.threadCount, h.current] at hs
  exact hs

/-- **The frame rule.**  A step that leaves the threads and their frames alone
keeps the invariant. -/
theorem Inv.frame (I : Inv L c m) (hwf : Wf m'.sched) (hsame : SameThreads c m m')
    (hmem : ∀ x, Framed L c m x → m'.cpu.mem x = m.cpu.mem x)
    (hfree : m'.onKstack0 = true →
      ∀ t, Suspended c m t → ¬ L.InKstack0 c (m.sched.threads t).rsp) :
    Inv L c m' := by
  refine ⟨hwf, ?_, ?_, ?_, ?_, ?_, ?_⟩
  · rw [hsame.rsp0]
    exact I.rsp0
  · rw [hsame.current, hsame.threadCount]
    exact I.running
  · intro t hs
    rw [hsame.rsp]
    exact I.home t (hsame.suspended hs)
  · intro t hs x hlo hhi
    rw [hsame.rsp] at hlo hhi
    rw [hsame.image, hmem x ⟨t, hsame.suspended hs, hlo, hhi⟩]
    exact I.intact t (hsame.suspended hs) x hlo hhi
  · intro t u ht hu
    rw [hsame.rsp, hsame.rsp]
    exact I.alone t u (hsame.suspended ht) (hsame.suspended hu)
  · intro hon t hs
    rw [hsame.rsp]
    exact hfree hon t (hsame.suspended hs)

/-! ## Steps without a switch -/

theorem Inv.run (I : Inv L c m) {code : State → State}
    (hconf : Confined L c m (.run code)) : Inv L c { m with cpu := code m.cpu } :=
  I.frame I.wf ⟨rfl, rfl, fun _ => rfl, rfl, rfl⟩ (fun x hx => hconf x (I.not_owned hx)) I.free

/-- Pushes onto what is owned change nothing else. -/
theorem pushWords_of_not_owned {sp : Nat} {vs : List UInt64} {mem : Mem} {x : Nat}
    (hroom : 8 * vs.length ≤ sp) (howns : ∀ y, sp - 8 * vs.length ≤ y → y < sp → Owns L c m y)
    (hx : ¬ Owns L c m x) : mem.pushWords sp vs x = mem x := by
  have hout : x + 1 ≤ sp - 8 * vs.length ∨ sp ≤ x := by
    by_contra hin
    exact hx (howns x (by omega) (by omega))
  exact Mem.agree_pushWords hout hroom x (Nat.le_refl x) (Nat.lt_succ_self x)

theorem Inv.enterUsermode (I : Inv L c m)
    (hconf : Confined L c m .enterUsermode) :
    Inv L c { m with cpu := exec m.cpu enterUsermode, onKstack0 := false } := by
  refine I.frame I.wf ⟨rfl, rfl, fun _ => rfl, rfl, rfl⟩ (fun x hx => ?_) (fun h => by cases h)
  obtain ⟨hroom, howns⟩ := hconf
  let words : List UInt64 := [0x23, m.cpu.regs .rsi, 0x202, 0x1B, m.cpu.regs .rdi]
  have hlen : 8 * words.length ≤ m.cpu.rsp.toNat := hroom
  -- `iretq` reads memory only, so the change is that of the five pushes
  have hmem : (exec m.cpu Context.enterUsermode).mem = (m.cpu.pushes words).mem := rfl
  dsimp only
  rw [hmem, State.pushes_mem hlen]
  exact pushWords_of_not_owned hlen howns (I.not_owned hx)

theorem Inv.isrReturn (I : Inv L c m) :
    Inv L c { m with
      cpu := exec m.cpu isrCommonStubReturn
      onKstack0 := m.onKstack0 && (exec m.cpu isrCommonStubReturn).cpl != 3 } := by
  refine I.frame I.wf ⟨rfl, rfl, fun _ => rfl, rfl, rfl⟩ (fun _ _ => rfl) (fun hon => ?_)
  rw [Bool.and_eq_true] at hon
  exact I.free hon.1

/-- An interrupt in ring 3 that finds `kstack0` free takes it over. -/
theorem Inv.interrupt (I : Inv L c m) (hc : c.val < maxTssCpus) {vector errorCode : UInt64}
    (hfree : KstackFree L c m (.interrupt vector errorCode)) :
    Inv L c { m with
      cpu := interruptEntry L.symbols (m.rsp0 c) vector errorCode m.cpu
      onKstack0 := true } := by
  refine I.frame I.wf ⟨rfl, rfl, fun _ => rfl, rfl, rfl⟩ ?_ (fun _ => hfree)
  rintro x ⟨t, hs, hlo, hhi⟩
  have hbase : L.kstackTop c = L.kstackBase c + 8192 := rfl
  have hrsp0 := I.rsp0 hc
  have haligned : (m.rsp0 c).toNat % 16 = 0 := hrsp0 ▸ kstackTop_aligned
  -- the frames of `t` are on its own stack, and the interrupt writes to `kstack0`
  have hstack : L.InStack t x := by
    rcases I.region hs hlo hhi with hstack | ⟨hk, _⟩
    · exact hstack
    · exact absurd hk (hfree t hs)
  have hout : ¬ L.InKstack0 c x := InStack.not_inKstack0 hstack
  have hlen : (interruptWords L.symbols vector errorCode m.cpu).length = 23 := rfl
  dsimp only
  rw [interruptEntry_mem _ _ _ _ haligned (by omega)]
  have hbelow : x + 1 ≤ (m.rsp0 c).toNat -
      8 * (interruptWords L.symbols vector errorCode m.cpu).length ∨ (m.rsp0 c).toNat ≤ x := by
    unfold Layout.InKstack0 at hout
    omega
  exact Mem.agree_pushWords hbelow (by omega) x (Nat.le_refl x) (Nat.lt_succ_self x)

/-! ## Creation -/

/-- A new thread has its forged stack pointer, the others keep theirs. -/
theorem create_rsp {L : ThreadTable} {s s' : Scheduler64} {priority cr3 : Nat} {t : Tid}
    (h : sched64CreateThread L s priority cr3 = (.ret (some t), s')) :
    t.val = s.threadCount ∧ s'.threadCount = s.threadCount + 1 ∧ s'.current = s.current ∧
    (s'.threads t).rsp = L.stackTop t - 80 ∧
    ∀ u, u ≠ t → (s'.threads u).rsp = (s.threads u).rsp := by
  rcases sched64CreateThread_cases h with
    ⟨hr, _⟩ | ⟨t', hr, ht, _, hcount, _, hcur, hring⟩
  · cases hr
  cases hr
  refine ⟨ht, hcount, hcur, ?_⟩
  rcases hring with ⟨_, _, hthreads⟩ | ⟨head, tail, _, _, _, hthreads⟩
  · rw [hthreads]
    refine ⟨by rw [Function.update_self]; rfl, fun u hu => ?_⟩
    rw [Function.update_of_ne hu]
  · rw [hthreads]
    refine ⟨by rw [Function.update_self]; rfl, fun u hu => ?_⟩
    rw [Function.update_of_ne hu]
    by_cases htail : u = tail
    · subst htail
      rw [Function.update_self]
    · rw [Function.update_of_ne htail]

/-- The frame of a new thread is on its own stack, where nothing else is. -/
theorem createFrame_framed (I : Inv L c m) {t : Tid} {x : Nat}
    (start entry : UInt64) (hnew : ¬ Suspended c m t) (hx : Framed L c m x) :
    createFrame L.toThreadTable start m.cpu.mem t entry x = m.cpu.mem x := by
  obtain ⟨u, hs, hlo, hhi⟩ := hx
  have htop := stackTop_eq (L := L.toThreadTable) (t := t)
  have hnot : ¬ L.InStack t x := by
    intro hin
    rcases I.region hs hlo hhi with hstack | ⟨_, hk⟩
    · exact hnew (InStack.unique hin hstack ▸ hs)
    · exact InStack.not_inKstack0 hin hk
  have hout : x + 1 ≤ L.stackTop t - 80 ∨ L.stackTop t - 8 ≤ x := by
    unfold Layout.InStack at hnot
    omega
  exact agree_createFrame hout x (Nat.le_refl x) (Nat.lt_succ_self x)

/-- Once created, a thread is suspended; the others are as before. -/
theorem Inv.suspended_created (I : Inv L c m) {sched : Scheduler64} {t u : Tid} {entry : UInt64}
    (ht : t.val = m.sched.threadCount) (hcount : sched.threadCount = m.sched.threadCount + 1)
    (hcur : sched.current = m.sched.current) :
    Suspended c (created L m sched t entry) u ↔ u = t ∨ Suspended c m u := by
  have hdef : Suspended c (created L m sched t entry) u ↔
      u.val < m.sched.threadCount + 1 ∧ m.sched.current c ≠ some u := by
    unfold Suspended created
    dsimp only
    rw [hcount, hcur]
  rw [hdef]
  constructor
  · rintro ⟨hlt, hne⟩
    rcases Nat.lt_or_eq_of_le (Nat.le_of_lt_succ hlt) with hold | hnew
    · exact Or.inr ⟨hold, hne⟩
    · exact Or.inl (Fin.ext (hnew.trans ht.symm))
  · rintro (rfl | ⟨hlt, hne⟩)
    · refine ⟨by omega, fun hrun => ?_⟩
      have := I.running u hrun
      omega
    · exact ⟨by omega, hne⟩

theorem Inv.create (I : Inv L c m) {sched : Scheduler64} {t : Tid}
    {priority cr3 : Nat} (entry : UInt64)
    (h : sched64CreateThread L.toThreadTable m.sched priority cr3 = (.ret (some t), sched)) :
    Inv L c (created L m sched t entry) := by
  obtain ⟨ht, hcount, hcur, hrsp, hothers⟩ := create_rsp h
  have htop := stackTop_eq (L := L.toThreadTable) (t := t)
  have hiff : ∀ u, Suspended c (created L m sched t entry) u ↔ u = t ∨ Suspended c m u :=
    fun u => I.suspended_created ht hcount hcur
  have hnew : ¬ Suspended c m t := fun hs => by
    have := hs.1
    omega
  have hne : ∀ u, Suspended c m u → u ≠ t := fun u hs heq => hnew (heq ▸ hs)
  have hstack : L.InStack t (sched.threads t).rsp := by
    rw [hrsp]
    unfold Layout.InStack
    omega
  have hoff : ¬ L.InKstack0 c (sched.threads t).rsp := InStack.not_inKstack0 hstack
  refine ⟨I.wf.create h, I.rsp0, ?_, ?_, ?_, ?_, ?_⟩
  · intro u hu
    have hlt : u.val < m.sched.threadCount := I.running u (by rw [← hcur]; exact hu)
    change u.val < sched.threadCount
    omega
  · intro u hs
    change Home L c u (sched.threads u).rsp
    rcases (hiff u).mp hs with rfl | hold
    · exact Or.inl ⟨hstack.1, by omega⟩
    · rw [hothers u (hne u hold)]
      exact I.home u hold
  · intro u hs
    rcases (hiff u).mp hs with rfl | hold
    · have himage : (created L m sched u entry).image u = (created L m sched u entry).cpu.mem :=
        Function.update_self ..
      rw [himage]
      exact Mem.Agree.refl _ _ _
    · have himage : (created L m sched t entry).image u = m.image u :=
        Function.update_of_ne (hne u hold) ..
      intro x hlo hhi
      change (sched.threads u).rsp ≤ x at hlo
      change x < frameTop L c u (sched.threads u).rsp at hhi
      rw [hothers u (hne u hold)] at hlo hhi
      rw [himage, ← I.intact u hold x hlo hhi]
      exact createFrame_framed I _ _ hnew ⟨u, hold, hlo, hhi⟩
  · intro u v hu hv hku hkv
    change L.InKstack0 c (sched.threads u).rsp at hku
    change L.InKstack0 c (sched.threads v).rsp at hkv
    rcases (hiff u).mp hu with rfl | hu
    · exact absurd hku hoff
    rcases (hiff v).mp hv with rfl | hv
    · exact absurd hkv hoff
    rw [hothers u (hne u hu)] at hku
    rw [hothers v (hne v hv)] at hkv
    exact I.alone u v hu hv hku hkv
  · intro hon u hs
    change ¬ L.InKstack0 c (sched.threads u).rsp
    rcases (hiff u).mp hs with rfl | hold
    · exact hoff
    · rw [hothers u (hne u hold)]
      exact I.free hon u hold

/-! ## Switches -/

theorem rspPtr_lt (prev : Option Tid) : L.rspPtr c prev < 2 ^ 64 := by
  cases prev with
  | some p =>
    have hle : p * sizeofThread64 ≤ maxThreads64 * sizeofThread64 :=
      Nat.mul_le_mul_right sizeofThread64 (Nat.le_of_lt p.isLt)
    exact Nat.lt_of_le_of_lt (Nat.add_le_add_left hle _) L.in_range
  | none =>
    have hrange := L.dummyRsp_range
    have hcpu := c.isLt
    simp only [Layout.rspPtr]
    omega

/-- What `context_switch64` does to memory, its arguments being what the C code
passes. -/
theorem switchStacks_mem (prev : Option Tid) (next : Tid) (hroom : 56 ≤ m.cpu.rsp.toNat) :
    ∃ sp : UInt64, sp.toNat = m.cpu.rsp.toNat - 56 ∧ (switchStacks L c m prev next).mem =
      (m.cpu.mem.pushWords m.cpu.rsp.toNat m.cpu.savedWords).setWord (L.rspPtr c prev) sp := by
  let args := (m.cpu.setReg .rdi (UInt64.ofNat (L.rspPtr c prev))).setReg .rsi
    (UInt64.ofNat (m.sched.threads next).rsp)
  have hargs : 56 ≤ args.rsp.toNat := hroom
  have hwords : args.savedWords = m.cpu.savedWords := rfl
  have hrdi : (args.regs .rdi).toNat = L.rspPtr c prev := by
    have hptr : args.regs .rdi = UInt64.ofNat (L.rspPtr c prev) := rfl
    rw [hptr]
    exact UInt64.toNat_ofNat_of_lt' (rspPtr_lt prev)
  refine ⟨(args.pushes args.savedWords).rsp, State.pushes_rsp (savedWords_room hargs), ?_⟩
  have hswitch : switchStacks L c m prev next = exec args.exchange switchIn :=
    exec_contextSwitch64
  rw [hswitch, switchIn_mem, exchange_mem hargs, hrdi, hwords]
  rfl

theorem SwitchRoom.owns (h : SwitchRoom L c m) : 56 ≤ m.cpu.rsp.toNat ∧
    ∀ x, m.cpu.rsp.toNat - 56 ≤ x → x < m.cpu.rsp.toNat → Owns L c m x := by
  unfold SwitchRoom at h
  cases hcur : m.sched.current c with
  | none =>
    rw [hcur] at h
    exact h
  | some t =>
    rw [hcur] at h
    rcases h with ⟨hlo, hhi⟩ | ⟨hon, h56, hk, hhi⟩
    · refine ⟨by omega, fun x hxlo hxhi => Or.inl ⟨t, hcur, ?_, ?_⟩⟩ <;> omega
    · exact ⟨h56, fun x hxlo hxhi =>
        Or.inr (Or.inl ⟨hon, hk.1, Nat.le_trans hk.2.1 hxlo, by omega⟩)⟩

/-- Where the thread that leaves has its frame. -/
theorem SwitchRoom.home {p : Tid} (h : SwitchRoom L c m) (hcur : m.sched.current c = some p) :
    Home L c p (m.cpu.rsp.toNat - 56) := by
  unfold SwitchRoom at h
  rw [hcur] at h
  rcases h with ⟨hlo, hhi⟩ | ⟨_, h56, hk, hhi⟩
  · exact Or.inl ⟨by omega, by omega⟩
  · exact Or.inr ⟨hk, by omega⟩

theorem SwitchRoom.on_kstack0 {p : Tid} (h : SwitchRoom L c m)
    (hcur : m.sched.current c = some p) (hk : L.InKstack0 c (m.cpu.rsp.toNat - 56)) :
    m.onKstack0 = true := by
  unfold SwitchRoom at h
  rw [hcur] at h
  rcases h with ⟨hlo, hhi⟩ | ⟨hon, _, _⟩
  · exact absurd hk (InStack.not_inKstack0 (t := p) ⟨by omega, by omega⟩)
  · exact hon

/-- What a switch to `next` does. -/
structure Switched (L : Layout) (c : Cpu) (m m' : Machine) (next : Tid) : Prop where
  wf : Wf m'.sched
  threadCount : m'.sched.threadCount = m.sched.threadCount
  current : m'.sched.current c = some next
  rsp0 : m'.rsp0 = m.rsp0
  entry : m'.entry = m.entry
  onKstack0 : m'.onKstack0 = decide (L.InKstack0 c (m.sched.threads next).rsp)
  next_lt : next.val < m.sched.threadCount
  next_ne : m.sched.current c ≠ some next
  cpu : ∃ s', sched64Reschedule m.sched c = (s', .switch (m.sched.current c) next) ∧
    m'.cpu = switchStacks L c { m with sched := s' } (m.sched.current c) next
  stays : ∀ t, m.sched.current c ≠ some t →
    (m'.sched.threads t).rsp = (m.sched.threads t).rsp ∧ m'.saved t = m.saved t ∧
      m'.image t = m.image t
  leaves : ∀ p, m.sched.current c = some p →
    (m'.sched.threads p).rsp = m.cpu.rsp.toNat - 56 ∧
      m'.saved p = some m.cpu.callerContext ∧ m'.image p = m'.cpu.mem

section Fields

variable (L : Layout) (c : Cpu) (m : Machine) (prev : Option Tid) (next p : Tid)

theorem switchTo_cpu : (switchTo L c m prev next).cpu = switchStacks L c m prev next := by
  cases prev <;> rfl

theorem switchTo_rsp0 : (switchTo L c m prev next).rsp0 = m.rsp0 := by
  cases prev <;> rfl

theorem switchTo_entry : (switchTo L c m prev next).entry = m.entry := by
  cases prev <;> rfl

theorem switchTo_onKstack0 : (switchTo L c m prev next).onKstack0 =
    decide (L.InKstack0 c (m.sched.threads next).rsp) := by
  cases prev <;> rfl

theorem switchTo_sched_some : (switchTo L c m (some p) next).sched = m.sched.modify p fun th =>
    { th with
      rsp := ((switchStacks L c m (some p) next).mem.word (L.rspPtr c (some p))).toNat } :=
  rfl

theorem switchTo_saved_some : (switchTo L c m (some p) next).saved =
    Function.update m.saved p (some m.cpu.callerContext) :=
  rfl

theorem switchTo_image_some : (switchTo L c m (some p) next).image =
    Function.update m.image p (switchStacks L c m (some p) next).mem :=
  rfl

end Fields

theorem Inv.switched (I : Inv L c m) (hroom : SwitchRoom L c m) {s' : Scheduler64}
    {prev : Option Tid} {next : Tid}
    (h : sched64Reschedule m.sched c = (s', .switch prev next)) :
    Switched L c m (switchTo L c { m with sched := s' } prev next) next := by
  obtain ⟨hprev, hne, hlt, hcur, hcount⟩ := sched64Reschedule_switch I.wf h
  obtain ⟨hwf, hrsp⟩ := I.wf.picked h
  have hcurrent : s'.current c = some next := by
    rw [hcur, Function.update_self]
  have honk : (switchTo L c { m with sched := s' } prev next).onKstack0 =
      decide (L.InKstack0 c (m.sched.threads next).rsp) := by
    rw [switchTo_onKstack0, hrsp]
  have hcpu : ∃ s'', sched64Reschedule m.sched c = (s'', .switch (m.sched.current c) next) ∧
      (switchTo L c { m with sched := s' } prev next).cpu =
        switchStacks L c { m with sched := s'' } (m.sched.current c) next :=
    ⟨s', hprev ▸ h, by rw [switchTo_cpu, hprev]⟩
  cases prev with
  | none =>
    refine ⟨hwf, hcount, hcurrent, switchTo_rsp0 .., switchTo_entry .., honk, hlt,
      hne.symm, hcpu, fun t _ => ⟨hrsp t, rfl, rfl⟩, fun p hp => ?_⟩
    rw [← hprev] at hp
    cases hp
  | some p =>
    obtain ⟨sp, hsp, hmem⟩ := switchStacks_mem (L := L) (c := c) (m := { m with sched := s' })
      (some p) next hroom.owns.1
    refine ⟨?_, hcount, hcurrent, switchTo_rsp0 .., switchTo_entry .., honk, hlt,
      hne.symm, hcpu, fun t ht => ?_, fun q hq => ?_⟩
    · rw [switchTo_sched_some]
      exact hwf.congr (sameQueues_modify _ fun _ => rfl)
    · have htp : t ≠ p := fun heq => ht (by rw [← hprev, heq])
      rw [switchTo_sched_some, switchTo_saved_some, switchTo_image_some,
        Function.update_of_ne htp, Function.update_of_ne htp]
      refine ⟨?_, rfl, rfl⟩
      rw [← hrsp t]
      exact congrArg Thread64.rsp (Function.update_of_ne htp ..)
    · rw [← hprev, Option.some.injEq] at hq
      subst hq
      rw [switchTo_sched_some, switchTo_saved_some, switchTo_image_some, switchTo_cpu,
        Function.update_self, Function.update_self]
      refine ⟨?_, rfl, rfl⟩
      rw [← hsp, hmem, Mem.word_setWord]
      simp only [Scheduler64.modify, Function.update_self]

/-- A switch leaves the frames of the suspended threads alone. -/
theorem Switched.framed {next : Tid} (S : Switched L c m m' next)
    (I : Inv L c m) (hroom : SwitchRoom L c m) {x : Nat} (hx : Framed L c m x) :
    m'.cpu.mem x = m.cpu.mem x := by
  obtain ⟨h56, howns⟩ := hroom.owns
  obtain ⟨s', _, hcpu⟩ := S.cpu
  obtain ⟨sp, _, hmem⟩ := switchStacks_mem (L := L) (c := c) (m := { m with sched := s' })
    (m.sched.current c) next h56
  have hptr : x + 1 ≤ L.rspPtr c (m.sched.current c) ∨
      L.rspPtr c (m.sched.current c) + 8 ≤ x := by
    by_contra hin
    obtain ⟨t, hs, hlo, hhi⟩ := hx
    obtain ⟨hstack, hk⟩ := rspPtr_apart (L := L) (c := c) (t := t) (x := x) (m.sched.current c)
      (by omega) (by omega)
    rcases I.region hs hlo hhi with hin | ⟨_, hin⟩
    · exact hstack hin
    · exact hk hin
  rw [hcpu, hmem, Mem.agree_setWord hptr x (Nat.le_refl x) (Nat.lt_succ_self x)]
  exact pushWords_of_not_owned (savedWords_room h56) howns (I.not_owned hx)

/-- Who is suspended after a switch: the thread that left, if there was one, and
all that were suspended but `next`. -/
theorem Switched.suspended {next t : Tid} (S : Switched L c m m' next) (hs : Suspended c m' t) :
    t ≠ next ∧ (m.sched.current c = some t ∨ Suspended c m t) := by
  unfold Suspended at hs
  rw [S.threadCount, S.current] at hs
  refine ⟨fun heq => hs.2 (by rw [heq]), ?_⟩
  by_cases hcur : m.sched.current c = some t
  · exact Or.inl hcur
  · exact Or.inr ⟨hs.1, hcur⟩

theorem Inv.switch (I : Inv L c m) (hroom : SwitchRoom L c m) {next : Tid}
    (S : Switched L c m m' next) : Inv L c m' := by
  have hnext : Suspended c m next := ⟨S.next_lt, S.next_ne⟩
  refine ⟨S.wf, ?_, ?_, ?_, ?_, ?_, ?_⟩
  · rw [S.rsp0]
    exact I.rsp0
  · intro t ht
    rw [S.current, Option.some.injEq] at ht
    rw [S.threadCount, ← ht]
    exact S.next_lt
  · intro t hs
    rcases (S.suspended hs).2 with hcur | hold
    · rw [(S.leaves t hcur).1]
      exact hroom.home hcur
    · rw [(S.stays t hold.2).1]
      exact I.home t hold
  · intro t hs
    rcases (S.suspended hs).2 with hcur | hold
    · rw [(S.leaves t hcur).2.2]
      exact Mem.Agree.refl _ _ _
    · intro x hlo hhi
      rw [(S.stays t hold.2).1] at hlo hhi
      rw [(S.stays t hold.2).2.2, S.framed I hroom ⟨t, hold, hlo, hhi⟩]
      exact I.intact t hold x hlo hhi
  · intro t u ht hu hkt hku
    -- the thread that leaves `kstack0` finds it free of every other one
    have hleft : ∀ p, m.sched.current c = some p → L.InKstack0 c (m'.sched.threads p).rsp →
        m.onKstack0 = true := by
      intro p hcur hk
      rw [(S.leaves p hcur).1] at hk
      exact hroom.on_kstack0 hcur hk
    rcases (S.suspended ht).2 with hcurt | holdt
    · rcases (S.suspended hu).2 with hcuru | holdu
      · exact Option.some.inj (hcurt.symm.trans hcuru)
      · rw [(S.stays u holdu.2).1] at hku
        exact absurd hku (I.free (hleft t hcurt hkt) u holdu)
    · rw [(S.stays t holdt.2).1] at hkt
      rcases (S.suspended hu).2 with hcuru | holdu
      · exact absurd hkt (I.free (hleft u hcuru hku) t holdt)
      · rw [(S.stays u holdu.2).1] at hku
        exact I.alone t u holdt holdu hkt hku
  · intro hon t hs hk
    rw [S.onKstack0, decide_eq_true_eq] at hon
    rcases (S.suspended hs).2 with hcur | hold
    · rw [(S.leaves t hcur).1] at hk
      exact I.free (hroom.on_kstack0 hcur hk) next hnext hon
    · rw [(S.stays t hold.2).1] at hk
      exact (S.suspended hs).1 (I.alone t next hold hnext hk hon)

/-! ## Runs -/

/-- What a step that is neither a creation nor a switch leaves alone, besides the
threads: the contexts they were suspended with and their entry functions. -/
structure Quiet (c : Cpu) (m m' : Machine) : Prop extends SameThreads c m m' where
  saved : m'.saved = m.saved
  entry : m'.entry = m.entry

/-- The steps of the machine. -/
theorem step_cases {a : Act} (I : Inv L c m) (hconf : Confined L c m a)
    (hfree : KstackFree L c m a) (h : step L c m a = some m') :
    (Inv L c m' ∧ Quiet c m m') ∨
    (∃ entry priority cr3 t sched, a = .create entry priority cr3 ∧
      sched64CreateThread L.toThreadTable m.sched priority cr3 = (.ret (some t), sched) ∧
      m' = created L m sched t entry) ∨
    (∃ next, a = .reschedule ∧ SwitchRoom L c m ∧ Switched L c m m' next) := by
  cases a with
  | create entry priority cr3 =>
    rw [step] at h
    split at h
    · rename_i t sched hret
      cases h
      exact Or.inr (Or.inl ⟨entry, priority, cr3, t, sched, rfl, hret, rfl⟩)
    · rename_i sched hret
      cases h
      rcases sched64CreateThread_cases hret with ⟨_, rfl, _⟩ | ⟨_, hr, _⟩
      · exact Or.inl ⟨I, ⟨⟨rfl, rfl, fun _ => rfl, rfl, rfl⟩, rfl, rfl⟩⟩
      · cases hr
    · cases h
  | run code =>
    cases h
    exact Or.inl ⟨I.run hconf, ⟨⟨rfl, rfl, fun _ => rfl, rfl, rfl⟩, rfl, rfl⟩⟩
  | enterUsermode =>
    rw [step] at h
    split at h
    · cases h
      exact Or.inl ⟨I.enterUsermode hconf, ⟨⟨rfl, rfl, fun _ => rfl, rfl, rfl⟩, rfl, rfl⟩⟩
    · cases h
  | interrupt vector errorCode =>
    rw [step] at h
    split at h
    · rename_i hring
      cases h
      exact Or.inl ⟨I.interrupt hring.2 hfree, ⟨⟨rfl, rfl, fun _ => rfl, rfl, rfl⟩, rfl, rfl⟩⟩
    · cases h
  | isrReturn =>
    rw [step] at h
    split at h
    · cases h
      exact Or.inl ⟨I.isrReturn, ⟨⟨rfl, rfl, fun _ => rfl, rfl, rfl⟩, rfl, rfl⟩⟩
    · cases h
  | reschedule =>
    rw [step] at h
    split at h
    · split at h
      · rename_i sched prev next hres
        cases h
        have hroom : SwitchRoom L c m := hconf prev next (by rw [hres])
        exact Or.inr (Or.inr ⟨next, rfl, hroom, I.switched hroom hres⟩)
      · cases h
      · rename_i sched out hswitch _ hres
        cases h
        obtain ⟨hcur, hcount⟩ := sched64Reschedule_stay I.wf hres hswitch
        obtain ⟨hwf, hrsp⟩ := I.wf.picked hres
        have hsame : SameThreads c m { m with sched := sched } :=
          ⟨hcount, by rw [hcur], hrsp, rfl, rfl⟩
        exact Or.inl ⟨I.frame hwf hsame (fun _ _ => rfl) I.free, ⟨hsame, rfl, rfl⟩⟩
    · cases h

/-- The invariant holds when no thread has been created yet. -/
theorem inv_of_boot (h : Boot L c m) : Inv L c m := by
  obtain ⟨s, hsched⟩ := h.sched
  obtain ⟨rsp0, hrsp0⟩ := h.rsp0
  have hcount : m.sched.threadCount = 0 := by rw [hsched]; rfl
  have hcurrent : m.sched.current c = none := by rw [hsched]; rfl
  have hnone : ∀ t, ¬ Suspended c m t := fun t hs => by
    have := hs.1
    omega
  refine ⟨?_, ?_, ?_, ?_, ?_, ?_, ?_⟩
  · rw [hsched]
    exact wf_sched64Init s
  · intro hc
    have hset : gdtSetupCpuTss L rsp0 c.val c = UInt64.ofNat (L.kstackTop c) := by
      unfold gdtSetupCpuTss
      rw [if_neg (by omega), Int.toNat_natCast, Function.update_self]
    rw [hrsp0, hset]
    exact UInt64.toNat_ofNat_of_lt' (kstackTop_lt hc)
  · intro t ht
    rw [hcurrent] at ht
    cases ht
  · exact fun t hs => absurd hs (hnone t)
  · exact fun t hs => absurd hs (hnone t)
  · exact fun t _ hs => absurd hs (hnone t)
  · exact fun _ t hs => absurd hs (hnone t)

theorem inv_step {a : Act} (I : Inv L c m)
    (hok : Confined L c m a ∧ KstackFree L c m a) (h : step L c m a = some m') :
    Inv L c m' := by
  rcases step_cases I hok.1 hok.2 h with
    ⟨I', _⟩ | ⟨entry, _, _, t, sched, _, hret, rfl⟩ | ⟨next, _, hroom, S⟩
  · exact I'
  · exact I.create entry hret
  · exact I.switch hroom S

end Steps

/-! ## The boot processor

Where the runs that `Ring3.lean` and `Preserve.lean` follow step by step begin. -/

/-- A place for the stacks. -/
def stacksAt3M : Layout where
  toThreadTable := tableAt3M
  kstack0 := 0x240000
  kstack0_aligned := by decide
  kstack0_range := by decide
  kstack0_apart := by decide
  dummyRsp := 0x100000
  dummyRsp_range := by decide
  dummyRsp_table := by decide
  dummyRsp_kstack0 := by decide
  symbols := ⟨0x101000, 0x101100, 0x101005, 0x101200, 0x101305⟩

/-- The boot processor in `kernel_main64`, before any thread is created. -/
def bootMachine : Machine where
  sched := sched64Init zeroStatics
  cpu := ⟨fun _ => 0, 0x202, 0x180000, 0x104000, 0x08, 0x10, fun _ => 0⟩
  rsp0 := gdtSetupCpuTss stacksAt3M (fun _ => 0) 0
  onKstack0 := false
  entry := fun _ => 0
  saved := fun _ => none
  image := fun _ _ => 0

theorem boot_bootMachine : Boot stacksAt3M 0 bootMachine :=
  ⟨⟨zeroStatics, rfl⟩, ⟨fun _ => 0, rfl⟩, rfl⟩

/-- What the steps of a run depend on. -/
def Machine.view (m : Machine) : Option Tid × Nat × Bool :=
  (m.sched.current bsp, m.cpu.rsp.toNat, m.onKstack0)

/-- The view of a state that a run reaches, read off the run. -/
theorem view_of_exec {acts : List Act} {m : Machine} {v : Option Tid × Nat × Bool}
    (hm : Foundation.exec (step stacksAt3M 0) bootMachine acts = some m)
    (h : (Foundation.exec (step stacksAt3M 0) bootMachine acts).map Machine.view = some v) :
    m.view = v := by
  rw [hm] at h
  exact Option.some.inj h

/-- The boot context has its stack apart from the kernel's others. -/
theorem switchRoom_boot {m : Machine} {rsp : Nat} {on : Bool} (hview : m.view = (none, rsp, on))
    (hlo : 0x110000 ≤ rsp) (hhi : rsp < 0x240000) : SwitchRoom stacksAt3M 0 m := by
  have hcur : m.sched.current 0 = none := congrArg Prod.fst hview
  have hrsp : m.cpu.rsp.toNat = rsp := congrArg (fun v => v.2.1) hview
  unfold SwitchRoom
  rw [hcur]
  refine ⟨by omega, fun x hxlo hxhi => Or.inr (Or.inr ⟨fun htable => ?_, fun hk => ?_⟩)⟩
  · have hbase : 0x300000 ≤ x := htable.1
    omega
  · have hbase : 0x240000 ≤ x := hk.2.1
    omega

theorem switchRoom_stack {m : Machine} {t : Tid} {rsp : Nat} {on : Bool}
    (hview : m.view = (some t, rsp, on)) (hlo : stacksAt3M.stackBase t + 56 ≤ rsp)
    (hhi : rsp + 8 ≤ stacksAt3M.stackTop t) : SwitchRoom stacksAt3M 0 m := by
  have hcur : m.sched.current 0 = some t := congrArg Prod.fst hview
  have hrsp : m.cpu.rsp.toNat = rsp := congrArg (fun v => v.2.1) hview
  unfold SwitchRoom
  rw [hcur, hrsp]
  exact Or.inl ⟨hlo, hhi⟩

end NekaKernel.Context
