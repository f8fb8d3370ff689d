/-
  Boot/Trampoline.lean --- from the Startup IPI to `ap_entry64`.

  Source: `ap_trampoline.s`.

  An application processor begins in real mode.  It takes the segments of the
  trampoline's own table into protected mode, the kernel's tables into long mode, and
  the kernel's segments, its stack and its entry point from there.
-/
import NekaKernel.Boot.Start
import NekaKernel.Smp.Protocol

set_option autoImplicit false

namespace NekaKernel.Boot

open NekaKernel.Foundation Processor

/-! ## The blob -/

/-- Where the assembler puts what stands before the mailbox; `text` is the address of
each instruction. -/
structure Trampoline where
  text : Nat → Nat
  gdt32 : Nat
  text_start : text 0 = Smp.trampolineAddr
  ascending : ∀ ⦃i j : Nat⦄, i ≤ j → text i ≤ text j
  text_end : text 43 ≤ gdt32
  gdt32_end : gdt32 + 30 ≤ Smp.mbox 0

namespace Trampoline

/-- `ap_trampoline_start`. -/
def realMode (T : Trampoline) : List SysInstr :=
  [.cli, .xorSelf16 .rax, .setSeg .ds .rax, .setSeg .es .rax, .setSeg .ss .rax,
    .lgdt (T.gdt32 + 24)] ++
    [.getCr .rax .cr0, .orImm .rax 1, .setCr .cr0 .rax] ++ [.farJmp 0x08 10]

/-- `protected_mode_entry`. -/
def protectedMode : List SysInstr :=
  loadDataSegments 0x10 ++ enterLongMode (.load .rax (Smp.mbox 0)) ++
    [.load .rax (Smp.mbox 1), .lgdtAt .rax, .farJmp 0x08 31]

/-- `long_mode_entry`. -/
def longMode : List SysInstr :=
  loadDataSegments 0x10 ++
    [.load64 .rsp (Smp.mbox 2), .load64 .rax (Smp.mbox 3), .callReg .rax, .cli, .hlt, .jmp 40]

/-- `ap_trampoline.s`. -/
def code (T : Trampoline) : List (Nat × SysInstr) :=
  T.realMode.map (Prod.mk 16) ++ protectedMode.map (Prod.mk 32) ++ longMode.map (Prod.mk 64)

def program (T : Trampoline) : Assembly := ⟨T.code, T.text, T.ascending⟩

end Trampoline

/-- The words of `gdt32_start`. -/
def gdt32Code : Nat := 0x00CF9A000000FFFF
def gdt32Data : Nat := 0x00CF92000000FFFF

/-- What the BSP has in memory when it sends the Startup IPI: the blob with its mailbox
filled for the stack at `p`, `gdt_ptr` and the table `gdt` of `gdt_init`, and tables that
map the first GiB to itself. -/
structure Prepared (T : Trampoline) (cfg : Smp.Config) (p gdt : Nat) (m : Mem) : Prop where
  filled : Smp.Filled cfg m p
  code32 : m.read (T.gdt32 + 8) 8 = gdt32Code
  data32 : m.read (T.gdt32 + 16) 8 = gdt32Data
  limit32 : m.read (T.gdt32 + 24) 2 = 23
  base32 : m.read (T.gdt32 + 26) 4 = T.gdt32
  gdtPtr_end : cfg.gdtPtrAddr + 10 ≤ 2 ^ 30
  gdt_end : gdt + 24 ≤ 2 ^ 30
  gdtLimit : 23 ≤ m.read cfg.gdtPtrAddr 2
  gdtBase : m.read (cfg.gdtPtrAddr + 2) 8 = gdt
  gdtCode : m.read (gdt + 8) 8 = Smp.segmentDescriptors.getD 1 0
  gdtData : m.read (gdt + 16) 8 = Smp.segmentDescriptors.getD 2 0
  stack : 8 ≤ Smp.stackTop p ∧ Smp.stackTop p ≤ 2 ^ 30
  tables : ∀ a < 2 ^ 30, ∃ r, translateVa m cfg.kernelCr3 a = some ⟨a, r⟩ ∧ r.writable = true

/-- An application processor after its Startup IPI. -/
structure Startup (s : Processor) : Prop where
  pc : s.pc = 0
  callee : s.callee = none
  code : s.cs = ⟨Smp.trampolineAddr, 0xFFFF, false, false⟩
  data : ∀ r, s.seg r = ⟨0, 0xFFFF, false, false⟩
  realMode : s.cr0.testBit 0 = false
  paging : s.cr0.testBit 31 = false
  levels : s.cr4.testBit 12 = false

/-! ## Real mode -/

variable {P : Assembly} {Q : Processor → Prop} {T : Trampoline} {cfg : Smp.Config}
    {p gdt n : Nat}
  {s t u : Processor}

/-- The processor `t` is `s` one instruction later. -/
structure Onward (s t : Processor) : Prop where
  seg : t.seg = s.seg
  cs : t.cs = s.cs
  control : control t = control s
  mem : t.mem = s.mem
  reg : t.reg = s.reg
  interrupts : t.interrupts = s.interrupts
  pc : t.pc = s.pc + 1

/-- In real mode a segment of base 0 stays as it is when 0 is loaded. -/
theorem leads_setSeg_real (R : Ready P 16 n s) {r : Sreg} (hreal : s.cr0.testBit 0 = false)
    (hbase : (s.seg r).base = 0) (hrax : s.reg .rax % 2 ^ 16 = 0)
    (hinstr : P.code[s.pc]? = some (16, .setSeg r .rax))
    (rest : ∀ t, Onward s t → Ready P 16 n t → Leads (step P) Q t) : Leads (step P) Q s := by
  have hload : SysInstr.exec P s.advance (.setSeg r .rax) = some s.advance := by
    rw [SysInstr.exec, show s.advance.reg = s.reg from rfl, hrax]
    unfold Processor.loadSegment
    rw [if_neg (by rw [show s.advance.cr0 = s.cr0 from rfl, hreal]; decide)]
    have hsame : { s.advance.seg r with base := 16 * 0 } = s.advance.seg r := by
      rw [Nat.mul_zero, ← hbase]
      rfl
    unfold Processor.putSeg
    rw [hsame, Function.update_eq_self]
  exact R.plain hinstr hload rfl (rest _ ⟨rfl, rfl, rfl, rfl, rfl, rfl, rfl⟩)

/-- CR0.PE. -/
theorem leads_protect (R : Ready P 16 n s) (hpaging : s.paging = false)
    (hcode : P.Has s.pc 16 [.getCr .rax .cr0, .orImm .rax 1, .setCr .cr0 .rax])
    (rest : ∀ t cr0, Beside s t → t.pc = s.pc + 3 → control t = (cr0, s.cr3, s.cr4, s.efer) →
      cr0.testBit 0 = true → cr0.testBit 31 = false → Ready P 16 n t → Leads (step P) Q t) :
    Leads (step P) Q s := by
  have hbit : ∀ j < 32, ((s.cr0 % 2 ^ 32 % 2 ^ 32 ||| 1) % 2 ^ 32).testBit j =
      (s.cr0.testBit j || decide (0 = j)) :=
    fun j hj => testBit_or_shift s.cr0 0 hj
  generalize hv : (s.cr0 % 2 ^ 32 % 2 ^ 32 ||| 1) % 2 ^ 32 = v at hbit
  have hpe : v.testBit 0 = true := (hbit 0 (by decide)).trans (by simp)
  have hpg : v.testBit 31 = false :=
    (hbit 31 (by decide)).trans (by simp [show s.cr0.testBit 31 = false from hpaging])
  have hlast : ∀ u, Beside s u → control u = control s → u.pc = s.pc + 2 →
    u.reg .rax % 2 ^ 32 = v →
      Ready P 16 n u → Leads (step P) Q u := by
    intro u hu hcontrol hpc hrax R
    have hnext : SysInstr.exec P u.advance (.setCr .cr0 .rax) =
        some (u.advance.putCreg v .cr0) := by
      refine (R.next.exec_setCr (by decide) _ _).trans ?_
      rw [show u.advance.reg = u.reg from rfl, hrax]
      exact setCreg_cr0_unpaged R.next (by decide) hpg
    obtain ⟨hcr0, hcr3, hcr4, hefer⟩ := control_iff.mp hcontrol
    have hu0 : u.paging = false := by rwa [paging, hcr0]
    have hcontrol' : control (u.advance.putCreg v .cr0) = (v, s.cr3, s.cr4, s.efer) := by
      rw [← hcr3, ← hcr4, ← hefer]
      rfl
    refine R.early hu0 (hpc ▸ hcode.get (k := 2) rfl) hnext rfl hpg fun R =>
      rest _ v ?_ ?_ hcontrol' hpe hpg R
    · exact ⟨hu.callee, hu.seg, hu.cs, hu.gdtBase, hu.gdtLimit, hu.interrupts, hu.mem, hu.reg⟩
    · exact congrArg (· + 1) hpc
  refine R.sets (hcode.get (k := 0) rfl) (R.next.exec_getCr (by decide) _ _) fun R => ?_
  refine R.sets (hcode.get (k := 1) rfl) rfl fun R => ?_
  refine hlast _ ⟨rfl, rfl, rfl, rfl, rfl, rfl, rfl, fun r hax _ _ => ?_⟩ rfl rfl hv R
  exact (Function.update_of_ne hax _ _).trans (Function.update_of_ne hax _ _)

/-- Into the flat 32-bit segment `d`. -/
theorem leads_farJmp32 (R : Ready P 16 n s) {sel label d : Nat} (hpaging : s.paging = false)
    (hprotected : s.cr0.testBit 0 = true) (hd : InTable s n sel d) (hcode : isCode d = true)
    (hlong : d.testBit 53 = false) (hwide : d.testBit 54 = true)
    (hbase : (Segment.ofDescriptor d).base = 0)
    (hlimit : n ≤ (Segment.ofDescriptor d).limit + 1) (hn : n ≤ 2 ^ 16)
    (hlabel : P.addr label < n) (hinstr : P.code[s.pc]? = some (16, .farJmp sel label))
    (rest : ∀ t, Entered s (.ofDescriptor d) label t → Ready P 32 n t → Leads (step P) Q t) :
    Leads (step P) Q s := by
  have hjump : s.advance.farJump sel label (P.addr label) =
      some (s.advance.enter (.ofDescriptor d) label) :=
    R.next.farJump hprotected hd.aligned hd.limit hd.below hd.word hcode
      (Nat.lt_of_lt_of_le hlabel hn)
      (.inr ⟨hlong, hbase, by omega⟩)
  exact .step ((R.step hinstr).trans hjump)
    (rest _ (entered s _ label) (R.next.enter32 (by decide) hpaging hwide hbase hlimit label))

/-- `protected_mode_entry` begins. -/
structure AtProtected (T : Trampoline) (s t : Processor) : Prop where
  ready : Ready T.program 32 (2 ^ 16) t
  pc : t.pc = 10
  cs : t.cs = .ofDescriptor gdt32Code
  protectedMode : t.cr0.testBit 0 = true
  paging : t.paging = false
  cr4 : t.cr4 = s.cr4
  gdtLimit : t.gdtLimit = 23
  gdtBase : t.gdtBase = T.gdt32
  interrupts : t.interrupts = false
  mem : t.mem = s.mem

theorem Trampoline.has16 (T : Trampoline) : T.program.Has 0 16 T.realMode := ⟨_, rfl⟩

theorem Trampoline.has32 (T : Trampoline) : T.program.Has 10 32 protectedMode := ⟨_, rfl⟩

theorem Trampoline.has64 (T : Trampoline) : T.program.Has 31 64 longMode :=
  ⟨[], (List.append_nil _).symm⟩

theorem Trampoline.text_lt (T : Trampoline) {i : Nat} (hi : i ≤ 43) : T.text i < 2 ^ 16 := by
  have htext := Nat.le_trans (T.ascending hi) T.text_end
  have hend := T.gdt32_end
  have hmbox : Smp.mbox 0 = 0x8100 := rfl
  omega

theorem Startup.ready (h : Startup s) : Ready T.program 16 (2 ^ 16) s := by
  have hbits : s.bits = 16 := by
    rw [bits_of_not_paging h.paging, h.code]
    rfl
  refine ⟨h.callee, hbits, sees_of_not_paging h.paging _,
    Nat.le_of_lt (T.text_lt (Nat.le_refl 43)), .inr ?_, .inr ?_⟩
  · rw [h.code]
    exact ⟨Nat.le_of_eq T.text_start.symm, by decide⟩
  · rw [h.data]
    exact ⟨rfl, by decide, by decide⟩

theorem Prepared.inTable (M : Prepared T cfg p gdt s.mem) (hbase : t.gdtBase = T.gdt32)
    (hlimit : t.gdtLimit = 23) (hmem : t.mem = s.mem) :
    InTable t (2 ^ 16) 8 gdt32Code ∧ InTable t (2 ^ 16) 16 gdt32Data := by
  have hend := T.gdt32_end
  have hmbox : Smp.mbox 0 = 0x8100 := rfl
  refine ⟨⟨rfl, ?_, ?_, ?_⟩, ⟨rfl, ?_, ?_, ?_⟩⟩
  · rw [hlimit]
    decide
  · omega
  · rw [hbase, hmem]
    exact M.code32
  · rw [hlimit]
  · omega
  · rw [hbase, hmem]
    exact M.data32

theorem leads_realMode (h : Startup s) (M : Prepared T cfg p gdt s.mem) :
    Leads (step T.program) (AtProtected T s) s := by
  have hcode : T.program.Has s.pc 16 T.realMode := by
    rw [h.pc]
    exact T.has16
  have hend := T.gdt32_end
  have hmbox : Smp.mbox 0 = 0x8100 := rfl
  have hbase : ∀ r, (s.seg r).base = 0 := fun r => by rw [h.data]
  have R : Ready T.program 16 (2 ^ 16) s := h.ready
  refine R.plain (hcode.get (k := 0) rfl) rfl rfl fun R => ?_
  refine R.sets (hcode.get (k := 1) rfl) rfl fun R => ?_
  have hrax : s.reg .rax / 2 ^ 16 * 2 ^ 16 % 2 ^ 16 = 0 := Nat.mul_mod_left _ _
  refine leads_setSeg_real R h.realMode (hbase .ds) hrax (hcode.get (k := 2) rfl)
    fun t h₁ R => ?_
  refine leads_setSeg_real R ((testBit_cr0_congr h₁.control 0).trans h.realMode)
    ((congrArg (fun f => (f .es).base) h₁.seg).trans (hbase .es))
    ((congrArg (fun f => f .rax % 2 ^ 16) h₁.reg).trans hrax)
    (by rw [h₁.pc]; exact hcode.get (k := 3) rfl) fun u h₂ R => ?_
  have hcontrol := h₂.control.trans h₁.control
  have hseg := h₂.seg.trans h₁.seg
  have hreg := h₂.reg.trans h₁.reg
  refine leads_setSeg_real R ((testBit_cr0_congr hcontrol 0).trans h.realMode)
    ((congrArg (fun f => (f .ss).base) hseg).trans (hbase .ss))
      ((congrArg (fun f => f .rax % 2 ^ 16) hreg).trans hrax)
    (by rw [h₂.pc, h₁.pc]; exact hcode.get (k := 4) rfl) fun v h₃ R => ?_
  have hcontrol := h₃.control.trans hcontrol
  have hmem : v.mem = s.mem := h₃.mem.trans (h₂.mem.trans h₁.mem)
  have hpc : v.pc = s.pc + 5 := by
    rw [h₃.pc, h₂.pc, h₁.pc]
    rfl
  have hinterrupts : v.interrupts = false :=
    h₃.interrupts.trans (h₂.interrupts.trans h₁.interrupts)
  have hgdt : v.mem.read (T.gdt32 + 24 + 2) 4 % 2 ^ 24 = T.gdt32 := by
    rw [hmem, M.base32, Nat.mod_eq_of_lt (by omega)]
  refine leads_lgdt R (by decide) (by omega) (hmem ▸ M.limit32) hgdt
    (by rw [hpc]; exact hcode.get (k := 5) rfl) rfl
    fun w hw R => ?_
  have hwcontrol := hw.control.trans hcontrol
  have hwpaging : w.paging = false := (testBit_cr0_congr hwcontrol 31).trans h.paging
  have hprotect : T.program.Has w.pc 16
      [.getCr .rax .cr0, .orImm .rax 1, .setCr .cr0 .rax] := by
    rw [hw.pc, hpc]
    exact hcode.left.right
  refine leads_protect R hwpaging hprotect fun x cr0 hx hxpc hxcontrol hpe hpg R => ?_
  have hxmem : x.mem = s.mem := hx.mem.trans (hw.mem.trans hmem)
  have hxbase : x.gdtBase = T.gdt32 := hx.gdtBase.trans hw.gdtBase
  have hxlimit : x.gdtLimit = 23 := hx.gdtLimit.trans hw.gdtLimit
  obtain ⟨hxcr0, -, hxcr4, -⟩ := control_iff.mp hxcontrol
  have hxpaging : x.paging = false := by rw [Processor.paging, hxcr0, hpg]
  have hxpe : x.cr0.testBit 0 = true := by rw [hxcr0, hpe]
  have hjump : T.program.code[x.pc]? = some (16, .farJmp 0x08 10) := by
    rw [hxpc, hw.pc, hpc]
    exact hcode.get (k := 9) rfl
  refine leads_farJmp32 R hxpaging hxpe (M.inTable hxbase hxlimit hxmem).1 (by decide)
    (by decide) (by decide)
    (by decide) (by decide) (Nat.le_refl _) (T.text_lt (by decide)) hjump fun y hy R => .done ?_
  obtain ⟨hycr0, -, hycr4, -⟩ := control_iff.mp hy.control
  exact
    { ready := R
      pc := hy.pc
      cs := hy.cs
      protectedMode := by rw [hycr0, hxpe]
      paging := by rw [Processor.paging, hycr0]; exact hxpaging
      cr4 := hycr4.trans (hxcr4.trans (control_iff.mp hwcontrol).2.2.1)
      gdtLimit := hy.gdtLimit.trans hxlimit
      gdtBase := hy.gdtBase.trans hxbase
      interrupts := hy.interrupts.trans (hx.interrupts.trans (hw.interrupts.trans hinterrupts))
      mem := hy.mem.trans hxmem }

/-! ## Protected mode and long mode -/

/-- `long_mode_entry` begins. -/
structure AtLong (T : Trampoline) (cfg : Smp.Config) (gdt : Nat) (s t : Processor) : Prop where
  ready : Ready T.program 64 (2 ^ 30) t
  pc : t.pc = 31
  protectedMode : t.cr0.testBit 0 = true
  cr3 : t.cr3 = cfg.kernelCr3
  walks : ∀ u, control u = control t → ∀ a, u.translate a = translateVa u.mem cfg.kernelCr3 a
  gdtLimit : t.gdtLimit = s.mem.read cfg.gdtPtrAddr 2
  gdtBase : t.gdtBase = gdt
  interrupts : t.interrupts = false
  mem : t.mem = s.mem

/-- What 32-bit `lgdt` takes of the base in `gdt_ptr`. -/
theorem Prepared.base_low {m : Mem} (M : Prepared T cfg p gdt m) :
    m.read (cfg.gdtPtrAddr + 2) 4 = gdt := by
  have hend := M.gdt_end
  have hbase := M.gdtBase
  have hlow := m.read_lt (cfg.gdtPtrAddr + 2) 4
  rw [show 8 = 4 + 4 from rfl, Mem.read_add] at hbase
  omega

/-- A descriptor of the kernel, for a processor that has loaded `gdt_ptr`. -/
theorem Prepared.inGdt (M : Prepared T cfg p gdt s.mem) (hbase : t.gdtBase = gdt)
    (hlimit : t.gdtLimit = s.mem.read cfg.gdtPtrAddr 2) (hmem : t.mem = s.mem) {sel d : Nat}
    (hsel : sel % 8 = 0) (hle : sel ≤ 16) (hd : s.mem.read (gdt + sel) 8 = d) :
    InTable t (2 ^ 30) sel d := by
  have hend := M.gdt_end
  have hsize := M.gdtLimit
  have hindex : sel / 8 * 8 = sel := Nat.div_mul_cancel (Nat.dvd_of_mod_eq_zero hsel)
  refine ⟨hsel, ?_, ?_, ?_⟩
  · rw [hlimit]
    omega
  · rw [hbase]
    omega
  · rw [hbase, hmem, hindex]
    exact hd

theorem leads_protectedMode (h : Startup s) (M : Prepared T cfg p gdt s.mem)
    (F : AtProtected T s t) :
    Leads (step T.program) (AtLong T cfg gdt s) t := by
  have hmbox0 : Smp.mbox 0 = 0x8100 := rfl
  have hmbox1 : Smp.mbox 1 = 0x8108 := rfl
  have hptr := M.gdtPtr_end
  have hcode : T.program.Has t.pc 32 Trampoline.protectedMode := by
    rw [F.pc]
    exact T.has32
  refine leads_loadDataSegments F.ready F.protectedMode (by decide) (by decide)
    (M.inTable F.gdtBase F.gdtLimit F.mem).2 (by decide)
      (.inr ⟨by decide, by decide, by decide⟩)
    hcode.left.left fun u hu R => ?_
  obtain ⟨hucr0, -, hucr4, -⟩ := control_iff.mp hu.control
  have humem : u.mem = s.mem := hu.mem.trans F.mem
  have hucs : u.cs = .ofDescriptor gdt32Code := hu.cs.trans F.cs
  have hupaging : u.paging = false := by
    rw [Processor.paging, hucr0]
    exact F.paging
  have hwide : Ready T.program 32 (2 ^ 30) u := by
    refine R.widen hupaging (by decide) ?_ ?_ ?_
    · rw [hucs]
      decide
    · rw [hucs]
      decide
    · rw [hu.seg]
      exact ⟨by decide, by decide, by decide⟩
  have hlong : T.program.Has u.pc 32 (enterLongMode (.load .rax (Smp.mbox 0))) := by
    rw [hu.pc]
    exact hcode.left.right
  have htable : cfg.kernelCr3 < 2 ^ 32 := M.filled.cr3 ▸ s.mem.read_lt (Smp.mbox 0) 4
  have hgdtPtr : cfg.gdtPtrAddr < 2 ^ 32 := by omega
  refine leads_enterLongMode hwide hupaging (hucr0 ▸ F.protectedMode) (by rw [hucs]; decide)
    (by rw [hucr4, F.cr4]; exact h.levels) hlong htable (fun v Rv hv => ?_) (humem ▸ M.tables)
      fun v hv R => ?_
  · rw [Rv.exec_load .rax (by omega), hv, humem, M.filled.cr3]
  · have hvmem : v.mem = s.mem := hv.beside.mem.trans humem
    have hvpc : v.pc = t.pc + 18 := by rw [hv.pc, hu.pc]
    have htail : T.program.Has v.pc 32
        [.load .rax (Smp.mbox 1), .lgdtAt .rax, .farJmp 0x08 31] := by
      rw [hvpc]
      exact hcode.right
    refine R.sets (htail.get (k := 0) rfl) (R.next.exec_load .rax (by omega)) fun R => ?_
    have hrax : v.mem.read (Smp.mbox 1) 4 = cfg.gdtPtrAddr := by rw [hvmem, M.filled.gdt]
    refine leads_lgdt R (by decide) (by omega) rfl rfl (htail.get (k := 1) rfl)
      (R.next.exec_lgdtAt hrax hgdtPtr)
      fun w hw R => ?_
    have hwcontrol : control w = control v := hw.control
    have hwprotected : w.cr0.testBit 0 = true :=
      (testBit_cr0_congr hwcontrol 0).trans hv.protectedMode
    have hwmem : w.mem = s.mem := hw.mem.trans hvmem
    have hwlimit : w.gdtLimit = s.mem.read cfg.gdtPtrAddr 2 := by
      rw [hw.gdtLimit, ← hvmem]
      rfl
    have hwbase : w.gdtBase = gdt := by
      rw [hw.gdtBase, if_neg (by decide), ← M.base_low, ← hvmem]
      rfl
    have hjump : T.program.code[w.pc]? = some (32, .farJmp 0x08 31) := by
      rw [hw.pc]
      exact htail.get (k := 2) rfl
    have hlabel : T.text 31 < 2 ^ 32 := Nat.lt_trans (T.text_lt (by decide)) (by decide)
    refine leads_farJmp64 R ((longActive_congr hwcontrol).trans hv.active) hwprotected
      (M.inGdt hwbase hwlimit hwmem rfl (by decide) M.gdtCode) (by decide) (by decide)
        (by decide) hlabel hjump
      fun x hx R => .done ?_
    have hxcontrol := hx.control.trans hwcontrol
    exact
      { ready := R
        pc := hx.pc
        protectedMode := (testBit_cr0_congr hxcontrol 0).trans hv.protectedMode
        cr3 := (control_iff.mp hxcontrol).2.1.trans hv.cr3
        walks := fun y hy => hv.walks y (hy.trans hxcontrol)
        gdtLimit := hx.gdtLimit.trans hwlimit
        gdtBase := hx.gdtBase.trans hwbase
        interrupts := hx.interrupts.trans (hw.interrupts.trans (hv.beside.interrupts.trans
          (hu.interrupts.trans F.interrupts)))
        mem := hx.mem.trans hwmem }

/-! ## The call -/

/-- `ap_entry64` begins: 64-bit code on the stack from the mailbox, with the kernel's
tables and segments and without interrupts.  Nothing has been stored to but the word
that the call has pushed. -/
structure AtApEntry64 (T : Trampoline) (cfg : Smp.Config) (p gdt : Nat)
    (s t : Processor) : Prop where
  callee : t.callee = some cfg.apEntry64
  bits : t.bits = 64
  rsp : t.reg .rsp + 8 = Smp.stackTop p
  stack : (t.reg .rsp + 8) % 16 = 0
  cr3 : t.cr3 = cfg.kernelCr3
  map : ∀ a, t.translate a = translateVa t.mem cfg.kernelCr3 a
  gdtLimit : t.gdtLimit = s.mem.read cfg.gdtPtrAddr 2
  gdtBase : t.gdtBase = gdt
  data : ∀ r, t.seg r = .ofDescriptor (Smp.segmentDescriptors.getD 2 0)
  interrupts : t.interrupts = false
  mem : t.mem = s.mem.write (t.reg .rsp) 8 (T.text 40)

theorem stackTop_aligned (p : Nat) : Smp.stackTop p % 16 = 0 := by
  unfold Smp.stackTop
  rw [show 16 = 2 ^ 4 from rfl, Nat.and_mod_two_pow]
  exact Nat.and_zero _

theorem leads_longMode (M : Prepared T cfg p gdt s.mem) (F : AtLong T cfg gdt s t) :
    Leads (step T.program) (AtApEntry64 T cfg p gdt s) t := by
  have hmbox2 : Smp.mbox 2 = 0x8110 := rfl
  have hmbox3 : Smp.mbox 3 = 0x8118 := rfl
  obtain ⟨hroom, hstack⟩ := M.stack
  have hcode : T.program.Has t.pc 64 Trampoline.longMode := by
    rw [F.pc]
    exact T.has64
  refine leads_loadDataSegments F.ready F.protectedMode (by decide) (by decide)
    (M.inGdt F.gdtBase F.gdtLimit F.mem rfl (by decide) M.gdtData) (by decide) (.inl rfl)
      hcode.left fun u hu R => ?_
  have humem : u.mem = s.mem := hu.mem.trans F.mem
  have htail : T.program.Has u.pc 64
      [.load64 .rsp (Smp.mbox 2), .load64 .rax (Smp.mbox 3), .callReg .rax, .cli, .hlt,
        .jmp 40] := by
    rw [hu.pc]
    exact hcode.right
  refine R.sets (htail.get (k := 0) rfl) (R.next.exec_load64 .rsp (by omega)) fun R => ?_
  refine R.sets (htail.get (k := 1) rfl) (R.next.exec_load64 .rax (by omega)) fun R => ?_
  have htop : u.mem.read (Smp.mbox 2) 8 = Smp.stackTop p - 8 + 8 := by
    rw [humem, M.filled.stack]
    omega
  refine leads_call R htop (by omega) (by decide) (htail.get (k := 2) rfl) rfl fun z hz => ?_
  have hentry : u.mem.read (Smp.mbox 3) 8 = cfg.apEntry64 := by rw [humem, M.filled.entry]
  have hret : T.text (u.pc + 3) = T.text 40 := by rw [hu.pc, F.pc]
  have hcontrol : control z = control t := hz.control.trans hu.control
  have hrsp : z.reg .rsp + 8 = Smp.stackTop p := by
    rw [hz.rsp]
    omega
  exact
    { callee := hz.callee.trans (congrArg some hentry)
      bits := hz.bits
      rsp := hrsp
      stack := by rw [hrsp, stackTop_aligned]
      cr3 := (control_iff.mp hcontrol).2.1.trans F.cr3
      map := F.walks z hcontrol
      gdtLimit := hz.gdtLimit.trans (hu.gdtLimit.trans F.gdtLimit)
      gdtBase := hz.gdtBase.trans (hu.gdtBase.trans F.gdtBase)
      data := fun r => (congrFun hz.seg r).trans (congrFun hu.seg r)
      interrupts := hz.interrupts.trans (hu.interrupts.trans F.interrupts)
      mem := by
        rw [hz.rsp, hz.mem, ← hret, ← humem]
        rfl }

theorem trampoline_calls_ap_entry64 (h : Startup s) (M : Prepared T cfg p gdt s.mem) :
    Leads (step T.program) (AtApEntry64 T cfg p gdt s) s :=
  (leads_realMode h M).trans fun _ F => (leads_protectedMode h M F).trans fun _ F =>
    leads_longMode M F

/-- Four bytes for each instruction. -/
def trampolineBlob : Trampoline where
  text i := 0x8000 + 4 * i
  gdt32 := 0x80D0
  text_start := rfl
  ascending := fun _ _ h => Nat.add_le_add_left (Nat.mul_le_mul_left 4 h) _
  text_end := by decide
  gdt32_end := by decide

/-- The identity map at the `kernel_cr3` of `twoProcessors`. -/
def tablesAtCr3 : Layout :=
  { imageAtMib with
    bss := 0x360000
    bss_aligned := by decide
    bss_end := by decide
    gdt64_apart := by decide
    text_apart := by decide }

def twoProcessors : Smp.Config := Smp.processors [0, 1] 0 (by decide)

def preparedTables : Mem := filled tablesAtCr3 (linked tablesAtCr3 blank 0) 512

/-- With the tables, the blob, `gdt_ptr` and `gdt[]`. -/
def kernelMemory : Mem :=
  let blob :=
    (((preparedTables.write 0x80D8 8 gdt32Code).write 0x80E0 8 gdt32Data).write
      0x80E8 2 23).write
    0x80EA 4 0x80D0
  (((blob.write 0x3F1000 2 103).write 0x3F1002 8 0x3F2000).write 0x3F2008 8
    (Smp.segmentDescriptors.getD 1 0)).write 0x3F2010 8 (Smp.segmentDescriptors.getD 2 0)

/-- With the mailbox for the first stack of the heap. -/
def preparedMemory : Mem := Smp.fillMbox twoProcessors kernelMemory 0x200024

theorem prepared_twoProcessors :
    Prepared trampolineBlob twoProcessors 0x200024 0x3F2000 preparedMemory where
  filled := Smp.filled_fillMbox (Smp.processors_low [0, 1] 0 (by decide)) _ _
  code32 := by decide
  data32 := by decide
  limit32 := by decide
  base32 := by decide
  gdtPtr_end := by decide
  gdt_end := by decide
  gdtLimit := by decide
  gdtBase := by decide
  gdtCode := by decide
  gdtData := by decide
  stack := by decide
  tables := by
    have hagree : preparedTables.Agree preparedMemory 0x360000 0x363000 := by
      unfold preparedMemory kernelMemory Smp.fillMbox
      iterate 12 refine Mem.Agree.trans ?_ (Mem.agree_write (by decide))
      exact Mem.Agree.refl _ _ _
    have hmap : IdentityMap tablesAtCr3 preparedMemory :=
      (identityMap_filled (fun _ _ _ => rfl) 0).congr hagree
    intro a ha
    refine ⟨⟨false, true⟩, ?_, rfl⟩
    exact (hmap.translate a).trans (if_pos ha)

/-- A processor after its Startup IPI. -/
def atSipi : Processor where
  reg := fun _ => 0
  seg := fun _ => ⟨0, 0xFFFF, false, false⟩
  cs := ⟨Smp.trampolineAddr, 0xFFFF, false, false⟩
  gdtBase := 0
  gdtLimit := 0xFFFF
  cr0 := 0x60000010
  cr3 := 0
  cr4 := 0
  efer := 0
  less := false
  interrupts := false
  pc := 0
  callee := none
  mem := preparedMemory

theorem startup_atSipi : Startup atSipi :=
  ⟨rfl, rfl, rfl, fun _ => rfl, by decide, by decide, by decide⟩

theorem trampoline_calls_ap_entry64_two : Leads (step trampolineBlob.program)
    (AtApEntry64 trampolineBlob twoProcessors 0x200024 0x3F2000 atSipi) atSipi :=
  trampoline_calls_ap_entry64 startup_atSipi prepared_twoProcessors

/-! ## The trampoline in the protocol -/

theorem filled_of_agree {low m : Mem} (h : low.Agree m (Smp.mbox 0) (Smp.mbox 4))
    (F : Smp.Filled cfg m p) :
    Smp.Filled cfg low p := by
  have hread : ∀ k n, k < 4 → n ≤ 8 → m.read (Smp.mbox k) n = low.read (Smp.mbox k) n := by
    intro k n hk hn
    refine Mem.read_congr (h.mono ?_ ?_)
    · unfold Smp.mbox
      omega
    · unfold Smp.mbox
      omega
  exact
    { cr3 := (hread 0 4 (by decide) (by decide)).symm.trans F.cr3
      gdt := (hread 1 4 (by decide) (by decide)).symm.trans F.gdt
      stack := (hread 2 8 (by decide) (by decide)).symm.trans F.stack
      entry := (hread 3 8 (by decide) (by decide)).symm.trans F.entry }

variable {init : Smp.State → Prop} {ok : Smp.State → Smp.Act → Prop} {w : Smp.State} {a : Nat}

/-- **Refinement.**  Where the protocol says that AP `a` has its Startup IPI, the
processor comes to `ap_entry64`, and the protocol with it, on the same stack. -/
theorem trampoline_refines_protocol (hok : Smp.AllowsAp ok w.owner a)
    (r : Reach init (Smp.step cfg) ok w) (hap : w.ap a = .loadCr3) (h : Startup s)
    (M : Prepared T cfg p gdt s.mem) (hmbox : w.low.Agree s.mem (Smp.mbox 0) (Smp.mbox 4)) :
    Leads (step T.program) (fun t => t.callee = some cfg.apEntry64 ∧
      Reach init (Smp.step cfg) ok { w.setAp a .setupTss with
        starts := (a, t.reg .rsp + 8) :: w.starts }) s := by
  have hcall := Smp.reach_call hok r hap (filled_of_agree hmbox M.filled)
  refine (leads_realMode h M).trans fun _ F => (leads_protectedMode h M F).trans fun _ F =>
    (leads_longMode M F).trans fun t A => .done ⟨A.callee, ?_⟩
  rw [A.rsp]
  exact hcall

/-- The BSP comes to AP 1, gives it the first stack of the heap and sends it the Startup
IPI; the trampoline does the rest. -/
theorem trampoline_refines_protocol_two : ∃ w,
    Reach (Smp.Initial Heap.arenaAt2M twoProcessors) (Smp.step twoProcessors) Smp.Timely w ∧
      w.ap 1 = .loadCr3 ∧
      Leads (step trampolineBlob.program) (fun t => t.callee = some twoProcessors.apEntry64 ∧
        Reach (Smp.Initial Heap.arenaAt2M twoProcessors) (Smp.step twoProcessors) Smp.Timely
          { w.setAp 1 .setupTss with starts := (1, t.reg .rsp + 8) :: w.starts }) atSipi := by
  have hfirst : (Heap.kmalloc (Heap.heapInit Heap.arenaAt2M fun _ => 0) Smp.apStackSize).1 =
      .ret 0x200024 := by decide +kernel
  have hbsp : Smp.AllowsBsp Smp.Timely := fun _ => trivial
  have r₀ : Reach (Smp.Initial Heap.arenaAt2M twoProcessors) (Smp.step twoProcessors) Smp.Timely
      (Smp.startState Heap.arenaAt2M twoProcessors) := .start (Smp.initial_startState _ _)
  have r₁ := Smp.reach_skip hbsp r₀ rfl (by decide) (by decide) rfl
  obtain ⟨low, r₂⟩ := Smp.reach_attempt hbsp r₁ rfl (by decide) (by decide) (by decide)
    (Prod.ext hfirst rfl)
  have hmbox := Smp.agree_fillMbox twoProcessors low kernelMemory 0x200024
  exact ⟨_, r₂, rfl, trampoline_refines_protocol (fun _ h => h) r₂ rfl startup_atSipi
    prepared_twoProcessors hmbox⟩

end NekaKernel.Boot
