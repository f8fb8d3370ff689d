/-
  Boot/LongMode.lean --- the instructions that both ways into 64-bit mode share.

  Source: `boot64.s` and `ap_trampoline.s`.

  Both turn PAE on, load CR3, turn EFER.LME on and then paging: any other order faults.
  What is left to them is where CR3 comes from, and the far jump behind it.
-/
import NekaKernel.Foundation.Processor

set_option autoImplicit false

namespace NekaKernel.Boot

open NekaKernel.Foundation Processor

/-! ## The source -/

/-- CR4.PAE. -/
def enablePae : List SysInstr := [.getCr .rax .cr4, .orImm .rax (1 <<< 5), .setCr .cr4 .rax]

/-- EFER.LME. -/
def enableLme : List SysInstr :=
  [.movImm .rcx 0xC0000080, .rdmsr, .orImm .rax (1 <<< 8), .wrmsr]

/-- CR0.PG. -/
def enablePaging : List SysInstr := [.getCr .rax .cr0, .orImm .rax (1 <<< 31), .setCr .cr0 .rax]

/-- From PAE to paging; `root` puts the address for CR3 into EAX. -/
def enterLongMode (root : SysInstr) : List SysInstr :=
  enablePae ++ [root, .setCr .cr3 .rax] ++ enableLme ++ enablePaging

/-- The data segment registers get `sel`. -/
def loadDataSegments (sel : Nat) : List SysInstr :=
  [.movImm16 .rax sel, .setSeg .ds .rax, .setSeg .es .rax, .setSeg .ss .rax, .setSeg .fs .rax,
    .setSeg .gs .rax]

/-! ## Into long mode -/

variable {P : Assembly} {Q : Processor → Prop} {s t u : Processor} {bits n : Nat}

/-- The processor `t` is `s` but for control registers and the registers used on the way. -/
structure Beside (s t : Processor) : Prop where
  callee : t.callee = s.callee
  seg : t.seg = s.seg
  cs : t.cs = s.cs
  gdtBase : t.gdtBase = s.gdtBase
  gdtLimit : t.gdtLimit = s.gdtLimit
  interrupts : t.interrupts = s.interrupts
  mem : t.mem = s.mem
  reg : ∀ r, r ≠ .rax → r ≠ .rcx → r ≠ .rdx → t.reg r = s.reg r

theorem Beside.trans (h : Beside s t) (h' : Beside t u) : Beside s u where
  callee := h'.callee.trans h.callee
  seg := h'.seg.trans h.seg
  cs := h'.cs.trans h.cs
  gdtBase := h'.gdtBase.trans h.gdtBase
  gdtLimit := h'.gdtLimit.trans h.gdtLimit
  interrupts := h'.interrupts.trans h.interrupts
  mem := h'.mem.trans h.mem
  reg r hax hcx hdx := (h'.reg r hax hcx hdx).trans (h.reg r hax hcx hdx)

/-- The registers that decide about paging. -/
def control (s : Processor) := (s.cr0, s.cr3, s.cr4, s.efer)

theorem control_iff {cr0 cr3 cr4 efer : Nat} :
    control t = (cr0, cr3, cr4, efer) ↔ t.cr0 = cr0 ∧ t.cr3 = cr3 ∧ t.cr4 = cr4 ∧
    t.efer = efer := by
  simp only [control, Prod.mk.injEq]

theorem testBit_cr0_congr (h : control t = control s) (k : Nat) :
    t.cr0.testBit k = s.cr0.testBit k := by
  rw [(control_iff.mp h).1]

theorem longActive_congr (h : control t = control s) : t.longActive = s.longActive := by
  obtain ⟨hcr0, -, -, hefer⟩ := control_iff.mp h
  rw [longActive, paging, hcr0, hefer]
  rfl

/-- A bit of a register that `or` has set. -/
theorem testBit_or_shift (v k : Nat) {j : Nat} (hj : j < 32) :
    ((v % 2 ^ 32 % 2 ^ 32 ||| 1 <<< k) % 2 ^ 32).testBit j =
      (v.testBit j || decide (k = j)) := by
  simp only [Nat.testBit_mod_two_pow, Nat.testBit_or, hj, decide_true, Bool.true_and,
    Nat.one_shiftLeft, Nat.testBit_two_pow]

theorem leads_enablePae (R : Ready P 32 n s) (hpaging : s.paging = false)
    (hcode : P.Has s.pc 32 enablePae)
    (rest : ∀ t cr4, Beside s t → t.pc = s.pc + 3 → control t = (s.cr0, s.cr3, cr4, s.efer) →
      cr4.testBit 5 = true → cr4.testBit 12 = s.cr4.testBit 12 → Ready P 32 n t →
      Leads (step P) Q t) :
    Leads (step P) Q s := by
  refine R.plain (hcode.get (k := 0) rfl) (R.next.exec_getCr (by decide) _ _) rfl fun R => ?_
  refine R.plain (hcode.get (k := 1) rfl) rfl rfl fun R => ?_
  refine R.early hpaging (hcode.get (k := 2) rfl)
    ((R.next.exec_setCr (by decide) _ _).trans (setCreg_cr4 (by exact hpaging) _))
      rfl hpaging fun R => ?_
  refine rest _ _ ⟨rfl, rfl, rfl, rfl, rfl, rfl, rfl, fun r hax _ _ => ?_⟩ rfl rfl ?_ ?_ R
  · exact (Function.update_of_ne hax _ _).trans (Function.update_of_ne hax _ _)
  · exact (testBit_or_shift s.cr4 5 (by decide)).trans (by simp)
  · exact (testBit_or_shift s.cr4 5 (by decide)).trans (by simp)

theorem leads_loadCr3 (R : Ready P 32 n s) (hpaging : s.paging = false) {root : SysInstr}
    {table : Nat} (hcode : P.Has s.pc 32 [root, .setCr .cr3 .rax]) (htable : table < 2 ^ 32)
    (hroot : root.exec P s.advance = some (s.advance.setReg .rax table))
    (rest : ∀ t, Beside s t → t.pc = s.pc + 2 → control t = (s.cr0, table, s.cr4, s.efer) →
      Ready P 32 n t → Leads (step P) Q t) :
    Leads (step P) Q s := by
  refine R.plain (hcode.get (k := 0) rfl) hroot rfl fun R => ?_
  refine R.early hpaging (hcode.get (k := 1) rfl) (R.next.exec_setCr (by decide) _ _)
    rfl hpaging fun R => ?_
  refine rest _ ⟨rfl, rfl, rfl, rfl, rfl, rfl, rfl, fun r hax _ _ => ?_⟩ rfl ?_ R
  · exact Function.update_of_ne hax _ _
  · exact congrArg (fun v => (s.cr0, v, s.cr4, s.efer)) (Nat.mod_eq_of_lt htable)

theorem testBit_pair (low high : Nat) {j : Nat} (hj : j < 32) :
    (low + high * 2 ^ 32).testBit j = low.testBit j := by
  have hmod : ((low + high * 2 ^ 32) % 2 ^ 32).testBit j = (low % 2 ^ 32).testBit j := by
    rw [Nat.add_mul_mod_self_right]
  rwa [Nat.testBit_mod_two_pow, Nat.testBit_mod_two_pow, decide_eq_true hj, Bool.true_and,
    Bool.true_and] at hmod

theorem leads_enableLme (R : Ready P 32 n s) (hpaging : s.paging = false)
    (hcode : P.Has s.pc 32 enableLme)
    (rest : ∀ t efer, Beside s t → t.pc = s.pc + 4 → control t = (s.cr0, s.cr3, s.cr4, efer) →
      efer.testBit 8 = true → Ready P 32 n t → Leads (step P) Q t) :
    Leads (step P) Q s := by
  refine R.plain (hcode.get (k := 0) rfl) rfl rfl fun R => ?_
  refine R.plain (hcode.get (k := 1) rfl) (exec_rdmsr rfl) rfl fun R => ?_
  refine R.plain (hcode.get (k := 2) rfl) rfl rfl fun R => ?_
  refine R.early hpaging (hcode.get (k := 3) rfl) (exec_wrmsr rfl (by exact hpaging))
    rfl hpaging fun R => ?_
  refine rest _ _ ⟨rfl, rfl, rfl, rfl, rfl, rfl, rfl, fun r hax hcx hdx => ?_⟩ rfl rfl ?_ R
  · exact (Function.update_of_ne hax _ _).trans <| (Function.update_of_ne hdx _ _).trans <|
      (Function.update_of_ne hax _ _).trans (Function.update_of_ne hcx _ _)
  · refine (testBit_pair _ _ (by decide)).trans ?_
    exact (testBit_or_shift s.efer 8 (by decide)).trans (by simp)

/-- The processor `t` is `s` in long mode, with the tables at `root`. -/
structure Switched (s : Processor) (root : Nat) (t : Processor) : Prop where
  beside : Beside s t
  active : t.longActive = true
  protectedMode : t.cr0.testBit 0 = true
  walks : ∀ u, control u = control t → ∀ a, u.translate a = translateVa u.mem root a
  cr3 : t.cr3 = root
  pc : t.pc = s.pc + 12

/-- Paging goes on; the processor stays in 32-bit code until the far jump. -/
theorem leads_enablePaging (R : Ready P 32 n s) (hpaging : s.paging = false)
    (hprotected : s.cr0.testBit 0 = true) (hlong : s.cs.long = false)
    (hpae : s.cr4.testBit 5 = true) (hlevels : s.cr4.testBit 12 = false)
    (hlme : s.efer.testBit 8 = true)
    (hmap : ∀ a < n, ∃ r, translateVa s.mem s.cr3 a = some ⟨a, r⟩ ∧ r.writable = true)
    (hcode : P.Has s.pc 32 enablePaging)
    (rest : ∀ t, Beside s t → t.longActive = true → t.cr0.testBit 0 = true →
      (∀ u, control u = control t → ∀ a, u.translate a = translateVa u.mem s.cr3 a) →
        t.cr3 = s.cr3 →
      t.pc = s.pc + 3 →
      Ready P 32 n t → Leads (step P) Q t) :
    Leads (step P) Q s := by
  have hbit : ∀ j < 32, ((s.cr0 % 2 ^ 32 % 2 ^ 32 ||| 1 <<< 31) % 2 ^ 32).testBit j =
      (s.cr0.testBit j || decide (31 = j)) := fun j hj => testBit_or_shift s.cr0 31 hj
  generalize hv : (s.cr0 % 2 ^ 32 % 2 ^ 32 ||| 1 <<< 31) % 2 ^ 32 = v at hbit
  have hpg : v.testBit 31 = true := (hbit 31 (by decide)).trans (by simp)
  have hpe : v.testBit 0 = true := (hbit 0 (by decide)).trans (by simp [hprotected])
  have hlast : ∀ u, Beside s u → control u = control s → u.pc = s.pc + 2 →
    u.reg .rax % 2 ^ 32 = v →
      Ready P 32 n u → Leads (step P) Q u := by
    intro u hu hcontrol hpc hrax R
    obtain ⟨hcr0, hcr3, hcr4, hefer⟩ := control_iff.mp hcontrol
    have hu0 : u.paging = false := by rwa [paging, hcr0]
    have hnext : SysInstr.exec P u.advance (.setCr .cr0 .rax) =
        some (u.advance.putCreg v .cr0) := by
      refine (R.next.exec_setCr (by decide) _ _).trans ?_
      rw [show u.advance.reg = u.reg from rfl, hrax]
      exact setCreg_cr0 R.next hu0 hpe hpg (hcr4 ▸ hpae) (hu.cs ▸ hlong)
    refine .step ((R.step (hpc ▸ hcode.get (k := 2) rfl)).trans hnext) ?_
    have hactive : (u.advance.putCreg v .cr0).longActive = true := by
      change (v.testBit 31 && u.efer.testBit 8) = true
      rw [hpg, hefer, hlme]
      rfl
    have htranslate : ∀ w, control w = control (u.advance.putCreg v .cr0) →
        ∀ a, w.translate a = translateVa w.mem s.cr3 a := by
      intro w hw a
      obtain ⟨hw0, hw3, hw4, hwefer⟩ : w.cr0 = v ∧ w.cr3 = u.cr3 ∧ w.cr4 = u.cr4 ∧
          w.efer = u.efer := by
        exact control_iff.mp hw
      unfold Processor.translate paging
      rw [hw0, hw3, hw4, hwefer, hpg, hefer, hlme, hcr4, hpae, hlevels, hcr3]
      rfl
    have hwide : u.cs.wide = true := by
      have hsize := R.size
      rw [bits_of_not_paging hu0] at hsize
      by_contra hnot
      rw [if_neg hnot] at hsize
      cases hsize
    refine rest _ ⟨hu.callee, hu.seg, hu.cs, hu.gdtBase, hu.gdtLimit, hu.interrupts, hu.mem,
      hu.reg⟩ hactive hpe
      htranslate hcr3 (congrArg (· + 1) hpc) ⟨R.callee, ?_, ?_, R.inside, R.code, R.data⟩
    · unfold Processor.bits
      rw [hactive, show (u.advance.putCreg v .cr0).cs = u.cs from rfl, hu.cs, hlong,
        ← hu.cs, hwide]
      rfl
    · intro a ha
      rw [htranslate _ rfl, show (u.advance.putCreg v .cr0).mem = u.mem from rfl, hu.mem]
      exact hmap a ha
  refine R.plain (hcode.get (k := 0) rfl) (R.next.exec_getCr (by decide) _ _) rfl fun R => ?_
  refine R.plain (hcode.get (k := 1) rfl) rfl rfl fun R => ?_
  refine hlast _ ⟨rfl, rfl, rfl, rfl, rfl, rfl, rfl, fun r hax _ _ => ?_⟩ rfl rfl hv R
  exact (Function.update_of_ne hax _ _).trans (Function.update_of_ne hax _ _)

/-- **Into long mode.**  From protected mode without paging, where the tables at `table`
map the first `n` bytes to themselves. -/
theorem leads_enterLongMode (R : Ready P 32 n s) (hpaging : s.paging = false)
    (hprotected : s.cr0.testBit 0 = true) (hlong : s.cs.long = false)
    (hlevels : s.cr4.testBit 12 = false) {root : SysInstr} {table : Nat}
    (hcode : P.Has s.pc 32 (enterLongMode root)) (htable : table < 2 ^ 32)
    (hroot : ∀ t, Ready P 32 n t → t.mem = s.mem → root.exec P t = some (t.setReg .rax table))
    (hmap : ∀ a < n, ∃ r, translateVa s.mem table a = some ⟨a, r⟩ ∧ r.writable = true)
    (rest : ∀ t, Switched s table t → Ready P 32 n t → Leads (step P) Q t) :
    Leads (step P) Q s := by
  have hpart := hcode.left.left
  refine leads_enablePae R hpaging hpart.left fun t cr4 ht htpc htcontrol hpae hfour R => ?_
  obtain ⟨htcr0, -, htcr4, htefer⟩ := control_iff.mp htcontrol
  have htp : t.paging = false := by rwa [paging, htcr0]
  refine leads_loadCr3 R htp (htpc ▸ hpart.right) htable (hroot _ R.next ht.mem)
    fun u hu hupc hucontrol R => ?_
  obtain ⟨hucr0, hucr3, hucr4, huefer⟩ := control_iff.mp hucontrol
  have hup : u.paging = false := by rwa [paging, hucr0]
  have hlme : P.Has u.pc 32 enableLme := by
    rw [hupc, htpc]
    exact hcode.left.right
  refine leads_enableLme R hup hlme fun v efer hv hvpc hvcontrol hefer R => ?_
  obtain ⟨hvcr0, hvcr3, hvcr4, hvefer⟩ := control_iff.mp hvcontrol
  have hvp : v.paging = false := by rwa [paging, hvcr0]
  have hall : Beside s v := (ht.trans hu).trans hv
  have hpg : P.Has v.pc 32 enablePaging := by
    rw [hvpc, hupc, htpc]
    exact hcode.right
  refine leads_enablePaging R hvp ?_ (hall.cs ▸ hlong) ?_ ?_ (hvefer ▸ hefer) ?_ hpg
    fun w hw hactive hprotected hw' hcr3 hwpc R =>
      rest w ⟨hall.trans hw, hactive, hprotected, ?_, ?_, ?_⟩ R
  · rw [hvcr0, hucr0, htcr0]
    exact hprotected
  · rw [hvcr4, hucr4, htcr4]
    exact hpae
  · rw [hvcr4, hucr4, htcr4, hfour]
    exact hlevels
  · rw [hvcr3, hucr3, hall.mem]
    exact hmap
  · rwa [hvcr3, hucr3] at hw'
  · rw [hcr3, hvcr3, hucr3]
  · rw [hwpc, hvpc, hupc, htpc]

/-! ## Segments -/

/-- A descriptor of the table in GDTR, below `n`. -/
structure InTable (s : Processor) (n sel d : Nat) : Prop where
  aligned : sel % 8 = 0
  limit : sel / 8 * 8 + 7 ≤ s.gdtLimit
  below : s.gdtBase + sel / 8 * 8 + 8 ≤ n
  word : s.mem.read (s.gdtBase + sel / 8 * 8) 8 = d

theorem InTable.congr {sel d : Nat} (h : InTable s n sel d) (hbase : t.gdtBase = s.gdtBase)
    (hlimit : t.gdtLimit = s.gdtLimit) (hmem : t.mem = s.mem) : InTable t n sel d := by
  refine ⟨h.aligned, ?_, ?_, ?_⟩
  · rw [hlimit]
    exact h.limit
  · rw [hbase]
    exact h.below
  · rw [hbase, hmem]
    exact h.word

/-- The processor `t` is `s` one instruction later, with the table of `limit` and `base`. -/
structure Tabled (s : Processor) (limit base : Nat) (t : Processor) : Prop where
  context : t.context = s.context
  interrupts : t.interrupts = s.interrupts
  reg : t.reg = s.reg
  pc : t.pc = s.pc + 1
  gdtLimit : t.gdtLimit = limit
  gdtBase : t.gdtBase = base

/-- `lgdt` of either form. -/
theorem leads_lgdt (R : Ready P bits n s) (hbits : bits ≠ 64) {off limit base : Nat}
    (ha : off + 6 ≤ n) (hlimit : s.mem.read off 2 = limit)
    (hbase : (if bits = 16 then s.mem.read (off + 2) 4 % 2 ^ 24
      else s.mem.read (off + 2) 4) = base)
    {i : SysInstr} (hinstr : P.code[s.pc]? = some (bits, i))
    (hexec : i.exec P s.advance = s.advance.loadGdtr off) (rest : ∀ t, Tabled s limit base t →
      Ready P bits n t → Leads (step P) Q t) : Leads (step P) Q s :=
  R.plain hinstr (hexec.trans (R.next.exec_lgdt hbits ha)) rfl
    (rest _ ⟨rfl, rfl, rfl, rfl, hlimit, hbase⟩)

theorem Tabled.control {limit base : Nat} (h : Tabled s limit base t) :
    control t = control s := by
  have hcontext := h.context
  simp only [Processor.context, Prod.mk.injEq] at hcontext
  obtain ⟨-, -, -, hcr0, hcr3, hcr4, hefer, -⟩ := hcontext
  rw [Boot.control, hcr0, hcr3, hcr4, hefer]
  rfl

theorem Tabled.mem {limit base : Nat} (h : Tabled s limit base t) : t.mem = s.mem := by
  have hcontext := h.context
  simp only [Processor.context, Prod.mk.injEq] at hcontext
  exact hcontext.2.2.2.2.2.2.2

/-- The processor `t` is `s` at instruction `label` of the segment `g`. -/
structure Entered (s : Processor) (g : Segment) (label : Nat) (t : Processor) : Prop where
  seg : t.seg = s.seg
  cs : t.cs = g
  control : control t = control s
  gdtBase : t.gdtBase = s.gdtBase
  gdtLimit : t.gdtLimit = s.gdtLimit
  interrupts : t.interrupts = s.interrupts
  mem : t.mem = s.mem
  reg : t.reg = s.reg
  pc : t.pc = label

theorem entered (s : Processor) (g : Segment) (label : Nat) :
    Entered s g label (s.advance.enter g label) :=
  ⟨rfl, rfl, rfl, rfl, rfl, rfl, rfl, rfl, rfl⟩

/-- Into the 64-bit segment `d`. -/
theorem leads_farJmp64 (R : Ready P 32 n s) {sel label d : Nat} (hactive : s.longActive = true)
    (hprotected : s.cr0.testBit 0 = true) (hd : InTable s n sel d) (hcode : isCode d = true)
    (hlong : d.testBit 53 = true) (hwide : d.testBit 54 = false)
    (hlabel : P.addr label < 2 ^ 32) (hinstr : P.code[s.pc]? = some (32, .farJmp sel label))
    (rest : ∀ t, Entered s (.ofDescriptor d) label t → Ready P 64 n t → Leads (step P) Q t) :
    Leads (step P) Q s := by
  have hjump : s.advance.farJump sel label (P.addr label) =
      some (s.advance.enter (.ofDescriptor d) label) :=
    R.next.farJump hprotected hd.aligned hd.limit hd.below hd.word hcode hlabel
      (.inl ⟨hactive, hlong, hwide⟩)
  exact .step ((R.step hinstr).trans hjump)
    (rest _ (entered s _ label) (R.next.enter hactive hlong label))

/-- The processor `t` is `s` with the data segment `g` everywhere. -/
structure Reloaded (s : Processor) (g : Segment) (t : Processor) : Prop where
  seg : t.seg = fun _ => g
  cs : t.cs = s.cs
  control : control t = control s
  gdtBase : t.gdtBase = s.gdtBase
  gdtLimit : t.gdtLimit = s.gdtLimit
  interrupts : t.interrupts = s.interrupts
  mem : t.mem = s.mem
  reg : ∀ r, r ≠ .rax → t.reg r = s.reg r
  pc : t.pc = s.pc + 6

theorem leads_setSeg (R : Ready P bits n s) {r : Sreg} {sel d v : Nat}
    (hprotected : s.cr0.testBit 0 = true) (hne : sel / 8 ≠ 0) (hd : InTable s n sel d)
    (hdata : isData d = true) (hflat : bits = 64 ∨ (Segment.ofDescriptor d).base = 0 ∧
      n ≤ (Segment.ofDescriptor d).limit + 1 ∧ n ≤ 2 ^ 32)
    (hrax : s.reg .rax = v) (hv : v % 2 ^ 16 = sel)
    (hinstr : P.code[s.pc]? = some (bits, .setSeg r .rax))
    (rest : Ready P bits n (s.advance.putSeg r (.ofDescriptor d)) →
      Leads (step P) Q (s.advance.putSeg r (.ofDescriptor d))) :
    Leads (step P) Q s := by
  have hload : SysInstr.exec P s.advance (.setSeg r .rax) =
      some (s.advance.putSeg r (.ofDescriptor d)) := by
    rw [SysInstr.exec, show s.advance.reg = s.reg from rfl, hrax, hv]
    exact R.next.loadSegment r hprotected hd.aligned hne hd.limit hd.below hd.word hdata
  exact .step ((R.step hinstr).trans hload) (rest (R.next.putSeg r hflat))

theorem leads_loadDataSegments (R : Ready P bits n s) {sel d : Nat}
    (hprotected : s.cr0.testBit 0 = true) (hsel : sel < 2 ^ 16) (hne : sel / 8 ≠ 0)
    (hd : InTable s n sel d) (hdata : isData d = true)
    (hflat : bits = 64 ∨ (Segment.ofDescriptor d).base = 0 ∧
    n ≤ (Segment.ofDescriptor d).limit + 1 ∧ n ≤ 2 ^ 32)
    (hcode : P.Has s.pc bits (loadDataSegments sel))
    (rest : ∀ t, Reloaded s (.ofDescriptor d) t → Ready P bits n t → Leads (step P) Q t) :
    Leads (step P) Q s := by
  obtain ⟨v, hmov, hv⟩ : ∃ v, SysInstr.exec P s.advance (.movImm16 .rax sel) =
    some (s.advance.setReg .rax v) ∧
      v % 2 ^ 16 = sel := by
    refine ⟨_, rfl, ?_⟩
    omega
  refine R.plain (hcode.get (k := 0) rfl) hmov rfl fun R => ?_
  refine leads_setSeg R hprotected hne (hd.congr rfl rfl rfl) hdata hflat rfl hv
    (hcode.get (k := 1) rfl) fun R => ?_
  refine leads_setSeg R hprotected hne (hd.congr rfl rfl rfl) hdata hflat rfl hv
    (hcode.get (k := 2) rfl) fun R => ?_
  refine leads_setSeg R hprotected hne (hd.congr rfl rfl rfl) hdata hflat rfl hv
    (hcode.get (k := 3) rfl) fun R => ?_
  refine leads_setSeg R hprotected hne (hd.congr rfl rfl rfl) hdata hflat rfl hv
    (hcode.get (k := 4) rfl) fun R => ?_
  refine leads_setSeg R hprotected hne (hd.congr rfl rfl rfl) hdata hflat rfl hv
    (hcode.get (k := 5) rfl) fun R => ?_
  refine rest _ ⟨funext fun r => ?_, rfl, rfl, rfl, rfl, rfl, rfl, fun r hax => ?_, rfl⟩ R
  · cases r <;> rfl
  · exact Function.update_of_ne hax _ _

/-! ## The call at the end -/

/-- The processor `t` is `s` after a call of `a` that has pushed `ret` to `top`. -/
structure Called (s : Processor) (a top ret : Nat) (t : Processor) : Prop where
  callee : t.callee = some a
  bits : t.bits = 64
  seg : t.seg = s.seg
  control : control t = control s
  gdtBase : t.gdtBase = s.gdtBase
  gdtLimit : t.gdtLimit = s.gdtLimit
  interrupts : t.interrupts = s.interrupts
  rsp : t.reg .rsp = top
  reg : ∀ r, r ≠ .rsp → t.reg r = s.reg r
  mem : t.mem = s.mem.write top 8 ret

/-- A call of either form. -/
theorem leads_call (R : Ready P 64 n s) {a top : Nat} (htop : s.reg .rsp = top + 8)
    (ha : top + 8 ≤ n) (hn : n ≤ 2 ^ 64) {i : SysInstr} (hinstr : P.code[s.pc]? = some (64, i))
    (hexec : i.exec P s.advance = s.advance.callTo (P.addr (s.pc + 1)) a)
    (hQ : ∀ t, Called s a top (P.addr (s.pc + 1)) t → Q t) : Leads (step P) Q s := by
  refine .step ((R.step hinstr).trans (hexec.trans (R.next.callTo htop ha hn)))
    (.done (hQ _ ?_))
  exact ⟨rfl, R.size, rfl, rfl, rfl, rfl, rfl, rfl,
    fun r hr => Function.update_of_ne hr _ _, rfl⟩

end NekaKernel.Boot
