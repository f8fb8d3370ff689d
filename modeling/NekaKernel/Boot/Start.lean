/-
  Boot/Start.lean --- from the boot loader to `kernel_main64`.

  Source: `boot64.s`.

  The boot loader leaves 32-bit protected mode without paging.  The code builds tables
  that map the first GiB one to one with 2 MiB pages, goes into long mode, reloads the
  segments and calls the kernel.
-/
import NekaKernel.Boot.LongMode
import NekaKernel.Foundation.Fields

set_option autoImplicit false

namespace NekaKernel.Boot

open NekaKernel.Foundation Processor

/-! ## The image -/

/-- Where the linker puts the sections; `text` is the address of each instruction. -/
structure Layout where
  bss : Nat
  gdt64 : Nat
  kernelMain64 : Nat
  text : Nat → Nat
  bss_aligned : bss % 4096 = 0
  bss_end : bss + 28676 ≤ 2 ^ 30
  gdt64_end : gdt64 + 34 ≤ 2 ^ 30
  text_end : text 42 ≤ 2 ^ 30
  ascending : ∀ ⦃i j : Nat⦄, i ≤ j → text i ≤ text j
  gdt64_apart : gdt64 + 34 ≤ bss ∨ bss + 28676 ≤ gdt64
  /-- The stores do not change the code. -/
  text_apart : text 42 ≤ bss ∨ bss + 28676 ≤ text 0

namespace Layout

def pml4 (L : Layout) : Nat := L.bss
def pdpt (L : Layout) : Nat := L.bss + 4096
def pd (L : Layout) : Nat := L.bss + 8192
def stackTop (L : Layout) : Nat := L.bss + 28672
def mbiPtr (L : Layout) : Nat := L.bss + 28672

/-- `_start` up to `.fill_pd`. -/
def start (L : Layout) : List SysInstr :=
  [.movImm .rsp L.stackTop, .store L.mbiPtr .rbx,
    .movImm .rax L.pdpt, .orImm .rax 0x03, .store L.pml4 .rax,
    .movImm .rax L.pd, .orImm .rax 0x03, .store L.pdpt .rax,
    .movImm .rcx 0]

def fillPd (L : Layout) : List SysInstr :=
  [.mov .rax .rcx, .shlImm .rax 21, .orImm .rax 0x83, .storeIndexed L.pd .rcx .rax,
    .inc .rcx, .cmpImm .rcx 512, .jl 9]

/-- The selectors `gdt64.code` and `gdt64.data`. -/
def selCode : Nat := 8
def selData : Nat := 16

def toLongMode (L : Layout) : List SysInstr := [.lgdt (L.gdt64 + 24), .farJmp selCode 30]

/-- `long_mode_start` from the stack on. -/
def toKernel (L : Layout) : List SysInstr :=
  [.movImm64 .rsp L.stackTop, .load .rdi L.mbiPtr, .call L.kernelMain64, .cli, .hlt, .jmp 39]

/-- `boot64.s`. -/
def code (L : Layout) : List (Nat × SysInstr) :=
  (L.start ++ L.fillPd ++ enterLongMode (.movImm .rax L.pml4) ++ L.toLongMode).map
    (Prod.mk 32) ++
    (loadDataSegments selData ++ L.toKernel).map (Prod.mk 64)

def program (L : Layout) : Assembly := ⟨L.code, L.text, L.ascending⟩

end Layout

/-- The words of `gdt64`. -/
def gdt64Code : Nat := 1 <<< 43 ||| 1 <<< 44 ||| 1 <<< 47 ||| 1 <<< 53
def gdt64Data : Nat := 1 <<< 44 ||| 1 <<< 47 ||| 1 <<< 41

/-- `section .rodata` as loaded. -/
structure Rodata (L : Layout) (m : Mem) : Prop where
  code : m.read (L.gdt64 + 8) 8 = gdt64Code
  data : m.read (L.gdt64 + 16) 8 = gdt64Data
  limit : m.read (L.gdt64 + 24) 2 = 23
  base : m.read (L.gdt64 + 26) 8 = L.gdt64

variable {L : Layout} {m m' : Mem}

theorem Rodata.congr (h : Rodata L m) (hagree : m.Agree m' L.gdt64 (L.gdt64 + 34)) :
    Rodata L m' := by
  have hread : ∀ off n, off + n ≤ 34 → m'.read (L.gdt64 + off) n = m.read (L.gdt64 + off) n :=
    fun off n hoff =>
    Mem.read_congr (hagree.mono (Nat.le_add_right _ _) (by omega))
  exact
    { code := (hread 8 8 (by decide)).trans h.code
      data := (hread 16 8 (by decide)).trans h.data
      limit := (hread 24 2 (by decide)).trans h.limit
      base := (hread 26 8 (by decide)).trans h.base }

/-- What `lgdt` takes of `dq gdt64` in 32-bit code. -/
theorem Rodata.base32 (h : Rodata L m) : m.read (L.gdt64 + 26) 4 = L.gdt64 := by
  have hend := L.gdt64_end
  have hbase := h.base
  have hlow := m.read_lt (L.gdt64 + 26) 4
  rw [show 8 = 4 + 4 from rfl, Mem.read_add] at hbase
  omega

/-! ## The tables -/

/-- The tables of an identity map of the first GiB. -/
structure IdentityMap (L : Layout) (m : Mem) : Prop where
  pml4 : m.entry L.pml4 0 = L.pdpt ||| 0x03
  pml4_rest : ∀ i < 512, i ≠ 0 → m.entry L.pml4 i = 0
  pdpt : m.entry L.pdpt 0 = L.pd ||| 0x03
  pdpt_rest : ∀ i < 512, i ≠ 0 → m.entry L.pdpt i = 0
  pd : ∀ i < 512, m.entry L.pd i = i * 2 ^ 21 ||| 0x83

theorem IdentityMap.congr (h : IdentityMap L m) (hagree : m.Agree m' L.bss (L.bss + 12288)) :
    IdentityMap L m' := by
  have hentry : ∀ f i, i < 512 → L.bss ≤ f → f + 4096 ≤ L.bss + 12288 →
      m'.entry f i = m.entry f i := by
    intro f i hi hlo hhi
    exact Mem.entry_congr hi fun x hx => hagree x (Nat.le_trans hlo hx.1)
      (Nat.lt_of_lt_of_le hx.2 hhi)
  have hpml4 : ∀ i < 512, m'.entry L.pml4 i = m.entry L.pml4 i := fun i hi =>
    hentry _ i hi (Nat.le_refl _) (Nat.add_le_add_left (by decide) _)
  have hpdpt : ∀ i < 512, m'.entry L.pdpt i = m.entry L.pdpt i := fun i hi =>
    hentry _ i hi (Nat.le_add_right _ _) (by unfold Layout.pdpt; omega)
  have hpd : ∀ i < 512, m'.entry L.pd i = m.entry L.pd i := fun i hi =>
    hentry _ i hi (Nat.le_add_right _ _) (by unfold Layout.pd; omega)
  exact
    { pml4 := (hpml4 0 (by decide)).trans h.pml4
      pml4_rest := fun i hi hne => (hpml4 i hi).trans (h.pml4_rest i hi hne)
      pdpt := (hpdpt 0 (by decide)).trans h.pdpt
      pdpt_rest := fun i hi hne => (hpdpt i hi).trans (h.pdpt_rest i hi hne)
      pd := fun i hi => (hpd i hi).trans (h.pd i hi) }

/-- **The map.**  The first GiB, one to one, for the kernel only, and nothing else. -/
theorem IdentityMap.translate (h : IdentityMap L m) (a : Nat) :
    translateVa m L.pml4 a = if a < 2 ^ 30 then some ⟨a, ⟨false, true⟩⟩ else none := by
  have hend := L.bss_end
  have haligned := L.bss_aligned
  have hf4 : IsFrame L.pml4 := haligned
  have hf3 : IsFrame L.pdpt := by unfold IsFrame Layout.pdpt; omega
  have hf2 : IsFrame L.pd := by unfold IsFrame Layout.pd; omega
  have hl3 : L.pdpt < 2 ^ 52 := by unfold Layout.pdpt; omega
  have hl2 : L.pd < 2 ^ 52 := by unfold Layout.pd; omega
  unfold translateVa
  rw [frameOf_self hf4 (by unfold Layout.pml4; omega)]
  split
  · rename_i hcanonical
    by_cases h39 : indexAt a 39 = 0
    · have ha39 : a < 2 ^ 39 := (canonical_low_iff a).mp ⟨hcanonical, h39⟩
      rw [walk_link 2 (by rw [h39]; exact h.pml4) hf3 hl3 (by decide) rfl rfl]
      by_cases h30 : indexAt a 30 = 0
      · have ha : a < 2 ^ 30 := by
          unfold indexAt at h30
          omega
        have hindex : indexAt a 21 * 2 ^ 21 + a % 2 ^ 21 = a := by
          unfold indexAt
          omega
        have hlow : indexAt a 21 * 2 ^ 21 < 2 ^ 52 := by omega
        rw [walk_link 1 (by rw [h30]; exact h.pdpt) hf2 hl2 (by decide) rfl rfl,
          walk_large (h.pd _ (indexAt_lt a 21)) (Nat.mul_mod_left _ _) hlow (by decide) rfl rfl,
            hindex, if_pos ha]
        rfl
      · rw [walk_absent 2 (h.pdpt_rest _ (indexAt_lt a 30) h30), if_neg]
        unfold indexAt at h30
        omega
    · rw [walk_absent 3 (h.pml4_rest _ (indexAt_lt a 39) h39), if_neg]
      unfold indexAt at h39
      omega
  · rename_i hnot
    rw [if_neg fun ha => hnot (.inl (by omega))]

/-! ## Filling the tables -/

/-- The page directory after `n` rounds of `.fill_pd`. -/
def filled (L : Layout) (m : Mem) : Nat → Mem
  | 0 => m
  | i + 1 => (filled L m i).write (L.pd + i * 8) 4 (i * 2 ^ 21 ||| 0x83)

/-- The memory when `.fill_pd` begins. -/
def linked (L : Layout) (m : Mem) (mbi : Nat) : Mem :=
  ((m.write L.mbiPtr 4 mbi).write L.pml4 4 (L.pdpt ||| 0x03)).write L.pdpt 4 (L.pd ||| 0x03)

theorem agree_filled (L : Layout) (m : Mem) {k lo hi : Nat}
    (h : hi ≤ L.pd ∨ L.pd + 8 * k ≤ lo) :
    m.Agree (filled L m k) lo hi := by
  induction k with
  | zero => exact Mem.Agree.refl m lo hi
  | succ k ih => exact (ih (by omega)).trans (Mem.agree_write (by omega))

/-- Outside the three words. -/
theorem agree_linked (L : Layout) (m : Mem) (mbi : Nat) {lo hi : Nat}
    (h4 : hi ≤ L.pml4 ∨ L.pml4 + 4 ≤ lo) (h3 : hi ≤ L.pdpt ∨ L.pdpt + 4 ≤ lo)
    (hmbi : hi ≤ L.mbiPtr ∨ L.mbiPtr + 4 ≤ lo) : m.Agree (linked L m mbi) lo hi :=
  ((Mem.agree_write hmbi).trans (Mem.agree_write h4)).trans (Mem.agree_write h3)

theorem read_zero {a n : Nat} (h : ∀ x, a ≤ x → x < a + n → m x = 0) : m.read a n = 0 := by
  induction n generalizing a with
  | zero => rfl
  | succ n ih =>
    rw [Mem.read, h a (Nat.le_refl a) (by omega), ih fun x hlo hhi => h x (by omega) (by omega)]
    rfl

/-- A 32-bit store into a word that was zero. -/
theorem read_low {a v : Nat} (hlow : m.read a 4 = v) (hhigh : m.read (a + 4) 4 = 0) :
    m.read a 8 = v := by
  rw [show 8 = 4 + 4 from rfl, Mem.read_add, hlow, hhigh, Nat.mul_zero, Nat.add_zero]

theorem entry_filled (h : ∀ x, L.pd ≤ x → x < L.pd + 4096 → m x = 0) {k : Nat} :
    k ≤ 512 → ∀ i < k, (filled L m k).entry L.pd i = i * 2 ^ 21 ||| 0x83 := by
  induction k with
  | zero => exact fun _ i hi => absurd hi (Nat.not_lt_zero i)
  | succ k ih =>
    intro hk i hi
    rcases Nat.lt_succ_iff_lt_or_eq.mp hi with hlt | rfl
    · rw [← ih (Nat.le_of_succ_le hk) i hlt]
      exact Mem.read_write_of_disjoint (by omega)
    · have hv : i * 2 ^ 21 ||| 0x83 < 2 ^ 32 := Nat.or_lt_two_pow (by omega) (by decide)
      have haddr : L.pd + 8 * i = L.pd + i * 8 := by rw [Nat.mul_comm]
      unfold Mem.entry filled
      rw [haddr]
      refine read_low (Mem.read_write_of_lt hv) ?_
      rw [Mem.read_write_of_disjoint (.inr (Nat.le_refl _)),
        Mem.read_congr (agree_filled L m (.inr (by omega)))]
      exact read_zero fun x hlo hhi => h x (by omega) (by omega)

/-- `.bss` as loaded. -/
def Cleared (L : Layout) (m : Mem) : Prop := ∀ x, L.bss ≤ x → x < L.bss + 28676 → m x = 0

theorem identityMap_filled (h : Cleared L m) (mbi : Nat) :
    IdentityMap L (filled L (linked L m mbi) 512) := by
  have hend := L.bss_end
  have h3 : L.pdpt = L.bss + 4096 := rfl
  have h4 : L.pml4 = L.bss := rfl
  have h2 : L.pd = L.bss + 8192 := rfl
  have hm : L.mbiPtr = L.bss + 28672 := rfl
  have hpdpt : L.pdpt ||| 0x03 < 2 ^ 32 := Nat.or_lt_two_pow (by omega) (by decide)
  have hpd : L.pd ||| 0x03 < 2 ^ 32 := Nat.or_lt_two_pow (by omega) (by decide)
  -- words of the first two tables that nothing is stored to
  have hzero : ∀ a n, L.bss ≤ a → a + n ≤ L.pd → a ≠ L.pml4 → a ≠ L.pdpt →
      (a + n ≤ L.pdpt ∨ L.pdpt + 4 ≤ a) → L.pml4 + 4 ≤ a →
        (filled L (linked L m mbi) 512).read a n = 0 := by
    intro a n hlo hhi hne4 hne3 hapart habove
    rw [Mem.read_congr (agree_filled L _ (.inl hhi)),
      Mem.read_congr (agree_linked L m mbi (.inr habove) hapart (.inl (by omega)))]
    exact read_zero fun x hx hx' => h x (by omega) (by omega)
  have hlinked : ∀ x, L.pd ≤ x → x < L.pd + 4096 → linked L m mbi x = 0 := by
    have hagree : m.Agree (linked L m mbi) L.pd (L.pd + 4096) :=
      agree_linked L m mbi (.inr (by omega)) (.inr (by omega)) (.inl (by omega))
    intro x hlo hhi
    rw [hagree x hlo hhi]
    exact h x (by omega) (by omega)
  refine ⟨?_, fun i hi hne => ?_, ?_, fun i hi hne => ?_,
    entry_filled hlinked (Nat.le_refl 512)⟩
  · refine read_low ?_ (hzero _ _ (by omega) (by omega) (by omega) (by omega)
      (by omega) (by omega))
    rw [Mem.read_congr (agree_filled L _ (.inl (by omega)))]
    unfold linked
    rw [Mem.read_write_of_disjoint (.inl (by omega)), Nat.mul_zero, Nat.add_zero,
      Mem.read_write_of_lt hpdpt]
  · exact hzero _ _ (by omega) (by omega) (by omega) (by omega) (by omega) (by omega)
  · refine read_low ?_ (hzero _ _ (by omega) (by omega) (by omega) (by omega)
      (by omega) (by omega))
    rw [Mem.read_congr (agree_filled L _ (.inl (by omega)))]
    exact Mem.read_write_of_lt hpd
  · exact hzero _ _ (by omega) (by omega) (by omega) (by omega) (by omega) (by omega)

/-! ## From the boot loader to paging -/

/-- The segments of the boot loader. -/
def flat : Segment := ⟨0, 2 ^ 32 - 1, false, true⟩

/-- What the boot loader hands over. -/
structure Multiboot (L : Layout) (s : Processor) : Prop where
  pc : s.pc = 0
  callee : s.callee = none
  code : s.cs = flat
  data : ∀ r, s.seg r = flat
  protectedMode : s.cr0.testBit 0 = true
  paging : s.cr0.testBit 31 = false
  /-- Nothing has asked for five-level paging. -/
  levels : s.cr4.testBit 12 = false
  interrupts : s.interrupts = false
  bss : Cleared L s.mem
  rodata : Rodata L s.mem

variable {s t : Processor} {Q : Processor → Prop} {k : Nat}

theorem Multiboot.ready (h : Multiboot L s) : Ready L.program 32 (2 ^ 30) s := by
  have hbits : s.bits = 32 := by
    rw [bits_of_not_paging h.paging, h.code]
    rfl
  refine ⟨h.callee, hbits, sees_of_not_paging h.paging _, L.text_end, .inr ?_, .inr ?_⟩
  · rw [h.code]
    exact ⟨Nat.zero_le _, by decide⟩
  · rw [h.data]
    exact ⟨rfl, by decide, by decide⟩

theorem has32 (L : Layout) : L.program.Has 0 32
    (L.start ++ L.fillPd ++ enterLongMode (.movImm .rax L.pml4) ++ L.toLongMode) := ⟨_, rfl⟩

theorem has64 (L : Layout) :
    L.program.Has 30 64 (loadDataSegments Layout.selData ++ L.toKernel) :=
  ⟨[], (List.append_nil _).symm⟩

/-- Round `k` of `.fill_pd` begins, or the last one is over. -/
structure Filling (L : Layout) (s : Processor) (k : Nat) (t : Processor) : Prop where
  ready : Ready L.program 32 (2 ^ 30) t
  seg : t.seg = s.seg
  cs : t.cs = s.cs
  cr0 : t.cr0 = s.cr0
  cr4 : t.cr4 = s.cr4
  interrupts : t.interrupts = s.interrupts
  rcx : t.reg .rcx = k
  mem : t.mem = filled L (linked L s.mem (s.reg .rbx)) k
  pc : t.pc = if k < 512 then 9 else 16

/-- A word that fits, as two operations see it. -/
theorem word_or {v : Nat} (hv : v < 2 ^ 32) (flags : Nat) :
    v % 2 ^ 32 % 2 ^ 32 ||| flags = v ||| flags := by
  rw [Nat.mod_mod, Nat.mod_eq_of_lt hv]

theorem leads_start (h : Multiboot L s) : Leads (step L.program) (Filling L s 0) s := by
  have hend := L.bss_end
  have hcode : L.program.Has s.pc 32 L.start := by
    rw [h.pc]
    exact (has32 L).left.left.left
  have hp : s.paging = false := h.paging
  have h4 : L.pml4 + 4 ≤ 2 ^ 30 := by unfold Layout.pml4; omega
  have h3 : L.pdpt + 4 ≤ 2 ^ 30 := by unfold Layout.pdpt; omega
  have hm : L.mbiPtr + 4 ≤ 2 ^ 30 := by unfold Layout.mbiPtr; omega
  have hpdpt : L.pdpt < 2 ^ 32 := by omega
  have hpd : L.pd < 2 ^ 32 := by unfold Layout.pd; omega
  have R := h.ready
  refine R.sets (hcode.get (k := 0) rfl) rfl fun R => ?_
  refine R.stores (by simpa using hp) (hcode.get (k := 1) rfl)
    (R.next.exec_store _ hm) fun R => ?_
  refine R.sets (hcode.get (k := 2) rfl) rfl fun R => ?_
  refine R.sets (hcode.get (k := 3) rfl) rfl fun R => ?_
  refine R.stores (by simpa using hp) (hcode.get (k := 4) rfl)
    (R.next.exec_store _ h4) fun R => ?_
  refine R.sets (hcode.get (k := 5) rfl) rfl fun R => ?_
  refine R.sets (hcode.get (k := 6) rfl) rfl fun R => ?_
  refine R.stores (by simpa using hp) (hcode.get (k := 7) rfl)
    (R.next.exec_store _ h3) fun R => ?_
  refine R.sets (hcode.get (k := 8) rfl) rfl fun R => ?_
  refine .done ⟨R, rfl, rfl, rfl, rfl, rfl, rfl, ?_, congrArg (· + 9) h.pc⟩
  change ((s.mem.write L.mbiPtr 4 (s.reg .rbx)).write L.pml4 4
    (L.pdpt % 2 ^ 32 % 2 ^ 32 ||| 0x03)).write L.pdpt 4
    (L.pd % 2 ^ 32 % 2 ^ 32 ||| 0x03) = _
  rw [word_or hpdpt, word_or hpd]
  rfl

/-- The entry for 2 MiB page `k`, as `.fill_pd` computes it. -/
theorem page_entry {k : Nat} (hk : k < 512) :
    (k % 2 ^ 32 % 2 ^ 32) <<< 21 % 2 ^ 32 % 2 ^ 32 ||| 0x83 = k * 2 ^ 21 ||| 0x83 := by
  rw [Nat.shiftLeft_eq, Nat.mod_mod, Nat.mod_mod, Nat.mod_eq_of_lt (show k < 2 ^ 32 by omega),
    Nat.mod_eq_of_lt (show k * 2 ^ 21 < 2 ^ 32 by omega)]

theorem leads_round (h : Multiboot L s) (hk : k < 512) (F : Filling L s k t) :
    Leads (step L.program) (Filling L s (k + 1)) t := by
  have hend := L.bss_end
  have hcode : L.program.Has t.pc 32 L.fillPd := by
    rw [F.pc, if_pos hk]
    exact (has32 L).left.left.right
  have hp : t.paging = false := by
    rw [Processor.paging, F.cr0]
    exact h.paging
  have hpd : L.pd + t.reg .rcx * 8 + 4 ≤ 2 ^ 30 := by
    rw [F.rcx]
    unfold Layout.pd
    omega
  have R := F.ready
  refine R.sets (hcode.get (k := 0) rfl) rfl fun R => ?_
  refine R.sets (hcode.get (k := 1) rfl) rfl fun R => ?_
  refine R.sets (hcode.get (k := 2) rfl) rfl fun R => ?_
  refine R.stores (by simpa using hp) (hcode.get (k := 3) rfl)
    (R.next.exec_storeIndexed _ _ hpd) fun R => ?_
  refine R.sets (hcode.get (k := 4) rfl) rfl fun R => ?_
  refine R.branches (hcode.get (k := 5) rfl) (hcode.get (k := 6) rfl)
    fun u hcontext hreg hif hpc R => ?_
  simp only [context, Prod.mk.injEq] at hcontext
  obtain ⟨-, hcs, hseg, hcr0, -, hcr4, -, hmem⟩ := hcontext
  have hrcx : u.reg .rcx = (t.reg .rcx + 1) % 2 ^ 32 := by
    rw [hreg]
    rfl
  have hnext : (k + 1) % 2 ^ 32 = k + 1 := Nat.mod_eq_of_lt (by omega)
  refine .done ⟨R, hseg.trans F.seg, hcs.trans F.cs, hcr0.trans F.cr0, hcr4.trans F.cr4,
    hif.trans F.interrupts, ?_, ?_, ?_⟩
  · rw [hrcx, F.rcx, hnext]
  · refine hmem.trans ?_
    change t.mem.write (L.pd + t.reg .rcx * 8) 4
      ((t.reg .rcx % 2 ^ 32 % 2 ^ 32) <<< 21 % 2 ^ 32 % 2 ^ 32 ||| 0x83) = _
    rw [F.rcx, page_entry hk, F.mem]
    rfl
  · rw [hpc]
    change (if signed32 ((t.reg .rcx + 1) % 2 ^ 32) < signed32 512 then 9 else t.pc + 5 + 2) = _
    rw [F.rcx, hnext, signed32_of_lt (by omega), signed32_of_lt (by decide), F.pc, if_pos hk]
    simp only [Nat.cast_lt]

theorem leads_fillPd (h : Multiboot L s) (F : Filling L s 0 t) :
    Leads (step L.program) (Filling L s 512) t :=
  Leads.loop (fun _ hk _ F => leads_round h hk F) F

theorem Filling.identityMap (h : Multiboot L s) (F : Filling L s 512 t) :
    IdentityMap L t.mem := by
  rw [F.mem]
  exact identityMap_filled h.bss _

/-- Outside `.bss` nothing has been stored to. -/
theorem Filling.agree (F : Filling L s 512 t) {lo hi : Nat}
    (h : hi ≤ L.bss ∨ L.bss + 28676 ≤ lo) :
    s.mem.Agree t.mem lo hi := by
  rw [F.mem]
  refine (agree_linked L s.mem _ ?_ ?_ ?_).trans (agree_filled L _ ?_)
  · unfold Layout.pml4; omega
  · unfold Layout.pdpt; omega
  · unfold Layout.mbiPtr; omega
  · unfold Layout.pd; omega

theorem Filling.rodata (h : Multiboot L s) (F : Filling L s 512 t) : Rodata L t.mem :=
  h.rodata.congr (F.agree L.gdt64_apart)

theorem Filling.mbi (F : Filling L s 512 t) : t.mem.read L.mbiPtr 4 = s.reg .rbx % 2 ^ 32 := by
  have h3 : L.pdpt = L.bss + 4096 := rfl
  have h4 : L.pml4 = L.bss := rfl
  have h2 : L.pd = L.bss + 8192 := rfl
  have hm : L.mbiPtr = L.bss + 28672 := rfl
  rw [F.mem, Mem.read_congr (agree_filled L _ (.inr (by omega)))]
  unfold linked
  rw [Mem.read_write_of_disjoint (.inr (by omega)),
    Mem.read_write_of_disjoint (.inr (by omega)),
    Mem.read_write_same, show 256 ^ 4 = 2 ^ 32 from rfl]

/-! ## The call -/

/-- `kernel_main64` begins: 64-bit code, the pointer to the boot information as its
argument, the stack as the ABI has it, and the identity map. -/
structure AtKernelMain64 (L : Layout) (s t : Processor) : Prop where
  callee : t.callee = some L.kernelMain64
  bits : t.bits = 64
  rdi : t.reg .rdi = s.reg .rbx % 2 ^ 32
  rsp : t.reg .rsp + 8 = L.stackTop
  stack : (t.reg .rsp + 8) % 16 = 0
  ret : t.mem.read (t.reg .rsp) 8 = L.text 39
  data : ∀ r, t.seg r = .ofDescriptor gdt64Data
  interrupts : t.interrupts = false
  map : ∀ a, t.translate a = if a < 2 ^ 30 then some ⟨a, ⟨false, true⟩⟩ else none
  outside : ∀ x, x < L.bss ∨ L.bss + 28676 ≤ x → t.mem x = s.mem x

theorem leads_toKernel (h : Multiboot L s) (F : Filling L s 512 t) {u : Processor}
    (hu : Switched t L.pml4 u) (R : Ready L.program 32 (2 ^ 30) u) :
    Leads (step L.program) (AtKernelMain64 L s) u := by
  have hbss := L.bss_end
  have hgdt := L.gdt64_end
  have hpc : u.pc = 28 := by rw [hu.pc, F.pc, if_neg (by decide)]
  have hcode : L.program.Has u.pc 32 L.toLongMode := by
    rw [hpc]
    exact (has32 L).right
  have hrodata : Rodata L u.mem := by
    rw [hu.beside.mem]
    exact F.rodata h
  have hlabel : L.text 30 < 2 ^ 32 :=
    Nat.lt_of_le_of_lt (Nat.le_trans (L.ascending (by decide)) L.text_end) (by decide)
  refine leads_lgdt R (by decide) (by omega) hrodata.limit hrodata.base32
    (hcode.get (k := 0) rfl) rfl fun v hv R => ?_
  have hprotected : v.cr0.testBit 0 = true :=
    (testBit_cr0_congr hv.control 0).trans hu.protectedMode
  have htable : ∀ sel d, sel % 8 = 0 → sel ≤ 16 → u.mem.read (L.gdt64 + sel) 8 = d →
      InTable v (2 ^ 30) sel d := by
    intro sel d haligned hle hd
    have hsel : sel / 8 * 8 = sel := Nat.div_mul_cancel (Nat.dvd_of_mod_eq_zero haligned)
    refine ⟨haligned, ?_, ?_, ?_⟩
    · rw [hv.gdtLimit]
      omega
    · rw [hv.gdtBase]
      omega
    · rw [hv.gdtBase, hv.mem, hsel]
      exact hd
  have hjump : L.program.code[v.pc]? = some (32, .farJmp Layout.selCode 30) := by
    rw [hv.pc]
    exact hcode.get (k := 1) rfl
  refine leads_farJmp64 R ((longActive_congr hv.control).trans hu.active) hprotected
    (htable 8 gdt64Code rfl (by decide) hrodata.code) (by decide) (by decide) (by decide)
      hlabel hjump fun w hw R => ?_
  have hwprotected : w.cr0.testBit 0 = true := (testBit_cr0_congr hw.control 0).trans hprotected
  have hsegments : L.program.Has w.pc 64 (loadDataSegments Layout.selData) := by
    rw [hw.pc]
    exact (has64 L).left
  refine leads_loadDataSegments R hwprotected (by decide) (by decide)
    ((htable 16 gdt64Data rfl (by decide) hrodata.data).congr hw.gdtBase hw.gdtLimit hw.mem)
      (by decide) (.inl rfl)
    hsegments fun x hx R => ?_
  have htail : L.program.Has x.pc 64 L.toKernel := by
    rw [hx.pc, hw.pc]
    exact (has64 L).right
  have hm : L.mbiPtr + 4 ≤ 2 ^ 30 := by unfold Layout.mbiPtr; omega
  have hmem : x.mem = t.mem := by rw [hx.mem, hw.mem, hv.mem, hu.beside.mem]
  have hcontrol : control x = control u := by rw [hx.control, hw.control, hv.control]
  refine R.sets (htail.get (k := 0) rfl) (if_pos R.next.size) fun R => ?_
  refine R.sets (htail.get (k := 1) rfl) (R.next.exec_load _ hm) fun R => ?_
  have hret : L.text (x.pc + 3) = L.text 39 := by rw [hx.pc, hw.pc]
  have htop : L.stackTop % 2 ^ 64 = L.bss + 28664 + 8 := by unfold Layout.stackTop; omega
  refine leads_call R htop (by omega) (by decide) (htail.get (k := 2) rfl) rfl fun z hz => ?_
  have hzmem : z.mem = t.mem.write (L.bss + 28664) 8 (L.text 39) := by
    rw [hz.mem, ← hmem, ← hret]
    rfl
  have hzcontrol : control z = control u := hz.control.trans hcontrol
  have hstack : ∀ lo hi, hi ≤ L.bss + 28664 ∨ L.bss + 28672 ≤ lo → t.mem.Agree z.mem lo hi := by
    intro lo hi hapart
    rw [hzmem]
    exact Mem.agree_write hapart
  have hmap : IdentityMap L z.mem := (F.identityMap h).congr (hstack _ _ (.inl (by omega)))
  have hrdi : z.reg .rdi = x.mem.read L.mbiPtr 4 := (hz.reg .rdi (by decide)).trans rfl
  have hrsp : z.reg .rsp + 8 = L.stackTop := by rw [hz.rsp, Layout.stackTop]
  have htext : L.text 39 < 256 ^ 8 :=
    Nat.lt_of_le_of_lt (Nat.le_trans (L.ascending (by decide)) L.text_end) (by decide)
  refine
    { callee := hz.callee
      bits := hz.bits
      rdi := by rw [hrdi, hmem, F.mbi]
      rsp := hrsp
      stack := ?_
      ret := by rw [hz.rsp, hzmem, Mem.read_write_of_lt htext]
      data := fun r => (congrFun hz.seg r).trans (congrFun hx.seg r)
      interrupts := hz.interrupts.trans
        (hx.interrupts.trans (hw.interrupts.trans (hv.interrupts.trans
        (hu.beside.interrupts.trans (F.interrupts.trans h.interrupts)))))
      map := fun a => (hu.walks z hzcontrol a).trans (hmap.translate a)
      outside := fun a ha => ?_ }
  · have haligned := L.bss_aligned
    rw [hrsp, Layout.stackTop]
    omega
  · have hfilled : s.mem.Agree t.mem a (a + 1) := F.agree (by omega)
    rw [hstack a (a + 1) (by omega) a (Nat.le_refl a) (Nat.lt_succ_self a)]
    exact hfilled a (Nat.le_refl a) (Nat.lt_succ_self a)

theorem start_calls_kernel_main64 (h : Multiboot L s) :
    Leads (step L.program) (AtKernelMain64 L s) s := by
  refine (leads_start h).trans fun t F => (leads_fillPd h F).trans fun t F => ?_
  have hend := L.bss_end
  have hpc : t.pc = 16 := F.pc.trans (if_neg (by decide))
  have htable : L.pml4 < 2 ^ 32 := by unfold Layout.pml4; omega
  have hcode : L.program.Has t.pc 32 (enterLongMode (.movImm .rax L.pml4)) := by
    rw [hpc]
    exact (has32 L).left.right
  refine leads_enterLongMode F.ready ?_ ?_ ?_ ?_ hcode htable (fun u _ _ => ?_) (fun a ha => ?_)
    fun u hu R => leads_toKernel h F hu R
  · rw [Processor.paging, F.cr0]
    exact h.paging
  · rw [F.cr0]
    exact h.protectedMode
  · rw [F.cs, h.code]
    rfl
  · rw [F.cr4]
    exact h.levels
  · rw [SysInstr.exec, Nat.mod_eq_of_lt htable]
  · refine ⟨⟨false, true⟩, ?_, rfl⟩
    rw [(F.identityMap h).translate, if_pos ha]

/-- An image at 1 MiB. -/
def imageAtMib : Layout where
  bss := 0x102000
  gdt64 := 0x101000
  kernelMain64 := 0x100100
  text i := 0x100000 + 6 * i
  bss_aligned := by decide
  bss_end := by decide
  gdt64_end := by decide
  text_end := by decide
  ascending := fun _ _ h => Nat.add_le_add_left (Nat.mul_le_mul_left 6 h) _
  gdt64_apart := by decide
  text_apart := by decide

/-- Memory after a cold start. -/
def blank : Mem := fun _ => 0

/-- The sections of the image, and zeros. -/
def memoryAtMib : Mem :=
  (((blank.write 0x101008 8 gdt64Code).write 0x101010 8 gdt64Data).write 0x101018 2 23).write
    0x10101A 8 0x101000

/-- A processor that the boot loader has brought there, with its information at 0x9000. -/
def atStart : Processor where
  reg := fun r => if r = .rbx then 0x9000 else 0
  seg := fun _ => flat
  cs := flat
  gdtBase := 0x800
  gdtLimit := 39
  cr0 := 0x11
  cr3 := 0
  cr4 := 0
  efer := 0
  less := false
  interrupts := false
  pc := 0
  callee := none
  mem := memoryAtMib

theorem multiboot_atStart : Multiboot imageAtMib atStart := by
  refine ⟨rfl, rfl, rfl, fun _ => rfl, by decide, by decide, by decide, rfl,
    fun x hlo _ => ?_, ?_⟩
  · have hx : 0x102000 ≤ x := hlo
    change memoryAtMib x = 0
    unfold memoryAtMib
    rw [Mem.write_outside (by omega), Mem.write_outside (by omega),
      Mem.write_outside (by omega), Mem.write_outside (by omega)]
    rfl
  · constructor
    · exact (by decide : memoryAtMib.read 0x101008 8 = gdt64Code)
    · exact (by decide : memoryAtMib.read 0x101010 8 = gdt64Data)
    · exact (by decide : memoryAtMib.read 0x101018 2 = 23)
    · exact (by decide : memoryAtMib.read 0x10101A 8 = 0x101000)

theorem start_calls_kernel_main64_at_mib :
    Leads (step imageAtMib.program) (AtKernelMain64 imageAtMib atStart) atStart :=
  start_calls_kernel_main64 multiboot_atStart

end NekaKernel.Boot
