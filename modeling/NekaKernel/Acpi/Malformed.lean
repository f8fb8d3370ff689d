/-
  Acpi/Malformed.lean --- the walks of `acpi.c` over tables of any content.

  Source: `acpi_find_apic_bases`, `acpi_find_cpus` and `find_madt` in `acpi.c`.

  Nothing in a table is checked before it is used: a walk over the MADT goes on by the
  length byte of each entry, its bound is tested against the first byte of an entry
  only, and the number of pointers in the root table is a difference that may wrap.
  The MADT is taken to lie with the 255 bytes behind it below `2 ^ 64`, so that no
  pointer of a walk overflows.
-/
import NekaKernel.Acpi.Fields

set_option autoImplicit false

namespace NekaKernel.Acpi

open NekaKernel.Foundation NekaKernel.Kernel

/-! ## The end of the walks -/

/-- An entry the walk for the I/O APIC does not get past. -/
def IoApicStuck (m : Mem) (p : Nat) : Prop := m.read p 1 ≠ madtTypeIoApic ∧ m.read (p + 1) 1 = 0

/-- An entry the walk for the processors does not get past: it has no ID for the list. -/
def CpuStuck (m : Mem) (p : Nat) : Prop := entryIds m p = [] ∧ m.read (p + 1) 1 = 0

section Ends

variable {m : Mem} {stop : Nat}

/-- The next entry of a walk. -/
theorem add64_length (hstop : stop + 255 < 2 ^ 64) {p : Nat} (hlt : p < stop) :
    add64 p (m.read (p + 1) 1) = p + m.read (p + 1) 1 := by
  have hbyte : m.read (p + 1) 1 < 256 := Mem.read_lt m (p + 1) 1
  exact add64_of_lt (by omega)

/-- At an entry of no length the walk stays. -/
theorem ioApicLoop_stuck (hstop : stop + 255 < 2 ^ 64) {p : Nat} (hlt : p < stop)
    (hstuck : IoApicStuck m p) :
    ∀ fuel, (ioApicLoop m stop fuel p).value = .hang := by
  intro fuel
  induction fuel with
  | zero => rfl
  | succ fuel ih =>
    rw [ioApicLoop_value hlt, if_neg hstuck.1, add64_length hstop hlt, hstuck.2,
    Nat.add_zero, ih]

/-- And so it does not end if it comes to one. -/
theorem ioApicLoop_hang (hstop : stop + 255 < 2 ^ 64) :
    ∀ {k ptr : Nat}, IoApicVisits m stop ptr k →
    IoApicStuck m (entryFrom m ptr k) → ∀ fuel, (ioApicLoop m stop fuel ptr).value = .hang := by
  intro k
  induction k with
  | zero =>
    intro ptr hvisit hstuck
    exact ioApicLoop_stuck hstop (ioApicVisits_zero.mp hvisit) hstuck
  | succ k ih =>
    intro ptr hvisit hstuck fuel
    obtain ⟨⟨hlt, hother⟩, hrest⟩ := ioApicVisits_succ.mp hvisit
    cases fuel with
    | zero => rfl
    | succ fuel =>
      rw [ioApicLoop_value hlt, if_neg hother]
      exact ih hrest hstuck fuel

/-- Else every iteration goes on by a byte at least. -/
theorem ioApicLoop_ends (hstop : stop + 255 < 2 ^ 64) : ∀ {fuel ptr : Nat}, stop - ptr < fuel →
    (∀ k, IoApicVisits m stop ptr k → ¬ IoApicStuck m (entryFrom m ptr k)) →
      (ioApicLoop m stop fuel ptr).value ≠ .hang := by
  intro fuel
  induction fuel with
  | zero =>
    intro ptr hfuel
    exact absurd hfuel (Nat.not_lt_zero _)
  | succ fuel ih =>
    intro ptr hfuel hfree
    by_cases hlt : ptr < stop
    · rw [ioApicLoop_value hlt]
      split
      · exact nofun
      · rename_i hother
        have hlength : m.read (ptr + 1) 1 ≠ 0 :=
          fun hzero => hfree 0 (ioApicVisits_zero.mpr hlt) ⟨hother, hzero⟩
        have hnext := add64_length (m := m) hstop hlt
        refine ih (by omega) fun k hvisit => ?_
        exact hfree (k + 1) (ioApicVisits_succ.mpr ⟨⟨hlt, hother⟩, hvisit⟩)
    · rw [ioApicLoop_end hlt]
      exact nofun

variable {maxCpus : Int}

theorem cpuLoop_succ_value {ptr fuel : Nat} {found : List Nat}
    (h : ptr < stop ∧ (found.length : Int) < maxCpus) :
    (cpuLoop m stop maxCpus (fuel + 1) ptr found).value =
      (cpuLoop m stop maxCpus fuel (add64 ptr (m.read (ptr + 1) 1))
        (found ++ entryIds m ptr)).value := by
  rw [cpuLoop_value h, newIds_entryIds]

theorem cpuLoop_stuck (hstop : stop + 255 < 2 ^ 64) {p : Nat} {found : List Nat}
    (hgo : p < stop ∧ (found.length : Int) < maxCpus) (hstuck : CpuStuck m p) :
    ∀ fuel, (cpuLoop m stop maxCpus fuel p found).value = .hang := by
  intro fuel
  induction fuel with
  | zero => rfl
  | succ fuel ih =>
    rw [cpuLoop_succ_value hgo, hstuck.1, List.append_nil, add64_length hstop hgo.1, hstuck.2,
      Nat.add_zero, ih]

theorem cpuLoop_hang (hstop : stop + 255 < 2 ^ 64) : ∀ {k ptr : Nat} {found : List Nat},
    CpuVisits m stop maxCpus found.length ptr k → CpuStuck m (entryFrom m ptr k) →
      ∀ fuel, (cpuLoop m stop maxCpus fuel ptr found).value = .hang := by
  intro k
  induction k with
  | zero =>
    intro ptr found hvisit hstuck
    exact cpuLoop_stuck hstop (cpuVisits_zero.mp hvisit) hstuck
  | succ k ih =>
    intro ptr found hvisit hstuck fuel
    obtain ⟨hgo, hrest⟩ := cpuVisits_succ.mp hvisit
    rw [← List.length_append] at hrest
    cases fuel with
    | zero => rfl
    | succ fuel =>
      rw [cpuLoop_succ_value hgo]
      exact ih hrest hstuck fuel

/-- The bytes that are left and the IDs that are still wanted: one of the two falls. -/
theorem cpuLoop_ends (hstop : stop + 255 < 2 ^ 64) : ∀ {fuel ptr : Nat} {found : List Nat},
    stop - ptr + (maxCpus - found.length).toNat < fuel →
    (∀ k, CpuVisits m stop maxCpus found.length ptr k → ¬ CpuStuck m (entryFrom m ptr k)) →
      (cpuLoop m stop maxCpus fuel ptr found).value ≠ .hang := by
  intro fuel
  induction fuel with
  | zero =>
    intro ptr found hfuel
    exact absurd hfuel (Nat.not_lt_zero _)
  | succ fuel ih =>
    intro ptr found hfuel hfree
    by_cases hgo : ptr < stop ∧ (found.length : Int) < maxCpus
    · rw [cpuLoop_succ_value hgo]
      have hnext := add64_length (m := m) hstop hgo.1
      refine ih ?_ fun k hvisit => ?_
      · rw [hnext, List.length_append]
        by_cases hids : entryIds m ptr = []
        · have hlength : m.read (ptr + 1) 1 ≠ 0 :=
            fun hzero => hfree 0 (cpuVisits_zero.mpr hgo) ⟨hids, hzero⟩
          rw [hids, List.length_nil]
          omega
        · have hmore : 0 < (entryIds m ptr).length := List.length_pos_of_ne_nil hids
          omega
      · rw [List.length_append] at hvisit
        exact hfree (k + 1) (cpuVisits_succ.mpr ⟨hgo, hvisit⟩)
    · rw [cpuLoop_end hgo]
      exact nofun

end Ends

section Functions

variable {m : Mem} {gRsdp madt : Nat}

theorem ioApicLoop_ret_or_hang (stop : Nat) : ∀ fuel ptr : Nat,
    (∃ a, (ioApicLoop m stop fuel ptr).value = .ret a) ∨
      (ioApicLoop m stop fuel ptr).value = .hang := by
  intro fuel
  induction fuel with
  | zero =>
    intro ptr
    exact Or.inr rfl
  | succ fuel ih =>
    intro ptr
    by_cases hlt : ptr < stop
    · rw [ioApicLoop_value hlt]
      split
      · exact Or.inl ⟨_, rfl⟩
      · exact ih _
    · rw [ioApicLoop_end hlt]
      exact Or.inl ⟨_, rfl⟩

/-- `acpi_find_apic_bases` ends with its loop. -/
theorem acpiFindApicBases_hang_iff (hfind : (findMadt m gRsdp).value = some madt) :
    (acpiFindApicBases m gRsdp).value = .hang ↔
      (ioApicLoop m (madtStop m madt) loopFuel (madt + madtEntries)).value = .hang := by
  rcases ioApicLoop_ret_or_hang (m := m) (madtStop m madt) loopFuel (madt + madtEntries)
    with ⟨ioapicPa, hloop⟩ | hloop
  · rw [acpiFindApicBases_value hfind hloop, hloop]
    exact ⟨nofun, nofun⟩
  · refine ⟨fun _ => hloop, fun _ => ?_⟩
    unfold acpiFindApicBases
    rw [Traced.bind_value, hfind]
    simp only [Traced.bind_value, load_value]
    rw [← madtStop, hloop]
    rfl

theorem madtStop_eq (hrange : madt + m.read (madt + 4) 4 + 255 < 2 ^ 64) :
    madtStop m madt = madt + m.read (madt + 4) 4 := add64_of_lt (by omega)

/-- **When the walks end.**  That for the I/O APIC ends if and only if no entry before
the first I/O APIC has the length 0; that for the processors if and only if no entry
has it up to the last that is wanted, but for the local APICs that are enabled: one of
these is taken again and again until enough IDs are found. -/
theorem madt_walks_end_iff (hfind : (findMadt m gRsdp).value = some madt)
    (hrange : madt + m.read (madt + 4) 4 + 255 < 2 ^ 64) {maxCpus : Int}
    (hmax : maxCpus < 0x80000000) :
    ((acpiFindApicBases m gRsdp).value ≠ .hang ∧ (acpiFindCpus m gRsdp maxCpus).value ≠ .hang) ↔
      (∀ k, IoApicVisits m (madtStop m madt) (madt + madtEntries) k →
        ¬ IoApicStuck m (entryFrom m (madt + madtEntries) k)) ∧
      ∀ k, CpuVisits m (madtStop m madt) maxCpus 0 (madt + madtEntries) k →
        ¬ CpuStuck m (entryFrom m (madt + madtEntries) k) := by
  have hlength : m.read (madt + 4) 4 < 2 ^ 32 := Mem.read_lt m _ 4
  have hstop : madtStop m madt + 255 < 2 ^ 64 := by
    rw [madtStop_eq hrange]
    exact hrange
  have hfuel : ∀ wanted : Nat, wanted < 2 ^ 31 →
      madtStop m madt - (madt + madtEntries) + wanted < loopFuel := by
    intro wanted hwanted
    rw [madtStop_eq hrange]
    unfold loopFuel
    omega
  rw [ne_eq, ne_eq, acpiFindApicBases_hang_iff hfind, acpiFindCpus_value hfind, ← madtStop]
  refine and_congr ⟨fun h k hvisit hstuck => ?_, fun h => ?_⟩
    ⟨fun h k hvisit hstuck => ?_, fun h => ?_⟩
  · exact h (ioApicLoop_hang hstop hvisit hstuck loopFuel)
  · exact ioApicLoop_ends hstop (hfuel 0 (by decide)) h
  · exact h (cpuLoop_hang hstop hvisit hstuck loopFuel)
  · refine cpuLoop_ends hstop (hfuel _ ?_) h
    rw [List.length_nil]
    omega

/-- The table of two processors: 82 bytes, four entries, and nothing behind them. -/
theorem twoProcessors_entries :
    (twoProcessors 0xF0000 1).read (0xF1000 + 4) 4 = 82 ∧
      (∀ k < 4, (twoProcessors 0xF0000 1).read
          (entryFrom (twoProcessors 0xF0000 1) (0xF1000 + madtEntries) k + 1) 1 ≠ 0 ∧
        entryFrom (twoProcessors 0xF0000 1) (0xF1000 + madtEntries) k + 8 ≤
          madtStop (twoProcessors 0xF0000 1) 0xF1000) ∧
      ¬ entryFrom (twoProcessors 0xF0000 1) (0xF1000 + madtEntries) 4 <
        madtStop (twoProcessors 0xF0000 1) 0xF1000 := by
  decide +kernel

theorem twoProcessors_few {k : Nat} (hinside : Inside (twoProcessors 0xF0000 1)
    (madtStop (twoProcessors 0xF0000 1) 0xF1000) (0xF1000 + madtEntries) k) : k < 4 := by
  by_contra hmany
  exact twoProcessors_entries.2.2 (hinside 4 (Nat.le_of_not_lt hmany))

/-- A table with its entries one behind the other is left after the last. -/
theorem madt_walks_end_two :
    (acpiFindApicBases (twoProcessors 0xF0000 1) 0xE0000).value ≠ .hang ∧
      (acpiFindCpus (twoProcessors 0xF0000 1) 0xE0000 8).value ≠ .hang := by
  obtain ⟨hlength, hentries, -⟩ := twoProcessors_entries
  refine (madt_walks_end_iff findMadt_twoProcessors (by rw [hlength]; decide) (by decide)).mpr
    ⟨fun k hvisit hstuck => ?_, fun k hvisit hstuck => ?_⟩
  · exact (hentries k (twoProcessors_few hvisit.1)).1 hstuck.2
  · exact (hentries k (twoProcessors_few hvisit.1)).1 hstuck.2

end Functions

/-- Two processors, and an entry of type 2 without a length between them. -/
def zeroLength : Mem := (twoProcessors 0xF0000 1).write 0xF1035 1 0

/-- Neither walk gets past that entry. -/
theorem zero_length_hangs :
    (findMadt zeroLength 0xE0000).value = some 0xF1000 ∧
      (acpiFindApicBases zeroLength 0xE0000).value = .hang ∧
        (acpiFindCpus zeroLength 0xE0000 8).value = .hang := by
  have hfind : (findMadt zeroLength 0xE0000).value = some 0xF1000 := by decide +kernel
  have hstop : madtStop zeroLength 0xF1000 + 255 < 2 ^ 64 := by decide +kernel
  have hlast : entryFrom zeroLength (0xF1000 + madtEntries) 1 = 0xF1034 := by decide +kernel
  have hbases : IoApicVisits zeroLength (madtStop zeroLength 0xF1000)
      (0xF1000 + madtEntries) 1 := by
    unfold IoApicVisits Inside
    decide +kernel
  have hcpus : CpuVisits zeroLength (madtStop zeroLength 0xF1000) 8 ([] : List Nat).length
      (0xF1000 + madtEntries) 1 := by
    unfold CpuVisits Inside
    decide +kernel
  refine ⟨hfind, ?_, ?_⟩
  · rw [acpiFindApicBases_hang_iff hfind]
    refine ioApicLoop_hang hstop hbases ?_ loopFuel
    rw [hlast]
    exact ⟨by decide +kernel, by decide +kernel⟩
  · rw [acpiFindCpus_value hfind]
    refine cpuLoop_hang hstop hcpus ?_ loopFuel
    rw [hlast]
    exact ⟨by decide +kernel, by decide +kernel⟩

/-! ## The bytes of the table -/

section Inside

variable {m : Mem} {gRsdp madt : Nat} {maxCpus : Int}

theorem determined_ioApicLoop {stop : Nat} :
    ∀ {fuel ptr : Nat}, Determined fun m => ioApicLoop m stop fuel ptr := by
  intro fuel
  induction fuel with
  | zero =>
    intro ptr
    exact determined_pure _
  | succ fuel ih =>
    intro ptr
    refine Determined.ite _ ((determined_load ptr 1).bind fun type => ?_) (determined_pure _)
    refine Determined.ite _ ((determined_load (ptr + 4) 4).bind fun _ => determined_pure _) ?_
    exact (determined_load (ptr + 1) 1).bind fun _ => ih

theorem determined_newIds (ptr type : Nat) : Determined fun m => newIds m ptr type := by
  refine Determined.ite _ ((determined_load (ptr + 4) 4).bind fun flags => ?_)
    (determined_pure _)
  exact Determined.ite _ ((determined_load (ptr + 3) 1).bind fun _ => determined_pure _)
    (determined_pure _)

theorem determined_cpuLoop {stop : Nat} : ∀ {fuel ptr : Nat} {found : List Nat},
    Determined fun m => cpuLoop m stop maxCpus fuel ptr found := by
  intro fuel
  induction fuel with
  | zero =>
    intro ptr found
    exact determined_pure _
  | succ fuel ih =>
    intro ptr found
    refine Determined.ite _ ((determined_load ptr 1).bind fun type => ?_) (determined_pure _)
    exact (determined_newIds ptr type).bind fun new =>
      (determined_load (ptr + 1) 1).bind fun _ => ih

variable {stop lo ptr p : Nat}

/-- The bytes of an entry that the walk for the I/O APIC reads. -/
def ioApicNeeds (m : Mem) (p : Nat) : Nat := if m.read p 1 = madtTypeIoApic then 8 else 2

/-- The bytes of an entry that the walk for the processors reads. -/
def cpuNeeds (m : Mem) (p : Nat) : Nat := if m.read p 1 = madtTypeLocalApic then 8 else 2

theorem ioApicReads_inside_iff (hlo : lo ≤ p) :
    (∀ x n, IoApicReads m p x n → lo ≤ x ∧ x + n ≤ stop) ↔ p + ioApicNeeds m p ≤ stop := by
  unfold ioApicNeeds IoApicReads
  by_cases htype : m.read p 1 = madtTypeIoApic
  · rw [if_pos htype]
    constructor
    · intro h
      have hlast := (h (p + 4) 4 (Or.inr (Or.inl ⟨htype, rfl, rfl⟩))).2
      omega
    · rintro hle x n (⟨rfl, rfl⟩ | ⟨-, rfl, rfl⟩ | ⟨hother, -, -⟩)
      · exact ⟨hlo, by omega⟩
      · exact ⟨by omega, by omega⟩
      · exact absurd htype hother
  · rw [if_neg htype]
    constructor
    · intro h
      have hlast := (h (p + 1) 1 (Or.inr (Or.inr ⟨htype, rfl, rfl⟩))).2
      omega
    · rintro hle x n (⟨rfl, rfl⟩ | ⟨hio, -, -⟩ | ⟨-, rfl, rfl⟩)
      · exact ⟨hlo, by omega⟩
      · exact absurd hio htype
      · exact ⟨by omega, by omega⟩

theorem cpuReads_inside_iff (hlo : lo ≤ p) :
    (∀ x n, CpuReads m p x n → lo ≤ x ∧ x + n ≤ stop) ↔ p + cpuNeeds m p ≤ stop := by
  unfold cpuNeeds CpuReads
  by_cases htype : m.read p 1 = madtTypeLocalApic
  · rw [if_pos htype]
    constructor
    · intro h
      have hlast := (h (p + 4) 4 (Or.inr (Or.inl ⟨htype, rfl, rfl⟩))).2
      omega
    · rintro hle x n (⟨rfl, rfl⟩ | ⟨-, rfl, rfl⟩ | ⟨-, -, rfl, rfl⟩ | ⟨rfl, rfl⟩)
      · exact ⟨hlo, by omega⟩
      · exact ⟨by omega, by omega⟩
      · exact ⟨by omega, by omega⟩
      · exact ⟨by omega, by omega⟩
  · rw [if_neg htype]
    constructor
    · intro h
      have hlast := (h (p + 1) 1 (Or.inr (Or.inr (Or.inr ⟨rfl, rfl⟩)))).2
      omega
    · rintro hle x n (⟨rfl, rfl⟩ | ⟨hlocal, -, -⟩ | ⟨hlocal, -⟩ | ⟨rfl, rfl⟩)
      · exact ⟨hlo, by omega⟩
      · exact absurd hlocal htype
      · exact absurd hlocal htype
      · exact ⟨by omega, by omega⟩

/-- What is visited is visited after no more iterations than there are bytes before it. -/
theorem ioApicVisits_early (hstop : stop + 255 < 2 ^ 64) :
    ∀ {k ptr : Nat}, IoApicVisits m stop ptr k →
    ∃ j, j + ptr ≤ entryFrom m ptr k ∧ IoApicVisits m stop ptr j ∧
      entryFrom m ptr j = entryFrom m ptr k := by
  intro k
  induction k with
  | zero =>
    intro ptr hvisit
    exact ⟨0, Nat.le_of_eq (Nat.zero_add ptr), hvisit, rfl⟩
  | succ k ih =>
    intro ptr hvisit
    obtain ⟨⟨hlt, hother⟩, hrest⟩ := ioApicVisits_succ.mp hvisit
    obtain ⟨j, hj, hearly, hsame⟩ := ih hrest
    have hnext := add64_length (m := m) hstop hlt
    by_cases hzero : m.read (ptr + 1) 1 = 0
    · -- the entry has no length: the walk from it is the walk behind it
      have hstay : add64 ptr (m.read (ptr + 1) 1) = ptr := by rw [hnext, hzero, Nat.add_zero]
      rw [hstay] at hj hearly hsame
      rw [entryFrom, hstay]
      exact ⟨j, hj, hearly, hsame⟩
    · refine ⟨j + 1, ?_, ioApicVisits_succ.mpr ⟨⟨hlt, hother⟩, hearly⟩, hsame⟩
      rw [entryFrom]
      omega

theorem CpuVisits.mono {found found' k : Nat} (h : CpuVisits m stop maxCpus found ptr k)
    (hle : found' ≤ found) :
    CpuVisits m stop maxCpus found' ptr k := by
  refine ⟨h.1, fun j hj => ?_⟩
  have hroom := h.2 j hj
  omega

theorem cpuVisits_early (hstop : stop + 255 < 2 ^ 64) : ∀ {k ptr found : Nat},
    CpuVisits m stop maxCpus found ptr k →
      ∃ j, j + ptr ≤ entryFrom m ptr k ∧ CpuVisits m stop maxCpus found ptr j ∧
        entryFrom m ptr j = entryFrom m ptr k := by
  intro k
  induction k with
  | zero =>
    intro ptr found hvisit
    exact ⟨0, Nat.le_of_eq (Nat.zero_add ptr), hvisit, rfl⟩
  | succ k ih =>
    intro ptr found hvisit
    obtain ⟨hgo, hrest⟩ := cpuVisits_succ.mp hvisit
    obtain ⟨j, hj, hearly, hsame⟩ := ih hrest
    have hnext := add64_length (m := m) hstop hgo.1
    by_cases hzero : m.read (ptr + 1) 1 = 0
    · have hstay : add64 ptr (m.read (ptr + 1) 1) = ptr := by rw [hnext, hzero, Nat.add_zero]
      rw [hstay] at hj hearly hsame
      rw [entryFrom, hstay]
      exact ⟨j, hj, hearly.mono (Nat.le_add_right _ _), hsame⟩
    · refine ⟨j + 1, ?_, cpuVisits_succ.mpr ⟨hgo, hearly⟩, hsame⟩
      rw [entryFrom]
      omega

theorem ioApicLoop_behind (hstop : stop + 255 < 2 ^ 64) {fuel x n : Nat}
    (hx : (x, n) ∈ (ioApicLoop m stop fuel ptr).reads) : ptr ≤ x := by
  obtain ⟨k, -, hvisit, hread⟩ := mem_ioApicLoop_reads.mp hx
  obtain ⟨j, hj, -, -⟩ := ioApicVisits_early hstop hvisit
  unfold IoApicReads at hread
  omega

theorem cpuLoop_behind (hstop : stop + 255 < 2 ^ 64) {fuel x n : Nat} {found : List Nat}
    (hx : (x, n) ∈ (cpuLoop m stop maxCpus fuel ptr found).reads) : ptr ≤ x := by
  obtain ⟨k, -, hvisit, hread⟩ := mem_cpuLoop_reads.mp hx
  obtain ⟨j, hj, -, -⟩ := cpuVisits_early hstop hvisit
  unfold CpuReads at hread
  omega

/-- The loop for the I/O APIC stays below its end if and only if every entry it comes to
does, as far as its type has it read. -/
theorem ioApicLoop_inside_iff (hstop : stop + 255 < 2 ^ 64) {fuel : Nat}
    (hfuel : stop - ptr < fuel) :
    (∀ x n, (x, n) ∈ (ioApicLoop m stop fuel ptr).reads → ptr ≤ x ∧ x + n ≤ stop) ↔
      ∀ k, IoApicVisits m stop ptr k →
        entryFrom m ptr k + ioApicNeeds m (entryFrom m ptr k) ≤ stop := by
  constructor
  · intro h k hvisit
    obtain ⟨j, hj, hearly, hsame⟩ := ioApicVisits_early hstop hvisit
    have hlt : entryFrom m ptr k < stop := hvisit.1 k (Nat.le_refl k)
    have hbehind : ptr ≤ entryFrom m ptr k := by omega
    rw [← ioApicReads_inside_iff hbehind, ← hsame]
    exact fun x n hread => h x n (mem_ioApicLoop_reads.mpr ⟨j, by omega, hearly, hread⟩)
  · intro h x n hx
    obtain ⟨k, -, hvisit, hread⟩ := mem_ioApicLoop_reads.mp hx
    obtain ⟨j, hj, -, -⟩ := ioApicVisits_early hstop hvisit
    exact (ioApicReads_inside_iff (by omega)).mpr (h k hvisit) x n hread

theorem cpuLoop_inside_iff (hstop : stop + 255 < 2 ^ 64) {fuel : Nat}
    (hfuel : stop - ptr < fuel) :
    (∀ x n, (x, n) ∈ (cpuLoop m stop maxCpus fuel ptr []).reads → ptr ≤ x ∧ x + n ≤ stop) ↔
      ∀ k, CpuVisits m stop maxCpus 0 ptr k →
        entryFrom m ptr k + cpuNeeds m (entryFrom m ptr k) ≤ stop := by
  constructor
  · intro h k hvisit
    obtain ⟨j, hj, hearly, hsame⟩ := cpuVisits_early hstop hvisit
    have hlt : entryFrom m ptr k < stop := hvisit.1 k (Nat.le_refl k)
    have hbehind : ptr ≤ entryFrom m ptr k := by omega
    rw [← cpuReads_inside_iff hbehind, ← hsame]
    exact fun x n hread => h x n (mem_cpuLoop_reads.mpr ⟨j, by omega, hearly, hread⟩)
  · intro h x n hx
    obtain ⟨k, -, hvisit, hread⟩ := mem_cpuLoop_reads.mp hx
    obtain ⟨j, hj, -, -⟩ := cpuVisits_early hstop hvisit
    exact (cpuReads_inside_iff (by omega)).mpr (h k hvisit) x n hread

/-! ### The functions -/

/-- The loads of a function behind its search for the MADT. -/
def behindSearch {α : Type} (m : Mem) (gRsdp : Nat) (t : Traced α) : List (Nat × Nat) :=
  t.reads.drop (findMadt m gRsdp).reads.length

/-- All loads but that of the header's length are from the table. -/
def StaysInside (m : Mem) (madt : Nat) (reads : List (Nat × Nat)) : Prop :=
  ∀ x n, (x, n) ∈ reads → (x, n) ≠ (madt + 4, 4) → madt ≤ x ∧ x + n ≤ madt + m.read (madt + 4) 4

/-- `acpi_find_cpus` behind `find_madt`. -/
def cpusBehind (maxCpus : Int) (madt : Nat) (m : Mem) : Traced (Exit (List Nat)) := do
  let length ← load m (madt + 4) 4
  cpuLoop m (add64 madt length) maxCpus loopFuel (madt + madtEntries) []

/-- `acpi_find_apic_bases` behind `find_madt`. -/
def basesBehind (madt : Nat) (m : Mem) : Traced (Exit ApicBases) := do
  let lapicPa ← load m (madt + 36) 4
  let length ← load m (madt + 4) 4
  match ← ioApicLoop m (add64 madt length) loopFuel (madt + madtEntries) with
  | .ret ioapicPa => return .ret ⟨ioapicPa != 0, some (lapicPa, ioapicPa)⟩
  | _ => return .hang

theorem acpiFindCpus_behind (hfind : (findMadt m gRsdp).value = some madt) :
    (acpiFindCpus m gRsdp maxCpus).value = (cpusBehind maxCpus madt m).value ∧
      behindSearch m gRsdp (acpiFindCpus m gRsdp maxCpus) =
        (cpusBehind maxCpus madt m).reads := by
  unfold behindSearch acpiFindCpus
  rw [Traced.bind_value, Traced.bind_reads, List.drop_left, hfind]
  exact ⟨rfl, rfl⟩

theorem acpiFindApicBases_behind (hfind : (findMadt m gRsdp).value = some madt) :
    (acpiFindApicBases m gRsdp).value = (basesBehind madt m).value ∧
      behindSearch m gRsdp (acpiFindApicBases m gRsdp) = (basesBehind madt m).reads := by
  unfold behindSearch acpiFindApicBases
  rw [Traced.bind_value, Traced.bind_reads, List.drop_left, hfind]
  exact ⟨rfl, rfl⟩

theorem determined_cpusBehind : Determined (cpusBehind maxCpus madt) :=
  (determined_load (madt + 4) 4).bind fun _ => determined_cpuLoop

theorem determined_basesBehind : Determined (basesBehind madt) := by
  refine (determined_load (madt + 36) 4).bind fun lapicPa => ?_
  refine (determined_load (madt + 4) 4).bind fun length =>
    determined_ioApicLoop.bind fun exit => ?_
  cases exit with
  | ret ioapicPa => exact determined_pure _
  | panic category code => exact determined_pure _
  | hang => exact determined_pure _

theorem cpusBehind_reads : (cpusBehind maxCpus madt m).reads =
    (madt + 4, 4) :: (cpuLoop m (madtStop m madt) maxCpus loopFuel (madt + madtEntries)
      []).reads := rfl

theorem basesBehind_reads : (basesBehind madt m).reads =
    (madt + 36, 4) :: (madt + 4, 4) ::
      (ioApicLoop m (madtStop m madt) loopFuel (madt + madtEntries)).reads := by
  have hstored : ∀ e : Traced (Exit Nat), (e >>= fun exit => match exit with
      | .ret ioapicPa =>
        (pure (.ret ⟨ioapicPa != 0, some (m.read (madt + 36) 4, ioapicPa)⟩) : Traced
          (Exit ApicBases))
      | _ => pure .hang).reads = e.reads := by
    intro e
    rw [Traced.bind_reads]
    cases e.value <;> exact List.append_nil _
  unfold basesBehind
  rw [Traced.bind_reads, Traced.bind_reads, load_reads, load_reads, load_value, load_value,
    List.singleton_append, List.singleton_append, ← madtStop]
  exact congrArg _ (congrArg _ (hstored _))

/-- Behind the length field, the table's loads are those of the loop. -/
theorem staysInside_cons_length {reads : List (Nat × Nat)} :
    StaysInside m madt ((madt + 4, 4) :: reads) ↔ StaysInside m madt reads := by
  constructor
  · intro h x n hx
    exact h x n (List.mem_cons_of_mem _ hx)
  · intro h x n hx hother
    exact h x n ((List.mem_cons.mp hx).resolve_left hother) hother

theorem staysInside_iff {reads : List (Nat × Nat)}
    (hlo : ∀ x n, (x, n) ∈ reads → madt + madtEntries ≤ x)
    (hrange : madt + m.read (madt + 4) 4 + 255 < 2 ^ 64) :
    StaysInside m madt reads ↔ ∀ x n, (x, n) ∈ reads → madt + madtEntries ≤ x ∧
    x + n ≤ madtStop m madt := by
  rw [madtStop_eq hrange]
  constructor
  · intro h x n hx
    have hbehind : madt + 44 ≤ x := hlo x n hx
    refine ⟨hbehind, (h x n hx fun heq => ?_).2⟩
    have hfield : x = madt + 4 := congrArg Prod.fst heq
    omega
  · intro h x n hx _
    have hinside : madt + 44 ≤ x ∧ _ := h x n hx
    exact ⟨by omega, hinside.2⟩

theorem staysInside_cons {x n : Nat} {reads : List (Nat × Nat)}
    (hother : (x, n) ≠ (madt + 4, 4)) :
    StaysInside m madt ((x, n) :: reads) ↔
      (madt ≤ x ∧ x + n ≤ madt + m.read (madt + 4) 4) ∧ StaysInside m madt reads := by
  constructor
  · intro h
    exact ⟨h x n List.mem_cons_self hother, fun y k hy => h y k (List.mem_cons_of_mem _ hy)⟩
  · rintro ⟨hfirst, hrest⟩ y k hy hyother
    rcases List.mem_cons.mp hy with heq | hy
    · obtain ⟨rfl, rfl⟩ := Prod.mk.inj heq
      exact hfirst
    · exact hrest y k hy hyother

/-- Where the loads stay inside, the program depends on the table's bytes alone. -/
theorem eq_of_staysInside {α : Type} {t : Mem → Traced α} {m' : Mem} (ht : Determined t)
    (h : StaysInside m madt (t m).reads) (hheader : 8 ≤ m.read (madt + 4) 4)
    (hagree : Mem.Agree m m' madt (madt + m.read (madt + 4) 4)) : t m' = t m := by
  refine ht m m' fun x n hx => Mem.read_congr ?_
  by_cases hfield : (x, n) = (madt + 4, 4)
  · obtain ⟨rfl, rfl⟩ := Prod.mk.inj hfield
    exact hagree.mono (by omega) (by omega)
  · obtain ⟨hlo, hhi⟩ := h x n hx hfield
    exact hagree.mono hlo hhi

/-- **When the walks stay inside the table.**  The header has its address field, and
every entry that is come to has its first two bytes, or its first eight if it is of
the type that is looked for, before the end of the table.  Then what is found depends
on the bytes of the table alone. -/
theorem madt_reads_inside_iff (hfind : (findMadt m gRsdp).value = some madt)
    (hrange : madt + m.read (madt + 4) 4 + 255 < 2 ^ 64) :
    (StaysInside m madt (behindSearch m gRsdp (acpiFindApicBases m gRsdp)) ∧
      StaysInside m madt (behindSearch m gRsdp (acpiFindCpus m gRsdp maxCpus)) ∧
      ∀ m', (findMadt m' gRsdp).value = some madt →
        Mem.Agree m m' madt (madt + m.read (madt + 4) 4) →
        (acpiFindApicBases m' gRsdp).value = (acpiFindApicBases m gRsdp).value ∧
        (acpiFindCpus m' gRsdp maxCpus).value = (acpiFindCpus m gRsdp maxCpus).value) ↔
      40 ≤ m.read (madt + 4) 4 ∧
      (∀ k, IoApicVisits m (madtStop m madt) (madt + madtEntries) k →
        entryFrom m (madt + madtEntries) k + ioApicNeeds m
          (entryFrom m (madt + madtEntries) k) ≤ madtStop m madt) ∧
      ∀ k, CpuVisits m (madtStop m madt) maxCpus 0 (madt + madtEntries) k →
        entryFrom m (madt + madtEntries) k + cpuNeeds m (entryFrom m (madt + madtEntries) k) ≤
          madtStop m madt := by
  have hlength : m.read (madt + 4) 4 < 2 ^ 32 := Mem.read_lt m _ 4
  have hstop : madtStop m madt + 255 < 2 ^ 64 := by
    rw [madtStop_eq hrange]
    exact hrange
  have hfuel : madtStop m madt - (madt + madtEntries) < loopFuel := by
    rw [madtStop_eq hrange]
    unfold loopFuel
    omega
  have hother : (madt + 36, 4) ≠ (madt + 4, 4) := fun heq => by
    have hfield : madt + 36 = madt + 4 := congrArg Prod.fst heq
    omega
  have hbases : StaysInside m madt (basesBehind madt m).reads ↔ 40 ≤ m.read (madt + 4) 4 ∧
      ∀ k, IoApicVisits m (madtStop m madt) (madt + madtEntries) k →
        entryFrom m (madt + madtEntries) k + ioApicNeeds m
          (entryFrom m (madt + madtEntries) k) ≤ madtStop m madt := by
    rw [basesBehind_reads, staysInside_cons hother, staysInside_cons_length,
      staysInside_iff (fun x n hx => ioApicLoop_behind hstop hx) hrange,
        ioApicLoop_inside_iff hstop hfuel]
    exact and_congr_left fun _ => ⟨fun h => by omega, fun h => ⟨by omega, by omega⟩⟩
  have hcpus : StaysInside m madt (cpusBehind maxCpus madt m).reads ↔
      ∀ k, CpuVisits m (madtStop m madt) maxCpus 0 (madt + madtEntries) k →
        entryFrom m (madt + madtEntries) k + cpuNeeds m (entryFrom m (madt + madtEntries) k) ≤
          madtStop m madt := by
    rw [cpusBehind_reads, staysInside_cons_length,
      staysInside_iff (fun x n hx => cpuLoop_behind hstop hx) hrange,
      cpuLoop_inside_iff hstop hfuel]
  rw [(acpiFindApicBases_behind hfind).2, (acpiFindCpus_behind hfind).2,
    ← and_assoc (a := 40 ≤ _), ← hbases, ← hcpus]
  refine ⟨fun h => ⟨h.1, h.2.1⟩, fun ⟨h, h'⟩ => ⟨h, h', fun m' hfind' hagree => ?_⟩⟩
  have hheader : 8 ≤ m.read (madt + 4) 4 := Nat.le_trans (by decide) (hbases.mp h).1
  rw [(acpiFindApicBases_behind hfind).1, (acpiFindApicBases_behind hfind').1,
    (acpiFindCpus_behind hfind).1,
    (acpiFindCpus_behind hfind').1, eq_of_staysInside determined_basesBehind h hheader hagree,
    eq_of_staysInside determined_cpusBehind h' hheader hagree]
  exact ⟨rfl, rfl⟩

/-- The table of two processors, whole. -/
theorem madt_reads_inside_two :
    StaysInside (twoProcessors 0xF0000 1) 0xF1000
      (behindSearch (twoProcessors 0xF0000 1) 0xE0000
        (acpiFindApicBases (twoProcessors 0xF0000 1) 0xE0000)) ∧
      StaysInside (twoProcessors 0xF0000 1) 0xF1000
        (behindSearch (twoProcessors 0xF0000 1) 0xE0000
        (acpiFindCpus (twoProcessors 0xF0000 1) 0xE0000 8)) := by
  obtain ⟨hlength, hentries, -⟩ := twoProcessors_entries
  have hneeds : ∀ p, ioApicNeeds (twoProcessors 0xF0000 1) p ≤ 8 ∧
      cpuNeeds (twoProcessors 0xF0000 1) p ≤ 8 := by
    intro p
    unfold ioApicNeeds cpuNeeds
    constructor <;> split <;> decide
  have hinside :=
    (@madt_reads_inside_iff _ _ _ 8 findMadt_twoProcessors (by rw [hlength]; decide)).mpr
    ⟨by rw [hlength]; decide, fun k hvisit => ?_, fun k hvisit => ?_⟩
  · exact ⟨hinside.1, hinside.2.1⟩
  · have hlast := (hentries k (twoProcessors_few hvisit.1)).2
    have hbytes := (hneeds (entryFrom (twoProcessors 0xF0000 1) (0xF1000 + madtEntries) k)).1
    omega
  · have hlast := (hentries k (twoProcessors_few hvisit.1)).2
    have hbytes := (hneeds (entryFrom (twoProcessors 0xF0000 1) (0xF1000 + madtEntries) k)).2
    omega

end Inside

/-- The table of two processors, with the last entry cut after its first byte. -/
def cutShort : Mem := (twoProcessors 0xF0000 1).write 0xF1004 4 75

/-- Its ID is read behind the table: over another byte there, another ID is found. -/
theorem cut_entry_read_outside :
    (findMadt cutShort 0xE0000).value = some 0xF1000 ∧
      ¬ StaysInside cutShort 0xF1000
        (behindSearch cutShort 0xE0000 (acpiFindCpus cutShort 0xE0000 8)) ∧
      Mem.Agree cutShort (cutShort.write 0xF104D 1 9) 0xF1000
        (0xF1000 + cutShort.read 0xF1004 4) ∧
      (acpiFindCpus cutShort 0xE0000 8).value = .ret [0, 1] ∧
      (acpiFindCpus (cutShort.write 0xF104D 1 9) 0xE0000 8).value = .ret [0, 9] := by
  have hlength : cutShort.read 0xF1004 4 = 75 := by decide +kernel
  have hread : (0xF104D, 1) ∈ behindSearch cutShort 0xE0000
    (acpiFindCpus cutShort 0xE0000 8) := by decide +kernel
  refine ⟨by decide +kernel, fun h => ?_, ?_, by decide +kernel, by decide +kernel⟩
  · have hinside := (h _ _ hread (by decide)).2
    rw [hlength] at hinside
    exact absurd hinside (by decide)
  · rw [hlength]
    exact Mem.agree_write (by decide)

/-! ## The pointers of the root table -/

section Root

variable {m : Mem} {gRsdp : Nat} {root : Nat × Nat}

/-- The loads of `find_madt` from the RSDP. -/
def rsdpLoads (m : Mem) (gRsdp : Nat) : List (Nat × Nat) :=
  (gRsdp + 15, 1) :: ((if 2 ≤ m.read (gRsdp + 15) 1 then [(gRsdp + 24, 8)] else []) ++
    if 2 ≤ m.read (gRsdp + 15) 1 ∧ m.read (gRsdp + 24) 8 ≠ 0 then [] else [(gRsdp + 16, 4)])

/-- They are of its fields. -/
theorem rsdpLoads_inside {x n : Nat} (hx : (x, n) ∈ rsdpLoads m gRsdp) :
    gRsdp ≤ x ∧ x + n ≤ gRsdp + 36 := by
  rcases List.mem_cons.mp hx with heq | hx
  · obtain ⟨rfl, rfl⟩ := Prod.mk.inj heq
    omega
  · rcases List.mem_append.mp hx with hx | hx
    · split at hx
      · obtain ⟨rfl, rfl⟩ := Prod.mk.inj (List.mem_singleton.mp hx)
        omega
      · cases hx
    · split at hx
      · cases hx
      · obtain ⟨rfl, rfl⟩ := Prod.mk.inj (List.mem_singleton.mp hx)
        omega

/-- The pointers of an RSDT have 4 bytes, those of an XSDT 8. -/
theorem rootTable_width (m : Mem) (gRsdp : Nat) :
    (rootTable m gRsdp).2 = 4 ∨ (rootTable m gRsdp).2 = 8 := by
  unfold rootTable
  split
  · exact Or.inr rfl
  · exact Or.inl rfl

section Count

variable {length width : Nat}

/-- A length that covers the header gives the number of whole pointers behind it. -/
theorem entryCount_of_le (hlength : length < 2 ^ 32) (h : sizeofSdtHeader ≤ length) :
    entryCount length width = (length - sizeofSdtHeader) / width := by
  have hquot := Nat.div_le_self (length - sizeofSdtHeader) width
  unfold entryCount
  rw [sub64_of_le h (by omega), Nat.mod_eq_of_lt (by omega)]

/-- The difference of a shorter one wraps, and all but a few of the values of a
`uint32_t` are left. -/
theorem entryCount_of_lt (hwidth : width = 4 ∨ width = 8) (h : length < sizeofSdtHeader) :
    2 ^ 32 - 9 ≤ entryCount length width := by
  unfold entryCount sub64
  unfold sizeofSdtHeader at h ⊢
  rcases hwidth with rfl | rfl <;> omega

end Count

/-- The pointers that are loaded are those that are followed. -/
theorem mem_scanRoot_pointer {i : Nat} (hwidth : root.2 = 4 ∨ root.2 = 8) :
    (root.1 + sizeofSdtHeader + root.2 * i, root.2) ∈ (scanRoot m root.1 root.2).reads ↔
      Follows m root i := by
  obtain ⟨count, hcount, -, hreads⟩ := scanRoot_scan (m := m) root.1 root.2
  rw [hreads, List.mem_cons, mem_scanTables_reads]
  constructor
  · rintro (heq | ⟨j, hlo, hhi, hnone, ⟨hx, -⟩ | ⟨k, -, -, hn, -⟩⟩)
    · have hfield : root.1 + 36 + root.2 * i = root.1 + 4 := congrArg Prod.fst heq
      omega
    · have hj : root.2 * i = root.2 * j := Nat.add_left_cancel hx
      obtain rfl : i = j := Nat.eq_of_mul_eq_mul_left (by omega) hj
      exact ((follows_iff hcount).mp ⟨hlo, hhi, hnone, trivial⟩).1
    · omega
  · intro hfollows
    obtain ⟨hlo, hhi, hnone, -⟩ := (follows_iff hcount).mpr ⟨hfollows, trivial⟩
    exact Or.inr ⟨i, hlo, hhi, hnone, Or.inl ⟨rfl, rfl⟩⟩

/-- **When the pointers are read inside the root table.**  Behind the loads from the
RSDP the search reads the table that is used.  Its pointers lie within the length of the
table, and there are no more of them than fit, if and only if that length covers the
header. -/
theorem root_scan_inside_iff (hrsdp : gRsdp ≠ 0) (hroot : rootTable m gRsdp = root) :
    (findMadt m gRsdp).reads = rsdpLoads m gRsdp ++ (scanRoot m root.1 root.2).reads ∧
      (∀ x n, (x, n) ∈ rsdpLoads m gRsdp → gRsdp ≤ x ∧ x + n ≤ gRsdp + 36) ∧
      (((∀ i, (root.1 + sizeofSdtHeader + root.2 * i, root.2) ∈
        (scanRoot m root.1 root.2).reads →
          root.1 + sizeofSdtHeader + root.2 * i + root.2 ≤ root.1 + m.read (root.1 + 4) 4) ∧
        entryCount (m.read (root.1 + 4) 4) root.2 ≤
          (m.read (root.1 + 4) 4 - sizeofSdtHeader) / root.2) ↔
          sizeofSdtHeader ≤ m.read (root.1 + 4) 4) := by
  have hwidth : root.2 = 4 ∨ root.2 = 8 := by
    rw [← hroot]
    exact rootTable_width m gRsdp
  have hlength : m.read (root.1 + 4) 4 < 2 ^ 32 := Mem.read_lt m _ 4
  refine ⟨?_, fun x n => rsdpLoads_inside, ?_, fun hcovers => ?_⟩
  · rw [(findMadt_root hrsdp).2, ← List.append_assoc, hroot]
    rfl
  · rintro ⟨-, hfew⟩
    by_contra hshort
    have hmany := entryCount_of_lt hwidth (Nat.lt_of_not_le hshort)
    rw [Nat.sub_eq_zero_of_le (Nat.le_of_not_le hshort), Nat.zero_div] at hfew
    omega
  · have hcount : entryCount (m.read (root.1 + 4) 4) root.2 =
        (m.read (root.1 + 4) 4 - sizeofSdtHeader) / root.2 :=
      entryCount_of_le hlength hcovers
    refine ⟨fun i hread => ?_, Nat.le_of_eq hcount⟩
    have hi := ((mem_scanRoot_pointer hwidth).mp hread).1
    have hfits := Nat.mul_le_of_le_div _ _ _ (Nat.le_trans hi (Nat.le_of_eq hcount))
    rw [Nat.succ_mul, Nat.mul_comm] at hfits
    omega

/-- An RSDT of 40 bytes has one pointer, and that is all that is read of them. -/
theorem root_scan_inside_one :
    rootTable (twoProcessors 0xF0000 1) 0xE0000 = (0xF0000, 4) ∧
      ∀ i, (0xF0024 + 4 * i, 4) ∈ (scanRoot (twoProcessors 0xF0000 1) 0xF0000 4).reads →
        0xF0024 + 4 * i + 4 ≤ 0xF0000 + 40 := by
  have hroot : rootTable (twoProcessors 0xF0000 1) 0xE0000 = (0xF0000, 4) := by decide +kernel
  have hlength : (twoProcessors 0xF0000 1).read (0xF0000 + 4) 4 = 40 := by decide +kernel
  have hinside := ((root_scan_inside_iff (by decide) hroot).2.2.mpr (by rw [hlength]; decide)).1
  rw [hlength] at hinside
  exact ⟨hroot, hinside⟩

end Root

/-- The machine of two processors with an RSDT whose length field is 35. -/
def shortRoot : Mem := (twoProcessors 0xF0000 1).write 0xF0004 4 35

/-- Its first pointer is read behind the table, as the first of nearly `2 ^ 32`. -/
theorem short_root_read_outside :
    rootTable shortRoot 0xE0000 = (0xF0000, 4) ∧ shortRoot.read 0xF0004 4 = 35 ∧
      (0xF0024, 4) ∈ (findMadt shortRoot 0xE0000).reads ∧ ¬ 0xF0024 + 4 ≤ 0xF0000 + 35 ∧
      entryCount 35 4 = 2 ^ 32 - 1 := by
  refine ⟨by decide +kernel, by decide +kernel, by decide +kernel, by decide, by decide +kernel⟩

end NekaKernel.Acpi
