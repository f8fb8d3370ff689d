/-
  Acpi/Fields.lean --- which fields of the firmware's tables are read.

  Source: `find_madt`, `acpi_find_apic_bases` and `acpi_find_cpus` in `acpi.c`.

  The fields are described from the tables alone: the pointers of the root table up to
  the first that leads to a MADT, the signatures of these tables as far as they agree
  with `"APIC"`, and the entries of the MADT in the order of their lengths.  A load is
  made if and only if its field is one of them.
-/
import NekaKernel.Acpi.Madt

set_option autoImplicit false

namespace NekaKernel.Acpi

open NekaKernel.Foundation NekaKernel.Kernel

/-! ## The search for the MADT -/

/-- The root table that is used, and the width of its pointers: the XSDT where there
is one, else the RSDT. -/
def rootTable (m : Mem) (gRsdp : Nat) : Nat × Nat :=
  if 2 ≤ m.read (gRsdp + 15) 1 ∧ m.read (gRsdp + 24) 8 ≠ 0 then (m.read (gRsdp + 24) 8, 8)
  else (m.read (gRsdp + 16) 4, 4)

/-- The table that pointer `i` of a root table leads to. -/
def tableAt (m : Mem) (root : Nat × Nat) (i : Nat) : Nat :=
  m.read (root.1 + sizeofSdtHeader + root.2 * i) root.2

/-- The first `n` bytes at `t` are those of `"APIC"`. -/
def SignaturePrefix (m : Mem) (t n : Nat) : Prop :=
  ∀ l < n, ∀ c, madtSignature[l]? = some c → m.read (t + l) 1 = c

/-- A MADT is at `t`. -/
def IsMadt (m : Mem) (t : Nat) : Prop := ∀ k c, madtSignature[k]? = some c →
    m.read (t + k) 1 = c

/-- Pointer `i` of the root table is followed: no pointer before it leads to a MADT. -/
def Follows (m : Mem) (root : Nat × Nat) (i : Nat) : Prop :=
  i < entryCount (m.read (root.1 + 4) 4) root.2 ∧ ∀ j < i, ¬ IsMadt m (tableAt m root j)

/-- The fields the search reads, by their addresses and sizes. -/
inductive SearchField (m : Mem) (gRsdp : Nat) : Nat → Nat → Prop
  | revision : SearchField m gRsdp (gRsdp + 15) 1
  | xsdtAddress (h : 2 ≤ m.read (gRsdp + 15) 1) : SearchField m gRsdp (gRsdp + 24) 8
  | rsdtAddress (h : ¬ (2 ≤ m.read (gRsdp + 15) 1 ∧ m.read (gRsdp + 24) 8 ≠ 0)) :
      SearchField m gRsdp (gRsdp + 16) 4
  | length : SearchField m gRsdp ((rootTable m gRsdp).1 + 4) 4
  | pointer (i : Nat) (h : Follows m (rootTable m gRsdp) i) :
      SearchField m gRsdp ((rootTable m gRsdp).1 + sizeofSdtHeader + (rootTable m gRsdp).2 * i)
        (rootTable m gRsdp).2
  | signature (i k : Nat) (h : Follows m (rootTable m gRsdp) i) (hk : k < 4)
      (hagrees : SignaturePrefix m (tableAt m (rootTable m gRsdp) i) k) :
      SearchField m gRsdp (tableAt m (rootTable m gRsdp) i + k) 1

/-- The MADT the search ends at.  A table at address 0 is taken for none. -/
def LeadsTo (m : Mem) (gRsdp madt : Nat) : Prop :=
  ∃ i, Follows m (rootTable m gRsdp) i ∧ IsMadt m (tableAt m (rootTable m gRsdp) i) ∧
    madt = tableAt m (rootTable m gRsdp) i ∧ madt ≠ 0

section Search

variable {m : Mem} {gRsdp : Nat} {root : Nat × Nat} {x n : Nat}

theorem isMadt_iff (t : Nat) : (startsWith m t madtSignature).value = true ↔ IsMadt m t :=
  startsWith_value

theorem nonNull_eq_some {t madt : Nat} : nonNull t = some madt ↔ madt = t ∧ madt ≠ 0 := by
  unfold nonNull
  split
  · rename_i hzero
    exact ⟨nofun, fun ⟨heq, hne⟩ => absurd (heq.trans hzero) hne⟩
  · rename_i hne
    refine ⟨?_, fun ⟨heq, _⟩ => congrArg some heq.symm⟩
    rintro ⟨⟩
    exact ⟨rfl, hne⟩

/-- One pointer. -/
theorem scanTables_succ_value (left i : Nat) :
    (scanTables m (root.1 + sizeofSdtHeader) root.2 (left + 1) i).value =
      if (startsWith m (tableAt m root i) madtSignature).value = true then
        nonNull (tableAt m root i)
      else (scanTables m (root.1 + sizeofSdtHeader) root.2 left (i + 1)).value := by
  rw [scanTables, Traced.bind_value]
  exact Traced.bind_ite_value (startsWith m (tableAt m root i) madtSignature) (· = true) _ _

theorem scanTables_succ_reads (left i : Nat) :
    (scanTables m (root.1 + sizeofSdtHeader) root.2 (left + 1) i).reads =
      (root.1 + sizeofSdtHeader + root.2 * i, root.2) ::
        ((startsWith m (tableAt m root i) madtSignature).reads ++
        if (startsWith m (tableAt m root i) madtSignature).value = true then []
        else (scanTables m (root.1 + sizeofSdtHeader) root.2 left (i + 1)).reads) := by
  rw [scanTables, Traced.bind_reads]
  exact congrArg _ (Traced.bind_ite_reads (startsWith m (tableAt m root i) madtSignature)
    (· = true) _ _)

/-- No table from `i` up to `j` is a MADT. -/
def NoneBefore (m : Mem) (root : Nat × Nat) (i j : Nat) : Prop :=
  ∀ l, i ≤ l → l < j → ¬ IsMadt m (tableAt m root l)

theorem NoneBefore.cons {i j : Nat} (hfirst : ¬ IsMadt m (tableAt m root i))
    (h : NoneBefore m root (i + 1) j) :
    NoneBefore m root i j := by
  intro l hlo hhi
  rcases Nat.eq_or_lt_of_le hlo with rfl | hlater
  · exact hfirst
  · exact h l hlater hhi

/-- The loop of `find_madt` ends at the first table that is a MADT. -/
theorem scanTables_value {madt : Nat} : ∀ {left i : Nat},
    (scanTables m (root.1 + sizeofSdtHeader) root.2 left i).value = some madt ↔
      ∃ j, i ≤ j ∧ j < i + left ∧ NoneBefore m root i j ∧ IsMadt m (tableAt m root j) ∧
        madt = tableAt m root j ∧ madt ≠ 0 := by
  intro left
  induction left with
  | zero =>
    intro i
    constructor
    · exact nofun
    · rintro ⟨j, hlo, hhi, -⟩
      omega
  | succ left ih =>
    intro i
    rw [scanTables_succ_value]
    by_cases hfirst : IsMadt m (tableAt m root i)
    · rw [if_pos ((isMadt_iff _).mpr hfirst)]
      constructor
      · intro h
        obtain ⟨rfl, hne⟩ := nonNull_eq_some.mp h
        exact ⟨i, Nat.le_refl _, by omega, fun l _ _ => by omega, hfirst, rfl, hne⟩
      · rintro ⟨j, hlo, -, hnone, -, rfl, hne⟩
        rcases Nat.eq_or_lt_of_le hlo with rfl | hlater
        · exact nonNull_eq_some.mpr ⟨rfl, hne⟩
        · exact absurd hfirst (hnone i (Nat.le_refl _) hlater)
    · rw [if_neg fun h => hfirst ((isMadt_iff _).mp h), ih]
      constructor
      · rintro ⟨j, hlo, hhi, hnone, hfound⟩
        exact ⟨j, by omega, by omega, hnone.cons hfirst, hfound⟩
      · rintro ⟨j, hlo, hhi, hnone, hmadt, heq⟩
        have hlater : i ≠ j := by
          rintro rfl
          exact hfirst hmadt
        exact ⟨j, by omega, by omega, fun l hl => hnone l (by omega), hmadt, heq⟩

/-- What the loop of `find_madt` reads at pointer `j`. -/
def PointerReads (m : Mem) (root : Nat × Nat) (j x n : Nat) : Prop :=
  (x = root.1 + sizeofSdtHeader + root.2 * j ∧ n = root.2) ∨
    ∃ k < 4, x = tableAt m root j + k ∧ n = 1 ∧ SignaturePrefix m (tableAt m root j) k

theorem mem_scanTables_reads : ∀ {left i : Nat},
    (x, n) ∈ (scanTables m (root.1 + sizeofSdtHeader) root.2 left i).reads ↔
      ∃ j, i ≤ j ∧ j < i + left ∧ NoneBefore m root i j ∧ PointerReads m root j x n := by
  intro left
  induction left with
  | zero =>
    intro i
    constructor
    · exact nofun
    · rintro ⟨j, hlo, hhi, -⟩
      omega
  | succ left ih =>
    intro i
    have hhere : (x, n) = (root.1 + sizeofSdtHeader + root.2 * i, root.2) ∨
        (x, n) ∈ (startsWith m (tableAt m root i) madtSignature).reads ↔
          PointerReads m root i x n := by
      rw [mem_startsWith_reads, Prod.mk.injEq]
      rfl
    rw [scanTables_succ_reads, List.mem_cons, List.mem_append, ← or_assoc, hhere]
    constructor
    · rintro (h | h)
      · exact ⟨i, Nat.le_refl _, by omega, fun l _ _ => by omega, h⟩
      · split at h
        · cases h
        · rename_i hfirst
          obtain ⟨j, hlo, hhi, hnone, hreads⟩ := ih.mp h
          exact ⟨j, by omega, by omega,
            hnone.cons fun hm => hfirst ((isMadt_iff _).mpr hm), hreads⟩
    · rintro ⟨j, hlo, hhi, hnone, hreads⟩
      rcases Nat.eq_or_lt_of_le hlo with rfl | hlater
      · exact Or.inl hreads
      · right
        rw [if_neg fun h => hnone i (Nat.le_refl _) hlater ((isMadt_iff _).mp h)]
        exact ih.mpr ⟨j, hlater, by omega, fun l hl => hnone l (by omega), hreads⟩

/-- `find_madt` behind its test for the XSDT. -/
theorem findMadt_value_eq (hrsdp : gRsdp ≠ 0) {xsdt : Traced Nat}
    (hxsdt : xsdtAddress m gRsdp (m.read (gRsdp + 15) 1) = xsdt) :
    (findMadt m gRsdp).value =
      if xsdt.value ≠ 0 then (scanRoot m xsdt.value 8).value
      else (scanRoot m (m.read (gRsdp + 16) 4) 4).value := by
  subst hxsdt
  have htest := Traced.bind_ite_value (xsdtAddress m gRsdp (m.read (gRsdp + 15) 1)) (· ≠ 0)
    (fun xsdt => scanRoot m xsdt 8) fun _ => load m (gRsdp + 16) 4 >>= fun rsdt =>
      scanRoot m rsdt 4
  rw [findMadt, if_neg hrsdp, Traced.bind_value, load_value, htest,
    Traced.bind_value, load_value]

theorem findMadt_reads_eq (hrsdp : gRsdp ≠ 0) {xsdt : Traced Nat}
    (hxsdt : xsdtAddress m gRsdp (m.read (gRsdp + 15) 1) = xsdt) :
    (findMadt m gRsdp).reads = (gRsdp + 15, 1) :: (xsdt.reads ++
      if xsdt.value ≠ 0 then (scanRoot m xsdt.value 8).reads
      else (gRsdp + 16, 4) :: (scanRoot m (m.read (gRsdp + 16) 4) 4).reads) := by
  subst hxsdt
  have htest := Traced.bind_ite_reads (xsdtAddress m gRsdp (m.read (gRsdp + 15) 1)) (· ≠ 0)
    (fun xsdt => scanRoot m xsdt 8) fun _ => load m (gRsdp + 16) 4 >>= fun rsdt =>
      scanRoot m rsdt 4
  rw [findMadt, if_neg hrsdp, Traced.bind_reads, load_value, load_reads, htest,
    Traced.bind_reads, load_value, load_reads, List.singleton_append, List.singleton_append]

/-- `find_madt` searches the root table that is used. -/
theorem findMadt_root (hrsdp : gRsdp ≠ 0) :
    (findMadt m gRsdp).value = (scanRoot m (rootTable m gRsdp).1 (rootTable m gRsdp).2).value ∧
    (findMadt m gRsdp).reads =
      (gRsdp + 15, 1) :: ((if 2 ≤ m.read (gRsdp + 15) 1 then [(gRsdp + 24, 8)] else []) ++
        ((if 2 ≤ m.read (gRsdp + 15) 1 ∧ m.read (gRsdp + 24) 8 ≠ 0 then []
          else [(gRsdp + 16, 4)]) ++
          (scanRoot m (rootTable m gRsdp).1 (rootTable m gRsdp).2).reads)) := by
  unfold rootTable
  by_cases hrevision : 2 ≤ m.read (gRsdp + 15) 1
  · have hxsdt : xsdtAddress m gRsdp (m.read (gRsdp + 15) 1) = load m (gRsdp + 24) 8 :=
      if_pos hrevision
    rw [findMadt_value_eq hrsdp hxsdt, findMadt_reads_eq hrsdp hxsdt, load_value, load_reads,
      if_pos hrevision]
    by_cases hused : m.read (gRsdp + 24) 8 ≠ 0
    · rw [if_pos hused, if_pos hused, if_pos ⟨hrevision, hused⟩, if_pos ⟨hrevision, hused⟩,
        List.nil_append]
      exact ⟨rfl, rfl⟩
    · have hnot : ¬ (2 ≤ m.read (gRsdp + 15) 1 ∧ m.read (gRsdp + 24) 8 ≠ 0) :=
        fun h => hused h.2
      rw [if_neg hused, if_neg hused, if_neg hnot, if_neg hnot, List.singleton_append]
      exact ⟨rfl, rfl⟩
  · have hxsdt : xsdtAddress m gRsdp (m.read (gRsdp + 15) 1) = pure 0 := if_neg hrevision
    have hzero : ¬ (0 ≠ 0) := fun h => h rfl
    have hnot : ¬ (2 ≤ m.read (gRsdp + 15) 1 ∧ m.read (gRsdp + 24) 8 ≠ 0) :=
      fun h => hrevision h.1
    rw [findMadt_value_eq hrsdp hxsdt, findMadt_reads_eq hrsdp hxsdt, Traced.pure_value,
      Traced.pure_reads,
      if_neg hrevision, if_neg hzero, if_neg hzero, if_neg hnot, if_neg hnot,
        List.singleton_append]
    exact ⟨rfl, rfl⟩

/-- The loop of `find_madt` over a root table; `count` stands for `entries`, whose
value the proofs must not compute. -/
theorem scanRoot_scan (root width : Nat) :
    ∃ count, count = entryCount (m.read (root + 4) 4) width ∧
    (scanRoot m root width).value =
      (scanTables m (root + sizeofSdtHeader) width count 0).value ∧
    (scanRoot m root width).reads =
      (root + 4, 4) :: (scanTables m (root + sizeofSdtHeader) width count 0).reads := by
  have hvalue : ∀ e : Nat → Nat, (load m (root + 4) 4 >>= fun length =>
      scanTables m (root + sizeofSdtHeader) width (e length) 0).value =
        (scanTables m (root + sizeofSdtHeader) width (e (m.read (root + 4) 4)) 0).value :=
          fun _ => rfl
  have hreads : ∀ e : Nat → Nat, (load m (root + 4) 4 >>= fun length =>
      scanTables m (root + sizeofSdtHeader) width (e length) 0).reads =
        (root + 4, 4) :: (scanTables m (root + sizeofSdtHeader) width (e (m.read (root + 4) 4))
          0).reads := fun _ => rfl
  unfold scanRoot
  exact ⟨_, rfl, hvalue fun length => entryCount length width,
    hreads fun length => entryCount length width⟩

/-- A pointer the loop comes to is one that is followed. -/
theorem follows_iff {i count : Nat} (hcount : count = entryCount (m.read (root.1 + 4) 4) root.2)
    {P : Prop} :
    (0 ≤ i ∧ i < 0 + count ∧ NoneBefore m root 0 i ∧ P) ↔ Follows m root i ∧ P := by
  unfold Follows NoneBefore
  rw [← hcount]
  constructor
  · rintro ⟨-, hlt, hnone, h⟩
    exact ⟨⟨by omega, fun j hj => hnone j (Nat.zero_le _) hj⟩, h⟩
  · rintro ⟨⟨hlt, hnone⟩, h⟩
    exact ⟨Nat.zero_le _, by omega, fun j _ hj => hnone j hj, h⟩

theorem findMadt_null (m : Mem) : findMadt m 0 = pure none := if_pos rfl

/-- **The MADT that is found.** -/
theorem findMadt_value {madt : Nat} : (findMadt m gRsdp).value = some madt ↔
    gRsdp ≠ 0 ∧ LeadsTo m gRsdp madt := by
  by_cases hrsdp : gRsdp = 0
  · rw [hrsdp, findMadt_null, Traced.pure_value]
    exact ⟨nofun, fun h => absurd rfl h.1⟩
  · obtain ⟨count, hcount, hvalue, -⟩ :=
      scanRoot_scan (m := m) (rootTable m gRsdp).1 (rootTable m gRsdp).2
    have hscan : (findMadt m gRsdp).value = some madt ↔ LeadsTo m gRsdp madt := by
      rw [(findMadt_root hrsdp).1, hvalue, scanTables_value]
      exact exists_congr fun i => follows_iff hcount
    rw [hscan]
    exact ⟨fun h => ⟨hrsdp, h⟩, And.right⟩

/-- **The fields that are read.** -/
theorem mem_findMadt_reads : (x, n) ∈ (findMadt m gRsdp).reads ↔
    gRsdp ≠ 0 ∧ SearchField m gRsdp x n := by
  by_cases hrsdp : gRsdp = 0
  · rw [hrsdp, findMadt_null, Traced.pure_reads]
    exact ⟨nofun, fun h => absurd rfl h.1⟩
  · obtain ⟨count, hcount, -, hreads⟩ :=
      scanRoot_scan (m := m) (rootTable m gRsdp).1 (rootTable m gRsdp).2
    have hscan : (x, n) ∈ (scanRoot m (rootTable m gRsdp).1 (rootTable m gRsdp).2).reads ↔
        (x = (rootTable m gRsdp).1 + 4 ∧ n = 4) ∨
          ∃ i, Follows m (rootTable m gRsdp) i ∧ PointerReads m (rootTable m gRsdp) i x n := by
      rw [hreads, List.mem_cons, Prod.mk.injEq, mem_scanTables_reads]
      exact or_congr_right (exists_congr fun i => follows_iff hcount)
    rw [(findMadt_root hrsdp).2, List.mem_cons, List.mem_append, List.mem_append, hscan,
      Prod.mk.injEq]
    refine ⟨?_, ?_⟩
    · rintro (⟨rfl, rfl⟩ | h | h | ⟨rfl, rfl⟩ | ⟨i, hfollows,
        ⟨rfl, rfl⟩ | ⟨k, hk, rfl, rfl, hagrees⟩⟩)
      · exact ⟨hrsdp, .revision⟩
      · split at h
        · rename_i hrevision
          obtain ⟨rfl, rfl⟩ := Prod.mk.inj (List.mem_singleton.mp h)
          exact ⟨hrsdp, .xsdtAddress hrevision⟩
        · cases h
      · split at h
        · cases h
        · rename_i hrsdt
          obtain ⟨rfl, rfl⟩ := Prod.mk.inj (List.mem_singleton.mp h)
          exact ⟨hrsdp, .rsdtAddress hrsdt⟩
      · exact ⟨hrsdp, .length⟩
      · exact ⟨hrsdp, .pointer i hfollows⟩
      · exact ⟨hrsdp, .signature i k hfollows hk hagrees⟩
    · rintro ⟨-, hfield⟩
      cases hfield with
      | revision => exact Or.inl ⟨rfl, rfl⟩
      | xsdtAddress h =>
        rw [if_pos h]
        exact Or.inr (Or.inl (by simp))
      | rsdtAddress h =>
        rw [if_neg h]
        exact Or.inr (Or.inr (Or.inl (by simp)))
      | length => exact Or.inr (Or.inr (Or.inr (Or.inl ⟨rfl, rfl⟩)))
      | pointer i h => exact Or.inr (Or.inr (Or.inr (Or.inr ⟨i, h, Or.inl ⟨rfl, rfl⟩⟩)))
      | signature i k h hk hagrees =>
        exact Or.inr (Or.inr (Or.inr (Or.inr ⟨i, h, Or.inr ⟨k, hk, rfl, rfl, hagrees⟩⟩)))

end Search

/-! ## The entries of the MADT -/

/-- The address of entry `k` from `ptr` on, going on by the length bytes. -/
def entryFrom (m : Mem) (ptr : Nat) : Nat → Nat
  | 0 => ptr
  | k + 1 => entryFrom m (add64 ptr (m.read (ptr + 1) 1)) k

/-- The first `k` entries from `ptr` on, and the next one, begin before `stop`. -/
def Inside (m : Mem) (stop ptr k : Nat) : Prop := ∀ j ≤ k, entryFrom m ptr j < stop

/-- The loop for the I/O APIC comes to entry `k`: none before it is one. -/
def IoApicVisits (m : Mem) (stop ptr k : Nat) : Prop :=
  Inside m stop ptr k ∧ ∀ j < k, m.read (entryFrom m ptr j) 1 ≠ madtTypeIoApic

/-- What it reads there. -/
def IoApicReads (m : Mem) (p x n : Nat) : Prop :=
  (x = p ∧ n = 1) ∨
  (m.read p 1 = madtTypeIoApic ∧ x = p + 4 ∧ n = 4) ∨
    (m.read p 1 ≠ madtTypeIoApic ∧ x = p + 1 ∧ n = 1)

/-- The ID that an entry adds to the list: that of a local APIC which is enabled. -/
def entryIds (m : Mem) (p : Nat) : List Nat :=
  if m.read p 1 = madtTypeLocalApic ∧ (m.read (p + 4) 4).testBit 0 = true then
    [m.read (p + 3) 1] else []

/-- The IDs in the first `k` entries from `ptr` on. -/
def idsBefore (m : Mem) (ptr : Nat) : Nat → List Nat
  | 0 => []
  | k + 1 => entryIds m ptr ++ idsBefore m (add64 ptr (m.read (ptr + 1) 1)) k

/-- The loop for the processors, which has `found` IDs at `ptr`, comes to entry `k`. -/
def CpuVisits (m : Mem) (stop : Nat) (maxCpus : Int) (found ptr k : Nat) : Prop :=
  Inside m stop ptr k ∧ ∀ j ≤ k, ((found + (idsBefore m ptr j).length : Nat) : Int) < maxCpus

/-- What it reads there. -/
def CpuReads (m : Mem) (p x n : Nat) : Prop :=
  (x = p ∧ n = 1) ∨
  (m.read p 1 = madtTypeLocalApic ∧ x = p + 4 ∧ n = 4) ∨
  (m.read p 1 = madtTypeLocalApic ∧ (m.read (p + 4) 4).testBit 0 = true ∧ x = p + 3 ∧ n = 1) ∨
  (x = p + 1 ∧ n = 1)

section Entries

variable {m : Mem} {stop ptr x n : Nat}

theorem inside_succ {k : Nat} :
    Inside m stop ptr (k + 1) ↔ ptr < stop ∧
    Inside m stop (add64 ptr (m.read (ptr + 1) 1)) k := by
  constructor
  · intro h
    exact ⟨h 0 (by omega), fun j hj => h (j + 1) (by omega)⟩
  · rintro ⟨hfirst, hrest⟩ j hj
    cases j with
    | zero => exact hfirst
    | succ j => exact hrest j (by omega)

theorem inside_zero : Inside m stop ptr 0 ↔ ptr < stop := by
  constructor
  · intro h
    exact h 0 (Nat.le_refl 0)
  · intro h j hj
    obtain rfl : j = 0 := Nat.le_zero.mp hj
    exact h

theorem ioApicVisits_zero : IoApicVisits m stop ptr 0 ↔ ptr < stop := by
  unfold IoApicVisits
  rw [inside_zero]
  exact and_iff_left fun j hj => absurd hj (Nat.not_lt_zero j)

theorem ioApicVisits_succ {k : Nat} :
    IoApicVisits m stop ptr (k + 1) ↔
      (ptr < stop ∧ m.read ptr 1 ≠ madtTypeIoApic) ∧
        IoApicVisits m stop (add64 ptr (m.read (ptr + 1) 1)) k := by
  unfold IoApicVisits
  rw [inside_succ]
  constructor
  · rintro ⟨⟨hlt, hinside⟩, hnone⟩
    exact ⟨⟨hlt, hnone 0 (Nat.succ_pos k)⟩, hinside,
      fun j hj => hnone (j + 1) (Nat.succ_lt_succ hj)⟩
  · rintro ⟨⟨hlt, hother⟩, hinside, hnone⟩
    refine ⟨⟨hlt, hinside⟩, fun j hj => ?_⟩
    cases j with
    | zero => exact hother
    | succ j => exact hnone j (Nat.lt_of_succ_lt_succ hj)

theorem cpuVisits_zero {maxCpus : Int} {found : Nat} :
    CpuVisits m stop maxCpus found ptr 0 ↔ ptr < stop ∧ (found : Int) < maxCpus := by
  unfold CpuVisits
  rw [inside_zero]
  refine and_congr_right fun _ => ⟨fun h => h 0 (Nat.le_refl 0), fun h j hj => ?_⟩
  obtain rfl : j = 0 := Nat.le_zero.mp hj
  exact h

theorem cpuVisits_succ {maxCpus : Int} {found k : Nat} :
    CpuVisits m stop maxCpus found ptr (k + 1) ↔ (ptr < stop ∧ (found : Int) < maxCpus) ∧
      CpuVisits m stop maxCpus (found + (entryIds m ptr).length)
        (add64 ptr (m.read (ptr + 1) 1)) k := by
  have hcount : ∀ j, found + (idsBefore m ptr (j + 1)).length =
    found + (entryIds m ptr).length +
      (idsBefore m (add64 ptr (m.read (ptr + 1) 1)) j).length := by
    intro j
    rw [idsBefore, List.length_append, Nat.add_assoc]
  unfold CpuVisits
  rw [inside_succ]
  constructor
  · rintro ⟨⟨hlt, hinside⟩, hroom⟩
    refine ⟨⟨hlt, hroom 0 (Nat.zero_le _)⟩, hinside, fun j hj => ?_⟩
    rw [← hcount]
    exact hroom (j + 1) (Nat.succ_le_succ hj)
  · rintro ⟨⟨hlt, hfirst⟩, hinside, hroom⟩
    refine ⟨⟨hlt, hinside⟩, fun j hj => ?_⟩
    cases j with
    | zero => exact hfirst
    | succ j =>
      rw [hcount]
      exact hroom j (Nat.le_of_succ_le_succ hj)

theorem ioApicLoop_succ_reads (fuel : Nat) :
    (ioApicLoop m stop (fuel + 1) ptr).reads =
      if ptr < stop then
        (ptr, 1) :: if m.read ptr 1 = madtTypeIoApic then [(ptr + 4, 4)]
          else (ptr + 1, 1) :: (ioApicLoop m stop fuel (add64 ptr (m.read (ptr + 1) 1))).reads
      else [] := by
  rw [ioApicLoop]
  by_cases hlt : ptr < stop
  · rw [if_pos hlt, if_pos hlt]
    exact Traced.bind_ite_reads (load m ptr 1) (· = madtTypeIoApic) _ _
  · rw [if_neg hlt, if_neg hlt]
    rfl

/-- What is read at an entry, and that the loop goes on behind it. -/
theorem mem_ioApicLoop_succ_reads (fuel : Nat) :
    (x, n) ∈ (ioApicLoop m stop (fuel + 1) ptr).reads ↔
      ptr < stop ∧ (IoApicReads m ptr x n ∨ m.read ptr 1 ≠ madtTypeIoApic ∧
        (x, n) ∈ (ioApicLoop m stop fuel (add64 ptr (m.read (ptr + 1) 1))).reads) := by
  rw [ioApicLoop_succ_reads]
  unfold IoApicReads
  by_cases hlt : ptr < stop
  · by_cases htype : m.read ptr 1 = madtTypeIoApic
    · simp [hlt, htype]
    · simp [hlt, htype, or_assoc]
  · simp [hlt]

/-- **The loop of `acpi_find_apic_bases`.** -/
theorem mem_ioApicLoop_reads : ∀ {fuel ptr : Nat},
    (x, n) ∈ (ioApicLoop m stop fuel ptr).reads ↔
      ∃ k < fuel, IoApicVisits m stop ptr k ∧ IoApicReads m (entryFrom m ptr k) x n := by
  intro fuel
  induction fuel with
  | zero =>
    intro ptr
    exact ⟨nofun, fun ⟨k, hk, _⟩ => absurd hk (Nat.not_lt_zero k)⟩
  | succ fuel ih =>
    intro ptr
    rw [mem_ioApicLoop_succ_reads, ih]
    constructor
    · rintro ⟨hlt, hreads | ⟨hother, k, hk, hvisit, hreads⟩⟩
      · exact ⟨0, Nat.succ_pos fuel, ioApicVisits_zero.mpr hlt, hreads⟩
      · exact ⟨k + 1, Nat.succ_lt_succ hk,
          ioApicVisits_succ.mpr ⟨⟨hlt, hother⟩, hvisit⟩, hreads⟩
    · rintro ⟨k, hk, hvisit, hreads⟩
      cases k with
      | zero => exact ⟨ioApicVisits_zero.mp hvisit, Or.inl hreads⟩
      | succ k =>
        obtain ⟨⟨hlt, hother⟩, hrest⟩ := ioApicVisits_succ.mp hvisit
        exact ⟨hlt, Or.inr ⟨hother, k, Nat.lt_of_succ_lt_succ hk, hrest, hreads⟩⟩

theorem newIds_entryIds (p : Nat) : (newIds m p (m.read p 1)).value = entryIds m p :=
  newIds_value m p _

theorem mem_newIds_reads (p : Nat) : (x, n) ∈ (newIds m p (m.read p 1)).reads ↔
    (m.read p 1 = madtTypeLocalApic ∧ x = p + 4 ∧ n = 4) ∨
      (m.read p 1 = madtTypeLocalApic ∧ (m.read (p + 4) 4).testBit 0 = true ∧ x = p + 3 ∧
        n = 1) := by
  unfold newIds
  by_cases htype : m.read p 1 = madtTypeLocalApic
  · have hreads := Traced.bind_ite_reads (load m (p + 4) 4)
      (fun flags => flags.testBit 0 = true)
      (fun _ => do
        let apicId ← load m (p + 3) 1
        return [apicId]) fun _ => (pure [] : Traced (List Nat))
    rw [if_pos htype, hreads, List.mem_append, load_reads, List.mem_singleton, Prod.mk.injEq]
    by_cases hflag : (m.read (p + 4) 4).testBit 0 = true
    · simp [hflag, htype]
    · simp [hflag, htype]
  · simp [htype]

/-- One iteration of the loop of `acpi_find_cpus`. -/
theorem mem_cpuLoop_succ_reads {maxCpus : Int} {found : List Nat} (fuel : Nat) :
    (x, n) ∈ (cpuLoop m stop maxCpus (fuel + 1) ptr found).reads ↔
      (ptr < stop ∧ (found.length : Int) < maxCpus) ∧ (CpuReads m ptr x n ∨
        (x, n) ∈ (cpuLoop m stop maxCpus fuel (add64 ptr (m.read (ptr + 1) 1))
          (found ++ entryIds m ptr)).reads) := by
  rw [cpuLoop]
  by_cases hgo : ptr < stop ∧ (found.length : Int) < maxCpus
  · rw [if_pos hgo, Traced.bind_reads, Traced.bind_reads, Traced.bind_reads, load_value,
      newIds_entryIds, load_value, load_reads, load_reads]
    unfold CpuReads
    rw [List.mem_append, List.mem_append, List.mem_append, mem_newIds_reads, List.mem_singleton,
      List.mem_singleton, Prod.mk.injEq, Prod.mk.injEq]
    simp only [hgo, and_self, true_and, or_assoc]
  · rw [if_neg hgo]
    exact ⟨fun h => absurd h List.not_mem_nil, fun h => absurd h.1 hgo⟩

/-- **The loop of `acpi_find_cpus`.** -/
theorem mem_cpuLoop_reads {maxCpus : Int} : ∀ {fuel ptr : Nat} {found : List Nat},
    (x, n) ∈ (cpuLoop m stop maxCpus fuel ptr found).reads ↔
      ∃ k < fuel, CpuVisits m stop maxCpus found.length ptr k ∧
        CpuReads m (entryFrom m ptr k) x n := by
  intro fuel
  induction fuel with
  | zero =>
    intro ptr found
    exact ⟨nofun, fun ⟨k, hk, _⟩ => absurd hk (Nat.not_lt_zero k)⟩
  | succ fuel ih =>
    intro ptr found
    rw [mem_cpuLoop_succ_reads, ih, List.length_append]
    constructor
    · rintro ⟨hgo, hreads | ⟨k, hk, hvisit, hreads⟩⟩
      · exact ⟨0, Nat.succ_pos fuel, cpuVisits_zero.mpr hgo, hreads⟩
      · exact ⟨k + 1, Nat.succ_lt_succ hk, cpuVisits_succ.mpr ⟨hgo, hvisit⟩, hreads⟩
    · rintro ⟨k, hk, hvisit, hreads⟩
      cases k with
      | zero => exact ⟨cpuVisits_zero.mp hvisit, Or.inl hreads⟩
      | succ k =>
        obtain ⟨hgo, hrest⟩ := cpuVisits_succ.mp hvisit
        exact ⟨hgo, Or.inr ⟨k, Nat.lt_of_succ_lt_succ hk, hrest, hreads⟩⟩

end Entries

/-! ## The functions -/

/-- The end of the MADT. -/
def madtStop (m : Mem) (madt : Nat) : Nat := add64 madt (m.read (madt + 4) 4)

/-- The fields `acpi_find_apic_bases` reads. -/
inductive BasesField (m : Mem) (gRsdp : Nat) : Nat → Nat → Prop
  | search {x n : Nat} (h : SearchField m gRsdp x n) : BasesField m gRsdp x n
  | localApicAddress {madt : Nat} (h : LeadsTo m gRsdp madt) : BasesField m gRsdp (madt + 36) 4
  | madtLength {madt : Nat} (h : LeadsTo m gRsdp madt) : BasesField m gRsdp (madt + 4) 4
  | entry {madt k x n : Nat} (h : LeadsTo m gRsdp madt) (hk : k < loopFuel)
      (hvisit : IoApicVisits m (madtStop m madt) (madt + madtEntries) k)
      (hread : IoApicReads m (entryFrom m (madt + madtEntries) k) x n) : BasesField m gRsdp x n

/-- The fields `acpi_find_cpus` reads. -/
inductive CpusField (m : Mem) (gRsdp : Nat) (maxCpus : Int) : Nat → Nat → Prop
  | search {x n : Nat} (h : SearchField m gRsdp x n) : CpusField m gRsdp maxCpus x n
  | madtLength {madt : Nat} (h : LeadsTo m gRsdp madt) : CpusField m gRsdp maxCpus (madt + 4) 4
  | entry {madt k x n : Nat} (h : LeadsTo m gRsdp madt) (hk : k < loopFuel)
      (hvisit : CpuVisits m (madtStop m madt) maxCpus 0 (madt + madtEntries) k)
      (hread : CpuReads m (entryFrom m (madt + madtEntries) k) x n) :
      CpusField m gRsdp maxCpus x n

section Functions

variable {m : Mem} {gRsdp x n : Nat}

/-- The search ends at one MADT. -/
theorem LeadsTo.unique {madt madt' : Nat} (hrsdp : gRsdp ≠ 0) (h : LeadsTo m gRsdp madt)
    (h' : LeadsTo m gRsdp madt') :
    madt = madt' := by
  have hvalue := findMadt_value.mpr ⟨hrsdp, h⟩
  rw [findMadt_value.mpr ⟨hrsdp, h'⟩] at hvalue
  exact (Option.some.inj hvalue).symm

/-- What is read behind the search: nothing without a MADT. -/
theorem mem_bind_findMadt_reads {α : Type} {f : Option Nat → Traced α} {P : Nat → Prop}
    (hnone : (f none).reads = []) (hsome : ∀ madt, (x, n) ∈ (f (some madt)).reads ↔ P madt) :
    (x, n) ∈ (findMadt m gRsdp >>= f).reads ↔
      gRsdp ≠ 0 ∧ (SearchField m gRsdp x n ∨ ∃ madt, LeadsTo m gRsdp madt ∧ P madt) := by
  rw [Traced.bind_reads, List.mem_append, mem_findMadt_reads, and_or_left]
  refine or_congr_right ?_
  cases hmadt : (findMadt m gRsdp).value with
  | none =>
    rw [hnone]
    refine ⟨nofun, fun ⟨hrsdp, madt, hleads, _⟩ => ?_⟩
    rw [findMadt_value.mpr ⟨hrsdp, hleads⟩] at hmadt
    cases hmadt
  | some madt =>
    obtain ⟨hrsdp, hleads⟩ := findMadt_value.mp hmadt
    rw [hsome]
    refine ⟨fun h => ⟨hrsdp, madt, hleads, h⟩, fun ⟨_, madt', hleads', h⟩ => ?_⟩
    rw [hleads.unique hrsdp hleads']
    exact h

/-- What `acpi_find_cpus` reads in the MADT. -/
theorem mem_madt_cpus_reads (maxCpus : Int) (fuel madt : Nat) :
    (x, n) ∈ (do
      let length ← load m (madt + 4) 4
      cpuLoop m (add64 madt length) maxCpus fuel (madt + madtEntries) []).reads ↔
      (x = madt + 4 ∧ n = 4) ∨ ∃ k < fuel,
        CpuVisits m (madtStop m madt) maxCpus 0 (madt + madtEntries) k ∧
        CpuReads m (entryFrom m (madt + madtEntries) k) x n := by
  rw [Traced.bind_reads, load_reads, load_value, List.mem_append, List.mem_singleton,
    Prod.mk.injEq]
  exact or_congr_right mem_cpuLoop_reads

/-- **The fields `acpi_find_cpus` reads.** -/
theorem mem_acpiFindCpus_reads {maxCpus : Int} :
    (x, n) ∈ (acpiFindCpus m gRsdp maxCpus).reads ↔
      gRsdp ≠ 0 ∧ CpusField m gRsdp maxCpus x n := by
  unfold acpiFindCpus
  have hmadt := mem_madt_cpus_reads (m := m) (x := x) (n := n) maxCpus loopFuel
  refine (mem_bind_findMadt_reads rfl hmadt).trans
    (and_congr_right fun _ => ⟨?_, fun hfield => ?_⟩)
  · rintro (h | ⟨madt, hleads, ⟨rfl, rfl⟩ | ⟨k, hk, hvisit, hread⟩⟩)
    · exact .search h
    · exact .madtLength hleads
    · exact .entry hleads hk hvisit hread
  · cases hfield with
    | search h => exact Or.inl h
    | madtLength hleads => exact Or.inr ⟨_, hleads, Or.inl ⟨rfl, rfl⟩⟩
    | entry hleads hk hvisit hread => exact Or.inr ⟨_, hleads, Or.inr ⟨_, hk, hvisit, hread⟩⟩

/-- What `acpi_find_apic_bases` reads in the MADT. -/
theorem mem_madt_bases_reads (fuel madt : Nat) :
    (x, n) ∈ (do
      let lapicPa ← load m (madt + 36) 4
      let length ← load m (madt + 4) 4
      match ← ioApicLoop m (add64 madt length) fuel (madt + madtEntries) with
      | .ret ioapicPa =>
        return (.ret ⟨ioapicPa != 0, some (lapicPa, ioapicPa)⟩ : Exit ApicBases)
      | _ => return .hang).reads ↔
      (x = madt + 36 ∧ n = 4) ∨ (x = madt + 4 ∧ n = 4) ∨
        ∃ k < fuel, IoApicVisits m (madtStop m madt) (madt + madtEntries) k ∧
          IoApicReads m (entryFrom m (madt + madtEntries) k) x n := by
  rw [Traced.bind_reads, Traced.bind_reads, load_reads, load_reads, load_value, load_value,
    List.mem_append,
    List.mem_append, List.mem_singleton, List.mem_singleton, Prod.mk.injEq, Prod.mk.injEq,
      Traced.bind_reads]
  refine or_congr_right (or_congr_right ?_)
  rw [← mem_ioApicLoop_reads]
  unfold madtStop
  -- what the loop found is stored without another load
  cases (ioApicLoop m (add64 madt (m.read (madt + 4) 4)) fuel (madt + madtEntries)).value
    <;> simp

/-- **The fields `acpi_find_apic_bases` reads.** -/
theorem mem_acpiFindApicBases_reads :
    (x, n) ∈ (acpiFindApicBases m gRsdp).reads ↔ gRsdp ≠ 0 ∧ BasesField m gRsdp x n := by
  unfold acpiFindApicBases
  have hmadt := mem_madt_bases_reads (m := m) (x := x) (n := n) loopFuel
  refine (mem_bind_findMadt_reads rfl hmadt).trans
    (and_congr_right fun _ => ⟨?_, fun hfield => ?_⟩)
  · rintro (h | ⟨madt, hleads, ⟨rfl, rfl⟩ | ⟨rfl, rfl⟩ | ⟨k, hk, hvisit, hread⟩⟩)
    · exact .search h
    · exact .localApicAddress hleads
    · exact .madtLength hleads
    · exact .entry hleads hk hvisit hread
  · cases hfield with
    | search h => exact Or.inl h
    | localApicAddress hleads => exact Or.inr ⟨_, hleads, Or.inl ⟨rfl, rfl⟩⟩
    | madtLength hleads => exact Or.inr ⟨_, hleads, Or.inr (Or.inl ⟨rfl, rfl⟩)⟩
    | entry hleads hk hvisit hread =>
      exact Or.inr ⟨_, hleads, Or.inr (Or.inr ⟨_, hk, hvisit, hread⟩)⟩

end Functions

end NekaKernel.Acpi
