/-
  Acpi/Rsdp.lean --- where the RSDP is looked for, and what is found.

  Source: `checksum_ok`, `scan_for_rsdp` and `acpi_find_rsdp_bios` of `acpi.c`.

  On the multiboot path nobody hands the kernel an RSDP: it tries the paragraphs of
  the first kilobyte of the EBDA and then those of the BIOS area, in order.  Both lie
  far below the gigabyte that is mapped, whatever the BIOS data area says.
-/
import Mathlib.Algebra.GroupWithZero.Nat
import NekaKernel.Acpi.Tables

set_option autoImplicit false

namespace NekaKernel.Acpi

open NekaKernel.Foundation

/-- The `n` bytes from `a` on, added up. -/
def byteSum (m : Mem) (a n : Nat) : Nat := ((List.range n).map fun k => m.read (a + k) 1).sum

/-- An RSDP: the signature, and a first part that adds up to 0 in a byte. -/
def IsRsdp (m : Mem) (a : Nat) : Prop :=
  (∀ k c, rsdpSignature[k]? = some c → m.read (a + k) 1 = c) ∧ byteSum m a 20 % 256 = 0

/-- The physical address of the EBDA, 0 if there is none. -/
def ebdaAddr (m : Mem) : Nat := m.read 0x40E 2 <<< 4

/-- The addresses that are tried, in order. -/
def rsdpCandidates (m : Mem) : List Nat :=
  (if ebdaAddr m ≠ 0 then steps 16 (ebdaAddr m) (ebdaAddr m + 1024) else []) ++
    steps 16 0xE0000 0x100000

/-! ## One candidate -/

section Candidate

variable {m : Mem} {a x w : Nat}

theorem byteSum_succ (n : Nat) : byteSum m a (n + 1) = m.read a 1 + byteSum m (a + 1) n := by
  unfold byteSum
  rw [List.range_succ_eq_map, List.map_cons, List.sum_cons, List.map_map, Nat.add_zero]
  congr 2
  refine List.map_congr_left fun k _ => ?_
  rw [Function.comp_apply, Nat.succ_eq_add_one, Nat.add_right_comm, Nat.add_assoc]

/-- The `uint8_t` sum is the sum modulo 256. -/
theorem checksum_value (n : Nat) : ∀ {a sum : Nat}, sum < 256 →
    (checksum m n a sum).value = (sum + byteSum m a n) % 256 := by
  induction n with
  | zero =>
    intro a sum hsum
    exact (Nat.mod_eq_of_lt hsum).symm
  | succ n ih =>
    intro a sum _
    rw [checksum, Traced.bind_value, load_value, ih (Nat.mod_lt _ (by decide)), Nat.mod_add_mod,
      byteSum_succ, Nat.add_assoc]

theorem checksum_reads (n : Nat) : ∀ {a sum : Nat}, (x, w) ∈ (checksum m n a sum).reads →
    a ≤ x ∧ x + w ≤ a + n := by
  induction n with
  | zero =>
    intro a sum h
    cases h
  | succ n ih =>
    intro a sum h
    rw [checksum, Traced.bind_reads, load_reads, List.singleton_append, List.mem_cons] at h
    rcases h with h | h
    · obtain ⟨rfl, rfl⟩ := Prod.mk.inj h
      omega
    · have := ih h
      omega

theorem isRsdp_iff :
    IsRsdp m a ↔ (startsWith m a rsdpSignature).value = true ∧
    (checksumOk m a 20).value = true := by
  have hsum : (checksumOk m a 20).value = true ↔ byteSum m a 20 % 256 = 0 := by
    rw [checksumOk, Traced.bind_value, Traced.pure_value, checksum_value 20 (by decide),
      Nat.zero_add, beq_iff_eq]
  rw [IsRsdp, startsWith_value, hsum]

instance (m : Mem) (a : Nat) : Decidable (IsRsdp m a) := decidable_of_iff _ isRsdp_iff.symm

end Candidate

/-! ## A scan -/

section Scan

variable {m : Mem} {a x w : Nat} {l : List Nat}

theorem scanAt_cons_value : (scanAt m (a :: l)).value =
    if IsRsdp m a then a else (scanAt m l).value := by
  rw [scanAt, Traced.bind_ite_value]
  by_cases hsignature : (startsWith m a rsdpSignature).value = true
  · rw [if_pos hsignature, Traced.bind_ite_value]
    exact if_congr (isRsdp_iff.trans (and_iff_right hsignature)).symm rfl rfl
  · rw [if_neg hsignature, if_neg fun h => hsignature (isRsdp_iff.mp h).1]

/-- The scan returns the first candidate that is one. -/
theorem scanAt_value : (scanAt m l).value = (l.find? fun a => decide (IsRsdp m a)).getD 0 := by
  induction l with
  | nil => rfl
  | cons a l ih =>
    rw [scanAt_cons_value]
    by_cases h : IsRsdp m a
    · rw [if_pos h, List.find?_cons_of_pos (by simpa using h), Option.getD_some]
    · rw [if_neg h, List.find?_cons_of_neg (by simpa using h), ih]

/-- It looks at the first twenty bytes of each candidate. -/
theorem scanAt_reads (h : (x, w) ∈ (scanAt m l).reads) : ∃ a ∈ l, a ≤ x ∧ x + w ≤ a + 20 := by
  induction l with
  | nil => cases h
  | cons a l ih =>
    have hrest : (x, w) ∈ (scanAt m l).reads → ∃ b ∈ a :: l, b ≤ x ∧ x + w ≤ b + 20 := by
      intro h
      obtain ⟨b, hb, hin⟩ := ih h
      exact ⟨b, List.mem_cons_of_mem a hb, hin⟩
    rw [scanAt, Traced.bind_ite_reads, List.mem_append] at h
    rcases h with h | h
    · obtain ⟨k, hk, rfl, rfl, -⟩ := mem_startsWith_reads.mp h
      have hlength : k < 8 := hk
      exact ⟨a, List.mem_cons_self, by omega, by omega⟩
    · split at h
      · rw [Traced.bind_ite_reads, List.mem_append] at h
        rcases h with h | h
        · rw [checksumOk, Traced.bind_reads, Traced.pure_reads, List.append_nil] at h
          exact ⟨a, List.mem_cons_self, checksum_reads 20 h⟩
        · split at h
          · cases h
          · exact hrest h
      · exact hrest h

end Scan

/-! ## Both scans -/

section Search

variable {m : Mem} {a x w : Nat}

theorem ebdaAddr_lt (m : Mem) : ebdaAddr m < 2 ^ 20 := by
  have hseg : m.read 0x40E 2 < 2 ^ 16 := Mem.read_lt ..
  unfold ebdaAddr
  rw [Nat.shiftLeft_eq]
  omega

/-- A candidate is the address of a paragraph, not null, and low. -/
theorem mem_rsdpCandidates (h : a ∈ rsdpCandidates m) :
    a ≠ 0 ∧ a % 16 = 0 ∧ a + 20 ≤ 2 ^ 20 + 1024 := by
  have hebda := ebdaAddr_lt m
  have haligned : ebdaAddr m % 16 = 0 := by
    rw [ebdaAddr, Nat.shiftLeft_eq]
    exact Nat.mul_mod_left ..
  rcases List.mem_append.mp h with h | h
  · split at h
    · obtain ⟨hlo, hhi, hmod⟩ := (mem_steps (by decide)).mp h
      omega
    · cases h
  · obtain ⟨hlo, hhi, hmod⟩ := (mem_steps (by decide)).mp h
    omega

/-- The scan of the EBDA is a scan, of nothing if there is no EBDA. -/
theorem scanEbda_eq (m : Mem) (e : Nat) :
    scanEbda m e = scanAt m (if e ≠ 0 then steps 16 e (e + 1024) else []) := by
  unfold scanEbda
  split <;> rfl

/-- What the second scan finds counts if the first one finds nothing. -/
theorem scanAt_append {l l' : List Nat} (h : ∀ a ∈ l, a ≠ 0) :
    (scanAt m (l ++ l')).value =
      if (scanAt m l).value ≠ 0 then (scanAt m l).value else (scanAt m l').value := by
  rw [scanAt_value, scanAt_value, scanAt_value, List.find?_append]
  rcases hfind : l.find? fun a => decide (IsRsdp m a) with _ | a
  · rfl
  · exact (if_pos (h a (List.mem_of_find?_eq_some hfind))).symm

/-- The two scans are one, over all candidates. -/
theorem acpiFindRsdpBios_value :
    (acpiFindRsdpBios m 0).value = (scanAt m (rsdpCandidates m)).value := by
  have hne : ∀ a ∈ (if ebdaAddr m ≠ 0 then steps 16 (ebdaAddr m) (ebdaAddr m + 1024) else []),
      a ≠ 0 := fun a ha => (mem_rsdpCandidates (List.mem_append_left _ ha)).1
  rw [rsdpCandidates, scanAt_append hne, ← scanEbda_eq]
  exact Traced.bind_ite_value (scanEbda m (ebdaAddr m)) (· ≠ 0) (fun found => pure found)
    fun _ => scanForRsdp m 0xE0000 0x100000

theorem acpiFindRsdpBios_reads (h : (x, w) ∈ (acpiFindRsdpBios m 0).reads) :
    (x, w) = (0x40E, 2) ∨ ∃ a ∈ rsdpCandidates m, a ≤ x ∧ x + w ≤ a + 20 := by
  have hreads : (acpiFindRsdpBios m 0).reads = (0x40E, 2) :: ((scanEbda m (ebdaAddr m)).reads ++
      if (scanEbda m (ebdaAddr m)).value ≠ 0 then []
      else (scanForRsdp m 0xE0000 0x100000).reads) :=
    congrArg _ (Traced.bind_ite_reads (scanEbda m (ebdaAddr m)) (· ≠ 0)
      (fun found => pure found)
      fun _ => scanForRsdp m 0xE0000 0x100000)
  rw [hreads, List.mem_cons, List.mem_append] at h
  refine h.imp_right fun h => ?_
  rcases h with h | h
  · rw [scanEbda_eq] at h
    obtain ⟨a, ha, hin⟩ := scanAt_reads h
    exact ⟨a, List.mem_append_left _ ha, hin⟩
  · split at h
    · cases h
    · obtain ⟨a, ha, hin⟩ := scanAt_reads h
      exact ⟨a, List.mem_append_right _ ha, hin⟩

/-- **The search for the RSDP.**  One that was set is left alone.  Otherwise the first
candidate that is an RSDP is found, none if and only if there is none, and the search
reads nothing but the segment of the EBDA and bytes of candidates, all of them below
1 MiB and the kilobyte above it. -/
theorem rsdp_search_exact (m : Mem) (gRsdp : Nat) :
    (gRsdp ≠ 0 → acpiFindRsdpBios m gRsdp = pure gRsdp) ∧
    (gRsdp = 0 →
      (∀ a, a ≠ 0 → ((acpiFindRsdpBios m gRsdp).value = a ↔
        IsRsdp m a ∧ ∃ before after, rsdpCandidates m = before ++ a :: after ∧
          ∀ b ∈ before, ¬ IsRsdp m b)) ∧
      ((acpiFindRsdpBios m gRsdp).value = 0 ↔ ∀ a ∈ rsdpCandidates m, ¬ IsRsdp m a) ∧
      ∀ x w, (x, w) ∈ (acpiFindRsdpBios m gRsdp).reads → x + w ≤ 2 ^ 20 + 1024) := by
  refine ⟨fun hset => if_pos hset, ?_⟩
  rintro rfl
  rw [acpiFindRsdpBios_value, scanAt_value]
  refine ⟨fun a ha => ?_, ?_, fun x w h => ?_⟩
  · rcases hfind : (rsdpCandidates m).find? fun a => decide (IsRsdp m a) with _ | b
    · have hnone := List.find?_eq_none.mp hfind
      constructor
      · intro h
        exact absurd h.symm ha
      · rintro ⟨hrsdp, before, after, hsplit, -⟩
        have hmem : a ∈ rsdpCandidates m := hsplit ▸ List.mem_append_right _ List.mem_cons_self
        exact absurd (decide_eq_true hrsdp) (hnone a hmem)
    · rw [Option.getD_some]
      constructor
      · rintro rfl
        obtain ⟨hrsdp, before, after, hsplit, hbefore⟩ := List.find?_eq_some_iff_append.mp hfind
        exact ⟨of_decide_eq_true hrsdp, before, after, hsplit,
          fun c hc => by simpa using hbefore c hc⟩
      · rintro ⟨hrsdp, before, after, hsplit, hbefore⟩
        have hthis := (List.find?_eq_some_iff_append (p := fun a => decide (IsRsdp m a))).mpr
          ⟨decide_eq_true hrsdp, before, after, hsplit, fun c hc => by simpa using hbefore c hc⟩
        exact Option.some.inj (hfind.symm.trans hthis)
  · rcases hfind : (rsdpCandidates m).find? fun a => decide (IsRsdp m a) with _ | b
    · refine iff_of_true rfl fun a ha hrsdp => ?_
      exact List.find?_eq_none.mp hfind a ha (decide_eq_true hrsdp)
    · have hmem := List.mem_of_find?_eq_some hfind
      have hrsdp : IsRsdp m b := of_decide_eq_true
        (List.find?_some (p := fun a => decide (IsRsdp m a)) hfind)
      exact iff_of_false (mem_rsdpCandidates hmem).1 fun h => h b hmem hrsdp
  · rcases acpiFindRsdpBios_reads h with h | ⟨a, ha, -, hle⟩
    · obtain ⟨rfl, rfl⟩ := Prod.mk.inj h
      decide
    · exact Nat.le_trans hle (mem_rsdpCandidates ha).2.2

/-- An RSDP in the second paragraph of the BIOS area. -/
example :
    let m : Mem := fun _ => 0
    (acpiFindRsdpBios ((m.write 0xE0010 8 0x2052545020445352).write 0xE0018 1 0xE1) 0).value =
      0xE0010 := by
  decide +kernel

end Search

end NekaKernel.Acpi
