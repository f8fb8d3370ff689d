/-
  Smp/Encoding.lean --- the descriptors in the GDT and the gates in the IDT read back.

  Source: `gdt_setup_cpu_tss` in `gdt64.c`, with `idt_set_gate` of `idt.c`.

  A processor reads the two words of a TSS slot as one descriptor, with the address of
  the TSS in three parts.  `gdt_setup_cpu_tss` is taken apart from the layout here: each
  call has an index and an address of its own, and the index need not have a slot.
-/
import NekaKernel.Idt.Gates
import NekaKernel.Smp.Slots

set_option autoImplicit false

namespace NekaKernel.Smp

open NekaKernel.Foundation NekaKernel.Kernel NekaKernel.Context

/-! ## What a processor finds -/

/-- A system descriptor as the processor takes it, without the busy bit. -/
structure SystemDescriptor where
  base : Nat
  limit : Nat
  access : Nat
  deriving DecidableEq, Repr

/-- The descriptor in two words. -/
def systemDescriptor (low high : Nat) : SystemDescriptor :=
  let w := low + 2 ^ 64 * high
  let limit := field w 0 16 + field w 48 4 * 2 ^ 16
  { base := field w 16 24 + field w 56 8 * 2 ^ 24 + field w 64 32 * 2 ^ 32
    -- the granularity bit counts the limit in pages
    limit := if field w 55 1 = 1 then limit * 2 ^ 12 + (2 ^ 12 - 1) else limit
    access := field w 40 8 &&& 0xFD }

/-- The descriptor that a selector names. -/
def descriptorAt (gdt : Nat → Nat) (sel : Nat) : SystemDescriptor :=
  systemDescriptor (gdt (sel / 8)) (gdt (sel / 8 + 1))

section Descriptor

/-- The bits of the descriptor for a TSS at `base`, loaded. -/
def tssBits (base : Nat) : List (Nat × Nat) :=
  [(16, 103), (24, base), (8, 0x8B), (4, 0), (3, 0), (1, 0), (8, base / 2 ^ 24),
    (32, base / 2 ^ 32), (32, 0)]

theorem tssDescriptorHigh_eq (base : Nat) : tssDescriptorHigh base = field base 32 32 :=
  shift_mask base 32 32

/-- The two words, and the bits they are made of. -/
theorem tssDescriptor_pack (base : Nat) :
    (tssDescriptorLow base ||| busyBit) + 2 ^ 64 * tssDescriptorHigh base =
      pack (tssBits base) := by
  rw [tssDescriptorLow_busy, tssDescriptorHigh_eq]
  unfold tssBits
  simp only [pack, field]
  omega

/-- **A loaded descriptor reads back.** -/
theorem systemDescriptor_tssDescriptor {base : Nat} (h : base < 2 ^ 64) :
    systemDescriptor (tssDescriptorLow base ||| busyBit) (tssDescriptorHigh base) =
      ⟨base, 103, 0x89⟩ := by
  have hlimit : field (pack (tssBits base)) 0 16 = 103 % 2 ^ 16 := field_of_getElem 0 rfl rfl
  have hlow : field (pack (tssBits base)) 16 24 = base % 2 ^ 24 := field_of_getElem 1 rfl rfl
  have haccess : field (pack (tssBits base)) 40 8 = 0x8B % 2 ^ 8 := field_of_getElem 2 rfl rfl
  have hnibble : field (pack (tssBits base)) 48 4 = 0 % 2 ^ 4 := field_of_getElem 3 rfl rfl
  have hgranularity : field (pack (tssBits base)) 55 1 = 0 % 2 ^ 1 := field_of_getElem 5 rfl rfl
  have hmid : field (pack (tssBits base)) 56 8 = base / 2 ^ 24 % 2 ^ 8 :=
    field_of_getElem 6 rfl rfl
  have hhigh : field (pack (tssBits base)) 64 32 = base / 2 ^ 32 % 2 ^ 32 :=
    field_of_getElem 7 rfl rfl
  have haddress : base % 2 ^ 24 + base / 2 ^ 24 % 2 ^ 8 * 2 ^ 24 +
      base / 2 ^ 32 % 2 ^ 32 * 2 ^ 32 = base := by omega
  unfold systemDescriptor
  rw [tssDescriptor_pack]
  dsimp only
  rw [hlimit, hlow, haccess, hnibble, hgranularity, hmid, hhigh, haddress]
  rfl

end Descriptor

/-! ## One call -/

section Call

variable {gdt : Nat → Nat} {cpuIdx : Int} {base slot k : Nat}

/-- The selector of a slot names what was set up. -/
theorem descriptorAt_setup (hk : k < maxTssCpus) (hbase : base < 2 ^ 64) :
    descriptorAt (setupTssDescriptor gdt k base) (selTssBase + k * 0x10) =
      ⟨base, 103, 0x89⟩ := by
  obtain ⟨hlow, hhigh⟩ := setupTssDescriptor_words gdt base hk
  unfold descriptorAt
  rw [selector_slot, hlow, hhigh]
  exact systemDescriptor_tssDescriptor hbase

/-- A call for another index leaves it. -/
theorem descriptorAt_setup_of_ne (hne : cpuIdx ≠ k) :
    descriptorAt (setupTssDescriptor gdt cpuIdx base) (selTssBase + k * 0x10) =
      descriptorAt gdt (selTssBase + k * 0x10) := by
  unfold descriptorAt
  rw [selector_slot, setupTssDescriptor_frame (by omega), setupTssDescriptor_frame (by omega)]

end Call

/-! ## Any number of calls -/

/-- A call of `gdt_setup_cpu_tss`, with the address of its TSS. -/
structure TssCall where
  cpuIdx : Int
  base : UInt64

/-- Calls of `gdt_setup_cpu_tss`, one after the other. -/
def setupTssDescriptors (gdt : Nat → Nat) (calls : List TssCall) : Nat → Nat :=
  calls.foldl (fun gdt call => setupTssDescriptor gdt call.cpuIdx call.base.toNat) gdt

section Calls

variable {gdt : Nat → Nat} {calls : List TssCall} {call : TssCall} {slot k : Nat}

theorem setupTssDescriptors_concat (gdt : Nat → Nat) (calls : List TssCall) (call : TssCall) :
    setupTssDescriptors gdt (calls ++ [call]) =
      setupTssDescriptor (setupTssDescriptors gdt calls) call.cpuIdx call.base.toNat :=
  List.foldl_append

/-- **The descriptor that was set up last.** -/
theorem descriptorAt_setups (hk : k < maxTssCpus)
    (h : Latest (fun c : TssCall => c.cpuIdx = k) calls call) :
    descriptorAt (setupTssDescriptors gdt calls) (selTssBase + k * 0x10) =
      ⟨call.base.toNat, 103, 0x89⟩ := by
  induction calls using List.reverseRecOn with
  | nil => exact absurd h Latest.not_nil
  | append_singleton calls last ih =>
    rw [setupTssDescriptors_concat]
    by_cases hlast : last.cpuIdx = k
    · rw [(Latest.concat_of (P := fun c : TssCall => c.cpuIdx = k) hlast).mp h, hlast]
      exact descriptorAt_setup hk last.base.toNat_lt
    · rw [descriptorAt_setup_of_ne hlast]
      exact ih ((Latest.concat_of_not (P := fun c : TssCall => c.cpuIdx = k) hlast).mp h)

/-- The null, code and data segments stay. -/
theorem setupTssDescriptors_segment (hslot : slot < 5) :
    setupTssDescriptors gdt calls slot = gdt slot := by
  induction calls using List.reverseRecOn with
  | nil => rfl
  | append_singleton calls last ih =>
    rw [setupTssDescriptors_concat, setupTssDescriptor_frame (by omega)]
    exact ih

end Calls

/-! ## Every run of the bring-up -/

/-- The segments are those of `gdt_init`, and each task register names the descriptor of
one of `tss[]`. -/
structure TableLoaded (L : TssLayout) (d : Descriptors) : Prop where
  segments : ∀ slot < 5, d.gdt slot = segmentDescriptors.getD slot 0
  loaded : ∀ c sel, d.tr c = some sel → ∃ k < maxTssCpus, sel = selTssBase + k * 0x10 ∧
    descriptorAt d.gdt sel = ⟨L.tssAt k, 103, 0x89⟩

section Table

variable {L : TssLayout} {d : Descriptors} {k c : Nat} {A : Heap.Arena} {cfg : Config}
    {s s' : State} {act : Act}

/-- **Step lemma.**  One processor loads its descriptor. -/
theorem TableLoaded.setup (h : TableLoaded L d) : TableLoaded L (gdtSetupCpuTss L d c k) := by
  by_cases hk : k < maxTssCpus
  · have hgdt := gdtSetupCpuTss_gdt L d c k
    rw [Int.toNat_natCast] at hgdt
    have hself : descriptorAt (gdtSetupCpuTss L d c k).gdt (selTssBase + k * 0x10) =
        ⟨L.tssAt k, 103, 0x89⟩ := by
      rw [hgdt]
      exact descriptorAt_setup hk (L.tssAt_lt hk)
    constructor
    · intro slot hslot
      rw [hgdt, setupTssDescriptor_frame (by omega)]
      exact h.segments slot hslot
    · intro b sel hsel
      rw [gdtSetupCpuTss_tr hk] at hsel
      by_cases hb : b = c
      · rw [hb, Function.update_self, Option.some.injEq] at hsel
        exact ⟨k, hk, hsel.symm, hsel ▸ hself⟩
      · rw [Function.update_of_ne hb] at hsel
        obtain ⟨l, hl, rfl, hdescriptor⟩ := h.loaded b sel hsel
        by_cases hlk : l = k
        · exact ⟨k, hk, by rw [hlk], by rw [hlk]; exact hself⟩
        · refine ⟨l, hl, rfl, ?_⟩
          rw [hgdt, descriptorAt_setup_of_ne (by omega)]
          exact hdescriptor
  · rw [gdtSetupCpuTss_out (by omega)]
    exact h

/-- `gdt_init`, with nothing loaded before. -/
theorem TableLoaded.gdtInit (h : d.tr = fun _ => none) : TableLoaded L (gdtInit L d c) := by
  refine TableLoaded.setup (k := 0) ⟨fun slot hslot => ?_, fun b sel hsel => ?_⟩
  · have hin : slot < segmentDescriptors.length := hslot
    show segmentDescriptors.getD slot (d.gdt slot) = segmentDescriptors.getD slot 0
    rw [List.getD_eq_getElem?_getD, List.getD_eq_getElem?_getD, List.getElem?_eq_getElem hin]
    rfl
  · dsimp only at hsel
    rw [h] at hsel
    cases hsel

/-- **Run lemma.**  This holds in every state the bring-up reaches. -/
theorem tableLoaded_of_reach (r : Reach (Initial A cfg) (step cfg) (fun _ _ => True) s) :
    TableLoaded cfg.layout s.descriptors := by
  refine Reach.invariant (P := fun s : State => TableLoaded cfg.layout s.descriptors)
    (fun s h => ?_) ?_ r
  · obtain ⟨d, hd⟩ := h.descriptors
    rw [hd]
    exact TableLoaded.gdtInit rfl
  · rintro s (_ | a) s' T - h
    · rw [(bspStep_effect h).1]
      exact T
    · obtain ⟨-, -, -, pc, -, ⟨hsame, -⟩ | hset⟩ := apStep_effect h
      · rw [hsame]
        exact T
      · rw [hset]
        exact T.setup

/-- Two processors: both task registers name a descriptor of `tss[]`. -/
theorem tableLoaded_of_reach_two :
    ∃ s, Reach (Initial Heap.arenaAt2M (processors [0, 1] 0 (by decide)))
        (step (processors [0, 1] 0 (by decide))) (fun _ _ => True) s ∧
      s.descriptors.tr 0 = some 0x28 ∧ s.descriptors.tr 1 = some 0x38 ∧
      TableLoaded (processors [0, 1] 0 (by decide)).layout s.descriptors := by
  obtain ⟨s, r, hup⟩ := exists_all_up Heap.arenaAt2M
    (processors_low [0, 1] 0 (by decide)) (by decide)
  have P := placed_of_reach r
  have hap : (s.ap 1).isUp = true := (hup 1 (by decide)).resolve_left (by decide)
  exact ⟨s, r, P.bspTr, (P.loaded 1 hap).1, tableLoaded_of_reach r⟩

end Table

/-! ## The encoders -/

/-- **Both encoders lose nothing and touch nothing else.** -/
theorem descriptor_encoders_exact :
    (∀ (idt : Nat) (m : Mem) (vector : UInt8) (handler : UInt64) (ist dpl : UInt8),
      Idt.gateAt (Idt.idtSetGate idt m vector handler ist dpl) (Idt.entryAt idt vector) =
          ⟨handler.toNat, 0x08, ist.toNat % 2 ^ 3, 0xE, 0, dpl.toNat % 4, 1⟩ ∧
        ∀ other, other ≠ vector →
          Mem.Agree m (Idt.idtSetGate idt m vector handler ist dpl) (Idt.entryAt idt other)
            (Idt.entryAt idt other + 16)) ∧
    (∀ (gdt : Nat → Nat) (calls : List TssCall),
      (∀ k < maxTssCpus, ∀ call, Latest (fun c : TssCall => c.cpuIdx = k) calls call →
        descriptorAt (setupTssDescriptors gdt calls) (0x28 + 16 * k) =
          ⟨call.base.toNat, 103, 0x89⟩) ∧
      ∀ slot < 5, setupTssDescriptors gdt calls slot = gdt slot) ∧
    ∀ (gdt : Nat → Nat) (call : TssCall),
      (call.cpuIdx < 0 ∨ call.cpuIdx ≥ maxTssCpus →
        setupTssDescriptor gdt call.cpuIdx call.base.toNat = gdt) ∧
      ∀ slot, setupTssDescriptor gdt call.cpuIdx call.base.toNat slot ≠ gdt slot →
        ∃ k < maxTssCpus, call.cpuIdx = k ∧
          (slot = (0x28 + 16 * k) / 8 ∨ slot = (0x28 + 16 * k) / 8 + 1) := by
  refine ⟨fun idt m vector handler ist dpl => ⟨?_, fun other hne => ?_⟩,
    fun gdt calls => ⟨fun k hk call hlatest => ?_,
    fun slot hslot => ?_⟩, fun gdt call => ⟨fun hout => ?_, fun slot hchanged => ?_⟩⟩
  · exact Idt.gateAt_idtSetGate m idt vector handler ist dpl
  · exact Idt.agree_idtSetGate hne
  · have hsel : 0x28 + 16 * k = selTssBase + k * 0x10 := by rw [Nat.mul_comm]; rfl
    rw [hsel]
    exact descriptorAt_setups hk hlatest
  · exact setupTssDescriptors_segment hslot
  · exact setupTssDescriptor_out hout
  · by_contra hnone
    refine hchanged (setupTssDescriptor_frame ?_)
    rintro ⟨hlow, hhigh, hslot⟩
    exact hnone ⟨call.cpuIdx.toNat, by omega, by omega, by omega⟩

/-- The second of two addresses for processor 1, both above 4 GiB, among calls for others. -/
theorem descriptor_encoders_exact_high :
    descriptorAt (setupTssDescriptors (fun _ => 0)
      [⟨1, 0xFFFF80001234ABCD⟩, ⟨4, 0x1000⟩, ⟨1, 0x8877665544332211⟩, ⟨-1, 0x2000⟩,
        ⟨0, 0x3000⟩]) 0x38 =
      ⟨0x8877665544332211, 103, 0x89⟩ :=
  (descriptor_encoders_exact.2.1 (fun _ => 0)
    [⟨1, 0xFFFF80001234ABCD⟩, ⟨4, 0x1000⟩, ⟨1, 0x8877665544332211⟩, ⟨-1, 0x2000⟩,
      ⟨0, 0x3000⟩]).1 1 (by decide)
    ⟨1, 0x8877665544332211⟩ ⟨rfl, [⟨1, 0xFFFF80001234ABCD⟩, ⟨4, 0x1000⟩],
      [⟨-1, 0x2000⟩, ⟨0, 0x3000⟩], rfl, by simp⟩

end NekaKernel.Smp
