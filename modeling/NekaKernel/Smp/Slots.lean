/-
  Smp/Slots.lean --- which slots the processors that run use.

  Source: `get_cpu_index` in `apic.c`, `gdt_init` and `gdt_setup_cpu_tss` in
  `gdt64.c`, and the bring-up in `smp.c`.

  A processor has two kinds of slots.  `get_cpu_index` selects its entry of
  `preempt_disable_count[]`, `reschedule_pending[]`, `saved_if[]`,
  `sched64.current[]` and `loaded_cr3[]`: the APIC ID itself below 16 and entry 0
  for all others.  The TSS of the BSP is in slot 0, whatever its ID, and that of an
  AP in the slot of its index if there is one.
-/
import NekaKernel.Acpi.Madt
import NekaKernel.Smp.Runs

set_option autoImplicit false

namespace NekaKernel.Smp

open NekaKernel.Foundation NekaKernel.Kernel NekaKernel.Context NekaKernel.Acpi

/-! ## Processors that run -/

/-- The AP is in `ap_entry64`, behind its call of `gdt_setup_cpu_tss`. -/
def ApPc.isUp : ApPc → Bool
  | .testIndex | .loadIndex | .setReady _ | .running => true
  | _ => false

/-- The BSP, and the APs that came up. -/
def Up (cfg : Config) (s : State) (a : Nat) : Prop := a = cfg.bspId ∨ (s.ap a).isUp = true

/-- The selector an AP loads, if its index has a slot. -/
def apSelector (a : Nat) : Option Nat :=
  if getCpuIndex a < maxTssCpus then some (selTssBase + getCpuIndex a * 0x10) else none

/-! ## The invariant of all runs -/

/-- The BSP works on an AP. -/
def BspPc.inAttempt : BspPc → Bool
  | .next | .done | .panicked => false
  | _ => true

/-- Only listed APs leave the state `off`, and a processor that runs has the TSS that
its index gives it; the BSP has that of slot 0. -/
structure Placed (cfg : Config) (s : State) : Prop where
  few : cfg.apicIds.length ≤ 1 → s.pc = .done ∧ ∀ a, s.ap a = .off
  attempt : s.pc.inAttempt = true → s.target cfg ∈ cfg.apicIds ∧ s.target cfg ≠ cfg.bspId
  known : ∀ a, s.ap a ≠ .off → a ∈ cfg.apicIds ∧ a ≠ cfg.bspId
  bspTr : s.descriptors.tr cfg.bspId = some selTssBase
  bspSlot : SlotReady cfg.layout s.descriptors 0
  apTr : ∀ a, a ≠ cfg.bspId → s.descriptors.tr a = none ∨ s.descriptors.tr a = apSelector a
  loaded : ∀ a, (s.ap a).isUp = true → s.descriptors.tr a = apSelector a ∧
    (getCpuIndex a < maxTssCpus → SlotReady cfg.layout s.descriptors (getCpuIndex a))

section Invariant

variable {A : Heap.Arena} {cfg : Config} {s s' : State}

theorem Initial.placed (h : Initial A cfg s) : Placed cfg s := by
  obtain ⟨d, hd⟩ := h.descriptors
  have hpc : s.pc.inAttempt = false := by
    rw [h.pc]
    split <;> rfl
  have htr : s.descriptors.tr = Function.update (fun _ => none) cfg.bspId
      (some selTssBase) := by
    rw [hd]
    exact gdtSetupCpuTss_tr (k := 0) (by decide)
  refine ⟨fun hfew => ⟨?_, fun a => ?_⟩, by simp [hpc], by simp [h.ap], ?_, ?_, ?_,
    by simp [h.ap, ApPc.isUp]⟩
  · rw [h.pc, if_pos hfew]
  · rw [h.ap]
  · rw [htr, Function.update_self]
  · rw [hd]
    exact gdtSetupCpuTss_ready (k := 0) (by decide)
  · intro a ha
    rw [htr, Function.update_of_ne ha]
    exact Or.inl rfl

/-- The list entry of an iteration. -/
theorem target_mem (h : s.i < cfg.apicIds.length) : s.target cfg ∈ cfg.apicIds := by
  unfold State.target
  rw [List.getD_eq_getElem?_getD, List.getElem?_eq_getElem h]
  exact List.getElem_mem h

/-- What a step of the BSP does to the APs and the descriptors: an interrupt to the
AP of the attempt, which brings up nobody by itself. -/
theorem bspStep_effect (h : bspStep cfg s = some s') :
    s'.descriptors = s.descriptors ∧ (s'.ap = s.ap ∨ (s.pc.inAttempt = true ∧ ∃ pc,
      s'.ap = Function.update s.ap (s.target cfg) pc ∧
      (pc.isUp = true → (s.ap (s.target cfg)).isUp = true))) := by
  have hsipi : ∀ pc : ApPc, (sipi pc).isUp = true → pc.isUp = true := by
    intro pc hup
    unfold sipi at hup
    split at hup
    · cases hup
    · exact hup
  unfold bspStep at h
  cases hpc : s.pc with
  | sendInit =>
    simp only [hpc, Option.some.injEq] at h
    subst h
    exact ⟨rfl, Or.inr ⟨rfl, _, rfl, nofun⟩⟩
  | sendSipi1 =>
    simp only [hpc, Option.some.injEq] at h
    subst h
    exact ⟨rfl, Or.inr ⟨rfl, _, rfl, hsipi _⟩⟩
  | sendSipi2 =>
    simp only [hpc, Option.some.injEq] at h
    subst h
    exact ⟨rfl, Or.inr ⟨rfl, _, rfl, hsipi _⟩⟩
  | next =>
    simp only [hpc] at h
    split at h
    · split at h <;> exact Option.some.inj h ▸ ⟨rfl, Or.inl rfl⟩
    · exact Option.some.inj h ▸ ⟨rfl, Or.inl rfl⟩
  | copy b =>
    simp only [hpc] at h
    split at h <;> exact Option.some.inj h ▸ ⟨rfl, Or.inl rfl⟩
  | allocStack =>
    simp only [hpc] at h
    split at h
    · exact Option.some.inj h ▸ ⟨rfl, Or.inl rfl⟩
    · exact Option.some.inj h ▸ ⟨rfl, Or.inl rfl⟩
    · cases h
  | wait timeout =>
    simp only [hpc] at h
    split at h
    · exact Option.some.inj h ▸ ⟨rfl, Or.inl rfl⟩
    · split at h <;> exact Option.some.inj h ▸ ⟨rfl, Or.inl rfl⟩
  | confirm =>
    simp only [hpc] at h
    split at h <;> exact Option.some.inj h ▸ ⟨rfl, Or.inl rfl⟩
  | done => simp [hpc] at h
  | panicked => simp [hpc] at h
  | _ =>
    simp only [hpc, Option.some.injEq] at h
    subst h
    exact ⟨rfl, Or.inl rfl⟩

/-- The BSP works on an entry of the list that is not its own. -/
theorem bspStep_attempt (h : bspStep cfg s = some s')
    (hbefore : s.pc.inAttempt = true → s.target cfg ∈ cfg.apicIds ∧ s.target cfg ≠ cfg.bspId) :
    s'.pc.inAttempt = true → s'.target cfg ∈ cfg.apicIds ∧ s'.target cfg ≠ cfg.bspId := by
  unfold bspStep at h
  cases hpc : s.pc with
  | next =>
    simp only [hpc] at h
    split at h
    · rename_i hentry
      split at h
      · obtain rfl := Option.some.inj h
        simp [BspPc.inAttempt]
      · rename_i hother
        obtain rfl := Option.some.inj h
        exact fun _ => ⟨target_mem hentry.1, hother⟩
    · obtain rfl := Option.some.inj h
      exact nofun
  | copy b =>
    simp only [hpc] at h
    split at h <;> exact Option.some.inj h ▸ fun _ => hbefore (by rw [hpc]; rfl)
  | allocStack =>
    simp only [hpc] at h
    split at h
    · exact Option.some.inj h ▸ fun _ => hbefore (by rw [hpc]; rfl)
    · exact Option.some.inj h ▸ nofun
    · cases h
  | wait timeout =>
    simp only [hpc] at h
    split at h
    · exact Option.some.inj h ▸ fun _ => hbefore (by rw [hpc]; rfl)
    · split at h <;> exact Option.some.inj h ▸ fun _ => hbefore (by rw [hpc]; rfl)
  | confirm =>
    simp only [hpc] at h
    split at h <;> exact Option.some.inj h ▸ nofun
  | done => simp [hpc] at h
  | panicked => simp [hpc] at h
  | _ =>
    simp only [hpc, Option.some.injEq] at h
    subst h
    exact fun _ => hbefore (by rw [hpc]; rfl)

theorem Placed.bspStep (P : Placed cfg s) (h : bspStep cfg s = some s') : Placed cfg s' := by
  obtain ⟨hdesc, hap⟩ := bspStep_effect h
  have hup : ∀ a, (s'.ap a).isUp = true → (s.ap a).isUp = true := by
    intro a
    rcases hap with hsame | ⟨-, pc, hset, hkeep⟩
    · rw [hsame]
      exact id
    · rw [hset]
      by_cases ha : a = s.target cfg
      · subst ha
        rw [Function.update_self]
        exact hkeep
      · rw [Function.update_of_ne ha]
        exact id
  refine ⟨fun hfew => ?_, bspStep_attempt h P.attempt, fun a ha => ?_, ?_, ?_, ?_,
    fun a ha => ?_⟩
  · unfold Smp.bspStep at h
    rw [(P.few hfew).1] at h
    cases h
  · rcases hap with hsame | ⟨hattempt, pc, hset, -⟩
    · rw [hsame] at ha
      exact P.known a ha
    · by_cases htarget : a = s.target cfg
      · rw [htarget]
        exact P.attempt hattempt
      · rw [hset, Function.update_of_ne htarget] at ha
        exact P.known a ha
  · rw [hdesc]
    exact P.bspTr
  · rw [hdesc]
    exact P.bspSlot
  · rw [hdesc]
    exact P.apTr
  · rw [hdesc]
    exact P.loaded a (hup a ha)

/-- What a step of an AP does to the APs and the descriptors. -/
theorem apStep_effect {a : Nat} (h : apStep cfg s a = some s') :
    s'.pc = s.pc ∧ s'.i = s.i ∧ s.ap a ≠ .off ∧ ∃ pc, s'.ap = Function.update s.ap a pc ∧
      ((s'.descriptors = s.descriptors ∧ (pc.isUp = true → (s.ap a).isUp = true)) ∨
        s'.descriptors = gdtSetupCpuTss cfg.layout s.descriptors a (getCpuIndex a)) := by
  unfold apStep at h
  cases hpc : s.ap a with
  | off => simp [hpc] at h
  | waitSipi => simp [hpc] at h
  | running => simp [hpc] at h
  | lost => simp [hpc] at h
  | setupTss =>
    simp only [hpc, Option.some.injEq] at h
    subst h
    exact ⟨rfl, rfl, nofun, _, rfl, Or.inr rfl⟩
  | loadCr3 =>
    simp only [hpc, Option.some.injEq] at h
    subst h
    refine ⟨rfl, rfl, nofun, _, rfl, Or.inl ⟨rfl, fun hup => ?_⟩⟩
    split at hup <;> cases hup
  | loadGdt =>
    simp only [hpc, Option.some.injEq] at h
    subst h
    refine ⟨rfl, rfl, nofun, _, rfl, Or.inl ⟨rfl, fun hup => ?_⟩⟩
    split at hup <;> cases hup
  | loadStack =>
    simp only [hpc, Option.some.injEq] at h
    subst h
    exact ⟨rfl, rfl, nofun, _, rfl, Or.inl ⟨rfl, nofun⟩⟩
  | loadEntry rsp =>
    simp only [hpc, Option.some.injEq] at h
    subst h
    refine ⟨rfl, rfl, nofun, _, rfl, Or.inl ⟨rfl, fun hup => ?_⟩⟩
    split at hup <;> cases hup
  | _ =>
    simp only [hpc, Option.some.injEq] at h
    subst h
    exact ⟨rfl, rfl, nofun, _, rfl, Or.inl ⟨rfl, fun _ => rfl⟩⟩

/-- `gdt_setup_cpu_tss` loads the selector of the AP, if it has a slot. -/
theorem gdtSetupCpuTss_apSelector {L : TssLayout} {d : Descriptors} {a : Nat}
    (hbefore : d.tr a = none ∨ d.tr a = apSelector a) :
    (gdtSetupCpuTss L d a (getCpuIndex a)).tr a = apSelector a ∧
      ∀ b, b ≠ a → (gdtSetupCpuTss L d a (getCpuIndex a)).tr b = d.tr b := by
  by_cases hslot : getCpuIndex a < maxTssCpus
  · rw [gdtSetupCpuTss_tr hslot]
    refine ⟨?_, fun b hb => Function.update_of_ne hb _ _⟩
    rw [Function.update_self, apSelector, if_pos hslot]
  · rw [gdtSetupCpuTss_out (by omega)]
    refine ⟨?_, fun _ _ => rfl⟩
    have hnone : apSelector a = none := if_neg hslot
    rcases hbefore with h | h
    · rw [h, hnone]
    · exact h

theorem Placed.apStep (P : Placed cfg s) {a : Nat} (h : apStep cfg s a = some s') :
    Placed cfg s' := by
  obtain ⟨hpc, hi, hoff, pc, hap, heffect⟩ := apStep_effect h
  obtain ⟨hlisted, hother⟩ := P.known a hoff
  have htarget : s'.target cfg = s.target cfg := by
    unfold State.target
    rw [hi]
  have hknown : ∀ b, s'.ap b ≠ .off → b ∈ cfg.apicIds ∧ b ≠ cfg.bspId := by
    intro b hb
    by_cases hab : b = a
    · rw [hab]
      exact ⟨hlisted, hother⟩
    · rw [hap, Function.update_of_ne hab] at hb
      exact P.known b hb
  have hfew : cfg.apicIds.length ≤ 1 → s'.pc = .done ∧ ∀ a, s'.ap a = .off := by
    intro hfew
    exact absurd ((P.few hfew).2 a) hoff
  have hattempt : s'.pc.inAttempt = true → s'.target cfg ∈ cfg.apicIds ∧
      s'.target cfg ≠ cfg.bspId := by
    rw [hpc, htarget]
    exact P.attempt
  rcases heffect with ⟨hdesc, hup⟩ | hdesc
  · refine ⟨hfew, hattempt, hknown, hdesc ▸ P.bspTr, hdesc ▸ P.bspSlot, hdesc ▸ P.apTr,
      fun b hb => ?_⟩
    rw [hdesc]
    by_cases hab : b = a
    · subst hab
      rw [hap, Function.update_self] at hb
      exact P.loaded b (hup hb)
    · rw [hap, Function.update_of_ne hab] at hb
      exact P.loaded b hb
  · obtain ⟨hself, hrest⟩ := gdtSetupCpuTss_apSelector (L := cfg.layout) (P.apTr a hother)
    rw [← hdesc] at hself hrest
    refine ⟨hfew, hattempt, hknown, ?_, ?_, fun b hb => ?_, fun b hb => ?_⟩
    · rw [hrest _ hother.symm]
      exact P.bspTr
    · rw [hdesc]
      exact P.bspSlot.setup
    · by_cases hab : b = a
      · rw [hab]
        exact Or.inr hself
      · rw [hrest b hab]
        exact P.apTr b hb
    · by_cases hab : b = a
      · subst hab
        refine ⟨hself, fun hslot => ?_⟩
        rw [hdesc]
        exact gdtSetupCpuTss_ready hslot
      · rw [hap, Function.update_of_ne hab] at hb
        obtain ⟨htr, hready⟩ := P.loaded b hb
        refine ⟨(hrest b hab).trans htr, fun hslot => ?_⟩
        rw [hdesc]
        exact (hready hslot).setup

/-- **Run lemma.** -/
theorem placed_of_reach (r : Reach (Initial A cfg) (step cfg) (fun _ _ => True) s) :
    Placed cfg s := by
  refine Reach.invariant (P := Placed cfg) (fun _ h => h.placed) ?_ r
  rintro s (_ | a) s' P - h
  · exact P.bspStep h
  · exact P.apStep h

end Invariant

/-! ## The run in which everybody answers -/

section Everybody

variable {A : Heap.Arena} {cfg : Config}

/-- Everybody up to entry `k` of the list came up, and the heap has room for the
others. -/
structure UpTo (A : Heap.Arena) (cfg : Config) (k : Nat) (s : State) : Prop where
  pc : s.pc = .next
  i : s.i = k
  started : s.started ≤ k
  heap : ∃ l, Heap.WorldInv A s.heap l ∧ Heap.HasRoom apStackSize (62 - k) l
  up : ∀ j < k, cfg.apicIds.getD j 0 ≠ cfg.bspId → s.ap (cfg.apicIds.getD j 0) = .running

/-- One entry more. -/
theorem UpTo.next {k : Nat} {s : State} (hlow : cfg.Low) (hk : k < cfg.apicIds.length)
    (U : UpTo A cfg k s) (r : Reach (Initial A cfg) (step cfg) (fun _ _ => True) s) :
    ∃ s', Reach (Initial A cfg) (step cfg) (fun _ _ => True) s' ∧ UpTo A cfg (k + 1) s' := by
  have hlength := cfg.apicIds_length
  have hi : s.i < cfg.apicIds.length := U.i ▸ hk
  have hstarted : s.started < maxApCpus :=
    Nat.lt_of_le_of_lt U.started (Nat.lt_of_lt_of_le hk hlength)
  have hentry : s.target cfg = cfg.apicIds.getD k 0 := by
    unfold State.target
    rw [U.i]
  obtain ⟨l, W, room⟩ := U.heap
  by_cases htarget : s.target cfg = cfg.bspId
  · refine ⟨_, reach_skip (fun _ => trivial) r U.pc hi hstarted htarget,
      U.pc, by simp [U.i], Nat.le_succ_of_le U.started, ⟨l, W, room.mono (by omega)⟩,
        fun j hj hne => ?_⟩
    rcases Nat.lt_succ_iff_lt_or_eq.mp hj with hold | rfl
    · exact U.up j hold hne
    · exact absurd (hentry.symm.trans htarget) hne
  · have hroom : Heap.HasRoom apStackSize (62 - (k + 1) + 1) l := by
      refine room.mono ?_
      unfold maxApCpus at hlength
      omega
    obtain ⟨p, heap, l', hkmalloc, W', room'⟩ := W.kmalloc_room (by decide) (by decide) hroom
    obtain ⟨s', r', B, hheap⟩ :=
      reach_broughtUp hlow (fun _ => trivial) (fun _ _ => trivial) r U.pc hi hstarted
      htarget hkmalloc
    have hworld : s'.heap = ⟨heap, (p, apStackSize) :: s.heap.live⟩ := by
      rw [← hheap, ← B.live]
    refine ⟨s', r', B.pc, ?_, ?_, ⟨l', hworld ▸ W', room'⟩, fun j hj hne => ?_⟩
    · rw [B.i, U.i]
    · rw [B.started]
      exact Nat.succ_le_succ U.started
    · rw [B.ap]
      by_cases hsame : cfg.apicIds.getD j 0 = s.target cfg
      · rw [hsame, Function.update_self]
      · rw [Function.update_of_ne hsame]
        refine U.up j (Nat.lt_of_le_of_ne (Nat.le_of_lt_succ hj) ?_) hne
        rintro rfl
        exact hsame hentry.symm

/-- **All APs can come up.** -/
theorem exists_all_up (A : Heap.Arena) (hlow : cfg.Low) (hmany : 2 ≤ cfg.apicIds.length) :
    ∃ s, Reach (Initial A cfg) (step cfg) (fun _ _ => True) s ∧
      ∀ a ∈ cfg.bspId :: cfg.apicIds, Up cfg s a := by
  have hall : ∀ k ≤ cfg.apicIds.length, ∃ s,
    Reach (Initial A cfg) (step cfg) (fun _ _ => True) s ∧
      UpTo A cfg k s := by
    intro k
    induction k with
    | zero =>
      intro _
      have hpc : (startState A cfg).pc = .next := if_neg (by omega)
      refine ⟨_, .start (initial_startState A cfg), hpc, rfl, Nat.le_refl _,
        ⟨_, Heap.worldInv_init ⟨_, rfl⟩, Heap.hasRoom_init A⟩, fun j hj => absurd hj (by omega)⟩
    | succ k ih =>
      intro hk
      obtain ⟨s, r, U⟩ := ih (by omega)
      exact U.next hlow hk r
  obtain ⟨s, r, U⟩ := hall _ (Nat.le_refl _)
  refine ⟨s, r, fun a ha => ?_⟩
  by_cases hbsp : a = cfg.bspId
  · exact Or.inl hbsp
  · have hlisted : a ∈ cfg.apicIds := by simpa [hbsp] using ha
    obtain ⟨j, hj, rfl⟩ := List.mem_iff_getElem.mp hlisted
    have hget : cfg.apicIds.getD j 0 = cfg.apicIds[j] := by
      rw [List.getD_eq_getElem?_getD, List.getElem?_eq_getElem hj]
      rfl
    refine Or.inr ?_
    rw [← hget, U.up j hj (hget ▸ hbsp)]
    rfl

end Everybody

/-! ## The entries of the per-CPU arrays -/

section Entries

theorem getCpuIndex_eq_iff {a b : Nat} :
    getCpuIndex a = getCpuIndex b ↔ a = b ∨ ((a = 0 ∨ 16 ≤ a) ∧ (b = 0 ∨ 16 ≤ b)) := by
  unfold getCpuIndex maxTrackedCpus
  split <;> split <;> omega

variable {m : Mem} {gRsdp madt lapic bsp : Nat} {es : List MadtEntry}

/-- The machine that a MADT describes, as far as `smp_start_aps` looks. -/
def madtProcessors (es : List MadtEntry) (bsp : Nat) : Config :=
  processors ((es.filterMap MadtEntry.enabledId).take maxApCpus) bsp (List.length_take_le _ _)

/-- A MADT with the BSP in it and fewer than two processors has the BSP only. -/
theorem single_processor (hbsp : bsp ∈ es.filterMap MadtEntry.enabledId)
    (hfew : ¬ 2 ≤ ((es.filterMap MadtEntry.enabledId).take maxApCpus).length) {a : Nat}
    (ha : a ∈ (es.filterMap MadtEntry.enabledId).take maxApCpus) : a = bsp := by
  unfold maxApCpus at *
  rw [List.length_take] at hfew
  have hlist := List.mem_of_mem_take ha
  match h : es.filterMap MadtEntry.enabledId with
  | [] => simp [h] at hbsp
  | [x] =>
    rw [h, List.mem_singleton] at hbsp hlist
    rw [hbsp, hlist]
  | x :: y :: rest =>
    rw [h, List.length_cons, List.length_cons] at hfew
    omega

/-- **Entries of the per-CPU arrays.**  Whatever the MADT, with the BSP in it: the BSP
and the APs that `smp_start_aps` brings up never share an entry, if and only if at
most one of the BSP and the first eight enabled processors has an APIC ID that is 0 or
at least 16. -/
theorem cpu_index_distinct_iff (hfind : (findMadt m gRsdp).value = some madt)
    (h : Madt m madt lapic es) (hbsp : bsp ∈ es.filterMap MadtEntry.enabledId) :
    (∀ A cfg s, (acpiFindCpus m gRsdp maxApCpus).value = .ret cfg.apicIds → cfg.bspId = bsp →
      Reach (Initial A cfg) (step cfg) (fun _ _ => True) s →
        ∀ a b, Up cfg s a → Up cfg s b → a ≠ b → getCpuIndex a ≠ getCpuIndex b) ↔
    ∀ a ∈ bsp :: (es.filterMap MadtEntry.enabledId).take 8,
      ∀ b ∈ bsp :: (es.filterMap MadtEntry.enabledId).take 8,
      (a = 0 ∨ 16 ≤ a) → (b = 0 ∨ 16 ≤ b) → a = b := by
  have hcpus := h.findCpus hfind maxApCpus
  constructor
  · intro hall a ha b hb hafold hbfold
    by_cases hmany : 2 ≤ (madtProcessors es bsp).apicIds.length
    · obtain ⟨s, r, hup⟩ := exists_all_up Heap.arenaAt2M (processors_low _ _ _) hmany
      by_contra hne
      refine hall _ (madtProcessors es bsp) s hcpus rfl r a b (hup a ha) (hup b hb) hne ?_
      exact getCpuIndex_eq_iff.mpr (Or.inr ⟨hafold, hbfold⟩)
    · have hsingle : ∀ c ∈ bsp :: (es.filterMap MadtEntry.enabledId).take 8, c = bsp := by
        intro c hc
        rcases List.mem_cons.mp hc with rfl | hc
        · rfl
        · exact single_processor hbsp hmany hc
      rw [hsingle a ha, hsingle b hb]
  · rintro hcond A cfg s hids rfl r a b ha hb hne heq
    have P := placed_of_reach r
    rw [hcpus] at hids
    have hids : (es.filterMap MadtEntry.enabledId).take 8 = cfg.apicIds := Exit.ret.inj hids
    have hlisted : ∀ c, Up cfg s c →
        c ∈ cfg.bspId :: (es.filterMap MadtEntry.enabledId).take 8 := by
      rintro c (rfl | hc)
      · exact List.mem_cons_self
      · refine List.mem_cons_of_mem _ (hids ▸ (P.known c fun hoff => ?_).1)
        rw [hoff] at hc
        cases hc
    rcases getCpuIndex_eq_iff.mp heq with hsame | ⟨hafold, hbfold⟩
    · exact hne hsame
    · exact hne (hcond a (hlisted a ha) b (hlisted b hb) hafold hbfold)

theorem acpiFindCpus_twoProcessors :
    (acpiFindCpus (twoProcessors 0xF0000 1) 0xE0000 maxApCpus).value =
    .ret (processors [0, 1] 0 (by decide)).apicIds := by
  decide +kernel

/-- Two processors with the IDs 0 and 1 use two entries. -/
theorem cpu_index_distinct_two :
    ∃ s, Reach (Initial Heap.arenaAt2M (processors [0, 1] 0 (by decide)))
      (step (processors [0, 1] 0 (by decide)))
        (fun _ _ => True) s ∧
      Up (processors [0, 1] 0 (by decide)) s 0 ∧ Up (processors [0, 1] 0 (by decide)) s 1 ∧
      getCpuIndex 0 ≠ getCpuIndex 1 := by
  obtain ⟨s, r, hup⟩ := exists_all_up Heap.arenaAt2M
    (processors_low [0, 1] 0 (by decide)) (by decide)
  have h₀ := hup 0 (by decide)
  have h₁ := hup 1 (by decide)
  refine ⟨s, r, h₀, h₁, ?_⟩
  exact (cpu_index_distinct_iff findMadt_twoProcessors twoProcessors_madt (by decide)).mpr
    (by decide) _ _ s
    acpiFindCpus_twoProcessors rfl r 0 1 h₀ h₁ (by decide)

/-- The processors with the IDs 0 and 16 share one. -/
theorem cpu_index_shared : (acpiFindCpus (twoProcessors 0xF0000 16) 0xE0000 maxApCpus).value =
    .ret [0, 16] ∧
    ∃ s, Reach (Initial Heap.arenaAt2M (processors [0, 16] 0 (by decide)))
      (step (processors [0, 16] 0 (by decide)))
        (fun _ _ => True) s ∧
      Up (processors [0, 16] 0 (by decide)) s 0 ∧ Up (processors [0, 16] 0 (by decide)) s 16 ∧
      getCpuIndex 0 = getCpuIndex 16 := by
  refine ⟨by decide +kernel, ?_⟩
  obtain ⟨s, r, hup⟩ := exists_all_up Heap.arenaAt2M
    (processors_low [0, 16] 0 (by decide)) (by decide)
  exact ⟨s, r, hup 0 (by decide), hup 16 (by decide), rfl⟩

end Entries

/-! ## Task-state segments -/

section Segments

variable {cfg : Config} {s : State}

/-- Processor `a` has executed `ltr` on the descriptor of a TSS that no other running
processor uses, and the stack in it is not zero and meets no other one's. -/
def HasOwnTss (cfg : Config) (s : State) (a : Nat) : Prop :=
  ∃ k, s.descriptors.tr a = some (selTssBase + k * 0x10) ∧
    SlotReady cfg.layout s.descriptors k ∧
    s.descriptors.rsp0 k ≠ 0 ∧
    ∀ b, Up cfg s b → b ≠ a → s.descriptors.tr b ≠ s.descriptors.tr a ∧
      ∀ l, s.descriptors.tr b = some (selTssBase + l * 0x10) →
        cfg.layout.kstackTop l ≤ cfg.layout.kstackBase k ∨
        cfg.layout.kstackTop k ≤ cfg.layout.kstackBase l

/-- The slot of a running processor, when the APs have the IDs 1, 2 and 3. -/
def tssSlot (cfg : Config) (a : Nat) : Nat := if a = cfg.bspId then 0 else a

theorem SlotReady.stack_ne {L : TssLayout} {d : Descriptors} {k : Nat} (h : SlotReady L d k)
    (hk : k < maxTssCpus) :
    d.rsp0 k ≠ 0 := by
  have hrange := L.kstack0_range
  have htop : 0 < L.kstackTop k ∧ L.kstackTop k < 2 ^ 64 := by
    unfold Context.Layout.kstackTop Context.Layout.kstackBase kstack0Size maxTssCpus at *
    omega
  rw [h.stack]
  intro hzero
  have hnat := congrArg UInt64.toNat hzero
  rw [UInt64.toNat_ofNat', Nat.mod_eq_of_lt htop.2] at hnat
  have hz : (0 : UInt64).toNat = 0 := rfl
  omega

theorem kstack_apart (L : TssLayout) {k l : Nat} (h : k ≠ l) :
    L.kstackTop l ≤ L.kstackBase k ∨ L.kstackTop k ≤ L.kstackBase l := by
  unfold Context.Layout.kstackTop Context.Layout.kstackBase kstack0Size
  omega

/-- Where the running processors have their TSS. -/
theorem Placed.tssSlot_ready (P : Placed cfg s)
    (hids : ∀ a ∈ cfg.apicIds, a ≠ cfg.bspId → a = 1 ∨ a = 2 ∨ a = 3) {a : Nat}
    (ha : Up cfg s a) :
    s.descriptors.tr a = some (selTssBase + tssSlot cfg a * 0x10) ∧ tssSlot cfg a < maxTssCpus ∧
      SlotReady cfg.layout s.descriptors (tssSlot cfg a) ∧
      (tssSlot cfg a = 0 ↔ a = cfg.bspId) := by
  unfold tssSlot
  by_cases hbsp : a = cfg.bspId
  · rw [if_pos hbsp, hbsp]
    exact ⟨P.bspTr, by decide, P.bspSlot, by simp⟩
  · rcases ha with hbsp' | hup
    · exact absurd hbsp' hbsp
    · have hoff : s.ap a ≠ .off := by
        intro hoff
        rw [hoff] at hup
        cases hup
      have hid := hids a (P.known a hoff).1 hbsp
      have hindex : getCpuIndex a = a := by
        unfold getCpuIndex maxTrackedCpus
        rw [if_pos (by omega)]
      have hslot : a < maxTssCpus := by
        unfold maxTssCpus
        omega
      obtain ⟨htr, hready⟩ := P.loaded a hup
      rw [apSelector, hindex, if_pos hslot] at htr
      rw [hindex] at hready
      rw [if_neg hbsp]
      exact ⟨htr, hslot, hready hslot, by omega⟩

theorem Placed.hasOwnTss (P : Placed cfg s)
    (hids : ∀ a ∈ cfg.apicIds, a ≠ cfg.bspId → a = 1 ∨ a = 2 ∨ a = 3) {a : Nat}
    (ha : Up cfg s a) :
    HasOwnTss cfg s a := by
  obtain ⟨htr, hslot, hready, hzero⟩ := P.tssSlot_ready hids ha
  refine ⟨tssSlot cfg a, htr, hready, hready.stack_ne hslot, fun b hb hne => ?_⟩
  obtain ⟨htr', -, -, hzero'⟩ := P.tssSlot_ready hids hb
  have hdiff : tssSlot cfg a ≠ tssSlot cfg b := by
    intro heq
    by_cases hbsp : a = cfg.bspId
    · exact hne ((hzero'.mp (heq ▸ hzero.mpr hbsp)).trans hbsp.symm)
    · have hbsp' : b ≠ cfg.bspId := fun h => hbsp (hzero.mp (heq.trans (hzero'.mpr h)))
      unfold tssSlot at heq
      rw [if_neg hbsp, if_neg hbsp'] at heq
      exact hne heq.symm
  rw [htr, htr']
  refine ⟨?_, ?_⟩
  · intro heq
    exact hdiff (selector_inj (Option.some.inj heq)).symm
  · intro l hl
    obtain rfl := selector_inj (Option.some.inj hl)
    exact kstack_apart _ hdiff

/-- An AP with another ID than 1, 2 and 3 has no TSS, or that of the BSP. -/
theorem Placed.no_own_tss (P : Placed cfg s) {a : Nat} (hup : (s.ap a).isUp = true)
    (hother : a ≠ cfg.bspId) (hid : ¬ (a = 1 ∨ a = 2 ∨ a = 3)) : ¬ HasOwnTss cfg s a := by
  rintro ⟨k, htr, -, -, hothers⟩
  rw [(P.loaded a hup).1] at htr
  have hindex : getCpuIndex a = 0 := by
    unfold apSelector at htr
    split at htr
    · rename_i hslot
      unfold maxTssCpus at hslot
      unfold getCpuIndex maxTrackedCpus at hslot ⊢
      split at hslot <;> split <;> omega
    · cases htr
  have hself : apSelector a = some selTssBase := by
    unfold apSelector
    rw [hindex]
    rfl
  refine (hothers cfg.bspId (Or.inl rfl) hother.symm).1 ?_
  rw [P.bspTr, (P.loaded a hup).1, hself]

variable {m : Mem} {gRsdp madt lapic bsp : Nat} {es : List MadtEntry}

/-- **Task-state segments.**  Whatever the MADT and the ID of the BSP: every processor
that runs has a TSS and a kernel stack of its own, if and only if fewer than two
processors are enabled or those other than the BSP among the first eight have the APIC
IDs 1, 2 and 3. -/
theorem own_tss_iff (hfind : (findMadt m gRsdp).value = some madt) (h : Madt m madt lapic es) :
    (∀ A cfg s, (acpiFindCpus m gRsdp maxApCpus).value = .ret cfg.apicIds → cfg.bspId = bsp →
      Reach (Initial A cfg) (step cfg) (fun _ _ => True) s → ∀ a, Up cfg s a →
      HasOwnTss cfg s a) ↔
    ((es.filterMap MadtEntry.enabledId).length ≤ 1 ∨
      ∀ a ∈ (es.filterMap MadtEntry.enabledId).take 8, a ≠ bsp → a = 1 ∨ a = 2 ∨ a = 3) := by
  have hcpus := h.findCpus hfind maxApCpus
  have hlength : ((es.filterMap MadtEntry.enabledId).take 8).length ≤ 1 ↔
      (es.filterMap MadtEntry.enabledId).length ≤ 1 := by
    rw [List.length_take]
    omega
  constructor
  · intro hall
    by_cases hmany : 2 ≤ (madtProcessors es bsp).apicIds.length
    · refine Or.inr fun a ha hother => ?_
      obtain ⟨s, r, hup⟩ := exists_all_up Heap.arenaAt2M (processors_low _ _ _) hmany
      by_contra hid
      have hrun : Up (madtProcessors es bsp) s a := hup a (List.mem_cons_of_mem _ ha)
      have hown := hall _ (madtProcessors es bsp) s hcpus rfl r a hrun
      exact (placed_of_reach r).no_own_tss (hrun.resolve_left hother) hother hid hown
    · exact Or.inl (hlength.mp (Nat.le_of_lt_succ (Nat.lt_of_not_le hmany)))
  · rintro hcond A cfg s hids rfl r a ha
    rw [hcpus] at hids
    have hids : (es.filterMap MadtEntry.enabledId).take 8 = cfg.apicIds := Exit.ret.inj hids
    have P := placed_of_reach r
    rcases hcond with hfew | hcond
    · -- the BSP runs alone
      have hoff := (P.few (hids ▸ hlength.mpr hfew)).2
      have halone : ∀ b, Up cfg s b → b = cfg.bspId := by
        rintro b (hb | hb)
        · exact hb
        · rw [hoff b] at hb
          cases hb
      rw [halone a ha]
      exact ⟨0, P.bspTr, P.bspSlot, P.bspSlot.stack_ne (by decide),
        fun b hb hne => absurd (halone b hb) hne⟩
    · exact P.hasOwnTss (hids ▸ hcond) ha

/-- Two processors with the IDs 0 and 1, the first of them the BSP. -/
theorem own_tss_two :
    ∃ s, Reach (Initial Heap.arenaAt2M (processors [0, 1] 0 (by decide)))
      (step (processors [0, 1] 0 (by decide)))
        (fun _ _ => True) s ∧
      HasOwnTss (processors [0, 1] 0 (by decide)) s 0 ∧
      HasOwnTss (processors [0, 1] 0 (by decide)) s 1 := by
  obtain ⟨s, r, hup⟩ := exists_all_up Heap.arenaAt2M
    (processors_low [0, 1] 0 (by decide)) (by decide)
  have hown := (own_tss_iff findMadt_twoProcessors twoProcessors_madt).mpr
    (Or.inr (by decide)) _ _ s
    acpiFindCpus_twoProcessors rfl r
  exact ⟨s, r, hown 0 (hup 0 (by decide)), hown 1 (hup 1 (by decide))⟩

/-- The processor with the ID 4 runs without a TSS. -/
theorem fifth_processor_without_tss :
    (acpiFindCpus (twoProcessors 0xF0000 4) 0xE0000 maxApCpus).value = .ret [0, 4] ∧
    ∃ s, Reach (Initial Heap.arenaAt2M (processors [0, 4] 0 (by decide)))
      (step (processors [0, 4] 0 (by decide)))
        (fun _ _ => True) s ∧
      Up (processors [0, 4] 0 (by decide)) s 4 ∧ s.descriptors.tr 4 = none ∧
      ¬ HasOwnTss (processors [0, 4] 0 (by decide)) s 4 := by
  refine ⟨by decide +kernel, ?_⟩
  obtain ⟨s, r, hup⟩ := exists_all_up Heap.arenaAt2M
    (processors_low [0, 4] 0 (by decide)) (by decide)
  have hrun := hup 4 (by decide)
  have P := placed_of_reach r
  have hap : (s.ap 4).isUp = true := hrun.resolve_left (by decide)
  exact ⟨s, r, hrun, (P.loaded 4 hap).1, P.no_own_tss hap (by decide) (by decide)⟩

end Segments

end NekaKernel.Smp
