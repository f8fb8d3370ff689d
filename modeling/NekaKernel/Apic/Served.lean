/-
  Apic/Served.lean --- one base for all accesses to the local APIC.

  `apic.c` accesses the registers over `lapic_base_pa`, which is set from the MADT,
  and `smp.c` over a constant.  Only the address in the variable is mapped.  So all
  accesses go to one base, and into mapped pages, exactly where the MADT gives the
  constant or there is no processor to start, and where neither address makes a
  reserved entry for the page of the registers.
-/
import NekaKernel.Apic.Registers

set_option autoImplicit false

namespace NekaKernel.Apic

open NekaKernel.Foundation NekaKernel.Kernel NekaKernel.Paging NekaKernel.Acpi

/-! ## The adopted bases -/

section Bases

variable {m : Mem} {gRsdp stop lapic ioapic : Nat}

theorem ioApicLoop_lt {ioapicPa : Nat} : ∀ {fuel ptr : Nat},
    (ioApicLoop m stop fuel ptr).value = .ret ioapicPa → ioapicPa < 2 ^ 32 := by
  intro fuel
  induction fuel with
  | zero =>
    intro ptr h
    exact absurd h nofun
  | succ fuel ih =>
    intro ptr h
    by_cases hlt : ptr < stop
    · rw [ioApicLoop_value hlt] at h
      split at h
      · obtain rfl := Exit.ret.inj h
        exact Mem.read_lt m _ 4
      · exact ih h
    · rw [ioApicLoop_end hlt] at h
      obtain rfl := Exit.ret.inj h
      decide

/-- What `acpi_find_apic_bases` stores are 32-bit addresses. -/
theorem acpiFindApicBases_lt
    (h : (acpiFindApicBases m gRsdp).value = .ret ⟨true, some (lapic, ioapic)⟩) :
    lapic < 2 ^ 32 ∧ ioapic < 2 ^ 32 := by
  unfold acpiFindApicBases at h
  generalize loopFuel = fuel at h
  rw [Traced.bind_value] at h
  cases hmadt : (findMadt m gRsdp).value with
  | none =>
    rw [hmadt] at h
    exact absurd h nofun
  | some madt =>
    rw [hmadt] at h
    dsimp only at h
    rw [Traced.bind_value, Traced.bind_value, Traced.bind_value, load_value, load_value] at h
    cases hloop :
        (ioApicLoop m (add64 madt (m.read (madt + 4) 4)) fuel (madt + madtEntries)).value with
    | ret ioapicPa =>
      rw [hloop] at h
      have hstored := congrArg ApicBases.stored (Exit.ret.inj h)
      obtain ⟨rfl, rfl⟩ := Prod.mk.inj (Option.some.inj hstored)
      exact ⟨Mem.read_lt m _ 4, ioApicLoop_lt hloop⟩
    | panic category code =>
      rw [hloop] at h
      exact absurd h nofun
    | hang =>
      rw [hloop] at h
      exact absurd h nofun

end Bases

/-! ## The page of the registers -/

/-- The number of the page of the first register in use, which is then that of all. -/
def registerPage (lapic : Nat) : Nat := pageNumber (lapic + lapicId)

/-- `lapic_enable` leaves the registers mapped: its entry is for their page and has no
reserved bit, or they lie behind that page and the identity map still has them. -/
def RegistersMapped (lapic : Nat) : Prop :=
  if (lapic + lapicId) / 2 ^ 21 = lapic / 2 ^ 21 then lapic / 2 ^ 13 % 2 ^ 8 = 0
  else lapic + lapicId < 2 ^ 30

instance (lapic : Nat) : Decidable (RegistersMapped lapic) :=
  inferInstanceAs (Decidable (ite _ _ _))

/-- Mapping `pa` leaves the page of the registers usable: it is another page, or the
entry has no reserved bit. -/
def KeepsPage (lapic pa : Nat) : Prop :=
  pa / 2 ^ 21 = (lapic + lapicId) / 2 ^ 21 → pa / 2 ^ 13 % 2 ^ 8 = 0

instance (lapic pa : Nat) : Decidable (KeepsPage lapic pa) :=
  inferInstanceAs (Decidable (_ → _))

/-- The entry maps. -/
def Usable (entry : Nat) : Prop := entry ≠ 0 ∧ entry / 2 ^ 13 % 2 ^ 8 = 0

section Page

variable {w : World} {L : Layout} {e : Nat → Nat} {lapic pa offset k : Nat}

theorem pageNumber_register (hlapic : lapic < 2 ^ 32) (hmapped : RegistersMapped lapic)
    (hfirst : lapicId ≤ offset) (hlast : offset < 0x1000) (hk : k < 4) :
    pageNumber (lapic + offset + k) = registerPage lapic := by
  unfold RegistersMapped at hmapped
  unfold registerPage pageNumber
  unfold lapicId at *
  split at hmapped
  all_goals omega

/-- An address is mapped if and only if the entry of its page maps. -/
theorem translate_isSome_iff (H : Holds w L) (hlists : Lists w L e) (hpa : pa < 2 ^ 39) :
    (translateVa w.page.mem w.page.kernelPml4 pa).isSome = true ↔
      Usable (e (pageNumber pa)) := by
  rw [H.translate_page hlists, if_pos hpa, pageTranslation_isSome]
  rfl

/-- A register is mapped if and only if the page of the registers is. -/
theorem mapsWord_lapic_iff (H : Holds w L) (hlists : Lists w L e) (hlapic : lapic < 2 ^ 32)
    (hmapped : RegistersMapped lapic) (hfirst : lapicId ≤ offset) (hlast : offset < 0x1000) :
    mapsWord w (lapic + offset) = true ↔ Usable (e (registerPage lapic)) := by
  have hbyte :
    ∀ k < 4, (translateVa w.page.mem w.page.kernelPml4 (lapic + offset + k)).isSome = true ↔
      Usable (e (registerPage lapic)) := by
    intro k hk
    rw [translate_isSome_iff H hlists (by omega),
      pageNumber_register hlapic hmapped hfirst hlast hk]
  unfold mapsWord
  rw [List.all_eq_true]
  constructor
  · intro h
    exact (hbyte 0 (by decide)).mp (h 0 (by decide))
  · intro h k hk
    exact (hbyte k (List.mem_range.mp hk)).mpr h

theorem usable_mmio_iff (pa : Nat) : Usable (pa ||| 0x93) ↔ pa / 2 ^ 13 % 2 ^ 8 = 0 := by
  unfold Usable
  rw [mmio_entry_div]
  exact ⟨And.right, fun h => ⟨or_ne_zero _ (by decide), h⟩⟩

theorem pageNumber_eq_iff (hlapic : lapic < 2 ^ 32) (hpa : pa < 2 ^ 32) :
    pageNumber pa = registerPage lapic ↔ pa / 2 ^ 21 = (lapic + lapicId) / 2 ^ 21 := by
  unfold registerPage pageNumber lapicId
  omega

/-- The entry of the page after a mapping. -/
theorem mapPage_lapic (hlapic : lapic < 2 ^ 32) (hpa : pa < 2 ^ 32) (e : Nat → Nat) :
    mapPage e pa (registerPage lapic) =
      if pa / 2 ^ 21 = (lapic + lapicId) / 2 ^ 21 then pa ||| 0x93
      else e (registerPage lapic) := by
  unfold mapPage
  by_cases hsame : pa / 2 ^ 21 = (lapic + lapicId) / 2 ^ 21
  · rw [if_pos hsame, ← (pageNumber_eq_iff hlapic hpa).mpr hsame, Function.update_self]
  · rw [if_neg hsame,
      Function.update_of_ne fun heq => hsame ((pageNumber_eq_iff hlapic hpa).mp heq.symm)]

theorem usable_mapPage (hlapic : lapic < 2 ^ 32) (hpa : pa < 2 ^ 32)
    (hkeeps : KeepsPage lapic pa) (h : Usable (e (registerPage lapic))) :
    Usable (mapPage e pa (registerPage lapic)) := by
  rw [mapPage_lapic hlapic hpa]
  split
  · rename_i hsame
    exact (usable_mmio_iff pa).mpr (hkeeps hsame)
  · exact h

/-- **The first mapping**, that of `lapic_enable`. -/
theorem usable_enabled_iff (hlapic : lapic < 2 ^ 32) :
    Usable (mapPage identityPages lapic (registerPage lapic)) ↔ RegistersMapped lapic := by
  rw [mapPage_lapic hlapic hlapic]
  unfold RegistersMapped
  by_cases hsame : (lapic + lapicId) / 2 ^ 21 = lapic / 2 ^ 21
  · rw [if_pos hsame.symm, if_pos hsame, usable_mmio_iff]
  · rw [if_neg (Ne.symm hsame), if_neg hsame, ← identityPages_mapped]
    have hlow : lapic + lapicId < 2 ^ 39 := by
      unfold lapicId
      omega
    exact ⟨fun husable => ⟨hlow, husable⟩, And.right⟩

theorem RegistersMapped.keepsPage (h : RegistersMapped lapic) : KeepsPage lapic lapic := by
  intro hsame
  unfold RegistersMapped at h
  rwa [if_pos hsame.symm] at h

end Page

/-! ## The invariant -/

/-- The address is in the gigabyte of the ring-3 pages. -/
def BesideRing3 (pa : Nat) : Prop := 2 ^ 30 ≤ pa ∧ pa < 2 ^ 31

instance (pa : Nat) : Decidable (BesideRing3 pa) := inferInstanceAs (Decidable (_ ∧ _))

/-- What is asked of the adopted bases: 32 bits, and mappings that leave the page of the
registers usable. -/
structure Bases (lapic ioapic : Nat) : Prop where
  lapic_lt : lapic < 2 ^ 32
  ioapic_lt : ioapic < 2 ^ 32
  mapped : RegistersMapped lapic
  keeps : KeepsPage lapic ioapic

/-- The registers are mapped, every access so far was served, and `smp.c` stores to
registers only where its constant is the base. -/
structure Inv (lapic ioapic : Nat) (s : ApicState) : Prop where
  lapicBase : s.lapicBasePa = lapic
  ioapicBase : s.ioapicBasePa = ioapic
  served : Served lapic s
  starts : s.toStart ≠ [] → lapic = 0xFEE00000
  page : ∃ L e, Holds s.world L ∧ Lists s.world L e ∧ Usable (e (registerPage lapic)) ∧
    (¬ BesideRing3 lapic → ¬ BesideRing3 ioapic → L.Private)

section Steps

variable {s : ApicState} {m : Mem} {gRsdp lapic ioapic bspId offset addr pa value : Nat}
  {written : Option Nat} {device : Device}

/-- **One access to the local APIC**, at the adopted base. -/
theorem preserves_access_lapic (B : Bases lapic ioapic) (hfirst : lapicId ≤ offset)
    (hlast : offset < 0x1000) :
    Preserves (Inv lapic ioapic) (access .lapic offset (lapic + offset) written) := by
  intro s _ s' I h
  obtain ⟨-, rfl⟩ := Prod.mk.inj (Option.some.inj h)
  obtain ⟨L, e, H, hlists, husable, hprivate⟩ := I.page
  refine ⟨I.lapicBase, I.ioapicBase, fun a ha hchip => ?_, I.starts,
    L, e, H, hlists, husable, hprivate⟩
  rcases List.mem_cons.mp ha with rfl | hold
  · exact ⟨rfl, (mapsWord_lapic_iff H hlists B.lapic_lt B.mapped hfirst hlast).mpr husable⟩
  · exact I.served a hold hchip

theorem preserves_access_ioapic :
    Preserves (Inv lapic ioapic) (access .ioapic offset addr written) := by
  intro s _ s' I h
  obtain ⟨-, rfl⟩ := Prod.mk.inj (Option.some.inj h)
  refine ⟨I.lapicBase, I.ioapicBase, fun a ha hchip => ?_, I.starts, I.page⟩
  rcases List.mem_cons.mp ha with rfl | hold
  · cases hchip
  · exact I.served a hold hchip

/-- **One mapping**, of an address that keeps the page. -/
theorem preserves_map (B : Bases lapic ioapic) (hpa : pa < 2 ^ 32) (hkeeps : KeepsPage lapic pa)
    (hout : ¬ BesideRing3 lapic → ¬ BesideRing3 ioapic → ¬ BesideRing3 pa) :
    Preserves (Inv lapic ioapic) (callPaging (.pagingMapMmio2mb pa)) := by
  intro s _ s' I h
  obtain ⟨w', hstep, hs'⟩ := Option.map_eq_some_iff.mp h
  obtain ⟨-, rfl⟩ := Prod.mk.inj hs'
  obtain ⟨L, e, H, hlists, husable, hprivate⟩ := I.page
  obtain ⟨L', H', hlists', hkept⟩ := H.lists_mmio hlists (Nat.lt_trans hpa (by decide)) hstep
  refine ⟨I.lapicBase, I.ioapicBase, I.served, I.starts, L', _, H', hlists',
    usable_mapPage B.lapic_lt hpa hkeeps husable, fun hlapic hioapic => ?_⟩
  have hpaOut := hout hlapic hioapic
  unfold BesideRing3 at hpaOut
  exact hkept ⟨by omega, by omega⟩ (hprivate hlapic hioapic)

/-- **One creation.** -/
theorem preserves_create {op : Op} (hop : op.Creates)
    (hring : op = .createUserProcess → ¬ BesideRing3 lapic ∧ ¬ BesideRing3 ioapic) :
    Preserves (Inv lapic ioapic) (callPaging op) := by
  intro s _ s' I h
  obtain ⟨w', hstep, hs'⟩ := Option.map_eq_some_iff.mp h
  obtain ⟨-, rfl⟩ := Prod.mk.inj hs'
  obtain ⟨L, e, H, hlists, husable, hprivate⟩ := I.page
  obtain ⟨L', H', hlists', hpds⟩ := H.lists_creates hlists hstep hop fun heq =>
    hprivate (hring heq).1 (hring heq).2
  refine ⟨I.lapicBase, I.ioapicBase, I.served, I.starts,
    L', e, H', hlists', husable, fun hlapic hioapic => ?_⟩
  unfold Layout.Private
  rw [hpds]
  exact hprivate hlapic hioapic

/-! ### The functions -/

theorem preserves_setLapicReg (B : Bases lapic ioapic) (hfirst : lapicId ≤ offset)
    (hlast : offset < 0x1000) : Preserves (Inv lapic ioapic) (setLapicReg offset value) := by
  refine Preserves.get_bind fun s I => ?_
  rw [I.lapicBase]
  exact preserves_access_lapic B hfirst hlast

theorem preserves_lapicReg (B : Bases lapic ioapic) (hfirst : lapicId ≤ offset)
    (hlast : offset < 0x1000) : Preserves (Inv lapic ioapic) (lapicReg device offset) := by
  refine Preserves.get_bind fun s I => ?_
  rw [I.lapicBase]
  exact (preserves_access_lapic B hfirst hlast).bind fun _ => preserves_pure _

theorem preserves_lapicGetId (B : Bases lapic ioapic) :
    Preserves (Inv lapic ioapic) (lapicGetId device) :=
  (preserves_lapicReg B (by decide) (by decide)).bind fun _ => preserves_pure _

theorem preserves_lapicEnable (B : Bases lapic ioapic) :
    Preserves (Inv lapic ioapic) lapicEnable := by
  refine Preserves.get_bind fun s I => ?_
  rw [I.lapicBase]
  have hmap := preserves_map B B.lapic_lt B.mapped.keepsPage fun hlapic _ => hlapic
  exact hmap.bind fun _ => preserves_setLapicReg B (by decide) (by decide)

theorem preserves_lapicCalibrateTicks (B : Bases lapic ioapic) :
    Preserves (Inv lapic ioapic) (lapicCalibrateTicks device) := by
  refine (preserves_setLapicReg B (by decide) (by decide)).bind fun _ => ?_
  refine (preserves_setLapicReg B (by decide) (by decide)).bind fun _ => ?_
  exact (preserves_lapicReg B (by decide) (by decide)).bind fun _ => preserves_pure _

theorem preserves_apicTimerInit (B : Bases lapic ioapic) (vector : Nat) :
    Preserves (Inv lapic ioapic) (apicTimerInit device vector) := by
  refine (preserves_lapicCalibrateTicks B).bind fun ticks => ?_
  refine (preserves_setLapicReg B (by decide) (by decide)).bind fun _ => ?_
  refine (preserves_setLapicReg B (by decide) (by decide)).bind fun _ => ?_
  exact preserves_setLapicReg B (by decide) (by decide)

theorem preserves_ioapicWrite (B : Bases lapic ioapic) (reg val : Nat) :
    Preserves (Inv lapic ioapic) (ioapicWrite reg val) := by
  refine Preserves.get_bind fun s I => ?_
  rw [I.ioapicBase]
  refine (preserves_map B B.ioapic_lt B.keeps fun _ hioapic => hioapic).bind fun _ => ?_
  exact preserves_access_ioapic.bind fun _ => preserves_access_ioapic

theorem preserves_ioapicSetRedirect (B : Bases lapic ioapic) (irq vector : Nat) :
    Preserves (Inv lapic ioapic) (ioapicSetRedirect device irq vector) := by
  refine (preserves_lapicGetId B).bind fun id => ?_
  exact (preserves_ioapicWrite B _ _).bind fun _ => preserves_ioapicWrite B _ _

/-- The constant of `smp.c` is the base. -/
theorem preserves_setSmpLapicReg (B : Bases 0xFEE00000 ioapic) (hfirst : lapicId ≤ offset)
    (hlast : offset < 0x1000) :
    Preserves (Inv 0xFEE00000 ioapic) (setSmpLapicReg offset value) :=
  preserves_access_lapic B hfirst hlast

theorem preserves_sendInitSipiSipi (B : Bases 0xFEE00000 ioapic) (apicId : Nat) :
    Preserves (Inv 0xFEE00000 ioapic) (sendInitSipiSipi apicId) := by
  refine (preserves_setSmpLapicReg B (by decide) (by decide)).bind fun _ => ?_
  refine (preserves_setSmpLapicReg B (by decide) (by decide)).bind fun _ => ?_
  refine (preserves_setSmpLapicReg B (by decide) (by decide)).bind fun _ => ?_
  refine (preserves_setSmpLapicReg B (by decide) (by decide)).bind fun _ => ?_
  refine (preserves_setSmpLapicReg B (by decide) (by decide)).bind fun _ => ?_
  exact preserves_setSmpLapicReg B (by decide) (by decide)

theorem Inv.setToStart (I : Inv lapic ioapic s) {ids : List Nat}
    (hids : ids ≠ [] → lapic = 0xFEE00000) : Inv lapic ioapic { s with toStart := ids } :=
  ⟨I.lapicBase, I.ioapicBase, I.served, hids, I.page⟩

/-- A turn of the loop of `smp_start_aps` comes only where the constant is the base. -/
theorem preserves_startNextAp (B : Bases lapic ioapic) :
    Preserves (Inv lapic ioapic) startNextAp := by
  refine Preserves.get_bind fun s I => ?_
  cases hids : s.toStart with
  | nil => exact fun _ _ _ _ h => absurd h nofun
  | cons apicId rest =>
    obtain rfl : lapic = 0xFEE00000 := I.starts (by simp [hids])
    have hset : Preserves (Inv 0xFEE00000 ioapic) (set { s with toStart := rest }) :=
      preserves_set (I.setToStart fun _ => rfl)
    exact hset.bind fun _ => preserves_sendInitSipiSipi B apicId

/-- The guard of the runs: a ring-3 process is made only while neither controller is
mapped in the gigabyte of its pages, and `bspId` is the ID the BSP finds. -/
def Undisturbed (lapic ioapic bspId : Nat) (device : Device) (s : ApicState) : Call → Prop
  | .createUserProcess => ¬ BesideRing3 lapic ∧ ¬ BesideRing3 ioapic
  | .smpStartAps => idFound device s = bspId
  | _ => True

/-- **`smp_start_aps`**: what is left to start is what the BSP's ID leaves. -/
theorem Inv.smpStartAps {s' : ApicState} (B : Bases lapic ioapic) (I : Inv lapic ioapic s)
    (hstart : apsToStart m gRsdp bspId ≠ [] → lapic = 0xFEE00000)
    (hid : idFound device s = bspId) (h : smpStartAps m gRsdp device s = some ((), s')) :
    Inv lapic ioapic s' := by
  unfold Apic.smpStartAps at h
  unfold apsToStart at hstart
  cases hids : (acpiFindCpus m gRsdp Smp.maxApCpus).value with
  | ret apicIds =>
    rw [hids] at h hstart
    dsimp only at h hstart
    by_cases hfew : apicIds.length ≤ 1
    · rw [if_pos hfew] at h
      obtain ⟨-, rfl⟩ := Prod.mk.inj (Option.some.inj h)
      exact I
    · rw [if_neg hfew] at h hstart
      obtain ⟨-, rfl⟩ := Prod.mk.inj (Option.some.inj h)
      have hget : Preserves (Inv lapic ioapic) (lapicGetId device) := preserves_lapicGetId B
      exact (hget s _ _ I rfl).setToStart fun hne => hstart (hid ▸ hne)
  | panic category code =>
    rw [hids] at h
    exact absurd h nofun
  | hang =>
    rw [hids] at h
    exact absurd h nofun

/-- **The step lemma.** -/
theorem Inv.step {call : Call} {s' : ApicState} (B : Bases lapic ioapic)
    (I : Inv lapic ioapic s) (hstart : apsToStart m gRsdp bspId ≠ [] → lapic = 0xFEE00000)
    (hok : Undisturbed lapic ioapic bspId device s call)
    (h : s.step m gRsdp device call = some s') : Inv lapic ioapic s' := by
  obtain ⟨⟨⟨⟩, t⟩, hrun, rfl⟩ := Option.map_eq_some_iff.mp h
  cases call with
  | lapicEnable => exact preserves_lapicEnable B _ _ _ I hrun
  | lapicGetId => exact (preserves_lapicGetId B).bind (fun _ => preserves_pure _) _ _ _ I hrun
  | lapicSendEoi => exact preserves_setLapicReg B (by decide) (by decide) _ _ _ I hrun
  | apicTimerInit vector => exact preserves_apicTimerInit B vector _ _ _ I hrun
  | ioapicSetRedirect irq vector => exact preserves_ioapicSetRedirect B irq vector _ _ _ I hrun
  | smpStartAps => exact I.smpStartAps B hstart hok hrun
  | startNextAp => exact preserves_startNextAp B _ _ _ I hrun
  | createAddressSpace =>
    have hcreate : Preserves (Inv lapic ioapic) (callPaging .createAddressSpace) :=
      preserves_create trivial nofun
    exact hcreate _ _ _ I hrun
  | createUserProcess =>
    have hcreate : Preserves (Inv lapic ioapic) (callPaging .createUserProcess) :=
      preserves_create trivial fun _ => hok
    exact hcreate _ _ _ I hrun

end Steps

/-! ## Making a run -/

section Making

variable {s : ApicState} (m : Mem) (gRsdp : Nat) (device : Device) {w w' : World}

theorem callPaging_eq {op : Op} (h : s.world.step op = some w) :
    callPaging op s = some ((), { s with world := w }) := by
  unfold callPaging
  rw [h]
  rfl

/-- A program that goes on behind a call. -/
theorem bind_eq {α β : Type} {x : ApicM α} {f : α → ApicM β} {a : α} {s' : ApicState}
    (h : x s = some (a, s')) : (x >>= f) s = f a s' := by
  change (x s).bind (fun p => f p.1 p.2) = f a s'
  rw [h]
  rfl

/-- The state has the same bases and nothing to start, and the tables of `w`. -/
def After (s : ApicState) (w : World) (s' : ApicState) : Prop :=
  s'.lapicBasePa = s.lapicBasePa ∧ s'.ioapicBasePa = s.ioapicBasePa ∧ s'.world = w

theorem step_lapicEnable (h : s.world.step (.pagingMapMmio2mb s.lapicBasePa) = some w) :
    ∃ s', s.step m gRsdp device .lapicEnable = some s' ∧ After s w s' := by
  have hrun : s.step m gRsdp device .lapicEnable =
      ((callPaging (.pagingMapMmio2mb s.lapicBasePa) >>= fun _ =>
        setLapicReg lapicSpurious 0x1FF) s).map Prod.snd := rfl
  rw [hrun, bind_eq (callPaging_eq h)]
  exact ⟨_, rfl, rfl, rfl, rfl⟩

theorem ioapicWrite_eq (reg val : Nat)
    (h : s.world.step (.pagingMapMmio2mb s.ioapicBasePa) = some w) :
    ∃ s', ioapicWrite reg val s = some ((), s') ∧ After s w s' := by
  have hrun : ioapicWrite reg val s =
      (callPaging (.pagingMapMmio2mb s.ioapicBasePa) >>= fun _ => do
        access .ioapic 0x00 (s.ioapicBasePa + 0x00) (some reg)
        access .ioapic 0x10 (s.ioapicBasePa + 0x10) (some val)) s := rfl
  rw [hrun, bind_eq (callPaging_eq h)]
  exact ⟨_, rfl, rfl, rfl, rfl⟩

theorem step_ioapicSetRedirect (irq vector : Nat)
    (h : s.world.step (.pagingMapMmio2mb s.ioapicBasePa) = some w)
    (h' : w.step (.pagingMapMmio2mb s.ioapicBasePa) = some w') :
    ∃ s', s.step m gRsdp device (.ioapicSetRedirect irq vector) = some s' ∧ After s w' s' := by
  obtain ⟨id, s₁, hid, hlapic₁, hioapic₁, hworld₁⟩ :
      ∃ id s₁, lapicGetId device s = some (id, s₁) ∧ After s s.world s₁ :=
    ⟨_, _, rfl, rfl, rfl, rfl⟩
  obtain ⟨s₂, hlow, hlapic₂, hioapic₂, hworld₂⟩ :=
    ioapicWrite_eq ((0x10 + irq * 2) % 256) vector (hworld₁ ▸ hioapic₁ ▸ h)
  obtain ⟨s₃, hhigh, hlapic₃, hioapic₃, hworld₃⟩ :=
    ioapicWrite_eq ((0x10 + irq * 2 + 1) % 256) (id <<< 24) (hworld₂ ▸ hioapic₂ ▸ hioapic₁ ▸ h')
  have hrun : ioapicSetRedirect device irq vector s = some ((), s₃) :=
    (bind_eq hid).trans ((bind_eq hlow).trans hhigh)
  refine ⟨s₃, ?_, hlapic₃.trans (hlapic₂.trans hlapic₁),
    hioapic₃.trans (hioapic₂.trans hioapic₁), hworld₃⟩
  change (ioapicSetRedirect device irq vector s).map Prod.snd = some s₃
  rw [hrun]
  rfl

/-- `smp_start_aps` finds processors to start. -/
theorem step_smpStartAps {m : Mem} {gRsdp bspId apicId : Nat} {device : Device}
    {rest : List Nat} (hid : idFound device s = bspId)
    (hstart : apsToStart m gRsdp bspId = apicId :: rest) :
    ∃ s', s.step m gRsdp device .smpStartAps = some s' ∧ s'.toStart = apicId :: rest ∧
      After s s.world s' := by
  unfold apsToStart at hstart
  cases hids : (acpiFindCpus m gRsdp Smp.maxApCpus).value with
  | ret apicIds =>
    rw [hids] at hstart
    dsimp only at hstart
    by_cases hfew : apicIds.length ≤ 1
    · rw [if_pos hfew] at hstart
      exact absurd hstart nofun
    · rw [if_neg hfew, ← hid] at hstart
      have hrun : smpStartAps m gRsdp device = (do
          let bspId ← lapicGetId device
          modify fun s => { s with toStart := apicIds.filter (· != bspId) }) := by
        unfold smpStartAps
        rw [hids]
        exact if_neg hfew
      have hstep : s.step m gRsdp device .smpStartAps =
          (smpStartAps m gRsdp device s).map Prod.snd := rfl
      rw [hstep, hrun, ← hstart]
      exact ⟨_, rfl, rfl, rfl, rfl, rfl⟩
  | panic category code =>
    rw [hids] at hstart
    exact absurd hstart nofun
  | hang =>
    rw [hids] at hstart
    exact absurd hstart nofun

/-- The last store of a turn of the loop, with the tables as they are. -/
theorem step_startNextAp {apicId : Nat} {rest : List Nat} (hids : s.toStart = apicId :: rest) :
    ∃ s', s.step m gRsdp device .startNextAp = some s' ∧
      ⟨.lapic, lapicIcrLow, 0xFEE00300, some 0x4608, mapsWord s.world 0xFEE00300⟩ ∈
        s'.accesses := by
  cases s
  cases hids
  exact ⟨_, rfl, List.mem_cons_self⟩

end Making

/-! ## All runs -/

section Runs

variable {m : Mem} {gRsdp lapic ioapic bspId : Nat} {device : Device} {s : ApicState}
  {w₀ w : World}

/-- The states of the boot and SMP code from `lapic_enable` on. -/
def Reached (m : Mem) (gRsdp lapic ioapic bspId : Nat) (device : Device)
    (s : ApicState) : Prop :=
  Reach (Enabled m gRsdp device) (ApicState.step m gRsdp device)
    (Undisturbed lapic ioapic bspId device) s

theorem apicApplyAcpiBases_eq
    (h : (acpiFindApicBases m gRsdp).value = .ret ⟨true, some (lapic, ioapic)⟩)
    (s : ApicState) :
    apicApplyAcpiBases m gRsdp s =
      .ret { s with lapicBasePa := lapic, ioapicBasePa := ioapic } := by
  unfold apicApplyAcpiBases
  rw [h]

/-- `lapic_enable` maps the page of the adopted base. -/
theorem Enabled.inv
    (hbases : (acpiFindApicBases m gRsdp).value = .ret ⟨true, some (lapic, ioapic)⟩)
    (B : Bases lapic ioapic) (h : Enabled m gRsdp device s) : Inv lapic ioapic s := by
  obtain ⟨w₀, s₀, hboot, happly, hstep⟩ := h
  rw [apicApplyAcpiBases_eq hbases] at happly
  obtain rfl := Exit.ret.inj happly
  obtain ⟨⟨⟨⟩, s'⟩, hrun, rfl⟩ := Option.map_eq_some_iff.mp hstep
  obtain ⟨⟨⟨⟩, s₁⟩, hmap, hset⟩ := Option.bind_eq_some_iff.mp hrun
  obtain ⟨w₁, hmapped, hs₁⟩ := Option.map_eq_some_iff.mp hmap
  obtain ⟨-, rfl⟩ := Prod.mk.inj hs₁
  obtain ⟨L₀, H₀, hlists₀, P₀⟩ := hboot.lists
  obtain ⟨L, H, hlists, hprivate⟩ :=
    H₀.lists_mmio hlists₀ (Nat.lt_trans B.lapic_lt (by decide)) hmapped
  have hout : ¬ BesideRing3 lapic → Outside lapic := by
    have hlt := B.lapic_lt
    unfold BesideRing3 Outside
    omega
  refine preserves_setLapicReg B (by decide) (by decide) _ _ _ ?_ hset
  exact ⟨rfl, rfl, nofun, fun h => absurd rfl h, L, _, H, hlists,
    (usable_enabled_iff B.lapic_lt).mpr B.mapped, fun hlapic _ => hprivate (hout hlapic) P₀⟩

/-- A run to `lapic_enable`. -/
theorem exists_enabled
    (hbases : (acpiFindApicBases m gRsdp).value = .ret ⟨true, some (lapic, ioapic)⟩)
    (device : Device) (hboot : Booted w₀) (hmap : w₀.step (.pagingMapMmio2mb lapic) = some w) :
    ∃ s, Enabled m gRsdp device s ∧ After ⟨lapic, ioapic, [], w₀, []⟩ w s := by
  let s₀ : ApicState := ⟨lapic, ioapic, [], w₀, []⟩
  obtain ⟨s, hstep, hafter⟩ := step_lapicEnable (s := s₀) m gRsdp device hmap
  exact ⟨s, ⟨w₀, s₀, hboot, apicApplyAcpiBases_eq hbases _, hstep⟩, hafter⟩

/-- A device whose local APIC has the ID. -/
def idDevice (id : Nat) : Device := fun _ _ => id <<< 24

theorem idFound_idDevice (hid : bspId < 256) (s : ApicState) :
    idFound (idDevice bspId) s = bspId := by
  unfold idFound idDevice
  rw [Nat.shiftLeft_eq, Nat.shiftRight_eq_div_pow]
  omega

/-- The start-up IPIs go to the constant. -/
theorem lapic_eq_of_served
    (hbases : (acpiFindApicBases m gRsdp).value = .ret ⟨true, some (lapic, ioapic)⟩)
    (hbsp : bspId < 256) (hstart : apsToStart m gRsdp bspId ≠ [])
    (h : ∀ device s, Reached m gRsdp lapic ioapic bspId device s → Served lapic s) :
    lapic = 0xFEE00000 := by
  obtain ⟨w₀, w, -, hboot, hrun⟩ := exists_run 0x200000 [.pagingMapMmio2mb lapic]
    (by unfold IsFrame; decide) (by decide) (by simp)
  obtain ⟨w₁, hmap, -⟩ := Option.bind_eq_some_iff.mp hrun
  obtain ⟨s, henabled, -⟩ := exists_enabled hbases (idDevice bspId) hboot hmap
  have hid : idFound (idDevice bspId) s = bspId := idFound_idDevice hbsp s
  obtain ⟨apicId, rest, hlist⟩ := List.exists_cons_of_ne_nil hstart
  obtain ⟨s₁, hstep₁, hids, -⟩ := step_smpStartAps hid hlist
  obtain ⟨s₂, hstep₂, haccess⟩ := step_startNextAp m gRsdp (idDevice bspId) hids
  have hreached₁ : Reached m gRsdp lapic ioapic bspId (idDevice bspId) s₁ :=
    .step (a := .smpStartAps) (.start henabled) hid hstep₁
  have hreached : Reached m gRsdp lapic ioapic bspId (idDevice bspId) s₂ :=
    .step (a := .startNextAp) hreached₁ trivial hstep₂
  have haddr : 0xFEE00300 = lapic + 0x300 := (h _ _ hreached _ haccess rfl).1
  omega

/-- The first register is mapped where it is loaded. -/
theorem registersMapped_of_served
    (hbases : (acpiFindApicBases m gRsdp).value = .ret ⟨true, some (lapic, ioapic)⟩)
    (h : ∀ device s, Reached m gRsdp lapic ioapic bspId device s → Served lapic s) :
    RegistersMapped lapic := by
  obtain ⟨hlt, -⟩ := acpiFindApicBases_lt hbases
  obtain ⟨w₀, w, -, hboot, hrun⟩ := exists_run 0x200000 [.pagingMapMmio2mb lapic]
    (by unfold IsFrame; decide) (by decide) (by simp)
  obtain ⟨w₁, hmap, -⟩ := Option.bind_eq_some_iff.mp hrun
  obtain ⟨L₀, H₀, hlists₀, -⟩ := hboot.lists
  obtain ⟨L, H, hlists, -⟩ := H₀.lists_mmio hlists₀ (Nat.lt_trans hlt (by decide)) hmap
  obtain ⟨s, henabled, hlapic, -, hworld⟩ := exists_enabled hbases (idDevice 0) hboot hmap
  have hreached : Reached m gRsdp lapic ioapic bspId (idDevice 0) _ :=
    .step (a := .lapicGetId) (.start henabled) trivial rfl
  have haccess := (h _ _ hreached _ List.mem_cons_self rfl).2
  rw [hlapic, hworld] at haccess
  have hbyte := List.all_eq_true.mp haccess 0 (by decide)
  have hlow : lapic + lapicId < 2 ^ 39 := by
    unfold lapicId
    omega
  exact (usable_enabled_iff hlt).mp ((translate_isSome_iff H hlists hlow).mp hbyte)

/-- The I/O APIC's mapping is in force at the next access. -/
theorem keepsPage_of_served
    (hbases : (acpiFindApicBases m gRsdp).value = .ret ⟨true, some (lapic, ioapic)⟩)
    (h : ∀ device s, Reached m gRsdp lapic ioapic bspId device s → Served lapic s) :
    KeepsPage lapic ioapic := by
  intro hsame
  obtain ⟨hlt, hioapicLt⟩ := acpiFindApicBases_lt hbases
  have hmapped := registersMapped_of_served hbases h
  obtain ⟨w₀, w, -, hboot, hrun⟩ := exists_run 0x200000
    [.pagingMapMmio2mb lapic, .pagingMapMmio2mb ioapic, .pagingMapMmio2mb ioapic]
    (by unfold IsFrame; decide) (by decide) (by simp)
  obtain ⟨w₁, hmap₁, k₁⟩ := Option.bind_eq_some_iff.mp hrun
  obtain ⟨w₂, hmap₂, k₂⟩ := Option.bind_eq_some_iff.mp k₁
  obtain ⟨w₃, hmap₃, -⟩ := Option.bind_eq_some_iff.mp k₂
  -- what is mapped behind the two mappings of the I/O APIC
  have hwide : lapic < 2 ^ 64 ∧ ioapic < 2 ^ 64 := by omega
  obtain ⟨L₀, H₀, hlists₀, -⟩ := hboot.lists
  obtain ⟨L₁, H₁, hlists₁, -⟩ := H₀.lists_mmio hlists₀ hwide.1 hmap₁
  obtain ⟨L₂, H₂, hlists₂, -⟩ := H₁.lists_mmio hlists₁ hwide.2 hmap₂
  obtain ⟨L₃, H₃, hlists₃, -⟩ := H₂.lists_mmio hlists₂ hwide.2 hmap₃
  obtain ⟨s₁, henabled, hlapic₁, hioapic₁, hworld₁⟩ :=
    exists_enabled hbases (idDevice 0) hboot hmap₁
  have hfirst : s₁.world.step (.pagingMapMmio2mb s₁.ioapicBasePa) = some w₂ := by
    rw [hworld₁, hioapic₁]
    exact hmap₂
  have hsecond : w₂.step (.pagingMapMmio2mb s₁.ioapicBasePa) = some w₃ := by
    rw [hioapic₁]
    exact hmap₃
  obtain ⟨s₂, hredirect, hlapic₂, hioapic₂, hworld₂⟩ :=
    step_ioapicSetRedirect m gRsdp (idDevice 0) 1 33 hfirst hsecond
  have hreached₂ : Reached m gRsdp lapic ioapic bspId (idDevice 0) s₂ :=
    .step (a := .ioapicSetRedirect 1 33) (.start henabled) trivial hredirect
  have hreached : Reached m gRsdp lapic ioapic bspId (idDevice 0) _ :=
    .step (a := .lapicSendEoi) hreached₂ trivial rfl
  have haccess := (h _ _ hreached _ List.mem_cons_self rfl).2
  rw [hworld₂, hlapic₂, hlapic₁] at haccess
  have husable :=
    (mapsWord_lapic_iff H₃ hlists₃ hlt hmapped (by decide) (by decide)).mp haccess
  rw [mapPage_lapic hlt hioapicLt, if_pos hsame, usable_mmio_iff] at husable
  exact husable

/-- **When there is one base.**  The accesses of the boot and SMP code to the local
APIC all go to the adopted base, into mapped pages, if and only if the base is mapped
with no reserved bit, the I/O APIC's address does not make a reserved entry for the
same 2 MiB page, and the MADT gives the address `smp.c` has as a constant or lists no
processor to start. -/
theorem lapic_served_iff
    (hbases : (acpiFindApicBases m gRsdp).value = .ret ⟨true, some (lapic, ioapic)⟩)
    (hbsp : bspId < 256) :
    (∀ device s, Reached m gRsdp lapic ioapic bspId device s → Served lapic s) ↔
      RegistersMapped lapic ∧ KeepsPage lapic ioapic ∧
        (lapic = 0xFEE00000 ∨ apsToStart m gRsdp bspId = []) := by
  constructor
  · intro h
    refine ⟨registersMapped_of_served hbases h, keepsPage_of_served hbases h, ?_⟩
    by_cases hstart : apsToStart m gRsdp bspId = []
    · exact .inr hstart
    · exact .inl (lapic_eq_of_served hbases hbsp hstart h)
  · rintro ⟨hmapped, hkeeps, hbase⟩ device s hreached
    obtain ⟨hlapic, hioapic⟩ := acpiFindApicBases_lt hbases
    have B : Bases lapic ioapic := ⟨hlapic, hioapic, hmapped, hkeeps⟩
    have hstart : apsToStart m gRsdp bspId ≠ [] → lapic = 0xFEE00000 := hbase.resolve_right
    have I : Inv lapic ioapic s := Reach.invariant (fun s henabled => henabled.inv hbases B)
      (fun s call s' I hok hstep => I.step B hstart hok hstep) hreached
    exact I.served

/-- The usual addresses: the second processor is started over the same base.  With the
local APICs elsewhere and the second processor disabled, no IPI goes to the constant. -/
theorem lapic_served_two_processors :
    (∃ s, Reached (twoProcessors 0xF0000 1) 0xE0000 0xFEE00000 0xFEC00000 0 (idDevice 0) s ∧
      (∃ a ∈ s.accesses, a.addr = 0xFEE00300 ∧ a.written = some 0x4608) ∧ Served 0xFEE00000 s) ∧
    ∀ device s,
      Reached (((twoProcessors 0xF0000 1).write 0xF1024 4 0xFE000000).write 0xF104E 4 0)
      0xE0000 0xFE000000 0xFEC00000 0 device s → Served 0xFE000000 s := by
  have hbases : (acpiFindApicBases (twoProcessors 0xF0000 1) 0xE0000).value =
      .ret ⟨true, some (0xFEE00000, 0xFEC00000)⟩ := by decide +kernel
  have hstart : apsToStart (twoProcessors 0xF0000 1) 0xE0000 0 = [1] := by decide +kernel
  refine ⟨?_, ?_⟩
  · obtain ⟨w₀, w, -, hboot, hrun⟩ := exists_run 0x200000 [.pagingMapMmio2mb 0xFEE00000]
      (by unfold IsFrame; decide) (by decide) (by simp)
    obtain ⟨w₁, hmap, -⟩ := Option.bind_eq_some_iff.mp hrun
    obtain ⟨s, henabled, -⟩ := exists_enabled hbases (idDevice 0) hboot hmap
    have hid : idFound (idDevice 0) s = 0 := idFound_idDevice (by decide) s
    obtain ⟨s₁, hstep₁, hids, -⟩ := step_smpStartAps hid hstart
    obtain ⟨s₂, hstep₂, haccess⟩ := step_startNextAp (twoProcessors 0xF0000 1) 0xE0000 _ hids
    have hreached : Reached (twoProcessors 0xF0000 1) 0xE0000 0xFEE00000 0xFEC00000 0
        (idDevice 0) s₂ :=
      .step (a := .startNextAp) (.step (a := .smpStartAps) (.start henabled) hid hstep₁)
        trivial hstep₂
    refine ⟨s₂, hreached, ⟨_, haccess, rfl, rfl⟩, ?_⟩
    exact (lapic_served_iff hbases (by decide)).mpr
      ⟨by decide, by decide, .inl rfl⟩ _ _ hreached
  · exact (lapic_served_iff (by decide +kernel) (by decide)).mpr
      ⟨by decide, by decide, .inr (by decide +kernel)⟩

/-- A MADT with the local APICs elsewhere: the start-up IPIs are still stored at the
constant, where nothing is mapped. -/
theorem ipi_misses_moved_lapic :
    (acpiFindApicBases ((twoProcessors 0xF0000 1).write 0xF1024 4 0xFE000000) 0xE0000).value =
        .ret ⟨true, some (0xFE000000, 0xFEC00000)⟩ ∧
      ∃ s, Reached ((twoProcessors 0xF0000 1).write 0xF1024 4 0xFE000000) 0xE0000
          0xFE000000 0xFEC00000 0 (idDevice 0) s ∧
        ∃ a ∈ s.accesses, a.chip = .lapic ∧ a.offset = lapicIcrLow ∧ a.addr = 0xFEE00300 ∧
          a.mapped = false := by
  have hbases : (acpiFindApicBases ((twoProcessors 0xF0000 1).write 0xF1024 4 0xFE000000)
      0xE0000).value = .ret ⟨true, some (0xFE000000, 0xFEC00000)⟩ := by decide +kernel
  have hstart : apsToStart ((twoProcessors 0xF0000 1).write 0xF1024 4 0xFE000000) 0xE0000 0 =
      [1] := by decide +kernel
  obtain ⟨w₀, w, -, hboot, hrun⟩ := exists_run 0x200000 [.pagingMapMmio2mb 0xFE000000]
    (by unfold IsFrame; decide) (by decide) (by simp)
  obtain ⟨w₁, hmap, -⟩ := Option.bind_eq_some_iff.mp hrun
  obtain ⟨s, henabled, -, -, hworld⟩ := exists_enabled hbases (idDevice 0) hboot hmap
  have hid : idFound (idDevice 0) s = 0 := idFound_idDevice (by decide) s
  obtain ⟨s₁, hstep₁, hids, -, -, hworld₁⟩ := step_smpStartAps hid hstart
  obtain ⟨s₂, hstep₂, haccess⟩ :=
    step_startNextAp ((twoProcessors 0xF0000 1).write 0xF1024 4 0xFE000000) 0xE0000 _ hids
  obtain ⟨L₀, H₀, hlists₀, -⟩ := hboot.lists
  obtain ⟨L, H, hlists, -⟩ := H₀.lists_mmio hlists₀ (by decide) hmap
  have hempty : ¬ Usable (mapPage identityPages 0xFE000000 (pageNumber 0xFEE00300)) := by
    unfold mapPage
    rw [Function.update_of_ne (by decide)]
    exact fun husable => husable.1 rfl
  have hunmapped : mapsWord s₁.world 0xFEE00300 = false := by
    rw [hworld₁, hworld, ← Bool.not_eq_true]
    intro hword
    have hbyte := List.all_eq_true.mp hword 0 (by decide)
    exact hempty ((translate_isSome_iff H hlists (by decide)).mp hbyte)
  refine ⟨hbases, s₂, ?_, _, haccess, rfl, rfl, rfl, hunmapped⟩
  exact .step (a := .startNextAp) (.step (a := .smpStartAps) (.start henabled) hid hstep₁)
    trivial hstep₂

end Runs

end NekaKernel.Apic
