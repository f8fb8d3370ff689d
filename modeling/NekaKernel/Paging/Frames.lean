/-
  Paging/Frames.lean --- where the frames of `alloc_frame` come from.

  Source: `alloc_frame` in `paging64.c`, `memmap_alloc_frame` in `memmap.c`.

  Until `memmap_activate` the frames are those of the static `frame_pool`, after it
  those of the memory map.  They are written through pointers that equal their
  physical addresses, which the tables of `paging_init_kernel_map` map only below
  1 GiB.  Nothing in the two modules keeps the memory map below that, and the result
  here says for which memory maps and images all frames are.
-/
import NekaKernel.Memmap.Enumerate
import NekaKernel.Paging.Isolation

set_option autoImplicit false

namespace NekaKernel.Paging

open NekaKernel.Foundation NekaKernel.Kernel NekaKernel.Memmap

/-! ## Choosing a frame -/

/-- `PANIC_OUT_OF_FRAMES`. -/
def panicOutOfFrames : Nat := 1

/-- Where the image has `frame_pool`. -/
structure FramePool where
  base : Nat
  aligned : base % 4096 = 0
  in_range : base + 4096 * poolCount ≤ 2 ^ 64

/-- `frame_pool`, `next_frame` and the statics of `memmap.c`. -/
structure FrameState where
  pool : FramePool
  nextFrame : Nat
  map : MapState

/-- `alloc_frame` up to its loop: the frame to be zeroed and returned. -/
def chooseFrame (s : FrameState) : Exit Nat × FrameState :=
  if memmapIsActive s.map then
    match memmapAllocFrame s.map with
    | (e, m) => (e, { s with map := m })
  else if poolCount ≤ s.nextFrame then (.panic .PAGING panicOutOfFrames, s)
  else (.ret (s.pool.base + 4096 * s.nextFrame), { s with nextFrame := s.nextFrame + 1 })

/-- A call of one of the two functions. -/
inductive FrameCall where
  | allocFrame
  | memmapActivate
  deriving DecidableEq, Repr

/-- The statics and the frames returned so far. -/
structure FrameRun where
  state : FrameState
  returned : List Nat

/-- One call; `none` where it does not return. -/
def FrameRun.step (R : Reserved) (h : FrameRun) : FrameCall → Option FrameRun
  | .allocFrame =>
      match chooseFrame h.state with
      | (.ret p, s) => some ⟨s, h.returned ++ [p]⟩
      | _ => none
  | .memmapActivate =>
      some { h with
        state := { h.state with map := Memmap.memmapActivate h.state.map R.lo R.hi } }

/-- The statics at boot. -/
def FrameRun.boot (F : FramePool) (T : RegionTable) : FrameRun := ⟨⟨F, 0, .boot T⟩, []⟩

/-! ## The identity map -/

/-- Stores through a pointer to frame `p` go to frame `p`, under the tables of
`paging_init_kernel_map`. -/
def Reaches (w : World) (p : Nat) : Prop :=
  ∀ off n v, off < 4096 → off + n ≤ 4096 →
    storeVa w.page.mem w.page.kernelPml4 (p + off) n v = some (w.page.mem.write (p + off) n v)

section Identity

variable {w : World} {va p : Nat}

/-- The first gigabyte is mapped 1:1. -/
theorem Booted.identity (h : Booted w) (hva : va < 2 ^ 30) :
    translateVa w.page.mem w.page.kernelPml4 va = some ⟨va, supervisor⟩ := by
  obtain ⟨pd, H, hentry⟩ := h.holds
  have hlow : va < 2 ^ 39 := Nat.lt_trans hva (by decide)
  have hidx : indexAt va 30 = 0 := by
    unfold indexAt
    omega
  have hpage : indexAt va 21 <<< 21 % 2 ^ 21 = 0 := by
    rw [Nat.shiftLeft_eq]
    exact Nat.mul_mod_left _ _
  have haddr : indexAt va 21 <<< 21 + va % 2 ^ 21 = va := by
    rw [Nat.shiftLeft_eq]
    unfold indexAt
    omega
  have hwalk := walk_large (r := supervisor) (hentry _ (indexAt_lt va 21)) hpage
    (by omega) (by decide)
    (by decide) (by decide)
  rw [haddr] at hwalk
  rw [H.translate_kernel, if_pos hlow, gigabyte, hidx]
  exact hwalk

/-- Nothing above it is mapped. -/
theorem Booted.unmapped (h : Booted w) (hva : 2 ^ 30 ≤ va) :
    translateVa w.page.mem w.page.kernelPml4 va = none := by
  obtain ⟨pd, H, -⟩ := h.holds
  rw [H.translate_kernel]
  split
  · have hidx : indexAt va 30 ≠ 0 := by
      unfold indexAt
      omega
    rw [gigabyte, List.lookup_cons, beq_eq_false_iff_ne.mpr hidx]
    rfl
  · rfl

theorem Booted.reaches (h : Booted w) (hp : p % 4096 = 0) (hlt : p < 2 ^ 30) : Reaches w p := by
  intro off n v hoff _
  unfold storeVa
  rw [h.identity (by omega)]
  rfl

end Identity

/-! ## Pages above 1 GiB -/

section High

variable {R : Reserved} {r : Region}

/-- Every page of the region from 1 GiB on is in the reserved range, or there is
none. -/
def LowOnly (R : Reserved) (r : Region) : Prop :=
  r.regionEnd ≤ max r.baseAligned (2 ^ 30) ∨
    (R.lo < max r.baseAligned (2 ^ 30) + 4096 ∧ r.regionEnd ≤ R.hi)

instance (R : Reserved) (r : Region) : Decidable (LowOnly R r) :=
  inferInstanceAs (Decidable (_ ∨ _))

theorem lowOnly_iff : LowOnly R r ↔ ∀ p ∈ R.regionFrames r, p < 2 ^ 30 := by
  have hbase := r.baseAligned_mod
  have halign := R.aligned
  unfold LowOnly
  constructor
  · intro h p hp
    obtain ⟨⟨hle, hlt, -⟩, hu⟩ := mem_regionFrames.mp hp
    obtain ⟨-, hfree⟩ := usable_iff.mp hu
    omega
  · intro h
    -- the first page from 1 GiB on, and the first one behind the reserved range
    have htest : ∀ q, r.baseAligned ≤ q → 2 ^ 30 ≤ q → q < r.regionEnd → q % 4096 = 0 →
        q < R.hi ∧ R.lo < q + 4096 := by
      intro q hle hhigh hlt hmod
      by_contra hfree
      have hin : q ∈ R.regionFrames r := by
        refine mem_regionFrames.mpr ⟨⟨hle, hlt, hmod⟩, usable_iff.mpr ⟨?_, hfree⟩⟩
        omega
      exact absurd (h q hin) (Nat.not_lt_of_le hhigh)
    have hfirst := htest (max r.baseAligned (2 ^ 30)) (by omega) (by omega)
    have hbehind := htest (max (max r.baseAligned (2 ^ 30)) R.hi) (by omega) (by omega)
    omega

end High

/-! ## Runs -/

section Runs

variable {F : FramePool} {T : RegionTable} {R : Reserved}

theorem toCome_active {m : MapState} {rest : List Nat} (h : ToCome T R m rest) :
    m.mapActive = true ∧ m.table = T := by
  cases h <;> exact ⟨rfl, rfl⟩

/-- After activation a call hands out the next frame to come. -/
theorem step_active (F : FramePool) (j : Nat) (returned : List Nat) {m : MapState} {p : Nat}
    {rest : List Nat} (hcome : ToCome T R m (p :: rest)) :
    ∃ m', FrameRun.step R ⟨⟨F, j, m⟩, returned⟩ .allocFrame =
      some ⟨⟨F, j, m'⟩, returned ++ [p]⟩ ∧
      (p < lastPage → ToCome T R m' rest) := by
  have htakes := memmapAllocFrame_takes hcome
  refine ⟨(memmapAllocFrame m).2, ?_, htakes.2⟩
  unfold FrameRun.step chooseFrame
  dsimp only
  rw [if_pos (show memmapIsActive m = true from (toCome_active hcome).1)]
  generalize memmapAllocFrame m = result at htakes
  obtain ⟨e, m'⟩ := result
  obtain ⟨rfl, _⟩ := htakes
  rfl

/-- With nothing to come a call does not return. -/
theorem step_exhausted (F : FramePool) (j : Nat) (returned : List Nat) {m : MapState}
    (hcome : ToCome T R m []) : FrameRun.step R ⟨⟨F, j, m⟩, returned⟩ .allocFrame = none := by
  have htakes := memmapAllocFrame_takes hcome
  unfold FrameRun.step chooseFrame
  dsimp only
  rw [if_pos (show memmapIsActive m = true from (toCome_active hcome).1)]
  generalize memmapAllocFrame m = result at htakes
  obtain ⟨e, m'⟩ := result
  cases htakes
  rfl

/-- Before activation a call hands out the next frame of the pool. -/
theorem step_pool (R : Reserved) (F : FramePool) (j : Nat) (returned : List Nat) {m : MapState}
    (hactive : m.mapActive = false) : FrameRun.step R ⟨⟨F, j, m⟩, returned⟩ .allocFrame =
      if poolCount ≤ j then none else some
        ⟨⟨F, j + 1, m⟩, returned ++ [F.base + 4096 * j]⟩ := by
  unfold FrameRun.step chooseFrame
  dsimp only
  rw [if_neg (by simp [memmapIsActive, hactive])]
  split_ifs <;> rfl

/-- The pool hands out its frames in order. -/
theorem pool_run (k : Nat) : ∀ (j : Nat) (returned : List Nat), j + k ≤ poolCount →
    exec (FrameRun.step R) ⟨⟨F, j, .boot T⟩, returned⟩ (List.replicate k .allocFrame) =
      some ⟨⟨F, j + k, .boot T⟩, returned ++ (List.range' j k).map fun i =>
        F.base + 4096 * i⟩ := by
  induction k with
  | zero =>
    intro j returned _
    simp [exec]
  | succ k ih =>
    intro j returned hroom
    rw [List.replicate_succ, exec, step_pool R F j returned rfl, if_neg (by omega),
      Option.bind_some,
      ih (j + 1) _ (by omega), List.range'_succ, List.map_cons, List.append_assoc,
      Nat.add_right_comm, Nat.add_assoc]
    rfl

/-- Every frame to come is returned in some run, or the last page below `2 ^ 64`
is. -/
theorem map_run {p j : Nat} : ∀ {rest : List Nat} {m : MapState} (returned : List Nat),
    ToCome T R m rest → p ∈ rest →
      ∃ k h q, exec (FrameRun.step R) ⟨⟨F, j, m⟩, returned⟩
        (List.replicate k .allocFrame) = some h ∧
        q ∈ h.returned ∧ (q = p ∨ lastPage ≤ q) := by
  intro rest
  induction rest with
  | nil =>
    intro m returned _ hp
    cases hp
  | cons q rest ih =>
    intro m returned hcome hp
    obtain ⟨m', hcall, hnext⟩ := step_active F j returned hcome
    have hfirst : exec (FrameRun.step R) ⟨⟨F, j, m⟩, returned⟩ (List.replicate 1 .allocFrame) =
        some ⟨⟨F, j, m'⟩, returned ++ [q]⟩ := by
      rw [List.replicate_one, exec, hcall]
      rfl
    rcases Nat.lt_or_ge q lastPage with hlt | hge
    · rcases List.mem_cons.mp hp with heq | hp
      · exact ⟨1, _, q, hfirst, by simp, Or.inl heq.symm⟩
      · obtain ⟨k, h, q', hrun, hmem, hq'⟩ := ih (returned ++ [q]) (hnext hlt) hp
        refine ⟨k + 1, h, q', ?_, hmem, hq'⟩
        rw [List.replicate_succ, exec, hcall]
        exact hrun
    · exact ⟨1, _, q, hfirst, by simp, Or.inr hge⟩

/-- What holds in a run whose frames all lie low. -/
structure Low (F : FramePool) (T : RegionTable) (R : Reserved) (h : FrameRun) : Prop where
  pool : h.state.pool = F
  table : h.state.map.table = T
  toCome : h.state.map.mapActive = true → ∃ rest, ToCome T R h.state.map rest ∧
    rest ⊆ Memmap.frames T R
  returned : ∀ p ∈ h.returned, p % 4096 = 0 ∧ p < 2 ^ 30

theorem Low.step {h h' : FrameRun} {c : FrameCall} (I : Low F T R h)
    (hpool : F.base + 4096 * poolCount ≤ 2 ^ 30) (hmap : ∀ p ∈ Memmap.frames T R, p < 2 ^ 30)
    (hstep : h.step R c = some h') : Low F T R h' := by
  obtain ⟨⟨pool, j, m⟩, returned⟩ := h
  obtain ⟨rfl, htable, hcome, hreturned⟩ := I
  dsimp only at hpool htable hcome hreturned
  have hnew : ∀ {q}, q % 4096 = 0 → q < 2 ^ 30 → ∀ p ∈ returned ++ [q], p % 4096 = 0 ∧
      p < 2 ^ 30 := by
    intro q hmod hlt p hp
    rcases List.mem_append.mp hp with hp | hp
    · exact hreturned p hp
    · rw [List.mem_singleton] at hp
      exact hp ▸ ⟨hmod, hlt⟩
  cases c with
  | memmapActivate =>
    cases hstep
    refine ⟨rfl, htable, fun _ => ⟨Memmap.frames T R, ?_, List.Subset.refl _⟩, hreturned⟩
    exact htable ▸ toCome_activate m R
  | allocFrame =>
    cases hactive : m.mapActive with
    | true =>
      obtain ⟨rest, hrest, hsub⟩ := hcome hactive
      cases rest with
      | nil =>
        rw [step_exhausted pool j returned hrest] at hstep
        cases hstep
      | cons p rest =>
        obtain ⟨m', hcall, hnext⟩ := step_active pool j returned hrest
        rw [hcall] at hstep
        cases hstep
        have hp := hsub List.mem_cons_self
        obtain ⟨r, -, hin⟩ := mem_frames.mp hp
        have hrest' := hnext (Nat.lt_trans (hmap p hp) (by decide))
        refine ⟨rfl, (toCome_active hrest').2, fun _ => ⟨rest, hrest', fun q hq => ?_⟩, ?_⟩
        · exact hsub (List.mem_cons_of_mem p hq)
        · exact hnew (mem_regionFrames.mp hin).1.2.2 (hmap p hp)
    | false =>
      rw [step_pool R pool j returned hactive] at hstep
      split at hstep
      · cases hstep
      · rename_i hroom
        cases hstep
        have hbase := pool.aligned
        refine ⟨rfl, htable, fun htrue => ?_, hnew (by omega) (by omega)⟩
        rw [hactive] at htrue
        cases htrue

end Runs

/-- **Frames in the identity map.**  All frames that runs of `alloc_frame` return,
before and after `memmap_activate`, lie below 1 GiB, where the tables of
`paging_init_kernel_map` map them 1:1, exactly when the pool does and no region has
a page from 1 GiB on outside the reserved range. -/
theorem frames_below_gigabyte_iff (F : FramePool) (T : RegionTable) (R : Reserved) :
    (∀ calls h, exec (FrameRun.step R) (.boot F T) calls = some h →
      ∀ p ∈ h.returned, p < 2 ^ 30 ∧ ∀ w, Booted w → Reaches w p) ↔
    F.base + 4096 * poolCount ≤ 2 ^ 30 ∧ ∀ r ∈ T.entries, LowOnly R r := by
  constructor
  · intro hlow
    constructor
    · have hrun := pool_run (F := F) (T := T) (R := R) poolCount 0 [] (Nat.le_refl _)
      have hmem : F.base + 4096 * 63 ∈ (List.range' 0 poolCount).map fun i =>
        F.base + 4096 * i :=
        List.mem_map.mpr ⟨63, by decide, rfl⟩
      have hlast := (hlow _ _ hrun _ hmem).1
      have hbase := F.aligned
      unfold poolCount
      omega
    · intro r hr
      refine lowOnly_iff.mpr fun p hp => ?_
      have hin : p ∈ Memmap.frames T R := mem_frames.mpr ⟨r, hr, hp⟩
      obtain ⟨k, h, q, hrun, hmem, hq⟩ :=
        map_run (F := F) (j := 0) [] (toCome_activate (.boot T) R) hin
      have hqlow := (hlow (.memmapActivate :: List.replicate k .allocFrame) h hrun q hmem).1
      rcases hq with rfl | hlast
      · exact hqlow
      · unfold lastPage at hlast
        omega
  · rintro ⟨hpool, hregions⟩ calls h hrun p hp
    have hmap : ∀ p ∈ Memmap.frames T R, p < 2 ^ 30 := by
      intro p hp
      obtain ⟨r, hr, hin⟩ := mem_frames.mp hp
      exact lowOnly_iff.mp (hregions r hr) p hin
    have hstart : Low F T R (.boot F T) :=
      ⟨rfl, rfl, fun h => (by cases h), by simp [FrameRun.boot]⟩
    have hreach : Reach (fun h => h = .boot F T) (FrameRun.step R) (fun _ _ => True) h :=
      Reach.exec (.start rfl) (fun _ _ _ _ _ => trivial) hrun
    have hlow : Low F T R h := by
      refine Reach.invariant (P := Low F T R) ?_ ?_ hreach
      · intro h heq
        exact heq ▸ hstart
      · intro h c h' I _ hstep
        exact I.step hpool hmap hstep
    obtain ⟨hmod, hlt⟩ := hlow.returned p hp
    exact ⟨hlt, fun w hboot => hboot.reaches hmod hlt⟩

/-- The image at 1 MiB with its pool, and memory from 1 GiB on. -/
def poolAt2M : FramePool := ⟨0x200000, by decide, by decide⟩

def highRegion : RegionTable := ⟨[⟨0x40000000, 0x8000, by decide, by decide⟩], by decide⟩

/-- The first frame after activation is at 1 GiB, which is not mapped. -/
theorem frame_at_gigabyte :
    (exec (FrameRun.step imageAt1M) (.boot poolAt2M highRegion)
      [.allocFrame, .memmapActivate, .allocFrame]).map
      FrameRun.returned = some [0x200000, 0x40000000] ∧ ¬ 0x40000000 < 2 ^ 30 ∧
    ∀ w, Booted w → translateVa w.page.mem w.page.kernelPml4 0x40000000 = none := by
  refine ⟨by decide +kernel, by decide, fun w hboot => hboot.unmapped (by decide)⟩

/-! ## The supply of `Paging/Tables.lean` -/

section Supply

variable {F : FramePool} {T : RegionTable} {R : Reserved}

end Supply

end NekaKernel.Paging
