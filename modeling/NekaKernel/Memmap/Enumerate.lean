/-
  Memmap/Enumerate.lean --- which frames `memmap_alloc_frame` hands out.

  Source: `memmap.c`.

  Wherever the cursor stands in a region, at most two jumps, over the first
  megabyte and over the kernel image, bring it to the end of the region or to a
  page that is handed out.  What is still to come is therefore a list: the pages
  the jumps leave, region after region.  The one page at which the walk can lose
  its place is the last page below `2 ^ 64`, behind which the cursor wraps.
-/
import Mathlib.Data.List.Nodup
import NekaKernel.Foundation.Steps
import NekaKernel.Memmap.Regions

set_option autoImplicit false

namespace NekaKernel.Memmap

open NekaKernel.Foundation NekaKernel.Kernel

/-! ## Pages to come -/

/-- The page is above the first megabyte and not in the reserved range. -/
def Reserved.usable (R : Reserved) (p : Nat) : Bool :=
  decide (0x100000 ≤ p ∧ ¬ (p < R.hi ∧ R.lo < p + 4096))

/-- The pages of `r` from `a` on that are handed out. -/
def Reserved.framesFrom (R : Reserved) (r : Region) (a : Nat) : List Nat :=
  (steps 4096 a r.regionEnd).filter R.usable

/-- The pages of `r` that are handed out. -/
def Reserved.regionFrames (R : Reserved) (r : Region) : List Nat := R.framesFrom r r.baseAligned

/-- The last page below `2 ^ 64`. -/
def lastPage : Nat := 2 ^ 64 - 4096

section Pages

variable {R : Reserved} {r : Region} {a p : Nat}

theorem usable_iff : R.usable p = true ↔ 0x100000 ≤ p ∧ ¬ (p < R.hi ∧ R.lo < p + 4096) := by
  unfold Reserved.usable
  exact decide_eq_true_iff

theorem mem_framesFrom : p ∈ R.framesFrom r a ↔
    (a ≤ p ∧ p < r.regionEnd ∧ p % 4096 = a % 4096) ∧ R.usable p = true := by
  unfold Reserved.framesFrom
  rw [List.mem_filter, mem_steps (by decide)]

theorem mem_regionFrames : p ∈ R.regionFrames r ↔
    (r.baseAligned ≤ p ∧ p < r.regionEnd ∧ p % 4096 = 0) ∧ R.usable p = true := by
  unfold Reserved.regionFrames
  rw [mem_framesFrom, r.baseAligned_mod]

theorem regionFrames_ascending : (R.regionFrames r).Pairwise (· < ·) :=
  (steps_ascending (by decide)).filter _

theorem framesFrom_of_end (h : r.regionEnd ≤ a) : R.framesFrom r a = [] := by
  unfold Reserved.framesFrom
  rw [steps_of_ge (by decide) h]
  rfl

theorem framesFrom_of_usable (h : a < r.regionEnd) (hu : R.usable a = true) :
    R.framesFrom r a = a :: R.framesFrom r (a + 4096) := by
  unfold Reserved.framesFrom
  rw [steps_of_lt (by decide) h, List.filter_cons_of_pos hu]

/-- The reserved range does not reach the last page. -/
theorem Reserved.hi_le (R : Reserved) : R.hi ≤ lastPage := by
  have hmod := R.aligned
  have hlt := R.in_range
  unfold lastPage
  omega

end Pages

/-! ## One region -/

/-- The search stands at address `a` of region `r`, which is entry `i`. -/
def standing (T : RegionTable) (R : Reserved) (i : Nat) (r : Region) (a : Nat) : MapState :=
  ⟨T, true, R.lo, R.hi, i, a - r.baseAligned⟩

section Region

variable {T : RegionTable} {R : Reserved} {i : Nat} {r : Region} {a : Nat}

/-- `addr` is the address the cursor stands at. -/
theorem standing_addr (hle : r.baseAligned ≤ a) (ha : a < 2 ^ 64) :
    add64 r.baseAligned (a - r.baseAligned) = a := by
  rw [add64_of_lt] <;> omega

theorem allocStep_end (hr : T.entries[i]? = some r) (hle : r.baseAligned ≤ a) (ha : a < 2 ^ 64)
    (h : r.regionEnd ≤ a) :
    allocStep (standing T R i r a) = .again ⟨T, true, R.lo, R.hi, i + 1, 0⟩ := by
  unfold allocStep standing
  dsimp only
  rw [hr]
  dsimp only
  rw [standing_addr hle ha, if_pos h]

theorem allocStep_low (hr : T.entries[i]? = some r) (hle : r.baseAligned ≤ a) (ha : a < 2 ^ 64)
    (h : a < r.regionEnd) (hlow : a < 0x100000) :
    allocStep (standing T R i r a) = .again (standing T R i r 0x100000) := by
  have hbase : r.baseAligned < 0x100000 := Nat.lt_of_le_of_lt hle hlow
  unfold allocStep standing
  dsimp only
  rw [hr]
  dsimp only
  rw [standing_addr hle ha, if_neg (Nat.not_le_of_lt h), if_pos hlow, if_pos hbase,
    sub64_of_le (Nat.le_of_lt hbase) (by decide)]

theorem allocStep_reserved (hr : T.entries[i]? = some r) (hle : r.baseAligned ≤ a)
    (ha : a < 2 ^ 64) (hmod : a % 4096 = 0) (h : a < r.regionEnd) (hhigh : 0x100000 ≤ a)
    (hhi : a < R.hi) (hlo : R.lo < a + 4096) :
    allocStep (standing T R i r a) = .again (standing T R i r R.hi) := by
  have hlast := R.hi_le
  have hnext : add64 a 4096 = a + 4096 := add64_of_lt (by unfold lastPage at hlast; omega)
  have hbase : r.baseAligned < R.hi := Nat.lt_of_le_of_lt hle hhi
  unfold allocStep standing
  dsimp only
  rw [hr]
  dsimp only
  rw [standing_addr hle ha, if_neg (Nat.not_le_of_lt h), if_neg (Nat.not_lt_of_le hhigh), hnext,
    if_pos ⟨hhi, hlo⟩, if_pos hbase, sub64_of_le (Nat.le_of_lt hbase) R.in_range]

theorem allocStep_found (hr : T.entries[i]? = some r) (hle : r.baseAligned ≤ a)
    (ha : a < 2 ^ 64) (h : a < r.regionEnd) (hu : R.usable a = true) :
    allocStep (standing T R i r a) =
      .found a ⟨T, true, R.lo, R.hi, i, add64 (a - r.baseAligned) 4096⟩ := by
  obtain ⟨hhigh, hfree⟩ := usable_iff.mp hu
  -- behind the last page the sum wraps to zero, but that page is above the range
  have hfree' : ¬ (a < R.hi ∧ R.lo < add64 a 4096) := by
    rintro ⟨hhi, hlo⟩
    refine hfree ⟨hhi, Nat.lt_of_lt_of_le hlo ?_⟩
    exact Nat.mod_le _ _
  unfold allocStep standing
  dsimp only
  rw [hr]
  dsimp only
  rw [standing_addr hle ha, if_neg (Nat.not_le_of_lt h), if_neg (Nat.not_lt_of_le hhigh),
    if_neg hfree']

/-- The next cursor position, unless the page was the last one of all. -/
theorem standing_next (hle : r.baseAligned ≤ a) (h : a + 4096 < 2 ^ 64) :
    (⟨T, true, R.lo, R.hi, i, add64 (a - r.baseAligned) 4096⟩ : MapState) =
      standing T R i r (a + 4096) := by
  have hadd : add64 (a - r.baseAligned) 4096 = a + 4096 - r.baseAligned := by
    rw [add64_of_lt (by omega)]
    omega
  unfold standing
  rw [hadd]

/-- Above the first megabyte at most one jump, over the reserved range, is made
before the search stands at the end or at a page to hand out. -/
theorem settle_high (hr : T.entries[i]? = some r) (hle : r.baseAligned ≤ a) (ha : a < 2 ^ 64)
    (hmod : a % 4096 = 0) (hhigh : 0x100000 ≤ a) (fuel : Nat) :
    ∃ b f, a ≤ b ∧ b < 2 ^ 64 ∧ b % 4096 = 0 ∧ fuel ≤ f ∧ f ≤ fuel + 1 ∧
      R.framesFrom r a = R.framesFrom r b ∧
      allocLoop (fuel + 1) (standing T R i r a) = allocLoop f (standing T R i r b) ∧
      (r.regionEnd ≤ b ∨ R.usable b = true) := by
  by_cases hdone : r.regionEnd ≤ a ∨ R.usable a = true
  · exact ⟨a, fuel + 1, Nat.le_refl a, ha, hmod, Nat.le_succ fuel, Nat.le_refl _,
      rfl, rfl, hdone⟩
  · rw [not_or, Nat.not_le, usable_iff] at hdone
    obtain ⟨hend, hres⟩ := hdone
    have hin : a < R.hi ∧ R.lo < a + 4096 := by
      by_contra hout
      exact hres ⟨hhigh, hout⟩
    refine ⟨R.hi, fuel, Nat.le_of_lt hin.1, R.in_range, R.aligned, Nat.le_refl fuel,
      Nat.le_succ fuel, ?_, ?_, Or.inr (usable_iff.mpr ⟨?_, ?_⟩)⟩
    · refine filter_steps_skip (by decide) (Nat.le_of_lt hin.1) (by rw [R.aligned, hmod]) ?_
      intro x hax hx _
      rw [← Bool.not_eq_true, usable_iff]
      rintro ⟨_, hout⟩
      exact hout ⟨hx, by omega⟩
    · rw [allocLoop, allocStep_reserved hr hle ha hmod hend hhigh hin.1 hin.2]
    · exact Nat.le_trans hhigh (Nat.le_of_lt hin.1)
    · exact fun h => Nat.lt_irrefl _ h.1

/-- At most two jumps are made before the search stands at the end or at a page
to hand out. -/
theorem settle (hr : T.entries[i]? = some r) (hle : r.baseAligned ≤ a) (ha : a < 2 ^ 64)
    (hmod : a % 4096 = 0) (fuel : Nat) :
    ∃ b f, a ≤ b ∧ b < 2 ^ 64 ∧ b % 4096 = 0 ∧ fuel ≤ f ∧ R.framesFrom r a = R.framesFrom r b ∧
      allocLoop (fuel + 2) (standing T R i r a) = allocLoop f (standing T R i r b) ∧
      (r.regionEnd ≤ b ∨ R.usable b = true) := by
  rcases Nat.lt_or_ge a 0x100000 with hlow | hhigh
  · rcases Nat.lt_or_ge a r.regionEnd with hend | hend
    · have hjump : allocLoop (fuel + 2) (standing T R i r a) =
          allocLoop (fuel + 1) (standing T R i r 0x100000) := by
        rw [allocLoop, allocStep_low hr hle ha hend hlow]
      have hskip : R.framesFrom r a = R.framesFrom r 0x100000 := by
        refine filter_steps_skip (by decide) (Nat.le_of_lt hlow) (by rw [hmod]) ?_
        intro x _ hx _
        rw [← Bool.not_eq_true, usable_iff]
        rintro ⟨hx', _⟩
        omega
      obtain ⟨b, f, hab, hb, hbmod, hf, _, hframes, hloop, hstop⟩ :=
        settle_high hr (Nat.le_of_lt (Nat.lt_of_le_of_lt hle hlow)) (by decide) rfl
          (Nat.le_refl _) fuel
          (R := R)
      refine ⟨b, f, by omega, hb, hbmod, hf, hskip.trans hframes, hjump.trans hloop, hstop⟩
    · exact ⟨a, fuel + 2, Nat.le_refl a, ha, hmod, by omega, rfl, rfl, Or.inl hend⟩
  · obtain ⟨b, f, hab, hb, hbmod, hf, _, hframes, hloop, hstop⟩ :=
      settle_high hr hle ha hmod hhigh (fuel + 1) (R := R)
    exact ⟨b, f, hab, hb, hbmod, by omega, hframes, hloop, hstop⟩

end Region

/-! ## The whole walk -/

/-- What the regions from entry `i` on give. -/
def framesAfter (T : RegionTable) (R : Reserved) (i : Nat) : List Nat :=
  (T.entries.drop i).flatMap R.regionFrames

/-- All frames, in the order of the table. -/
def frames (T : RegionTable) (R : Reserved) : List Nat := T.entries.flatMap R.regionFrames

/-- In state `m` the search has `rest` still to come. -/
inductive ToCome (T : RegionTable) (R : Reserved) : MapState → List Nat → Prop
  /-- In region `r`, entry `i`. -/
  | inside {i a : Nat} {r : Region} (hr : T.entries[i]? = some r) (hle : r.baseAligned ≤ a)
      (ha : a < 2 ^ 64) (hmod : a % 4096 = 0) :
      ToCome T R (standing T R i r a) (R.framesFrom r a ++ framesAfter T R (i + 1))
  /-- Behind the last region. -/
  | behind {i off : Nat} (hr : T.entries[i]? = none) :
      ToCome T R ⟨T, true, R.lo, R.hi, i, off⟩ []

section Walk

variable {T : RegionTable} {R : Reserved} {m : MapState} {rest : List Nat}

theorem framesAfter_of_some {i : Nat} {r : Region} (hr : T.entries[i]? = some r) :
    framesAfter T R i = R.regionFrames r ++ framesAfter T R (i + 1) := by
  unfold framesAfter
  rw [List.drop_eq_getElem?_toList_append, hr]
  rfl

/-- At the start of a region everything from there on is to come. -/
theorem toCome_start (i : Nat) :
    ToCome T R ⟨T, true, R.lo, R.hi, i, 0⟩ (framesAfter T R i) := by
  cases hr : T.entries[i]? with
  | none =>
    have hnil : framesAfter T R i = [] := by
      unfold framesAfter
      rw [List.drop_eq_nil_of_le (List.getElem?_eq_none_iff.mp hr)]
      rfl
    rw [hnil]
    exact .behind hr
  | some r =>
    have hstart : (⟨T, true, R.lo, R.hi, i, 0⟩ : MapState) =
        standing T R i r r.baseAligned := by
      unfold standing
      rw [Nat.sub_self]
    rw [hstart, framesAfter_of_some hr]
    exact .inside hr (Nat.le_refl _) r.baseAligned_lt r.baseAligned_mod

/-- What a call does when `rest` is to come: it takes the first page, and unless
that was the last page below `2 ^ 64` the others are to come; or there is none,
and it panics. -/
def Takes (T : RegionTable) (R : Reserved) (result : Exit Nat × MapState) : List Nat → Prop
  | [] => result.1 = .panic .MEMMAP panicMemmapOom
  | p :: rest => result.1 = .ret p ∧ (p < lastPage → ToCome T R result.2 rest)

/-- **One region.**  With fuel for three iterations the search takes a page from
the region it stands in, or goes on to the next. -/
theorem allocLoop_region {i a : Nat} {r : Region} (hr : T.entries[i]? = some r)
    (hle : r.baseAligned ≤ a) (ha : a < 2 ^ 64) (hmod : a % 4096 = 0) (fuel : Nat) :
    (∃ p rest, R.framesFrom r a = p :: rest ∧
      Takes T R (allocLoop (fuel + 3) (standing T R i r a))
        (p :: (rest ++ framesAfter T R (i + 1)))) ∨
    R.framesFrom r a = [] ∧ ∃ f, fuel ≤ f ∧
      allocLoop (fuel + 3) (standing T R i r a) =
        allocLoop f ⟨T, true, R.lo, R.hi, i + 1, 0⟩ := by
  obtain ⟨b, f, hab, hb, hbmod, hf, hframes, hloop, hstop⟩ :=
    settle hr hle ha hmod (fuel + 1) (R := R)
  have hbase : r.baseAligned ≤ b := Nat.le_trans hle hab
  obtain ⟨f, rfl⟩ : ∃ g, f = g + 1 := ⟨f - 1, by omega⟩
  rw [hframes, hloop]
  rcases Nat.lt_or_ge b r.regionEnd with hlt | hge
  · have hu := hstop.resolve_left (Nat.not_le_of_lt hlt)
    refine Or.inl ⟨b, _, framesFrom_of_usable hlt hu, ?_, ?_⟩
    · rw [allocLoop, allocStep_found hr hbase hb hlt hu]
    · intro hlast
      have hnext : b + 4096 < 2 ^ 64 := by
        unfold lastPage at hlast
        omega
      rw [allocLoop, allocStep_found hr hbase hb hlt hu]
      dsimp only
      rw [standing_next hbase hnext]
      exact .inside hr (Nat.le_trans hbase (Nat.le_add_right _ _)) hnext
        (by rw [Nat.add_mod_right, hbmod])
  · refine Or.inr ⟨framesFrom_of_end hge, f, by omega, ?_⟩
    rw [allocLoop, allocStep_end hr hbase hb hge]

/-- Behind the last region the loop ends. -/
theorem allocLoop_behind {i off fuel : Nat} (hr : T.entries[i]? = none) :
    (allocLoop (fuel + 1) ⟨T, true, R.lo, R.hi, i, off⟩).1 = .panic .MEMMAP panicMemmapOom := by
  have hstep : allocStep ⟨T, true, R.lo, R.hi, i, off⟩ = .exhausted := by
    unfold allocStep
    dsimp only
    rw [hr]
  rw [allocLoop, hstep]

/-- **The search.**  It ends, with the next page to come.  The induction is on
the regions behind the cursor; each costs at most three iterations. -/
theorem allocLoop_takes :
    ∀ {n fuel : Nat} {m : MapState} {rest : List Nat}, ToCome T R m rest →
      T.entries.length ≤ m.curRegion + n → 3 * n < fuel →
      Takes T R (allocLoop fuel m) rest := by
  intro n
  induction n with
  | zero =>
    intro fuel m rest hcome hn hfuel
    obtain ⟨fuel, rfl⟩ : ∃ g, fuel = g + 1 := ⟨fuel - 1, by omega⟩
    cases hcome with
    | inside hr =>
      have hsome := (List.getElem?_eq_some_iff.mp hr).1
      exact absurd hn (Nat.not_le_of_lt hsome)
    | behind hr => exact allocLoop_behind hr
  | succ n ih =>
    intro fuel m rest hcome hn hfuel
    obtain ⟨fuel, rfl⟩ : ∃ g, fuel = g + 3 := ⟨fuel - 3, by omega⟩
    cases hcome with
    | @inside i a r hr hle ha hmod =>
      rcases allocLoop_region hr hle ha hmod fuel (R := R) with
        ⟨p, rest, hframes, htakes⟩ | ⟨hnil, f, hf, hloop⟩
      · rw [hframes]
        exact htakes
      · rw [hnil, hloop]
        refine ih (toCome_start (i + 1)) ?_ (by omega)
        rw [Nat.add_assoc, Nat.add_comm 1 n]
        exact hn
    | behind hr => exact allocLoop_behind hr

/-- **One call.** -/
theorem memmapAllocFrame_takes (hcome : ToCome T R m rest) :
    Takes T R (memmapAllocFrame m) rest := by
  refine allocLoop_takes hcome (Nat.le_add_left _ _) ?_
  have hbound := T.bounded
  unfold maxRegions at hbound
  unfold loopFuel
  omega

/-- After `memmap_activate` all frames are to come. -/
theorem toCome_activate (m : MapState) (R : Reserved) :
    ToCome m.table R (memmapActivate m R.lo R.hi) (frames m.table R) :=
  toCome_start 0

/-- A call with `q` next to come returns it, and the calls after it go on. -/
theorem memmapAllocFrames_cons {q : Nat} (hcome : ToCome T R m (q :: rest)) :
    ∃ m', (q < lastPage → ToCome T R m' rest) ∧
      ∀ n, memmapAllocFrames (n + 1) m = .ret q :: memmapAllocFrames n m' := by
  have htakes := memmapAllocFrame_takes hcome
  refine ⟨(memmapAllocFrame m).2, htakes.2, fun n => ?_⟩
  rw [memmapAllocFrames]
  generalize memmapAllocFrame m = result at htakes
  obtain ⟨e, m'⟩ := result
  obtain ⟨rfl, _⟩ := htakes
  rfl

/-- With nothing to come the next call is the last one. -/
theorem memmapAllocFrames_nil (hcome : ToCome T R m []) (n : Nat) :
    memmapAllocFrames (n + 1) m = [.panic .MEMMAP panicMemmapOom] := by
  have htakes := memmapAllocFrame_takes hcome
  rw [memmapAllocFrames]
  generalize memmapAllocFrame m = result at htakes
  obtain ⟨e, m'⟩ := result
  cases htakes
  rfl

/-- **Any number of calls**, as long as the last page is not among the frames. -/
theorem memmapAllocFrames_eq (hlast : ∀ p ∈ rest, p < lastPage) :
    ∀ (n : Nat) {m : MapState}, ToCome T R m rest →
      memmapAllocFrames n m =
        (rest.map Exit.ret ++ [Exit.panic .MEMMAP panicMemmapOom]).take n := by
  induction rest with
  | nil =>
    intro n m hcome
    cases n with
    | zero => rfl
    | succ n =>
      rw [memmapAllocFrames_nil hcome]
      simp
  | cons p rest ih =>
    intro n m hcome
    cases n with
    | zero => rfl
    | succ n =>
      obtain ⟨m', hnext, hcall⟩ := memmapAllocFrames_cons hcome
      rw [hcall, ih (fun q hq => hlast q (List.mem_cons_of_mem p hq)) n
        (hnext (hlast p List.mem_cons_self))]
      rfl

/-- Every frame to come is handed out by some call, or the walk ends at the last
page. -/
theorem exists_call {p : Nat} :
    ∀ {rest : List Nat} {m : MapState}, ToCome T R m rest → p ∈ rest →
      ∃ n q, .ret q ∈ memmapAllocFrames n m ∧ (q = p ∨ lastPage ≤ q) := by
  intro rest
  induction rest with
  | nil =>
    intro m _ hp
    cases hp
  | cons q rest ih =>
    intro m hcome hp
    obtain ⟨m', hnext, hcall⟩ := memmapAllocFrames_cons hcome
    have hfirst : .ret q ∈ memmapAllocFrames 1 m := by
      rw [hcall]
      exact List.mem_cons_self
    rcases Nat.lt_or_ge q lastPage with hlt | hge
    · rcases List.mem_cons.mp hp with heq | hp
      · exact ⟨1, q, hfirst, Or.inl heq.symm⟩
      · obtain ⟨n, q', hmem, hq'⟩ := ih (hnext hlt) hp
        refine ⟨n + 1, q', ?_, hq'⟩
        rw [hcall]
        exact List.mem_cons_of_mem _ hmem
    · exact ⟨1, q, hfirst, Or.inr hge⟩

end Walk

/-! ## Frames of regions that fit -/

section Fit

variable {T : RegionTable} {R : Reserved} {r : Region} {p : Nat}

/-- A page meets the reserved range exactly when the two tests of the source say
so. -/
theorem usable_iff_disjoint (hp : p % 4096 = 0) :
    R.usable p = true ↔
      0x100000 ≤ p ∧ ∀ x, p ≤ x → x < p + 4096 → ¬ (R.lo ≤ x ∧ x < R.hi) := by
  have hle := R.le
  have halign := R.aligned
  rw [usable_iff]
  constructor
  · rintro ⟨hhigh, hout⟩
    refine ⟨hhigh, fun x hpx hxp hin => hout ⟨?_, ?_⟩⟩ <;> omega
  · rintro ⟨hhigh, hout⟩
    refine ⟨hhigh, fun hin => ?_⟩
    rcases Nat.le_total p R.lo with hlo | hlo
    · exact hout R.lo hlo hin.2 ⟨Nat.le_refl _, by omega⟩
    · exact hout p (Nat.le_refl p) (by omega) ⟨hlo, hin.1⟩

/-- The frames of a region that fits: its pages above the first megabyte that do
not meet the reserved range. -/
theorem mem_regionFrames_of_fits (h : r.Fits) : p ∈ R.regionFrames r ↔
    p % 4096 = 0 ∧ r.Contains p ∧ 0x100000 ≤ p ∧
      ∀ x, p ≤ x → x < p + 4096 → ¬ (R.lo ≤ x ∧ x < R.hi) := by
  unfold Region.Fits at h
  have hend : r.regionEnd = r.base + r.length := Region.regionEnd_eq (by omega)
  rw [mem_regionFrames, hend]
  unfold Region.Contains
  constructor
  · rintro ⟨⟨hle, hlt, hmod⟩, hu⟩
    exact ⟨hmod, ⟨(Region.baseAligned_le_iff (by omega) hmod).mp hle, hlt⟩,
      (usable_iff_disjoint hmod).mp hu⟩
  · rintro ⟨hmod, ⟨hle, hlt⟩, hu⟩
    exact ⟨⟨(Region.baseAligned_le_iff (by omega) hmod).mpr hle, hlt, hmod⟩,
      (usable_iff_disjoint hmod).mpr hu⟩

theorem mem_frames : p ∈ frames T R ↔ ∃ r ∈ T.entries, p ∈ R.regionFrames r := by
  unfold frames
  exact List.mem_flatMap

/-- The last page is in no region that fits. -/
theorem lt_lastPage (h : ∀ r ∈ T.entries, r.Fits) (hp : p ∈ frames T R) : p < lastPage := by
  obtain ⟨r, hr, hmem⟩ := mem_frames.mp hp
  have hfit := h r hr
  obtain ⟨_, ⟨_, hlt⟩, _⟩ := (mem_regionFrames_of_fits hfit).mp hmem
  unfold Region.Fits at hfit
  unfold lastPage
  omega

/-- Regions that do not meet have no frame in common, so none is listed twice. -/
theorem frames_nodup (h : ∀ r ∈ T.entries, r.Fits)
    (hdisj : T.entries.Pairwise fun r r' => ∀ x, ¬ (r.Contains x ∧ r'.Contains x)) :
    (frames T R).Nodup := by
  unfold frames
  rw [List.nodup_flatMap]
  refine ⟨fun r _ => (regionFrames_ascending (R := R)).imp fun hlt => Nat.ne_of_lt hlt, ?_⟩
  refine hdisj.imp_of_mem fun {r r'} hr hr' hout => ?_
  intro p hp hp'
  exact hout p ⟨((mem_regionFrames_of_fits (h r hr)).mp hp).2.1,
    ((mem_regionFrames_of_fits (h r' hr')).mp hp').2.1⟩

end Fit

/-- **Exact enumeration.**  Over a table of disjoint regions that fit, the calls
of `memmap_alloc_frame` after `memmap_activate` return, region after region and
ascending in each, the pages of the region at or above one megabyte that do not
meet the reserved range, each once; the next call panics. -/
theorem alloc_frame_enumerates (m : MapState) (R : Reserved)
    (hfit : ∀ r ∈ m.table.entries, r.base + r.length + 0xFFF < 2 ^ 64)
    (hdisj : m.table.entries.Pairwise fun r r' => ∀ x, ¬ (r.Contains x ∧ r'.Contains x)) :
    ∃ pages : Region → List Nat,
      (∀ r ∈ m.table.entries, (pages r).Pairwise (· < ·) ∧
        ∀ p, p ∈ pages r ↔ p % 4096 = 0 ∧ r.Contains p ∧ 0x100000 ≤ p ∧
          ∀ x, p ≤ x → x < p + 4096 → ¬ (R.lo ≤ x ∧ x < R.hi)) ∧
      (m.table.entries.flatMap pages).Nodup ∧
      ∀ n, memmapAllocFrames n (memmapActivate m R.lo R.hi) =
        ((m.table.entries.flatMap pages).map Exit.ret ++
          [Exit.panic .MEMMAP panicMemmapOom]).take n := by
  refine ⟨R.regionFrames, fun r hr => ⟨regionFrames_ascending, fun p => ?_⟩, ?_, fun n => ?_⟩
  · exact mem_regionFrames_of_fits (hfit r hr)
  · exact frames_nodup hfit hdisj
  · exact memmapAllocFrames_eq (fun p hp => lt_lastPage hfit hp) n (toCome_activate m R)

/-! ## A machine with two regions -/

/-- Low memory, and memory from one megabyte on that starts off a page boundary. -/
def twoRegions : RegionTable :=
  ⟨[⟨0, 0x9FC00, by decide, by decide⟩, ⟨0x100800, 0x6000, by decide, by decide⟩], by decide⟩

/-- An image of two pages. -/
def imageAt1M : Reserved := ⟨0x100000, 0x103000, by decide, by decide, by decide⟩

/-- The image and the low memory are skipped. -/
theorem alloc_frame_enumerates_two_regions :
    (∃ pages : Region → List Nat, (twoRegions.entries.flatMap pages).Nodup ∧
      ∀ n, memmapAllocFrames n (memmapActivate (.boot twoRegions) imageAt1M.lo imageAt1M.hi) =
        ((twoRegions.entries.flatMap pages).map Exit.ret ++
          [Exit.panic .MEMMAP panicMemmapOom]).take n) ∧
    memmapAllocFrames 9 (memmapActivate (.boot twoRegions) imageAt1M.lo imageAt1M.hi) =
      [.ret 0x103000, .ret 0x104000, .ret 0x105000, .ret 0x106000, .panic .MEMMAP 1] := by
  have hdisj : twoRegions.entries.Pairwise fun r r' => ∀ x,
      ¬ (r.Contains x ∧ r'.Contains x) := by
    refine List.pairwise_pair.mpr fun x => ?_
    unfold Region.Contains
    rintro ⟨⟨_, hlt⟩, hle, _⟩
    exact absurd (Nat.lt_of_le_of_lt hle hlt) (by decide)
  obtain ⟨pages, _, hnodup, hcalls⟩ :=
    alloc_frame_enumerates (.boot twoRegions) imageAt1M (by decide) hdisj
  exact ⟨⟨pages, hnodup, hcalls⟩, by decide +kernel⟩

end NekaKernel.Memmap
