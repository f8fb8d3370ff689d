/-
  Foundation/Gaps.lean --- the maximal runs of addresses that nothing covers.

  A gap is an interval without a covered address that cannot be made longer on
  either side.  In a tiling that is coalesced, the gaps between the used segments are
  the free segments, headers included.
-/
import NekaKernel.Foundation.Tiling

set_option autoImplicit false

namespace NekaKernel.Foundation

/-- `[lo, hi)` is a maximal run of uncovered addresses of `[base, top)`. -/
structure Gap (covered : Nat → Prop) (base top lo hi : Nat) : Prop where
  inside : base ≤ lo ∧ hi ≤ top
  nonempty : lo < hi
  uncovered : ∀ x, lo ≤ x → x < hi → ¬ covered x
  left : lo = base ∨ covered (lo - 1)
  right : hi = top ∨ covered hi

section Gaps

variable {covered : Nat → Prop} {base top lo hi lo' hi' : Nat}

/-- A gap that shares an address with another begins no later. -/
theorem Gap.lo_le (g : Gap covered base top lo hi) (g' : Gap covered base top lo' hi') {x : Nat}
    (hx : lo ≤ x ∧ x < hi) (hx' : lo' ≤ x ∧ x < hi') : lo ≤ lo' := by
  by_contra hlt
  rcases g.left with hbase | hcovered
  · have hinside := g'.inside
    omega
  · exact g'.uncovered _ (by omega) (by omega) hcovered

theorem Gap.le_hi (g : Gap covered base top lo hi) (g' : Gap covered base top lo' hi') {x : Nat}
    (hx : lo ≤ x ∧ x < hi) (hx' : lo' ≤ x ∧ x < hi') : hi' ≤ hi := by
  by_contra hlt
  rcases g.right with htop | hcovered
  · have hinside := g'.inside
    omega
  · exact g'.uncovered _ (by omega) (by omega) hcovered

/-- Different gaps lie apart. -/
theorem Gap.unique (g : Gap covered base top lo hi)
    (g' : Gap covered base top lo' hi') {x : Nat} (hx : lo ≤ x ∧ x < hi)
    (hx' : lo' ≤ x ∧ x < hi') : lo = lo' ∧ hi = hi' :=
  ⟨Nat.le_antisymm (g.lo_le g' hx hx') (g'.lo_le g hx' hx),
    Nat.le_antisymm (g'.le_hi g hx' hx) (g.le_hi g' hx hx')⟩

end Gaps

/-! ## The gaps of a tiling -/

/-- A used segment covers `x`. -/
def UsedAt (h : Nat) (l : List Seg) (x : Nat) : Prop :=
  ∃ b ∈ usedSegs l, b.start ≤ x ∧ x < b.start + h + b.size

section Tilings

variable {h base top : Nat} {l : List Seg}

/-- A tiling leaves no address out. -/
theorem Tiles.exists_at : ∀ {l : List Seg} {base : Nat}, Tiles h base l top →
    ∀ {x : Nat}, base ≤ x → x < top →
    ∃ b ∈ l, b.start ≤ x ∧ x < b.start + h + b.size := by
  intro l
  induction l with
  | nil =>
    intro base t x hlo hhi
    have hempty : base = top := t
    omega
  | cons b r ih =>
    intro base t x hlo hhi
    have hstart : b.start = base := t.1
    by_cases hfirst : x < base + h + b.size
    · exact ⟨b, List.mem_cons_self, by omega, by omega⟩
    · obtain ⟨c, hc, hx⟩ := ih t.2 (Nat.le_of_not_lt hfirst) hhi
      exact ⟨c, List.mem_cons_of_mem _ hc, hx⟩

/-- A free segment of a coalesced tiling fills a gap. -/
theorem Tiles.gap_of_free (t : Tiles h base l top) (hh : 0 < h) (c : Coalesced l) {b : Seg}
    (hb : b ∈ l) (hfree : b.used = false) :
    Gap (UsedAt h l) base top b.start (b.start + h + b.size) := by
  have hbounds := t.mem_bounds hb
  obtain ⟨pre, post, rfl⟩ := List.append_of_mem hb
  obtain ⟨hleft, hright⟩ := c.neighbours_used hfree
  obtain ⟨tpre, tpost⟩ := tiles_mid t
  refine ⟨⟨hbounds.1, hbounds.2⟩, by omega, ?_, ?_, ?_⟩
  · rintro x hlo hhi ⟨u, hu, hulo, huhi⟩
    obtain ⟨hmem, hused⟩ := mem_usedSegs.mp hu
    have hne : b ≠ u := by
      rintro rfl
      rw [hfree] at hused
      cases hused
    rcases t.apart_of_ne hb hmem hne with hapart | hapart <;> omega
  · rcases List.eq_nil_or_concat pre with rfl | ⟨pre, q, rfl⟩
    · exact Or.inl tpre.symm
    · rw [List.concat_eq_append] at tpre hleft ⊢
      have hend : q.start + h + q.size = b.start := (tiles_mid tpre).2
      have hused : q.used = true := hleft q (by simp)
      exact Or.inr ⟨q, mem_usedSegs.mpr ⟨by simp, hused⟩, by omega, by omega⟩
  · cases post with
    | nil => exact Or.inl tpost
    | cons u post =>
      have hstart : u.start = b.start + h + b.size := tpost.1
      have hused : u.used = true := hright u rfl
      exact Or.inr ⟨u, mem_usedSegs.mpr ⟨by simp, hused⟩, by omega, by omega⟩

/-- **Gaps are free segments.** -/
theorem Tiles.gap_iff (t : Tiles h base l top) (hh : 0 < h) (c : Coalesced l) {lo hi : Nat} :
    Gap (UsedAt h l) base top lo hi ↔ ∃ b ∈ l, b.used = false ∧ lo = b.start ∧
    hi = b.start + h + b.size := by
  constructor
  · intro g
    have hinside := g.inside
    have hpos := g.nonempty
    obtain ⟨b, hb, hlo, hhi⟩ := t.exists_at hinside.1 (by omega)
    have hfree : b.used = false := by
      by_contra hused
      have hmem : b ∈ usedSegs l := mem_usedSegs.mpr ⟨hb, by simpa using hused⟩
      exact g.uncovered lo (Nat.le_refl _) hpos ⟨b, hmem, hlo, hhi⟩
    exact ⟨b, hb, hfree, g.unique (t.gap_of_free hh c hb hfree)
      ⟨Nat.le_refl _, hpos⟩ ⟨hlo, hhi⟩⟩
  · rintro ⟨b, hb, hfree, rfl, rfl⟩
    exact t.gap_of_free hh c hb hfree

end Tilings

end NekaKernel.Foundation
