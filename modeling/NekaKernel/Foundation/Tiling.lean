/-
  Foundation/Tiling.lean --- intervals tiled by headed segments.

  A segment is a header of `h` bytes followed by `size` bytes; it is used or
  free.  A list of segments tiles `[lo, hi)` when each one starts where the one
  before it stops.  A tiling is coalesced when no two neighbours are both free.

  The main result is `eq_of_used_eq`: two coalesced tilings of one interval with
  the same used segments are the same list.  An allocator that keeps its block
  list coalesced therefore has no history: the set of live blocks determines
  every free block.
-/
import Mathlib.Algebra.GroupWithZero.Nat
import Mathlib.Data.List.Chain

set_option autoImplicit false

namespace NekaKernel.Foundation

/-- A headed segment of an interval. -/
structure Seg where
  start : Nat
  size : Nat
  used : Bool
  deriving DecidableEq, Repr, Inhabited

/-- `l` tiles `[lo, hi)`, each segment being `h` header bytes and its payload. -/
def Tiles (h : Nat) : Nat → List Seg → Nat → Prop
  | lo, [], hi => lo = hi
  | lo, s :: r, hi => s.start = lo ∧ Tiles h (lo + h + s.size) r hi

/-- No two neighbours are both free. -/
def Coalesced (l : List Seg) : Prop := l.IsChain fun a b => a.used = true ∨ b.used = true

/-- The used segments, in address order. -/
def usedSegs (l : List Seg) : List Seg := l.filter (·.used)

/-! ## Geometry -/

section Geometry

variable {h lo hi : Nat}

@[simp] theorem tiles_nil : Tiles h lo [] hi ↔ lo = hi := Iff.rfl

@[simp] theorem tiles_cons {s : Seg} {r : List Seg} :
    Tiles h lo (s :: r) hi ↔ s.start = lo ∧ Tiles h (lo + h + s.size) r hi := Iff.rfl

/-- A tiling ends no earlier than it starts. -/
theorem Tiles.le {l : List Seg} (t : Tiles h lo l hi) : lo ≤ hi := by
  induction l generalizing lo with
  | nil => exact Nat.le_of_eq t
  | cons s r ih =>
    have := ih t.2
    omega

/-- A concatenation tiles exactly when it can be cut between the two parts. -/
theorem tiles_append {l₁ l₂ : List Seg} :
    Tiles h lo (l₁ ++ l₂) hi ↔ ∃ mid, Tiles h lo l₁ mid ∧ Tiles h mid l₂ hi := by
  induction l₁ generalizing lo with
  | nil => simp
  | cons s r ih =>
    simp only [List.cons_append, tiles_cons, ih]
    constructor
    · rintro ⟨hs, mid, h₁, h₂⟩
      exact ⟨mid, ⟨hs, h₁⟩, h₂⟩
    · rintro ⟨mid, ⟨hs, h₁⟩, h₂⟩
      exact ⟨hs, mid, h₁, h₂⟩

/-- The cut of a tiling around one of its segments. -/
theorem tiles_mid {pre post : List Seg} {b : Seg} (t : Tiles h lo (pre ++ b :: post) hi) :
    Tiles h lo pre b.start ∧ Tiles h (b.start + h + b.size) post hi := by
  obtain ⟨mid, hpre, hb, hpost⟩ := tiles_append.mp t
  subst hb
  exact ⟨hpre, hpost⟩

/-- Every segment lies inside the tiled interval. -/
theorem Tiles.mem_bounds {l : List Seg} (t : Tiles h lo l hi) {s : Seg} (hs : s ∈ l) :
    lo ≤ s.start ∧ s.start + h + s.size ≤ hi := by
  obtain ⟨pre, post, rfl⟩ := List.append_of_mem hs
  obtain ⟨hpre, hpost⟩ := tiles_mid t
  exact ⟨hpre.le, hpost.le⟩

/-- Two different positions of a tiling do not overlap. -/
theorem Tiles.apart {pre mid post : List Seg} {a b : Seg}
    (t : Tiles h lo (pre ++ a :: (mid ++ b :: post)) hi) :
    a.start + h + a.size ≤ b.start :=
  (tiles_mid (tiles_mid t).2).1.le

/-- Distinct segments of a tiling lie apart. -/
theorem Tiles.apart_of_ne {l : List Seg} (t : Tiles h lo l hi) {a b : Seg} (ha : a ∈ l)
    (hb : b ∈ l) (hne : a ≠ b) :
    a.start + h + a.size ≤ b.start ∨ b.start + h + b.size ≤ a.start := by
  obtain ⟨pre, post, rfl⟩ := List.append_of_mem ha
  simp only [List.mem_append, List.mem_cons] at hb
  rcases hb with hb | rfl | hb
  · obtain ⟨p₁, p₂, rfl⟩ := List.append_of_mem hb
    right
    have t' : Tiles h lo (p₁ ++ b :: (p₂ ++ a :: post)) hi := by simpa using t
    exact t'.apart
  · exact absurd rfl hne
  · obtain ⟨p₁, p₂, rfl⟩ := List.append_of_mem hb
    left
    exact t.apart

/-- Distinct segments of a tiling with headers start at distinct places. -/
theorem Tiles.eq_of_start {l : List Seg} (t : Tiles h lo l hi) (hh : 0 < h) {a b : Seg}
    (ha : a ∈ l) (hb : b ∈ l) (hstart : a.start = b.start) : a = b := by
  by_contra hne
  rcases t.apart_of_ne ha hb hne with hab | hab <;> omega

/-- The segments of a tiling with headers come in address order. -/
theorem Tiles.pairwise {l : List Seg} (t : Tiles h lo l hi) (hh : 0 < h) :
    l.Pairwise fun a b => a.start < b.start := by
  induction l generalizing lo with
  | nil => exact List.Pairwise.nil
  | cons s r ih =>
    refine List.pairwise_cons.mpr ⟨?_, ih t.2⟩
    intro b hb
    have := (t.2.mem_bounds hb).1
    have := t.1
    omega

/-- Headers and payloads together fill the interval. -/
theorem Tiles.sum {l : List Seg} (t : Tiles h lo l hi) :
    lo + (l.map Seg.size).sum + h * l.length = hi := by
  induction l generalizing lo with
  | nil => simpa using t
  | cons s r ih =>
    have := ih t.2
    simp only [List.map_cons, List.sum_cons, List.length_cons, Nat.mul_succ]
    omega

end Geometry

/-! ## Coalesced tilings -/

theorem Coalesced.of_cons {s : Seg} {l : List Seg} (c : Coalesced (s :: l)) : Coalesced l :=
  List.IsChain.of_cons c

@[simp] theorem coalesced_cons_cons {a b : Seg} {l : List Seg} :
    Coalesced (a :: b :: l) ↔ (a.used = true ∨ b.used = true) ∧ Coalesced (b :: l) :=
  List.isChain_cons_cons

/-- Both parts of a coalesced list are coalesced. -/
theorem Coalesced.append {l₁ l₂ : List Seg} (c : Coalesced (l₁ ++ l₂)) :
    Coalesced l₁ ∧ Coalesced l₂ :=
  ⟨List.IsChain.left_of_append c, List.IsChain.right_of_append c⟩

/-- What follows a free segment is used. -/
theorem Coalesced.next_used {b : Seg} {l : List Seg} (c : Coalesced (b :: l))
    (hb : b.used = false) : ∀ a ∈ l.head?, a.used = true := by
  intro a ha
  have := (List.isChain_cons.mp c).1 a ha
  simpa [hb] using this

/-- The neighbours of a free segment are used. -/
theorem Coalesced.neighbours_used {pre post : List Seg} {b : Seg}
    (c : Coalesced (pre ++ b :: post)) (hb : b.used = false) :
    (∀ a ∈ pre.getLast?, a.used = true) ∧ ∀ a ∈ post.head?, a.used = true := by
  obtain ⟨_, hpost, hjoin⟩ := List.isChain_append.mp c
  refine ⟨?_, Coalesced.next_used hpost hb⟩
  intro a ha
  have := hjoin a ha b (by simp)
  simpa [hb] using this

/-- A list is coalesced when its parts are and they meet at a used segment. -/
theorem coalesced_append {l₁ l₂ : List Seg} (c₁ : Coalesced l₁) (c₂ : Coalesced l₂)
    (hjoin : ∀ a ∈ l₁.getLast?, ∀ b ∈ l₂.head?, a.used = true ∨ b.used = true) :
    Coalesced (l₁ ++ l₂) :=
  List.isChain_append.mpr ⟨c₁, c₂, hjoin⟩

/-- Only the neighbours decide whether a segment may be put into a list. -/
theorem coalesced_cons {b : Seg} {l : List Seg} (c : Coalesced l)
    (hjoin : ∀ a ∈ l.head?, b.used = true ∨ a.used = true) : Coalesced (b :: l) :=
  List.isChain_cons.mpr ⟨hjoin, c⟩

@[simp] theorem usedSegs_nil : usedSegs [] = [] := rfl

theorem usedSegs_cons_used {s : Seg} (hs : s.used = true) (l : List Seg) :
    usedSegs (s :: l) = s :: usedSegs l := by simp [usedSegs, hs]

theorem usedSegs_cons_free {s : Seg} (hs : s.used = false) (l : List Seg) :
    usedSegs (s :: l) = usedSegs l := by simp [usedSegs, hs]

theorem usedSegs_append (l₁ l₂ : List Seg) :
    usedSegs (l₁ ++ l₂) = usedSegs l₁ ++ usedSegs l₂ := by simp [usedSegs]

theorem mem_usedSegs {s : Seg} {l : List Seg} :
    s ∈ usedSegs l ↔ s ∈ l ∧ s.used = true := by simp [usedSegs]

/-- The set of used segments determines their list. -/
theorem usedSegs_eq_of_mem {h lo₁ lo₂ hi₁ hi₂ : Nat} {l₁ l₂ : List Seg} (hh : 0 < h)
    (t₁ : Tiles h lo₁ l₁ hi₁) (t₂ : Tiles h lo₂ l₂ hi₂)
    (hmem : ∀ s, s ∈ usedSegs l₁ ↔ s ∈ usedSegs l₂) : usedSegs l₁ = usedSegs l₂ := by
  have hsorted : ∀ {lo hi : Nat} {l : List Seg}, Tiles h lo l hi →
      (usedSegs l).Pairwise fun a b => a.start < b.start :=
    fun t => (t.pairwise hh).sublist List.filter_sublist
  have hnodup : ∀ {l : List Seg}, (l.Pairwise fun a b => a.start < b.start) → l.Nodup :=
    fun hl => hl.imp fun hlt heq => Nat.ne_of_lt hlt (congrArg Seg.start heq)
  have hperm : (usedSegs l₁).Perm (usedSegs l₂) :=
    (List.perm_ext_iff_of_nodup (hnodup (hsorted t₁)) (hnodup (hsorted t₂))).mpr hmem
  refine hperm.eq_of_pairwise ?_ (hsorted t₁) (hsorted t₂)
  intro a b _ _ hab hba
  exact absurd hab (Nat.lt_asymm hba)

/-- Where the first used segment of a tiling starts, or the end if there is
none: the end of the leading gap. -/
def gapEnd (hi : Nat) : List Seg → Nat
  | [] => hi
  | u :: _ => u.start

/-- A leading free segment of a coalesced tiling fills the leading gap. -/
theorem Tiles.free_head {h lo hi : Nat} {f : Seg} {r : List Seg} (t : Tiles h lo (f :: r) hi)
    (c : Coalesced (f :: r)) (hf : f.used = false) :
    lo + h + f.size = gapEnd hi (usedSegs r) := by
  cases r with
  | nil => simpa [gapEnd] using t.2
  | cons u r =>
    have hu : u.used = true := by
      have := (coalesced_cons_cons.mp c).1
      simpa [hf] using this
    rw [usedSegs_cons_used hu]
    exact t.2.1.symm

/-- **Canonicity.** A coalesced tiling is determined by its used segments. -/
theorem eq_of_used_eq {h hi : Nat} (hh : 0 < h) :
    ∀ {l₁ l₂ : List Seg} {lo : Nat}, Tiles h lo l₁ hi → Tiles h lo l₂ hi →
      Coalesced l₁ → Coalesced l₂ → usedSegs l₁ = usedSegs l₂ → l₁ = l₂ := by
  intro l₁
  induction l₁ with
  | nil =>
    intro l₂ lo t₁ t₂ _ _ _
    cases l₂ with
    | nil => rfl
    | cons s r =>
      have := t₂.2.le
      have : lo = hi := t₁
      omega
  | cons a r₁ ih =>
    intro l₂ lo t₁ t₂ c₁ c₂ hused
    cases l₂ with
    | nil =>
      have := t₁.2.le
      have : lo = hi := t₂
      omega
    | cons b r₂ =>
      have hstart : a.start = b.start := t₁.1.trans t₂.1.symm
      -- a used head cannot face a free one: the free one's used list starts later
      have hused' : a.used = b.used := by
        cases ha : a.used <;> cases hb : b.used
        · rfl
        · rw [usedSegs_cons_free ha, usedSegs_cons_used hb] at hused
          have hbr : b ∈ r₁ := (mem_usedSegs.mp (hused ▸ List.mem_cons_self)).1
          have := (t₁.2.mem_bounds hbr).1
          have := t₂.1
          omega
        · rw [usedSegs_cons_used ha, usedSegs_cons_free hb] at hused
          have har : a ∈ r₂ := (mem_usedSegs.mp (hused ▸ List.mem_cons_self)).1
          have := (t₂.2.mem_bounds har).1
          have := t₁.1
          omega
        · rfl
      have hsize : a.size = b.size ∧ usedSegs r₁ = usedSegs r₂ := by
        cases ha : a.used with
        | true =>
          rw [usedSegs_cons_used ha, usedSegs_cons_used (hused' ▸ ha), List.cons.injEq] at hused
          exact ⟨congrArg Seg.size hused.1, hused.2⟩
        | false =>
          have hb : b.used = false := hused' ▸ ha
          rw [usedSegs_cons_free ha, usedSegs_cons_free hb] at hused
          have h₁ := t₁.free_head c₁ ha
          have h₂ := t₂.free_head c₂ hb
          rw [hused] at h₁
          exact ⟨by omega, hused⟩
      have hab : a = b := by
        cases a; cases b
        simp_all
      subst hab
      rw [ih t₁.2 t₂.2 c₁.of_cons c₂.of_cons hsize.2]

end NekaKernel.Foundation
