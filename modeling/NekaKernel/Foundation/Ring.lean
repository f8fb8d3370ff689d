/-
  Foundation/Ring.lean --- circular singly linked lists.

  The links are a partial function `next`; nothing is said about what carries
  them.  `Path next a xs b` follows the links from `a`, visiting `xs`, and stops
  at `b`.  A ring is the list of what is visited, from its head, before the head
  comes again.

  Three operations are covered: moving the head one link on, which rotates the
  list; the search for the last element, which ends; and linking a new element
  in behind the last one, which appends it to the list.
-/
import Mathlib.Data.List.Rotate
import Mathlib.Logic.Function.Basic

set_option autoImplicit false

namespace NekaKernel.Foundation

/-- The links lead from `a` over `xs` to `b`. -/
def Path {α : Type} (next : α → Option α) : α → List α → α → Prop
  | a, [], b => a = b
  | a, x :: xs, b => x = a ∧ ∃ n, next a = some n ∧ Path next n xs b

/-- `ring` is what the links visit from its first element before they return to
it, each element once. -/
structure IsRing {α : Type} (next : α → Option α) (ring : List α) : Prop where
  nodup : ring.Nodup
  path : ∀ h ∈ ring.head?, Path next h ring h

/-- Follow the links until the next one leads to `head`.  `none` means that this
has not happened after `fuel` links or that a link is missing. -/
def lastBefore {α : Type} [DecidableEq α] (next : α → Option α) (head : α) : Nat → α → Option α
  | 0, _ => none
  | fuel + 1, a =>
      match next a with
      | none => none
      | some n => if n = head then some a else lastBefore next head fuel n

variable {α : Type} {next next' : α → Option α} {a b c : α} {xs ys ring : List α}

/-! ## Paths -/

@[simp] theorem path_nil : Path next a [] b ↔ a = b := Iff.rfl

@[simp] theorem path_cons {x : α} :
    Path next a (x :: xs) b ↔ x = a ∧ ∃ n, next a = some n ∧ Path next n xs b := Iff.rfl

/-- A path over a concatenation can be cut between the two parts. -/
theorem path_append : Path next a (xs ++ ys) b ↔ ∃ m, Path next a xs m ∧ Path next m ys b := by
  induction xs generalizing a with
  | nil => simp
  | cons x xs ih =>
    simp only [List.cons_append, path_cons, ih]
    constructor
    · rintro ⟨rfl, n, hn, m, hl, hr⟩
      exact ⟨m, ⟨rfl, n, hn, hl⟩, hr⟩
    · rintro ⟨m, ⟨rfl, n, hn, hl⟩, hr⟩
      exact ⟨rfl, n, hn, m, hl, hr⟩

/-- A path depends on the links of what it visits only. -/
theorem Path.congr (h : Path next a xs b) (hsame : ∀ x ∈ xs, next' x = next x) :
    Path next' a xs b := by
  induction xs generalizing a with
  | nil => exact h
  | cons x xs ih =>
    obtain ⟨rfl, n, hn, hrest⟩ := h
    refine ⟨rfl, n, ?_, ih hrest fun y hy => hsame y (List.mem_cons_of_mem x hy)⟩
    rw [hsame x List.mem_cons_self, hn]

/-! ## Rings -/

theorem isRing_nil : IsRing next [] := ⟨List.nodup_nil, by simp⟩

/-- An element linked to itself. -/
theorem isRing_singleton (h : next a = some a) : IsRing next [a] := by
  refine ⟨List.nodup_singleton a, ?_⟩
  simp [h]

theorem IsRing.congr (R : IsRing next ring) (hsame : ∀ x ∈ ring, next' x = next x) :
    IsRing next' ring :=
  ⟨R.nodup, fun h hh => (R.path h hh).congr hsame⟩

/-- Every element of a ring has a link, and it leads into the ring. -/
theorem IsRing.next_mem (R : IsRing next ring) {x : α} (hx : x ∈ ring) :
    ∃ n ∈ ring, next x = some n := by
  obtain ⟨left, right, rfl⟩ := List.append_of_mem hx
  obtain ⟨h, hh⟩ : ∃ h, (left ++ x :: right).head? = some h := by
    cases left with
    | nil => exact ⟨x, rfl⟩
    | cons y left => exact ⟨y, rfl⟩
  obtain ⟨m, _, rfl, n, hn, hrest⟩ := path_append.mp (R.path h hh)
  refine ⟨n, ?_, hn⟩
  cases right with
  | nil =>
    rw [path_nil] at hrest
    rw [hrest]
    exact List.mem_of_mem_head? hh
  | cons y right =>
    rw [path_cons] at hrest
    simp [hrest.1]

/-- **Moving the head.**  From the element after the head the links visit the
rotated list. -/
theorem IsRing.rotate (R : IsRing next ring) : IsRing next (ring.rotate 1) := by
  cases ring with
  | nil => simpa using R
  | cons h rest =>
    obtain ⟨_, n, hn, hpath⟩ := R.path h rfl
    have hturn : (h :: rest).rotate 1 = rest ++ [h] := by simp
    refine ⟨List.nodup_rotate.mpr R.nodup, ?_⟩
    rw [hturn]
    intro h' hh'
    -- the new head is what the old one was linked to
    have hstart : n = h' := by
      cases rest with
      | nil =>
        rw [path_nil] at hpath
        simp at hh'
        rw [hpath, hh']
      | cons y rest =>
        simp at hh'
        rw [← hpath.1, hh']
    subst hstart
    refine path_append.mpr ⟨h, hpath, rfl, n, hn, rfl⟩

/-- The link of the head leads to the head of the rotated list. -/
theorem IsRing.next_head {h : α} (R : IsRing next ring) (hh : ring.head? = some h) :
    next h = (ring.rotate 1).head? := by
  cases ring with
  | nil => simp at hh
  | cons x rest =>
    obtain rfl : x = h := by simpa using hh
    obtain ⟨_, n, hn, hpath⟩ := R.path x rfl
    rw [hn]
    cases rest with
    | nil =>
      rw [path_nil] at hpath
      simp [hpath]
    | cons y rest =>
      rw [path_cons] at hpath
      simp [hpath.1]

/-! ## The end of a ring -/

section Tail

variable [DecidableEq α] {front : List α} {head last t : α}

/-- On a path that does not come back to `head` before its end, the search stops
at what is visited last. -/
theorem lastBefore_path :
    ∀ {front : List α} {a : α} {fuel : Nat}, Path next a (front ++ [last]) head →
      head ∉ (front ++ [last]).tail → front.length < fuel →
      lastBefore next head fuel a = some last := by
  intro front
  induction front with
  | nil =>
    intro a fuel hpath _ hfuel
    obtain ⟨rfl, n, hn, rfl⟩ := hpath
    obtain ⟨fuel, rfl⟩ := Nat.exists_eq_add_of_lt hfuel
    simp [lastBefore, hn]
  | cons x front ih =>
    intro a fuel hpath htail hfuel
    obtain ⟨rfl, n, hn, hrest⟩ := hpath
    obtain ⟨fuel, rfl⟩ := Nat.exists_eq_add_of_lt hfuel
    have hmem : n ∈ front ++ [last] := by
      cases front with
      | nil => simp [hrest.1]
      | cons y front => simp [hrest.1]
    have hn' : n ≠ head := by
      rintro rfl
      exact htail hmem
    rw [lastBefore, hn]
    dsimp only
    rw [if_neg hn']
    refine ih hrest (fun h => htail (List.mem_of_mem_tail h)) ?_
    rw [List.length_cons]
    omega

/-- **The tail search ends**, at the last element of the ring. -/
theorem IsRing.lastBefore_eq {fuel : Nat} (R : IsRing next (front ++ [last]))
    (hh : (front ++ [last]).head? = some head) (hfuel : front.length < fuel) :
    lastBefore next head fuel head = some last := by
  refine lastBefore_path (R.path head hh) ?_ hfuel
  have hcons : front ++ [last] = head :: (front ++ [last]).tail :=
    (List.cons_head?_tail hh).symm
  have hnodup := R.nodup
  rw [hcons, List.nodup_cons] at hnodup
  exact hnodup.1

/-- **Linking in.**  A new element behind the last one, linked to the head, is
appended to the ring. -/
theorem IsRing.append (R : IsRing next (front ++ [last]))
    (hh : (front ++ [last]).head? = some head) (ht : t ∉ front ++ [last]) :
    IsRing (Function.update (Function.update next last (some t)) t (some head))
      (front ++ [last] ++ [t]) := by
  have hlast : last ≠ t := by
    rintro rfl
    exact ht List.mem_concat_self
  refine ⟨?_, ?_⟩
  · rw [List.nodup_append_comm]
    exact List.nodup_cons.mpr ⟨ht, R.nodup⟩
  · intro h' hh'
    have hsame : h' = head := by
      rw [List.head?_append, hh] at hh'
      simpa using hh'.symm
    subst hsame
    obtain ⟨m, hfront, rfl, _⟩ := path_append.mp (R.path h' hh)
    -- up to the last element the links are the old ones
    have hkeep : ∀ x ∈ front,
        Function.update (Function.update next last (some t)) t (some h') x = next x := by
      intro x hx
      have hxt : x ≠ t := by
        rintro rfl
        exact ht (List.mem_append_left _ hx)
      have hxl : x ≠ last := by
        rintro rfl
        exact (List.nodup_append.mp R.nodup).2.2 x hx x List.mem_cons_self rfl
      rw [Function.update_of_ne hxt, Function.update_of_ne hxl]
    refine path_append.mpr ⟨t, path_append.mpr ⟨last, hfront.congr hkeep, rfl, t, ?_, rfl⟩, rfl,
      h', ?_, rfl⟩
    · rw [Function.update_of_ne hlast, Function.update_self]
    · rw [Function.update_self]

end Tail

end NekaKernel.Foundation
