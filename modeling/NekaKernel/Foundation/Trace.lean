/-
  Foundation/Trace.lean --- computations that record what they read.

  `Traced α` is a value together with the loads made to find it, each with its
  address and its size, in order.  A program over memory is written in this monad
  once; `value` says what it computes and `reads` where it looked.
-/
import NekaKernel.Foundation.Memory

set_option autoImplicit false

namespace NekaKernel.Foundation

/-- A value and the loads made for it. -/
structure Traced (α : Type) where
  value : α
  reads : List (Nat × Nat)

namespace Traced

instance : Monad Traced where
  pure a := ⟨a, []⟩
  bind x f := ⟨(f x.value).value, x.reads ++ (f x.value).reads⟩

variable {α β : Type}

@[simp] theorem pure_value (a : α) : (pure a : Traced α).value = a := rfl

@[simp] theorem pure_reads (a : α) : (pure a : Traced α).reads = [] := rfl

@[simp] theorem bind_value (x : Traced α) (f : α → Traced β) :
    (x >>= f).value = (f x.value).value := rfl

@[simp] theorem bind_reads (x : Traced α) (f : α → Traced β) :
    (x >>= f).reads = x.reads ++ (f x.value).reads := rfl

/-- A load and a test of what it found. -/
theorem bind_ite_value (x : Traced α) (p : α → Prop) [DecidablePred p] (f g : α → Traced β) :
    (x >>= fun a => if p a then f a else g a).value =
      if p x.value then (f x.value).value else (g x.value).value := by
  rw [bind_value]
  exact apply_ite Traced.value _ _ _

theorem bind_ite_reads (x : Traced α) (p : α → Prop) [DecidablePred p] (f g : α → Traced β) :
    (x >>= fun a => if p a then f a else g a).reads =
      x.reads ++ if p x.value then (f x.value).reads else (g x.value).reads := by
  rw [bind_reads]
  congr 1
  exact apply_ite Traced.reads _ _ _

end Traced

/-- Load `n` bytes at `a`. -/
def load (m : Mem) (a n : Nat) : Traced Nat := ⟨m.read a n, [(a, n)]⟩

@[simp] theorem load_value (m : Mem) (a n : Nat) : (load m a n).value = m.read a n := rfl

@[simp] theorem load_reads (m : Mem) (a n : Nat) : (load m a n).reads = [(a, n)] := rfl

/-! ## Programs that look nowhere else -/

section Determined

variable {α β : Type} {t t' : Mem → Traced α}

/-- What the program does is determined by the bytes it reads: over a memory that
agrees on these it does the same. -/
def Determined (t : Mem → Traced α) : Prop :=
  ∀ m m', (∀ x n, (x, n) ∈ (t m).reads → m'.read x n = m.read x n) → t m' = t m

theorem determined_pure (a : α) : Determined fun _ => (pure a : Traced α) := fun _ _ _ => rfl

theorem determined_load (a n : Nat) : Determined fun m => load m a n := by
  intro m m' h
  have hread : m'.read a n = m.read a n := h a n List.mem_cons_self
  change Traced.mk (m'.read a n) [(a, n)] = _
  rw [hread]
  rfl

/-- **The rule of sequence.** -/
theorem Determined.bind {f : Mem → α → Traced β} (ht : Determined t)
    (hf : ∀ a, Determined fun m => f m a) :
    Determined fun m => t m >>= f m := by
  intro m m' h
  have hfirst : t m' = t m := ht m m' fun x n hx => h x n (List.mem_append_left _ hx)
  have hrest : f m' (t m).value = f m (t m).value :=
    hf _ m m' fun x n hx => h x n (List.mem_append_right _ hx)
  change Traced.mk (f m' (t m').value).value ((t m').reads ++ (f m' (t m').value).reads) = _
  rw [hfirst, hrest]
  rfl

theorem Determined.ite (c : Prop) [Decidable c] (ht : Determined t) (ht' : Determined t') :
    Determined fun m => if c then t m else t' m := by
  by_cases hc : c
  · simp only [hc, if_true]
    exact ht
  · simp only [hc, if_false]
    exact ht'

end Determined

/-- The bytes from `a` on are those of the list, compared one after the other up to
the first that differs. -/
def startsWith (m : Mem) : Nat → List Nat → Traced Bool
  | _, [] => pure true
  | a, c :: cs => do
      let b ← load m a 1
      if b = c then startsWith m (a + 1) cs else pure false

section StartsWith

variable {m : Mem}

theorem startsWith_cons_value (a c : Nat) (cs : List Nat) :
    (startsWith m a (c :: cs)).value = if m.read a 1 = c then (startsWith m (a + 1) cs).value
      else false :=
  Traced.bind_ite_value (load m a 1) (· = c) _ _

theorem startsWith_cons_reads (a c : Nat) (cs : List Nat) :
    (startsWith m a (c :: cs)).reads = (a, 1) :: if m.read a 1 = c then
      (startsWith m (a + 1) cs).reads else [] :=
  Traced.bind_ite_reads (load m a 1) (· = c) _ _

theorem startsWith_value : ∀ {cs : List Nat} {a : Nat},
    (startsWith m a cs).value = true ↔ ∀ k c, cs[k]? = some c → m.read (a + k) 1 = c := by
  intro cs
  induction cs with
  | nil =>
    intro a
    simp [startsWith]
  | cons c cs ih =>
    intro a
    rw [startsWith_cons_value]
    constructor
    · intro h k d hk
      split at h
      · rename_i hfirst
        cases k with
        | zero =>
          obtain rfl : c = d := by simpa using hk
          exact hfirst
        | succ k =>
          rw [show a + (k + 1) = a + 1 + k by omega]
          exact ih.mp h k d (by simpa using hk)
      · exact absurd h (by decide)
    · intro h
      have hfirst : m.read a 1 = c := h 0 c rfl
      rw [if_pos hfirst]
      refine ih.mpr fun k d hk => ?_
      rw [show a + 1 + k = a + (k + 1) by omega]
      exact h (k + 1) d (by simpa using hk)

/-- The loads of the comparison: single bytes, each behind bytes that agree. -/
theorem mem_startsWith_reads {x n : Nat} : ∀ {cs : List Nat} {a : Nat},
    (x, n) ∈ (startsWith m a cs).reads ↔
      ∃ k < cs.length, x = a + k ∧ n = 1 ∧ ∀ l < k, ∀ c, cs[l]? = some c →
        m.read (a + l) 1 = c := by
  intro cs
  induction cs with
  | nil =>
    intro a
    simp [startsWith]
  | cons c cs ih =>
    intro a
    rw [startsWith_cons_reads, List.mem_cons, Prod.mk.injEq]
    constructor
    · rintro (⟨rfl, rfl⟩ | hrest)
      · exact ⟨0, by simp, by simp, rfl, by simp⟩
      · split at hrest
        · rename_i hfirst
          obtain ⟨k, hk, rfl, rfl, hprefix⟩ := ih.mp hrest
          refine ⟨k + 1, by simpa using hk, by omega, rfl, fun l hl d hd => ?_⟩
          cases l with
          | zero =>
            obtain rfl : c = d := by simpa using hd
            exact hfirst
          | succ l =>
            rw [show a + (l + 1) = a + 1 + l by omega]
            exact hprefix l (by omega) d (by simpa using hd)
        · exact absurd hrest (by simp)
    · rintro ⟨k, hk, rfl, rfl, hprefix⟩
      cases k with
      | zero => exact Or.inl ⟨rfl, rfl⟩
      | succ k =>
        have hfirst : m.read a 1 = c := hprefix 0 (by omega) c rfl
        right
        rw [if_pos hfirst]
        refine ih.mpr ⟨k, by simpa using hk, by omega, rfl, fun l hl d hd => ?_⟩
        rw [show a + 1 + l = a + (l + 1) by omega]
        exact hprefix (l + 1) (by omega) d (by simpa using hd)

end StartsWith

end NekaKernel.Foundation
