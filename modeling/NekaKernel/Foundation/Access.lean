/-
  Foundation/Access.lean --- programs that go to memory one access at a time.

  A program is a tree: it stops with a value, or it makes one load or store and goes
  on with what it has found.  `run` executes it without interruption; `step` makes
  one access, so that others may write between two accesses.  A program that avoids
  a set of addresses does not notice writes to them, whenever they come, and leaves
  them as they are: that is what turns an interleaving into a sequence.

  The file names nothing of the kernel.
-/
import NekaKernel.Foundation.Memory

set_option autoImplicit false

namespace NekaKernel.Foundation

/-- A program over memory, from its next access on. -/
inductive Program (α : Type) where
  | done (value : α)
  | load (a n : Nat) (next : Nat → Program α)
  | store (a n v : Nat) (next : Program α)

namespace Program

variable {α β : Type}

/-- One program after the other. -/
def bind : Program α → (α → Program β) → Program β
  | done a, f => f a
  | load a n next, f => load a n fun v => (next v).bind f
  | store a n v next, f => store a n v (next.bind f)

instance : Monad Program where
  pure := done
  bind := bind

theorem bind_done (p : Program α) : p.bind done = p := by
  induction p with
  | done a => rfl
  | load a n next ih => exact congrArg (load a n) (funext ih)
  | store a n v next ih => exact congrArg (store a n v) ih

theorem bind_bind {γ : Type} (p : Program α) (f : α → Program β) (g : β → Program γ) :
    (p.bind f).bind g = p.bind fun a => (f a).bind g := by
  induction p with
  | done a => rfl
  | load a n next ih => exact congrArg (load a n) (funext ih)
  | store a n v next ih => exact congrArg (store a n v) ih

instance : LawfulMonad Program :=
  LawfulMonad.mk' Program bind_done (fun _ _ => rfl) bind_bind

/-- The little-endian word of `n` bytes at `a`. -/
def word (a n : Nat) : Program Nat := load a n done

/-- Store the low `n` bytes of `v` at `a`. -/
def put (a n v : Nat) : Program Unit := store a n v (done ())

/-- The value of a program that nothing interrupts, and the memory it leaves. -/
def run : Program α → Mem → α × Mem
  | done a, m => (a, m)
  | load a n next, m => (next (m.read a n)).run m
  | store a n v next, m => next.run (m.write a n v)

/-- The next access, unless the program has stopped. -/
def step : Program α → Mem → Option (Program α × Mem)
  | done _, _ => none
  | load a n next, m => some (next (m.read a n), m)
  | store a n v next, m => some (next, m.write a n v)

/-- The `n` bytes from `a` on are none of `P`. -/
def Misses (P : Nat → Prop) (a n : Nat) : Prop := ∀ x, a ≤ x → x < a + n → ¬ P x

/-- Started on `m`, the program accesses no address in `P`. -/
def Avoids (P : Nat → Prop) : Program α → Mem → Prop
  | done _, _ => True
  | load a n next, m => Misses P a n ∧ (next (m.read a n)).Avoids P m
  | store a n v next, m => Misses P a n ∧ next.Avoids P (m.write a n v)

/-! ## What a program computes -/

section Run

variable {m : Mem}

@[simp] theorem run_pure (a : α) : (pure a : Program α).run m = (a, m) := rfl

@[simp] theorem run_word (a n : Nat) : (word a n).run m = (m.read a n, m) := (rfl)

@[simp] theorem run_put (a n v : Nat) : (put a n v).run m = ((), m.write a n v) := rfl

@[simp] theorem run_bind (p : Program α) (f : α → Program β) :
    (p >>= f).run m = (f (p.run m).1).run (p.run m).2 := by
  change (p.bind f).run m = _
  induction p generalizing m with
  | done a => rfl
  | load a n next ih => exact ih (m.read a n)
  | store a n v next ih => exact ih

theorem run_ite (c : Prop) [Decidable c] (p q : Program α) :
    (if c then p else q).run m = if c then p.run m else q.run m := by
  split <;> rfl

/-- An access on the way changes nothing of the end. -/
theorem run_of_step {p p' : Program α} {m' : Mem} (h : p.step m = some (p', m')) :
    p'.run m' = p.run m := by
  cases p with
  | done a => cases h
  | load a n next | store a n v next =>
    cases h
    rfl

end Run

/-! ## Programs that avoid addresses -/

section Avoids

variable {P Q : Nat → Prop} {m : Mem}

theorem Misses.sub {a n b k : Nat} (h : Misses P a n) (hlo : a ≤ b) (hhi : b + k ≤ a + n) :
    Misses P b k :=
  fun x hx hx' => h x (Nat.le_trans hlo hx) (Nat.lt_of_lt_of_le hx' hhi)

/-- An avoided address lies outside an access. -/
theorem Misses.outside {a n x : Nat} (h : Misses P a n) (hx : P x) : x < a ∨ a + n ≤ x := by
  rcases Nat.lt_or_ge x a with hlt | hge
  · exact .inl hlt
  · exact .inr (Nat.le_of_not_lt fun hlt => h x hge hlt hx)

theorem avoids_pure (a : α) : (pure a : Program α).Avoids P m := trivial

theorem avoids_put {a n v : Nat} (h : Misses P a n) : (put a n v).Avoids P m := ⟨h, trivial⟩

/-- **The rule of sequence.** -/
theorem avoids_bind {p : Program α} {f : α → Program β} :
    (p >>= f).Avoids P m ↔ p.Avoids P m ∧ (f (p.run m).1).Avoids P (p.run m).2 := by
  change (p.bind f).Avoids P m ↔ _
  induction p generalizing m with
  | done a => exact (true_and _).symm.to_iff
  | load a n next ih => exact (and_congr_right fun _ => ih _).trans and_assoc.symm
  | store a n v next ih => exact (and_congr_right fun _ => ih).trans and_assoc.symm

theorem Avoids.bind {p : Program α} {f : α → Program β} (hp : p.Avoids P m)
    (hf : (f (p.run m).1).Avoids P (p.run m).2) : (p >>= f).Avoids P m :=
  avoids_bind.mpr ⟨hp, hf⟩

theorem Avoids.word_bind {a n : Nat} {f : Nat → Program β} (h : Misses P a n)
    (hf : (f (m.read a n)).Avoids P m) : (word a n >>= f).Avoids P m :=
  ⟨h, hf⟩

theorem Avoids.put_bind {a n v : Nat} {f : Unit → Program β} (h : Misses P a n)
    (hf : (f ()).Avoids P (m.write a n v)) : (put a n v >>= f).Avoids P m :=
  ⟨h, hf⟩

theorem Avoids.ite {c : Prop} [Decidable c] {p q : Program α} (hp : c → p.Avoids P m)
    (hq : ¬ c → q.Avoids P m) : (if c then p else q).Avoids P m := by
  split
  · exact hp ‹c›
  · exact hq ‹¬ c›

theorem Avoids.mono {p : Program α} (h : p.Avoids P m) (hle : ∀ x, Q x → P x) :
    p.Avoids Q m := by
  induction p generalizing m with
  | done a => trivial
  | load a n next ih => exact ⟨fun x hlo hhi hQ => h.1 x hlo hhi (hle x hQ), ih _ h.2⟩
  | store a n v next ih => exact ⟨fun x hlo hhi hQ => h.1 x hlo hhi (hle x hQ), ih h.2⟩

theorem Avoids.step {p p' : Program α} {m' : Mem} (h : p.Avoids P m)
    (hs : p.step m = some (p', m')) :
    p'.Avoids P m' := by
  cases p with
  | done a => cases hs
  | load a n next | store a n v next =>
    cases hs
    exact h.2

/-- What is avoided stays as it is. -/
theorem Avoids.run_at {p : Program α} (h : p.Avoids P m) {x : Nat} (hx : P x) :
    (p.run m).2 x = m x := by
  induction p generalizing m with
  | done a => rfl
  | load a n next ih => exact ih _ h.2
  | store a n v next ih => exact (ih h.2).trans (Mem.write_outside (h.1.outside hx))

/-- An access does not touch it either. -/
theorem Avoids.step_at {p p' : Program α} {m' : Mem} (h : p.Avoids P m)
    (hs : p.step m = some (p', m')) {x : Nat} (hx : P x) : m' x = m x := by
  have hend := (h.step hs).run_at hx
  rw [run_of_step hs] at hend
  exact hend.symm.trans (h.run_at hx)

/-- Two stores that do not meet may change places. -/
theorem write_comm {a n v x b : Nat} (hout : x < a ∨ a + n ≤ x) :
    (m.write x 1 b).write a n v = (m.write a n v).write x 1 b := by
  funext y
  unfold Mem.write
  by_cases hy : a ≤ y ∧ y < a + n
  · rw [if_pos hy, if_neg (by omega), if_pos hy]
  · rw [if_neg hy, if_neg hy]

/-- **A write to an avoided address commutes with the program**: it may come now or
after the last access. -/
theorem Avoids.run_write {p : Program α} (h : p.Avoids P m) {x : Nat} (hx : P x) (b : Nat) :
    p.run (m.write x 1 b) = ((p.run m).1, (p.run m).2.write x 1 b) ∧
    p.Avoids P (m.write x 1 b) := by
  induction p generalizing m with
  | done a => exact ⟨rfl, trivial⟩
  | load a n next ih =>
    have hread : (m.write x 1 b).read a n = m.read a n := by
      have hout := h.1.outside hx
      exact Mem.read_write_of_disjoint (by omega)
    obtain ⟨hrun, havoids⟩ := ih _ h.2
    refine ⟨?_, h.1, ?_⟩
    · rw [run, hread]
      exact hrun
    · rw [hread]
      exact havoids
  | store a n v next ih =>
    have hout := h.1.outside hx
    obtain ⟨hrun, havoids⟩ := ih h.2
    refine ⟨?_, h.1, ?_⟩
    · rw [run, write_comm hout]
      exact hrun
    · rw [write_comm hout]
      exact havoids

end Avoids

-- from here on the rules above say all there is to know
attribute [irreducible] Avoids

end Program

end NekaKernel.Foundation
