/-
  Console/PrintLock.lean --- the console lock.

  Source: `print_lock` in `terminal64.c`, with the machine of `Console/Machine.lean`.

  `kprint` holds `print_lock` with interrupts off, so that nothing that IF masks can
  come to `kprint` on the same CPU meanwhile.  Exceptions are not masked, and
  `interrupt_dispatch` reports each of them with `kprint`: one that comes to a CPU
  in the middle of `kprint` waits for a lock that its own CPU holds.  The lock
  excludes the other CPUs in every run; that no CPU waits for itself is so exactly
  in the runs in which no exception comes to a holder.
-/
import NekaKernel.Console.Machine

set_option autoImplicit false

namespace NekaKernel.Console

open NekaKernel.Foundation

/-! ## Who holds the lock -/

/-- The point is between a successful `print_lock_acquire` and the release. -/
def Point.holding : Point → Bool
  | .char _ _ _ => true
  | .putcVga _ _ _ => true
  | .serialPutc _ _ _ => true
  | .release _ => true
  | _ => false

/-- The point is in `print_lock_acquire`. -/
def Point.acquiring : Point → Bool
  | .testAndSet _ _ => true
  | .spin _ _ => true
  | _ => false

/-- Something that CPU `k` would have to come back to holds the lock. -/
def Holds {κ τ : Type} (t : Terminal κ τ) (k : κ) : Prop :=
  ∃ p ∈ (t.running k).stack, p.holding = true

/-- CPU `k` waits for a lock that it holds itself. -/
def SelfSpin {κ τ : Type} (t : Terminal κ τ) (k : κ) : Prop :=
  (∃ p r, (t.running k).stack = p :: r ∧ p.acquiring = true) ∧ Holds t k

/-- Code that calls `kprint`. -/
def Point.calls : Point → Bool
  | .code => true
  | .handler => true
  | .dispatch _ => true
  | _ => false

/-- The `flags` of `kprint`, while IF is off. -/
def Point.flags : Point → Option Bool
  | .testAndSet _ flags => some flags
  | .spin _ flags => some flags
  | .char _ _ flags => some flags
  | .putcVga _ _ flags => some flags
  | .serialPutc _ _ flags => some flags
  | .release flags => some flags
  | .restore flags => some flags
  | _ => none

/-- Nothing in a stack holds the lock. -/
def Quiet (st : List Point) : Prop := ∀ p ∈ st, p.holding = false

theorem quiet_cons {p : Point} {st : List Point} :
    Quiet (p :: st) ↔ p.holding = false ∧ Quiet st :=
  List.forall_mem_cons

theorem not_holds_iff {κ τ : Type} {t : Terminal κ τ} {k : κ} :
    ¬ Holds t k ↔ Quiet (t.running k).stack := by
  simp [Holds, Quiet]

/-- The stacks of runs in which exceptions come upon stacks in `Q`, with IF.  Down to
the latest exception only the top can hold the lock, and IF is off then. -/
inductive Sound (Q : List Point → Prop) : Bool → List Point → Prop
  | code {i : Bool} : Sound Q i [.code]
  /-- What IF masks has come with IF on. -/
  | handler {i : Bool} {st : List Point} (h : Sound Q true st) : Sound Q i (.handler :: st)
  | entry {i : Bool} {p : Point} {r : List Point} (s : CString) (hp : p.calls = true)
      (h : Sound Q i (p :: r)) : Sound Q i (.entry s :: p :: r)
  | printing {flags : Bool} {f p : Point} {r : List Point} (hf : f.flags = some flags)
      (hp : p.calls = true) (h : Sound Q flags (p :: r)) : Sound Q false (f :: p :: r)
  | dispatch {st : List Point} (reports : List CString) (h : Q st) :
      Sound Q false (.dispatch reports :: st)
  | halt {st : List Point} (h : Q st) : Sound Q false (.halt :: st)

section Stacks

variable {Q : List Point → Prop} {i : Bool} {f p : Point} {st r : List Point}

theorem Point.flags_not_calls {flags : Bool} (hf : f.flags = some flags) : f.calls = false := by
  cases f <;> first | rfl | simp [Point.flags] at hf

theorem Point.own_calls (hp : p.own = true) : p.calls = true := by
  cases p <;> first | rfl | simp [Point.own] at hp

/-- With IF on, or in code that may switch threads, nothing holds the lock. -/
theorem Sound.quiet (h : Sound Q i st) (hcalm : i = true ∨ ∃ p r, st = p :: r ∧ p.own = true) :
    Quiet st := by
  induction h with
  | code => simp [Quiet, Point.holding]
  | handler _ ih => exact quiet_cons.mpr ⟨rfl, ih (.inl rfl)⟩
  | entry s hp _ ih =>
    rcases hcalm with hi | ⟨q, r, hst, hq⟩
    · exact quiet_cons.mpr ⟨rfl, ih (.inl hi)⟩
    · obtain ⟨rfl, -⟩ := List.cons.inj hst
      cases hq
  | printing hf _ _ _ =>
    rcases hcalm with hi | ⟨q, r, hst, hq⟩
    · cases hi
    · obtain ⟨rfl, -⟩ := List.cons.inj hst
      have hcalls := Point.flags_not_calls hf
      rw [Point.own_calls hq] at hcalls
      cases hcalls
  | dispatch reports h => simp [Point.own] at hcalm
  | halt h => simp [Point.own] at hcalm

/-- If exceptions come upon nothing that holds the lock, what lies below `kprint` does
not hold it. -/
theorem Sound.quiet_below (h : Sound Quiet i (p :: r)) (hp : p.calls = true) :
    Quiet (p :: r) := by
  cases p with
  | code => exact h.quiet (.inr ⟨_, _, rfl, rfl⟩)
  | handler => exact h.quiet (.inr ⟨_, _, rfl, rfl⟩)
  | dispatch reports =>
    cases h with
    | printing hf _ _ => cases hf
    | dispatch reports h => exact quiet_cons.mpr ⟨rfl, h⟩
  | _ => cases hp

/-- The next point of `kprint`. -/
theorem Sound.advance {g : Point} {flags : Bool} (h : Sound Q i (f :: r))
    (hf : f.flags = some flags) (hg : g.flags = some flags) : Sound Q i (g :: r) := by
  cases h with
  | printing hf' hp h =>
    rw [hf, Option.some.injEq] at hf'
    subst hf'
    exact .printing hg hp h
  | _ => simp [Point.flags] at hf

end Stacks

/-! ## What an act keeps -/

section Acts

variable {κ τ : Type} {Q : List Point → Prop} {t t' : Terminal κ τ} {k : κ} {status : UInt8}

/-- **The invariant** of runs in which exceptions come upon stacks in `Q`. -/
structure Terminal.Inv (Q : List Point → Prop) (t : Terminal κ τ) : Prop where
  running : ∀ k, Sound Q (t.running k).ifFlag (t.running k).stack
  parked : ∀ thread, Sound Q (t.parked thread).ifFlag (t.parked thread).stack

theorem inv_of_initial (h : t.Initial) : t.Inv Q := by
  refine ⟨fun k => ?_, fun thread => ?_⟩
  · rw [h.running k]
    exact .code
  · rw [h.parked thread]
    exact .code

/-- Whoever waits for the lock does not hold it. -/
theorem Terminal.Inv.not_selfSpin (I : t.Inv Quiet) (k : κ) : ¬ SelfSpin t k := by
  rintro ⟨⟨p, r, hst, hp⟩, hholds⟩
  have hk := I.running k
  rw [hst] at hk
  generalize (t.running k).ifFlag = i at hk
  refine absurd hholds (not_holds_iff.mpr ?_)
  rw [hst]
  cases hk with
  | printing hf hcalls h =>
    refine quiet_cons.mpr ⟨?_, h.quiet_below hcalls⟩
    cases p <;> first | rfl | simp [Point.acquiring] at hp
  | _ => simp [Point.acquiring] at hp

variable [DecidableEq κ]

/-- One CPU goes on. -/
theorem Terminal.Inv.goOn (I : t.Inv Q) {c : Context} (h : Sound Q c.ifFlag c.stack)
    (hrunning : t'.running = Function.update t.running k c) (hparked : t'.parked = t.parked) :
    t'.Inv Q := by
  refine ⟨fun j => ?_, fun thread => ?_⟩
  · rw [hrunning]
    by_cases hj : j = k
    · subst hj
      rw [Function.update_self]
      exact h
    · rw [Function.update_of_ne hj]
      exact I.running j
  · rw [hparked]
    exact I.parked thread

/-- A step in `kprint`. -/
theorem Terminal.Inv.run_printing (I : t.Inv Q) {f : Point} {r : List Point} {flags : Bool}
    (hc : t.running k = ⟨false, f :: r⟩) (h : Sound Q false (f :: r))
    (hf : f.flags = some flags) (hreturn : Sound Q flags r) (hrun : t.run k status = some t') :
    t'.Inv Q := by
  simp only [Terminal.run, hc] at hrun
  cases f with
  | testAndSet s flags =>
    dsimp only at hrun
    split at hrun <;> rw [Option.some.injEq] at hrun <;> subst hrun
    · exact I.goOn (c := ⟨false, .spin s flags :: r⟩) (h.advance rfl rfl) rfl rfl
    · exact I.goOn (c := ⟨false, .char s 0 flags :: r⟩) (h.advance rfl rfl) rfl rfl
  | spin s flags =>
    dsimp only at hrun
    split at hrun <;> rw [Option.some.injEq] at hrun <;> subst hrun
    · exact I
    · exact I.goOn (c := ⟨false, .testAndSet s flags :: r⟩) (h.advance rfl rfl) rfl rfl
  | char s n flags =>
    dsimp only at hrun
    split at hrun <;> rw [Option.some.injEq] at hrun <;> subst hrun
    · exact I.goOn (c := ⟨false, .release flags :: r⟩) (h.advance rfl rfl) rfl rfl
    · exact I.goOn (c := ⟨false, .putcVga s n flags :: r⟩) (h.advance rfl rfl) rfl rfl
  | putcVga s n flags =>
    rw [Option.some.injEq] at hrun
    subst hrun
    exact I.goOn (c := ⟨false, .serialPutc s n flags :: r⟩) (h.advance rfl rfl) rfl rfl
  | serialPutc s n flags =>
    dsimp only at hrun
    split at hrun <;> rw [Option.some.injEq] at hrun <;> subst hrun
    · exact I
    · exact I.goOn (c := ⟨false, .char s (n + 1) flags :: r⟩) (h.advance rfl rfl) rfl rfl
  | release flags =>
    rw [Option.some.injEq] at hrun
    subst hrun
    exact I.goOn (c := ⟨false, .restore flags :: r⟩) (h.advance rfl rfl) rfl rfl
  | restore saved =>
    obtain rfl : saved = flags := Option.some.inj hf
    rw [Option.some.injEq] at hrun
    subst hrun
    exact I.goOn (c := ⟨if saved then true else false, r⟩) (by simpa using hreturn) rfl rfl
  | _ => simp [Point.flags] at hf

/-- A step of `kprint` or of the exception handler. -/
theorem Terminal.Inv.run (I : t.Inv Q) (hrun : t.run k status = some t') : t'.Inv Q := by
  have hk := I.running k
  generalize hc : t.running k = c at hk
  obtain ⟨i, st⟩ := c
  dsimp only at hk
  cases hk with
  | code => simp [Terminal.run, hc] at hrun
  | handler h => simp [Terminal.run, hc] at hrun
  | entry s hp h =>
    simp only [Terminal.run, hc, Option.some.injEq] at hrun
    subst hrun
    exact I.goOn (.printing rfl hp h) rfl rfl
  | printing hf hp h => exact I.run_printing hc (.printing hf hp h) hf h hrun
  | dispatch reports h =>
    cases reports with
    | nil =>
      simp only [Terminal.run, hc, Option.some.injEq] at hrun
      subst hrun
      exact I.goOn (.halt h) rfl rfl
    | cons s reports =>
      simp only [Terminal.run, hc, Option.some.injEq] at hrun
      subst hrun
      exact I.goOn (.entry s rfl (.dispatch reports h)) rfl rfl
  | halt h =>
    simp only [Terminal.run, hc, Option.some.injEq] at hrun
    subst hrun
    exact I.goOn (.halt h) rfl rfl

/-- The code on top of a stack, when it calls `kprint`, changes IF or switches. -/
theorem Context.of_atOwn {c : Context} (h : c.atOwn = true) :
    ∃ p r, c.stack = p :: r ∧ p.own = true := by
  unfold Context.atOwn at h
  cases hst : c.stack with
  | nil => simp [hst] at h
  | cons p r => exact ⟨p, r, rfl, by simpa [hst] using h⟩

/-- Such code may have IF on or off. -/
theorem Sound.setIf {i : Bool} {p : Point} {r : List Point} (h : Sound Q i (p :: r))
    (hp : p.own = true) (b : Bool) : Sound Q b (p :: r) := by
  cases h with
  | code => exact .code
  | handler h => exact .handler h
  | printing hf _ _ =>
    have hcalls := Point.flags_not_calls hf
    rw [Point.own_calls hp] at hcalls
    cases hcalls
  | _ => simp [Point.own] at hp

/-- **Step lemma.** -/
theorem Terminal.Inv.step [DecidableEq τ] (I : t.Inv Q) {a : Act κ τ}
    (hexception : ∀ k f, a = .exception k f → Q (t.running k).stack)
    (hstep : t.step a = some t') : t'.Inv Q := by
  cases Terminal.moved_of_step hstep with
  | exec hrun => exact I.run hrun
  | @call k s hown =>
    obtain ⟨p, r, hst, hp⟩ := Context.of_atOwn hown
    have hk := I.running k
    rw [hst] at hk
    refine I.goOn ?_ rfl rfl
    dsimp only
    rw [hst]
    exact .entry s (Point.own_calls hp) hk
  | @setIf k b hown =>
    obtain ⟨p, r, hst, hp⟩ := Context.of_atOwn hown
    have hk := I.running k
    rw [hst] at hk
    refine I.goOn ?_ rfl rfl
    dsimp only
    rw [hst]
    exact hk.setIf hp b
  | @interrupt k hif =>
    have hk := I.running k
    rw [hif] at hk
    exact I.goOn (.handler hk) rfl rfl
  | @iret k r hst =>
    have hk := I.running k
    rw [hst] at hk
    generalize (t.running k).ifFlag = i at hk
    cases hk with
    | handler h => exact I.goOn h rfl rfl
    | printing hf _ _ => cases hf
  | @switch k thread hown =>
    have hgo : (t.goOn k (t.parked thread)).Inv Q := I.goOn (I.parked thread) rfl rfl
    refine ⟨hgo.running, fun other => ?_⟩
    by_cases ho : other = thread
    · subst ho
      dsimp only
      rw [Function.update_self]
      exact I.running k
    · dsimp only
      rw [Function.update_of_ne ho]
      exact I.parked other
  | exception k f => exact I.goOn (.dispatch _ (hexception k f rfl)) rfl rfl

end Acts

/-! ## One holder -/

/-- How many points of a stack hold the lock. -/
def held (st : List Point) : Nat := st.countP Point.holding

theorem held_cons {p : Point} {st : List Point} :
    held (p :: st) = held st + if p.holding then 1 else 0 :=
  List.countP_cons

theorem quiet_iff_held {st : List Point} : Quiet st ↔ held st = 0 := by
  simp [Quiet, held, List.countP_eq_zero]

section Exclusion

variable {κ τ : Type} [DecidableEq κ] {Q : List Point → Prop} {t t' : Terminal κ τ} {k : κ}
    {status : UInt8}
  {owner : Option κ}

/-- The lock is in one place, and set while it is in one. -/
structure Terminal.Exclusive (owner : Option κ) (t : Terminal κ τ) : Prop where
  lock : t.printLock = owner.isSome
  running : ∀ k, held (t.running k).stack = if owner = some k then 1 else 0
  parked : ∀ thread, Quiet (t.parked thread).stack

/-- A CPU goes on and holds what it held. -/
theorem Terminal.Exclusive.goOn (X : t.Exclusive owner) {c : Context}
    (hheld : held c.stack = held (t.running k).stack)
    (hrunning : t'.running = Function.update t.running k c) (hparked : t'.parked = t.parked)
    (hlock : t'.printLock = t.printLock) : t'.Exclusive owner := by
  refine ⟨hlock.trans X.lock, fun j => ?_, fun thread => ?_⟩
  · rw [hrunning]
    by_cases hj : j = k
    · subst hj
      rw [Function.update_self, hheld]
      exact X.running j
    · rw [Function.update_of_ne hj]
      exact X.running j
  · rw [hparked]
    exact X.parked thread

/-- A successful test-and-set. -/
theorem Terminal.Exclusive.acquire (X : t.Exclusive owner) (hfree : t.printLock = false)
    {c : Context} (hheld : held c.stack = held (t.running k).stack + 1)
    (hrunning : t'.running = Function.update t.running k c) (hparked : t'.parked = t.parked)
    (hlock : t'.printLock = true) : t'.Exclusive (some k) := by
  have hnone : owner = none := by
    have := X.lock
    cases owner <;> simp_all
  subst hnone
  refine ⟨hlock, fun j => ?_, fun thread => ?_⟩
  · rw [hrunning]
    by_cases hj : j = k
    · subst hj
      rw [Function.update_self, hheld, X.running j]
      simp
    · rw [Function.update_of_ne hj, X.running j]
      simp [Ne.symm hj]
  · rw [hparked]
    exact X.parked thread

/-- A release. -/
theorem Terminal.Exclusive.release (X : t.Exclusive owner) {c : Context}
    (hheld : held c.stack + 1 = held (t.running k).stack)
    (hrunning : t'.running = Function.update t.running k c) (hparked : t'.parked = t.parked)
    (hlock : t'.printLock = false) : t'.Exclusive none := by
  have hk := X.running k
  have howner : owner = some k := by
    by_contra hne
    rw [if_neg hne] at hk
    omega
  subst howner
  rw [if_pos rfl] at hk
  refine ⟨hlock, fun j => ?_, fun thread => ?_⟩
  · rw [hrunning]
    by_cases hj : j = k
    · subst hj
      rw [Function.update_self]
      simp only [reduceCtorEq, if_false]
      omega
    · rw [Function.update_of_ne hj, X.running j]
      simp [Ne.symm hj]
  · rw [hparked]
    exact X.parked thread

/-- A step of `kprint` or of the exception handler. -/
theorem Terminal.Exclusive.run (X : t.Exclusive owner) (hrun : t.run k status = some t') :
    ∃ owner', t'.Exclusive owner' := by
  unfold Terminal.run at hrun
  dsimp only at hrun
  split at hrun
  · rename_i s r hst
    rw [Option.some.injEq] at hrun
    subst hrun
    exact ⟨owner, X.goOn (by simp [hst, held_cons, Point.holding]) rfl rfl rfl⟩
  · rename_i s flags r hst
    split at hrun <;> rw [Option.some.injEq] at hrun <;> subst hrun
    · exact ⟨owner, X.goOn (by simp [hst, held_cons, Point.holding]) rfl rfl rfl⟩
    · rename_i hfree
      exact ⟨some k, X.acquire (by simpa using hfree) (by simp [hst, held_cons, Point.holding])
        rfl rfl rfl⟩
  · rename_i s flags r hst
    split at hrun <;> rw [Option.some.injEq] at hrun <;> subst hrun
    · exact ⟨owner, X⟩
    · exact ⟨owner, X.goOn (by simp [hst, held_cons, Point.holding]) rfl rfl rfl⟩
  · rename_i s n flags r hst
    split at hrun <;> rw [Option.some.injEq] at hrun <;> subst hrun <;>
      exact ⟨owner, X.goOn (by simp [hst, held_cons, Point.holding]) rfl rfl rfl⟩
  · rename_i s n flags r hst
    rw [Option.some.injEq] at hrun
    subst hrun
    exact ⟨owner, X.goOn (by simp [hst, held_cons, Point.holding]) rfl rfl rfl⟩
  · rename_i s n flags r hst
    split at hrun <;> rw [Option.some.injEq] at hrun <;> subst hrun
    · exact ⟨owner, X⟩
    · exact ⟨owner, X.goOn (by simp [hst, held_cons, Point.holding]) rfl rfl rfl⟩
  · rename_i flags r hst
    rw [Option.some.injEq] at hrun
    subst hrun
    exact ⟨none, X.release (by simp [hst, held_cons, Point.holding]) rfl rfl rfl⟩
  · rename_i flags r hst
    rw [Option.some.injEq] at hrun
    subst hrun
    exact ⟨owner, X.goOn (by simp [hst, held_cons, Point.holding]) rfl rfl rfl⟩
  · rename_i s reports r hst
    rw [Option.some.injEq] at hrun
    subst hrun
    exact ⟨owner, X.goOn (by simp [hst, held_cons, Point.holding]) rfl rfl rfl⟩
  · rename_i r hst
    rw [Option.some.injEq] at hrun
    subst hrun
    exact ⟨owner, X.goOn (by simp [hst, held_cons, Point.holding]) rfl rfl rfl⟩
  · rename_i r hst
    rw [Option.some.injEq] at hrun
    subst hrun
    exact ⟨owner, X.goOn (by simp [hst]) rfl rfl rfl⟩
  · cases hrun

/-- **Step lemma.** -/
theorem Terminal.Exclusive.step [DecidableEq τ] (X : t.Exclusive owner) (I : t.Inv Q)
    {a : Act κ τ} (hstep : t.step a = some t') :
    ∃ owner', t'.Exclusive owner' := by
  cases Terminal.moved_of_step hstep with
  | exec hrun => exact X.run hrun
  | call s hown => exact ⟨owner, X.goOn (by simp [held_cons, Point.holding]) rfl rfl rfl⟩
  | @setIf k b hown => exact ⟨owner, X.goOn (c := ⟨b, (t.running k).stack⟩) rfl rfl rfl rfl⟩
  | interrupt hif => exact ⟨owner, X.goOn (by simp [held_cons, Point.holding]) rfl rfl rfl⟩
  | iret hst => exact ⟨owner, X.goOn (by simp [hst, held_cons, Point.holding]) rfl rfl rfl⟩
  | @switch k thread hown =>
    -- neither the thread that leaves nor the one that comes holds the lock
    have hleaves : Quiet (t.running k).stack :=
      (I.running k).quiet (.inr (Context.of_atOwn hown))
    have hheld : held (t.parked thread).stack = held (t.running k).stack := by
      rw [quiet_iff_held.mp hleaves, quiet_iff_held.mp (X.parked thread)]
    have hgo : (t.goOn k (t.parked thread)).Exclusive owner := X.goOn hheld rfl rfl rfl
    refine ⟨owner, hgo.lock, hgo.running, fun other => ?_⟩
    by_cases ho : other = thread
    · subst ho
      dsimp only
      rw [Function.update_self]
      exact hleaves
    · dsimp only
      rw [Function.update_of_ne ho]
      exact X.parked other
  | exception k f => exact ⟨owner, X.goOn (by simp [held_cons, Point.holding]) rfl rfl rfl⟩

theorem Terminal.Exclusive.holds_iff (X : t.Exclusive owner) : Holds t k ↔ owner = some k := by
  rw [← not_iff_not, not_holds_iff, quiet_iff_held, X.running k]
  simp

end Exclusion

/-! ## Every run -/

section Runs

variable {κ τ : Type} [DecidableEq κ] [DecidableEq τ] {ok : Terminal κ τ → Act κ τ → Prop}

/-- In no state that is reached does a CPU wait for a lock that it holds. -/
def NeverSelfSpins (ok : Terminal κ τ → Act κ τ → Prop) : Prop :=
  ∀ t, Reach Terminal.Initial Terminal.step ok t → ∀ k, ¬ SelfSpin t k

/-- No exception comes to a CPU that holds the lock. -/
def SparesHolders (ok : Terminal κ τ → Act κ τ → Prop) : Prop :=
  ∀ t, Reach Terminal.Initial Terminal.step ok t → ∀ k f, ok t (.exception k f) → ¬ Holds t k

/-- **Run lemma.** -/
theorem inv_of_reach {Q : List Point → Prop}
    (hexception : ∀ t, Reach Terminal.Initial Terminal.step ok t →
      ∀ k f, ok t (.exception k f) → Q (t.running k).stack)
    {t : Terminal κ τ} (h : Reach Terminal.Initial Terminal.step ok t) : t.Inv Q := by
  induction h with
  | start hi => exact inv_of_initial hi
  | step hr hok hs ih =>
    refine ih.step (fun k f ha => ?_) hs
    subst ha
    exact hexception _ hr k f hok

/-- **Mutual exclusion.**  Whatever happens in a run: at most one CPU holds the lock, and
`print_lock` is set exactly while one does. -/
theorem print_lock_exclusive {t : Terminal κ τ}
    (h : Reach Terminal.Initial Terminal.step ok t) :
    (∀ j k, Holds t j → Holds t k → j = k) ∧ (t.printLock = true ↔ ∃ k, Holds t k) := by
  have hinv : t.Inv (fun _ => True) ∧ ∃ owner, t.Exclusive owner := by
    refine h.invariant (P := fun t => t.Inv (fun _ => True) ∧ ∃ owner, t.Exclusive owner)
      (fun t hi => ⟨inv_of_initial hi, none, hi.printLock, fun k => ?_, fun thread => ?_⟩)
      (fun t a t' ⟨I, owner, X⟩ _ hstep =>
        ⟨I.step (fun _ _ _ => trivial) hstep, X.step I hstep⟩)
    · rw [hi.running k]
      rfl
    · rw [hi.parked thread]
      simp [Quiet, Point.holding]
  obtain ⟨-, owner, X⟩ := hinv
  refine ⟨fun j k hj hk => ?_, ?_⟩
  · rw [X.holds_iff] at hj hk
    rw [hj] at hk
    exact Option.some.inj hk
  · rw [X.lock, Option.isSome_iff_exists]
    exact exists_congr fun k => X.holds_iff.symm

/-- An exception comes to a CPU that holds the lock: the handler prints, and waits
for the lock. -/
theorem selfSpin_of_exception (hexec : ∀ t k status, ok t (.exec k status))
    {t : Terminal κ τ} {k : κ} {f : ExceptionFrame}
    (h : Reach Terminal.Initial Terminal.step ok t) (hok : ok t (.exception k f))
    (hholds : Holds t k) : ∃ t', Reach Terminal.Initial Terminal.step ok t' ∧
    SelfSpin t' k := by
  obtain ⟨s, reports, hreports⟩ : ∃ s reports, interruptDispatch f = s :: reports := ⟨_, _, rfl⟩
  have hcaught := h.step hok (rfl : t.step (.exception k f) = some _)
  rw [hreports] at hcaught
  have hentered :=
    hcaught.step (hexec _ k 0) (Terminal.run_dispatch (Terminal.goOn_running ..) 0)
  have hwaiting := hentered.step (hexec _ k 0) (Terminal.run_entry (Terminal.goOn_running ..) 0)
  refine ⟨_, hwaiting, ⟨.testAndSet s false, .dispatch reports :: (t.running k).stack, ?_, rfl⟩,
    ?_⟩
  · rw [Terminal.goOn_running]
  · obtain ⟨p, hp, hholding⟩ := hholds
    refine ⟨p, ?_, hholding⟩
    rw [Terminal.goOn_running]
    exact List.mem_cons_of_mem _ (List.mem_cons_of_mem _ hp)

/-- **The console lock and its own CPU.**  Whatever may happen in a run, as long as
CPUs may go on: no CPU ever waits for a lock that it holds if and only if no
exception ever comes to a CPU that holds the lock. -/
theorem print_lock_self_deadlock_iff (ok : Terminal κ τ → Act κ τ → Prop)
    (hexec : ∀ t k status, ok t (.exec k status)) : NeverSelfSpins ok ↔ SparesHolders ok := by
  constructor
  · intro hnever t hreach k f hok hholds
    obtain ⟨t', hreach', hspin⟩ := selfSpin_of_exception hexec hreach hok hholds
    exact hnever t' hreach' k hspin
  · intro hspares t hreach k
    have I : t.Inv Quiet :=
      inv_of_reach (fun t hr k f hok => not_holds_iff.mp (hspares t hr k f hok)) hreach
    exact I.not_selfSpin k

end Runs

/-! ## Two CPUs -/

/-- Two CPUs that print nothing yet, and a thread that waits. -/
def twoCpus : Terminal (Fin 2) Unit :=
  ⟨false, ⟨fun _ => 0, 0, 0⟩, [], fun _ => ⟨true, [.code]⟩, fun _ => ⟨true, [.code]⟩⟩

theorem initial_twoCpus : twoCpus.Initial := ⟨rfl, fun _ => rfl, fun _ => rfl⟩

/-- CPU 0 is about to read the first character of a string. -/
def printing : List (Act (Fin 2) Unit) :=
  [.call 0 (cString (ascii "hello")), .exec 0 0, .exec 0 0]

/-- A page fault. -/
def pageFault : ExceptionFrame := ⟨0, 14, 0, 0, 0x08, 0, fun _ => 0⟩

/-- CPU `k` waits in `print_lock_acquire`, and it holds the lock, as tests. -/
def waitsTest (t : Terminal (Fin 2) Unit) (k : Fin 2) : Bool :=
  (t.running k).stack.head?.any Point.acquiring

def holdsTest (t : Terminal (Fin 2) Unit) (k : Fin 2) : Bool :=
  (t.running k).stack.any Point.holding

theorem holdsTest_spec {t : Terminal (Fin 2) Unit} {k : Fin 2} (h : holdsTest t k = true) :
    Holds t k :=
  List.any_eq_true.mp h

theorem selfSpin_of_tests {t : Terminal (Fin 2) Unit} {k : Fin 2} (hw : waitsTest t k = true)
    (hh : holdsTest t k = true) : SelfSpin t k := by
  refine ⟨?_, holdsTest_spec hh⟩
  unfold waitsTest at hw
  cases hst : (t.running k).stack with
  | nil => simp [hst] at hw
  | cons p r => exact ⟨p, r, rfl, by simpa [hst] using hw⟩

/-- Two CPUs to which exceptions come only while they do not hold the lock. -/
theorem print_lock_self_deadlock_spared :
    NeverSelfSpins (fun (t : Terminal (Fin 2) Unit) a => ∀ k f, a = .exception k f →
      ¬ Holds t k) :=
  (print_lock_self_deadlock_iff _ fun _ _ _ _ _ h => nomatch h).mpr
    fun _ _ k f hok => hok k f rfl

/-- CPU 0 prints, CPU 1 spins, and only CPU 0 holds the lock. -/
theorem print_lock_exclusive_contending :
    ∃ t, exec Terminal.step twoCpus
        (printing ++ [.call 1 (cString (ascii "c")), .exec 1 0, .exec 1 0]) = some t ∧
      t.printLock = true ∧ Holds t 0 ∧ ∀ k, Holds t k → k = 0 := by
  have hrun : (exec Terminal.step twoCpus
      (printing ++ [.call 1 (cString (ascii "c")), .exec 1 0, .exec 1 0])).map
        (fun t => (t.printLock, holdsTest t 0)) = some (true, true) := by
    decide +kernel
  obtain ⟨t, ht, hfacts⟩ := Option.map_eq_some_iff.mp hrun
  obtain ⟨hlock, hholds⟩ := Prod.mk.inj hfacts
  have hreach : Reach Terminal.Initial Terminal.step (fun _ _ => True) t :=
    (Reach.start initial_twoCpus).exec (fun _ _ _ _ _ => trivial) ht
  have hzero := holdsTest_spec hholds
  exact ⟨t, ht, hlock, hzero, fun k hk => (print_lock_exclusive hreach).1 k 0 hk hzero⟩

/-- CPU 0 takes a page fault while it reads `s[i]` in `kprint`, and waits for the
lock that it holds. -/
theorem print_lock_self_deadlock_page_fault :
    (∃ t, exec Terminal.step twoCpus
      (printing ++ [.exception 0 pageFault] ++ List.replicate 3 (.exec 0 0)) = some t ∧
      t.printLock = true ∧ SelfSpin t 0) ∧
    ¬ NeverSelfSpins (fun (_ : Terminal (Fin 2) Unit) _ => True) := by
  have hrun : (exec Terminal.step twoCpus
      (printing ++ [.exception 0 pageFault] ++ List.replicate 3 (.exec 0 0))).map
        (fun t => (t.printLock, waitsTest t 0, holdsTest t 0)) = some (true, true, true) := by
    decide +kernel
  obtain ⟨t, ht, hfacts⟩ := Option.map_eq_some_iff.mp hrun
  simp only [Prod.mk.injEq] at hfacts
  obtain ⟨hlock, hwaits, hholds⟩ := hfacts
  have hspin := selfSpin_of_tests hwaits hholds
  refine ⟨⟨t, ht, hlock, hspin⟩, fun hnever => ?_⟩
  exact hnever t ((Reach.start initial_twoCpus).exec (fun _ _ _ _ _ => trivial) ht) 0 hspin

end NekaKernel.Console
