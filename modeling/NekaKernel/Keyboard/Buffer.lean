/-
  Keyboard/Buffer.lean --- the buffer between the keyboard interrupt and its reader.

  Source: `kbd_buffer_push` and `kbd_buffer_pop` in `keyboard.c`.

  `kbd_buffer_push` runs in the interrupt handler of IRQ 1, on the CPU whose code
  it interrupts, so a push is one step.  `kbd_buffer_pop` can be interrupted between
  any two of its accesses to `kbd_head`, `kbd_tail` and `kbd_buffer[]`; it is given
  access by access.  The two index variables are `volatile`, so each of their uses
  in the source is an access of its own.
-/
import NekaKernel.Foundation.Fifo

set_option autoImplicit false

namespace NekaKernel.Keyboard

open NekaKernel.Foundation

/-! ## The functions -/

/-- `KBD_BUF_SIZE`. -/
def kbdBufSize : Nat := 256

/-- `kbd_buffer[]`, `kbd_head` and `kbd_tail`. -/
structure Kbd where
  buffer : Nat → UInt8
  head : Nat
  tail : Nat

/-- The statics at boot. -/
def Kbd.boot : Kbd := ⟨fun _ => 0, 0, 0⟩

/-- `kbd_buffer_push`, and whether it came as far as storing the character. -/
def kbdBufferPush (k : Kbd) (c : UInt8) : Bool × Kbd :=
  let next := (k.head + 1) % kbdBufSize
  if next = k.tail then (false, k)
  else (true, { k with buffer := Function.update k.buffer k.head c, head := next })

/-- `kbd_buffer_pop`, when nothing interrupts it; `none` is a return of 0. -/
def kbdBufferPop (k : Kbd) : Option UInt8 × Kbd :=
  if k.tail = k.head then (none, k)
  else (some (k.buffer k.tail), { k with tail := (k.tail + 1) % kbdBufSize })

/-- Where the reader stands in `kbd_buffer_pop`. -/
inductive PopPc where
  /-- Not in the function. -/
  | idle
  /-- `kbd_tail` is loaded for the test. -/
  | tested (tail : Nat)
  /-- The test has found a character. -/
  | nonEmpty
  /-- `kbd_tail` is loaded for the index into the buffer. -/
  | indexed (tail : Nat)
  /-- `*out` is stored. -/
  | stored (c : UInt8)
  /-- `kbd_tail` is loaded for the update. -/
  | advancing (c : UInt8) (tail : Nat)
  deriving DecidableEq, Repr

/-- The buffer with its reader, the characters pushes have stored and those pops
have returned. -/
structure KbdRun where
  kbd : Kbd
  pc : PopPc
  accepted : List UInt8
  popped : List UInt8

/-- What can happen next. -/
inductive Event where
  /-- The interrupt handler pushes a character. -/
  | push (c : UInt8)
  /-- The reader makes its next access. -/
  | pop
  deriving DecidableEq, Repr

/-- The reader's next access. -/
def KbdRun.popStep (r : KbdRun) : KbdRun :=
  match r.pc with
  | .idle => { r with pc := .tested r.kbd.tail }
  | .tested tail => { r with pc := if tail = r.kbd.head then .idle else .nonEmpty }
  | .nonEmpty => { r with pc := .indexed r.kbd.tail }
  | .indexed tail => { r with pc := .stored (r.kbd.buffer tail) }
  | .stored c => { r with pc := .advancing c r.kbd.tail }
  | .advancing c tail =>
      { r with
        kbd := { r.kbd with tail := (tail + 1) % kbdBufSize }
        pc := .idle
        popped := r.popped ++ [c] }

/-- One event. -/
def KbdRun.step (r : KbdRun) : Event → KbdRun
  | .push c =>
      let (taken, kbd) := kbdBufferPush r.kbd c
      { r with kbd := kbd, accepted := if taken then r.accepted ++ [c] else r.accepted }
  | .pop => r.popStep

/-- The run of the events from boot. -/
def KbdRun.run (events : List Event) : KbdRun := events.foldl KbdRun.step ⟨.boot, .idle, [], []⟩

/-! ## The queue in the buffer -/

/-- The characters in the buffer that no pop has taken, the oldest first. -/
def Kbd.unread (k : Kbd) : List UInt8 :=
  window k.buffer kbdBufSize k.tail (occupied kbdBufSize k.head k.tail)

/-- The indices are cells of the buffer. -/
structure Kbd.InRange (k : Kbd) : Prop where
  head : k.head < kbdBufSize
  tail : k.tail < kbdBufSize

/-- What the reader has loaded is still so. -/
def PopPc.UpToDate (k : Kbd) : PopPc → Prop
  | .idle => True
  | .tested tail => tail = k.tail
  | .nonEmpty => k.tail ≠ k.head
  | .indexed tail => tail = k.tail ∧ k.tail ≠ k.head
  | .stored c => c = k.buffer k.tail ∧ k.tail ≠ k.head
  | .advancing c tail => tail = k.tail ∧ c = k.buffer k.tail ∧ k.tail ≠ k.head

/-- **The invariant.**  The stored characters are those returned, followed by those
in the buffer. -/
structure KbdRun.Inv (r : KbdRun) : Prop where
  range : r.kbd.InRange
  log : r.accepted = r.popped ++ r.kbd.unread
  pc : r.pc.UpToDate r.kbd

section Queue

variable {k : Kbd} {c : UInt8} {r : KbdRun}

theorem Kbd.InRange.unread_nil (R : k.InRange) : k.unread = [] ↔ k.tail = k.head := by
  rw [← occupied_eq_zero R.head R.tail, ← List.length_eq_zero_iff]
  simp [Kbd.unread]

/-- What is in the buffer, when there is something, starts at `kbd_tail`. -/
theorem Kbd.InRange.unread_cons (R : k.InRange) (hne : k.tail ≠ k.head) :
    k.unread = k.buffer k.tail :: { k with tail := (k.tail + 1) % kbdBufSize }.unread := by
  unfold Kbd.unread
  rw [occupied_pop R.head R.tail hne, window_pop, Nat.mod_eq_of_lt R.tail]

/-- A push is refused exactly when 255 characters are in the buffer. -/
theorem Kbd.InRange.push_refused (R : k.InRange) (c : UInt8) :
    (kbdBufferPush k c).1 = false ↔ k.unread.length = 255 := by
  have hfull : (k.head + 1) % kbdBufSize = k.tail ↔ k.unread.length = 255 := by
    rw [← occupied_full R.head R.tail]
    simp [Kbd.unread, kbdBufSize]
  unfold kbdBufferPush
  by_cases h : (k.head + 1) % kbdBufSize = k.tail
  · simp [h, hfull.mp h]
  · simp [h, mt hfull.mpr h]

theorem kbdBufferPush_refused (h : (k.head + 1) % kbdBufSize = k.tail) :
    kbdBufferPush k c = (false, k) := by
  unfold kbdBufferPush
  exact if_pos h

theorem kbdBufferPush_taken (h : (k.head + 1) % kbdBufSize ≠ k.tail) :
    kbdBufferPush k c =
      (true, { k with
        buffer := Function.update k.buffer k.head c, head := (k.head + 1) % kbdBufSize }) := by
  unfold kbdBufferPush
  exact if_neg h

/-- A push that is not refused appends its character. -/
theorem Kbd.InRange.unread_push (R : k.InRange) (hroom : (k.head + 1) % kbdBufSize ≠ k.tail) :
    { k with
      buffer := Function.update k.buffer k.head c, head := (k.head + 1) % kbdBufSize }.unread =
      k.unread ++ [c] := by
  have hlt : occupied kbdBufSize k.head k.tail < kbdBufSize := occupied_lt k.tail R.head
  have hcell : (k.tail + occupied kbdBufSize k.head k.tail) % kbdBufSize = k.head :=
    tail_add_occupied R.head R.tail
  unfold Kbd.unread
  dsimp only
  rw [occupied_push R.head R.tail hroom, ← window_push hlt c, hcell]

/-- A push into a free cell touches nothing the reader has loaded. -/
theorem PopPc.UpToDate.push {pc : PopPc} (h : pc.UpToDate k)
    (hroom : (k.head + 1) % kbdBufSize ≠ k.tail) :
    pc.UpToDate { k with
      buffer := Function.update k.buffer k.head c, head := (k.head + 1) % kbdBufSize } := by
  cases pc with
  | idle => trivial
  | tested tail => exact h
  | nonEmpty => exact hroom.symm
  | indexed tail => exact ⟨h.1, hroom.symm⟩
  | stored d =>
    refine ⟨?_, hroom.symm⟩
    rw [h.1]
    exact (Function.update_of_ne h.2 _ _).symm
  | advancing d tail =>
    refine ⟨h.1, ?_, hroom.symm⟩
    rw [h.2.1]
    exact (Function.update_of_ne h.2.2 _ _).symm

theorem KbdRun.Inv.push (I : r.Inv) (c : UInt8) : (r.step (.push c)).Inv := by
  unfold KbdRun.step
  dsimp only
  by_cases h : (r.kbd.head + 1) % kbdBufSize = r.kbd.tail
  · rw [kbdBufferPush_refused h]
    exact ⟨I.range, I.log, I.pc⟩
  · rw [kbdBufferPush_taken h]
    refine ⟨⟨Nat.mod_lt _ (by decide), I.range.tail⟩, ?_, I.pc.push h⟩
    dsimp only
    rw [I.range.unread_push h, if_pos rfl, I.log, List.append_assoc]

theorem KbdRun.Inv.popStep (I : r.Inv) : r.popStep.Inv := by
  unfold KbdRun.popStep
  have hpc := I.pc
  cases h : r.pc with
  | idle => exact ⟨I.range, I.log, rfl⟩
  | tested tail =>
    rw [h] at hpc
    refine ⟨I.range, I.log, ?_⟩
    dsimp only
    split
    · trivial
    · rename_i hne
      exact fun heq => hne (Eq.trans hpc heq)
  | nonEmpty =>
    rw [h] at hpc
    exact ⟨I.range, I.log, rfl, hpc⟩
  | indexed tail =>
    rw [h] at hpc
    refine ⟨I.range, I.log, ?_, hpc.2⟩
    rw [hpc.1]
  | stored c =>
    rw [h] at hpc
    exact ⟨I.range, I.log, rfl, hpc⟩
  | advancing c tail =>
    rw [h] at hpc
    obtain ⟨rfl, rfl, hne⟩ := hpc
    refine ⟨⟨I.range.head, Nat.mod_lt _ (by decide)⟩, ?_, trivial⟩
    dsimp only
    rw [I.log, I.range.unread_cons hne, List.append_assoc, List.singleton_append]

theorem KbdRun.inv_run (events : List Event) : (KbdRun.run events).Inv := by
  have hstep : ∀ (events : List Event) (r : KbdRun), r.Inv →
      (events.foldl KbdRun.step r).Inv := by
    intro events
    induction events with
    | nil =>
      intro r I
      exact I
    | cons e events ih =>
      intro r I
      cases e with
      | push c => exact ih _ (I.push c)
      | pop => exact ih _ I.popStep
  refine hstep events _ ⟨⟨by decide, by decide⟩, ?_, trivial⟩
  rfl

end Queue

/-! ## What pops return -/

/-- An uninterrupted call of `kbd_buffer_pop` is its accesses in a row: two when
the buffer is empty, six otherwise. -/
theorem popStep_uninterrupted (r : KbdRun) (hpc : r.pc = .idle) :
    ∃ n, n ≤ 6 ∧ KbdRun.popStep^[n] r =
      { r with
        kbd := (kbdBufferPop r.kbd).2
        popped := r.popped ++ (kbdBufferPop r.kbd).1.toList } := by
  obtain ⟨kbd, pc, accepted, popped⟩ := r
  obtain rfl : pc = .idle := hpc
  unfold kbdBufferPop
  by_cases h : kbd.tail = kbd.head
  · refine ⟨2, by decide, ?_⟩
    simp [KbdRun.popStep, h]
  · refine ⟨6, by decide, ?_⟩
    simp [KbdRun.popStep, h]

/-- How many accesses of the reader, at most, are left to the end of a call. -/
def PopPc.left : PopPc → Nat
  | .idle => 6
  | .tested _ => 5
  | .nonEmpty => 4
  | .indexed _ => 3
  | .stored _ => 2
  | .advancing _ _ => 1

theorem PopPc.left_le (pc : PopPc) : pc.left ≤ 6 := by
  cases pc <;> simp [PopPc.left]

/-- Every access ends the call or leaves fewer to make. -/
theorem popStep_left (r : KbdRun) :
    r.popStep.pc = .idle ∨ r.popStep.pc.left + 1 ≤ r.pc.left := by
  unfold KbdRun.popStep
  cases r.pc with
  | tested tail =>
    dsimp only
    split
    · exact .inl rfl
    · exact .inr (Nat.le_refl 5)
  | advancing c tail => exact .inl rfl
  | _ => exact .inr (Nat.le_refl _)

/-- A call ends, whatever the handler pushes in between. -/
theorem pop_ends (more : List Event) :
    ∀ r : KbdRun, r.pc.left ≤ more.count .pop →
      ∃ done, done <+: more ∧ Event.pop ∈ done ∧ (done.foldl KbdRun.step r).pc = .idle := by
  induction more with
  | nil =>
    intro r hleft
    cases h : r.pc <;> rw [h] at hleft <;> simp [PopPc.left] at hleft
  | cons e more ih =>
    intro r hleft
    cases e with
    | push c =>
      have hsame : (r.step (.push c)).pc.left ≤ more.count .pop := by
        rwa [List.count_cons_of_ne Event.noConfusion] at hleft
      obtain ⟨done, hprefix, hpop, hidle⟩ := ih _ hsame
      exact ⟨.push c :: done, List.cons_prefix_cons.mpr ⟨rfl, hprefix⟩,
        List.mem_cons_of_mem _ hpop, hidle⟩
    | pop =>
      rw [List.count_cons_self] at hleft
      rcases popStep_left r with hidle | hless
      · exact ⟨[.pop], ⟨more, rfl⟩, List.mem_singleton.mpr rfl, hidle⟩
      · obtain ⟨done, hprefix, -, hidle⟩ :=
          ih (r.step .pop) (Nat.le_of_succ_le_succ (hless.trans hleft))
        exact ⟨.pop :: done, List.cons_prefix_cons.mpr ⟨rfl, hprefix⟩,
          List.mem_cons_self, hidle⟩

/-- **A lossless bounded queue.**  After any pushes and any accesses of the reader,
in any order, the indices are in range; the characters stored are those returned,
in this order, followed by those in the buffer, of which the next pop returns the
first; and a push is refused exactly when 255 of them are there.  A pop that is not
interrupted does what `kbd_buffer_pop` does, and every pop ends within six accesses
of the reader, whatever is pushed in between. -/
theorem kbd_buffer_fifo (events : List Event) :
    (KbdRun.run events).kbd.head ≤ 255 ∧ (KbdRun.run events).kbd.tail ≤ 255 ∧
    (KbdRun.run events).accepted =
      (KbdRun.run events).popped ++ (KbdRun.run events).kbd.unread ∧
    (kbdBufferPop (KbdRun.run events).kbd).1 = (KbdRun.run events).kbd.unread.head? ∧
    (∀ c, (kbdBufferPush (KbdRun.run events).kbd c).1 = false ↔
      (KbdRun.run events).accepted.length = (KbdRun.run events).popped.length + 255) ∧
    ((KbdRun.run events).pc = .idle → ∃ n, n ≤ 6 ∧ KbdRun.popStep^[n] (KbdRun.run events) =
      { KbdRun.run events with
        kbd := (kbdBufferPop (KbdRun.run events).kbd).2
        popped := (KbdRun.run events).popped ++
          (kbdBufferPop (KbdRun.run events).kbd).1.toList }) ∧
    ∀ more : List Event, 6 ≤ more.count .pop →
      ∃ done, done <+: more ∧ .pop ∈ done ∧ (KbdRun.run (events ++ done)).pc = .idle := by
  have I := KbdRun.inv_run events
  refine ⟨Nat.le_of_lt_succ I.range.head, Nat.le_of_lt_succ I.range.tail, I.log, ?_,
    fun c => ?_, popStep_uninterrupted _, fun more hmore => ?_⟩
  · unfold kbdBufferPop
    by_cases h : (KbdRun.run events).kbd.tail = (KbdRun.run events).kbd.head
    · rw [if_pos h, I.range.unread_nil.mpr h]
      rfl
    · rw [if_neg h, I.range.unread_cons h]
      rfl
  · rw [I.range.push_refused c, I.log, List.length_append]
    omega
  · obtain ⟨done, hprefix, hpop, hidle⟩ :=
      pop_ends more (KbdRun.run events) (Nat.le_trans (KbdRun.run events).pc.left_le hmore)
    refine ⟨done, hprefix, hpop, ?_⟩
    rwa [KbdRun.run, List.foldl_append]

end NekaKernel.Keyboard
