/-
  Keyboard/Typing.lean --- from the scancodes to the reader.

  Source: `keyboard_handle_irq`, `kbd_buffer_push` and `kbd_buffer_pop` in
  `keyboard.c`.

  The interrupt handler and the reader work on one buffer, the reader access by
  access.  What has been typed is a function of the scancodes alone; the reader gets
  it in this order, all of it unless the buffer was full when a key came, and the
  console shows all of it in any case.
-/
import NekaKernel.Keyboard.Shift

set_option autoImplicit false

namespace NekaKernel.Keyboard

open NekaKernel.Foundation NekaKernel.Console

/-! ## What is typed -/

/-- The flag after a code. -/
def shiftAfter (shift : Bool) (code : UInt8) : Bool :=
  if code ∈ shiftKeys then true else if code ∈ shiftKeys.map breakCode then false else shift

/-- The character of a code. -/
def charOf (shift : Bool) (code : UInt8) : Option UInt8 :=
  if Printable code then some (if shift then scancodeAsciiShift code else scancodeAscii code)
  else none

/-- The flag after a stream. -/
def shiftOf (codes : List UInt8) : Bool := codes.foldl shiftAfter false

/-- The characters of a stream. -/
def typedFrom : Bool → List UInt8 → List UInt8
  | _, [] => []
  | shift, code :: rest => (charOf shift code).toList ++ typedFrom (shiftAfter shift code) rest

def typed (codes : List UInt8) : List UInt8 := typedFrom false codes

/-- The line that the handler prints for a character. -/
def echoed (c : UInt8) : List UInt8 := ascii "[kbd] key: '" ++ [c] ++ ascii "'\n"

section Typed

variable {codes : List UInt8} {code : UInt8} {shift : Bool} {d : Driver}

theorem typedFrom_concat :
    typedFrom shift (codes ++ [code]) =
      typedFrom shift codes ++ (charOf (codes.foldl shiftAfter shift) code).toList := by
  induction codes generalizing shift with
  | nil =>
    rw [List.nil_append, typedFrom, typedFrom, typedFrom, List.append_nil, List.nil_append,
    List.foldl_nil]
  | cons first rest ih =>
    rw [List.cons_append, typedFrom, ih, typedFrom, List.append_assoc, List.foldl_cons]

theorem typed_concat :
    typed (codes ++ [code]) = typed codes ++ (charOf (shiftOf codes) code).toList :=
  typedFrom_concat

theorem shiftOf_concat : shiftOf (codes ++ [code]) = shiftAfter (shiftOf codes) code := by
  rw [shiftOf, List.foldl_append]
  rfl

theorem shiftKey_not_printable (h : ShiftCode code) :
    ¬ Printable code := fun hp => hp.not_shiftCode h

/-- The handler on a code: the flag, and a character to echo or none. -/
theorem keyboardHandleIrq_eq (code : UInt8) (hflag : d.shiftHeld ≠ 0 ↔ shift = true) :
    ∃ flag : Int, (flag ≠ 0 ↔ shiftAfter shift code = true) ∧
      keyboardHandleIrq d code =
        match charOf shift code with
        | some c => { d.echo c with shiftHeld := flag }
        | none => { d with shiftHeld := flag } := by
  by_cases hmake : code ∈ shiftKeys
  · have hnone : charOf shift code = none :=
      if_neg (shiftKey_not_printable ⟨code, hmake, .inl rfl⟩)
    refine ⟨1, by simp [shiftAfter, hmake], ?_⟩
    rw [hnone, keyboardHandleIrq_make hmake]
  · by_cases hbreak : code ∈ shiftKeys.map breakCode
    · obtain ⟨key, hkey, rfl⟩ := List.mem_map.mp hbreak
      have hnone : charOf shift (breakCode key) = none :=
        if_neg (shiftKey_not_printable ⟨key, hkey, .inr rfl⟩)
      refine ⟨0, by rw [shiftAfter, if_neg hmake, if_pos hbreak]; simp, ?_⟩
      rw [hnone, keyboardHandleIrq_break hkey]
    · have hafter : shiftAfter shift code = shift := by
        rw [shiftAfter, if_neg hmake, if_neg hbreak]
      have hother : ¬ ShiftCode code := by
        rintro ⟨key, hkey, rfl | rfl⟩
        · exact hmake hkey
        · exact hbreak (List.mem_map_of_mem hkey)
      refine ⟨d.shiftHeld, by rw [hafter]; exact hflag, ?_⟩
      by_cases hp : Printable code
      · have htable : d.table = if shift = true then scancodeAsciiShift else scancodeAscii := by
          unfold Driver.table
          by_cases hs : shift = true
          · rw [if_pos (hflag.mpr hs), if_pos hs]
          · rw [if_neg (mt hflag.mp hs), if_neg hs]
        rw [charOf, if_pos hp, keyboardHandleIrq_printable hp, htable]
        cases shift <;> rfl
      · rw [charOf, if_neg hp]
        rw [shiftCode_iff, not_or] at hother
        unfold keyboardHandleIrq
        rw [if_neg hother.1, if_neg hother.2]
        split
        · rfl
        · rename_i hbit
          have hzero : d.table code = 0 := by
            have hascii : scancodeAscii code = 0 := by
              by_contra hne
              exact hp ⟨not_not.mp hbit, hne⟩
            unfold Driver.table
            split
            · exact (tables_agree code).mpr hascii
            · exact hascii
          dsimp only
          rw [if_neg (not_not_intro hzero)]

end Typed

/-! ## The handler and the reader -/

/-- The driver with a reader that stands in `kbd_buffer_pop`. -/
structure Session where
  driver : Driver
  pc : PopPc
  popped : List UInt8

/-- What can happen next. -/
inductive Key where
  /-- The interrupt of a scancode. -/
  | irq (code : UInt8)
  /-- The reader makes its next access. -/
  | read
  deriving DecidableEq, Repr

def Session.step (s : Session) : Key → Session
  | .irq code => { s with driver := keyboardHandleIrq s.driver code }
  | .read =>
      let r := KbdRun.popStep ⟨s.driver.kbd, s.pc, [], s.popped⟩
      ⟨{ s.driver with kbd := r.kbd }, r.pc, r.popped⟩

/-- The session after the events from boot. -/
def Session.run (events : List Key) : Session := events.foldl Session.step ⟨.boot, .idle, []⟩

/-- The scancodes of the events. -/
def codesOf (events : List Key) : List UInt8 :=
  events.filterMap fun
    | .irq code => some code
    | .read => none

/-- What the reader has got and what waits for it. -/
def Session.received (s : Session) : List UInt8 := s.popped ++ s.driver.kbd.unread

/-- **The invariant.** -/
structure Session.Inv (s : Session) (codes : List UInt8) : Prop where
  buffer : KbdRun.Inv ⟨s.driver.kbd, s.pc, s.received, s.popped⟩
  flag : s.driver.shiftHeld ≠ 0 ↔ shiftOf codes = true
  console : s.driver.console = (typed codes).flatMap echoed
  sublist : s.received.Sublist (typed codes)

section Session

variable {s : Session} {codes : List UInt8} {code c : UInt8} {events : List Key}

theorem Kbd.InRange.unread_lt {k : Kbd} (R : k.InRange) : k.unread.length < kbdBufSize := by
  unfold Kbd.unread
  rw [window_length]
  exact occupied_lt k.tail R.head

/-- A character that the handler finds. -/
theorem Session.Inv.push (I : s.Inv codes) (hchar : charOf (shiftOf codes) code = some c) :
    (s.step (.irq code)).Inv (codes ++ [code]) ∧
      (s.step (.irq code)).received = if s.driver.kbd.unread.length = 255 then s.received
        else s.received ++ [c] := by
  obtain ⟨flag, hflag, hirq⟩ := keyboardHandleIrq_eq code I.flag
  rw [hchar] at hirq
  have hstep : s.step (.irq code) = { s with
      driver := { s.driver.echo c with shiftHeld := flag } } := by
    rw [Session.step, hirq]
  have hreceived : (s.step (.irq code)).received =
      if s.driver.kbd.unread.length = 255 then s.received else s.received ++ [c] := by
    rw [hstep]
    unfold Session.received Driver.echo
    dsimp only
    have hrefused := I.buffer.range.push_refused c
    dsimp only at hrefused
    by_cases hfull : (s.driver.kbd.head + 1) % kbdBufSize = s.driver.kbd.tail
    · rw [if_pos (hrefused.mp (by rw [kbdBufferPush_refused hfull])),
        kbdBufferPush_refused hfull]
    · have hroom : ¬ s.driver.kbd.unread.length = 255 := fun h => by
        have hfalse := hrefused.mpr h
        rw [kbdBufferPush_taken hfull] at hfalse
        cases hfalse
      rw [if_neg hroom, kbdBufferPush_taken hfull]
      dsimp only
      rw [I.buffer.range.unread_push hfull, List.append_assoc]
  have hpush := I.buffer.push c
  have hsub : (s.step (.irq code)).received.Sublist (typed (codes ++ [code])) := by
    rw [hreceived, typed_concat, hchar]
    split
    · exact I.sublist.trans (List.sublist_append_left _ _)
    · exact I.sublist.append (List.Sublist.refl _)
  refine ⟨⟨?_, ?_, ?_, hsub⟩, hreceived⟩
  · have hkbd : (s.step (.irq code)).driver.kbd = (kbdBufferPush s.driver.kbd c).2 := by
      rw [hstep]
      rfl
    have hpc : (s.step (.irq code)).pc = s.pc := rfl
    have hpopped : (s.step (.irq code)).popped = s.popped := rfl
    refine ⟨?_, rfl, ?_⟩
    · rw [hkbd]
      exact hpush.range
    · rw [hkbd, hpc]
      exact hpush.pc
  · rw [hstep, shiftOf_concat]
    exact hflag
  · rw [hstep, typed_concat, hchar, List.flatMap_append, ← I.console]
    simp [Driver.echo, echoed]

/-- A code without a character. -/
theorem Session.Inv.silent (I : s.Inv codes) (hchar : charOf (shiftOf codes) code = none) :
    (s.step (.irq code)).Inv (codes ++ [code]) ∧
      (s.step (.irq code)).received = s.received := by
  obtain ⟨flag, hflag, hirq⟩ := keyboardHandleIrq_eq code I.flag
  rw [hchar] at hirq
  have hstep : s.step (.irq code) = { s with
      driver := { s.driver with shiftHeld := flag } } := by
    rw [Session.step, hirq]
  rw [hstep]
  refine ⟨⟨I.buffer, ?_, ?_, ?_⟩, rfl⟩
  · rw [shiftOf_concat]
    exact hflag
  · rw [typed_concat, hchar, Option.toList_none, List.append_nil]
    exact I.console
  · rw [typed_concat, hchar, Option.toList_none, List.append_nil]
    exact I.sublist

/-- The reader neither loses nor invents a character. -/
theorem Session.Inv.read (I : s.Inv codes) :
    (s.step .read).Inv codes ∧ (s.step .read).received = s.received := by
  have hpop := I.buffer.popStep
  have hsame : ∀ accepted, (KbdRun.popStep ⟨s.driver.kbd, s.pc, accepted, s.popped⟩).kbd =
    (s.step .read).driver.kbd ∧
      (KbdRun.popStep ⟨s.driver.kbd, s.pc, accepted, s.popped⟩).pc = (s.step .read).pc ∧
      (KbdRun.popStep ⟨s.driver.kbd, s.pc, accepted, s.popped⟩).popped = (s.step .read).popped ∧
      (KbdRun.popStep ⟨s.driver.kbd, s.pc, accepted, s.popped⟩).accepted = accepted := by
    intro accepted
    unfold Session.step KbdRun.popStep
    cases s.pc <;> exact ⟨rfl, rfl, rfl, rfl⟩
  obtain ⟨hkbd, hpc, hpopped, haccepted⟩ := hsame s.received
  have hlog := hpop.log
  rw [haccepted, hkbd, hpopped] at hlog
  have hreceived : (s.step .read).received = s.received := hlog.symm
  refine ⟨⟨⟨?_, rfl, ?_⟩, I.flag, I.console, hreceived ▸ I.sublist⟩, hreceived⟩
  · rw [← hkbd]
    exact hpop.range
  · rw [← hkbd, ← hpc]
    exact hpop.pc

theorem Session.run_concat (e : Key) :
    Session.run (events ++ [e]) = (Session.run events).step e := by
  simp [Session.run]

theorem codesOf_irq : codesOf (events ++ [.irq code]) = codesOf events ++ [code] := by
  simp [codesOf]

theorem codesOf_read : codesOf (events ++ [.read]) = codesOf events := by simp [codesOf]

theorem Session.inv_run (events : List Key) : (Session.run events).Inv (codesOf events) := by
  induction events using List.reverseRecOn with
  | nil =>
    refine ⟨KbdRun.inv_run [], ?_, rfl, List.Sublist.refl _⟩
    simp [Session.run, Driver.boot, shiftOf, codesOf]
  | append_singleton events e ih =>
    rw [Session.run_concat]
    cases e with
    | irq code =>
      rw [codesOf_irq]
      cases hchar : charOf (shiftOf (codesOf events)) code with
      | none => exact (ih.silent hchar).1
      | some c => exact (ih.push hchar).1
    | read =>
      rw [codesOf_read]
      exact ih.read.1

/-! ## What arrives -/

/-- Whenever a character was typed, the reader was less than 255 characters behind. -/
def KeptUp (events : List Key) : Prop :=
  ∀ before code after, events = before ++ .irq code :: after →
    charOf (shiftOf (codesOf before)) code ≠ none →
      (typed (codesOf before)).length < (Session.run before).popped.length + 255

/-- The last event is the only new one. -/
theorem keptUp_concat (e : Key) :
    KeptUp (events ++ [e]) ↔ KeptUp events ∧ ∀ code, e = .irq code →
      charOf (shiftOf (codesOf events)) code ≠ none →
        (typed (codesOf events)).length < (Session.run events).popped.length + 255 := by
  constructor
  · intro h
    refine ⟨fun before code after heq hchar => h before code (after ++ [e]) ?_ hchar,
      fun code he hchar => ?_⟩
    · rw [heq, List.append_assoc, List.cons_append]
    · exact h events code [] (by rw [he]) hchar
  · rintro ⟨hold, hlast⟩ before code after heq hchar
    rcases List.eq_nil_or_concat after with rfl | ⟨after', last, rfl⟩
    · obtain ⟨rfl, he⟩ := List.append_inj' heq rfl
      exact hlast code (List.cons.inj he).1 hchar
    · refine hold before code after' ?_ hchar
      rw [List.concat_eq_append, ← List.cons_append, ← List.append_assoc] at heq
      exact (List.append_inj' heq rfl).1

/-- **From the keys to the reader.**  Whatever scancodes come and wherever the reader
stands when they come: the console shows every character that was typed; what the
reader has got, followed by what waits in the buffer, is some of them in their order;
and it is all of them if and only if the reader was never 255 characters behind when
one was typed. -/
theorem typed_arrives (events : List Key) :
    (Session.run events).driver.console = (typed (codesOf events)).flatMap echoed ∧
    ((Session.run events).popped ++ (Session.run events).driver.kbd.unread).Sublist
      (typed (codesOf events)) ∧
    ((Session.run events).popped ++ (Session.run events).driver.kbd.unread =
      typed (codesOf events) ↔ KeptUp events) := by
  have I := Session.inv_run events
  refine ⟨I.console, I.sublist, ?_⟩
  change (Session.run events).received = _ ↔ _
  clear I
  induction events using List.reverseRecOn with
  | nil => exact ⟨fun _ before code after heq => by simp at heq, fun _ => rfl⟩
  | append_singleton events e ih =>
    have I := Session.inv_run events
    rw [Session.run_concat, keptUp_concat, ← ih]
    cases e with
    | read =>
      rw [codesOf_read, I.read.2]
      exact ⟨fun h => ⟨h, fun code he => by cases he⟩, fun h => h.1⟩
    | irq code =>
      rw [codesOf_irq, typed_concat]
      have hbehind : (Session.run events).received.length =
          (Session.run events).popped.length + (Session.run events).driver.kbd.unread.length :=
            List.length_append
      cases hchar : charOf (shiftOf (codesOf events)) code with
      | none =>
        rw [(I.silent hchar).2, Option.toList_none, List.append_nil]
        refine ⟨fun h => ⟨h, fun code' he hne => ?_⟩, fun h => h.1⟩
        cases he
        exact absurd hchar hne
      | some c =>
        rw [(I.push hchar).2, Option.toList_some]
        split
        · -- the buffer is full and the character is lost
          rename_i hfull
          constructor
          · intro h
            have hlen := I.sublist.length_le
            rw [h, List.length_append] at hlen
            exact absurd hlen (Nat.not_succ_le_self _)
          · rintro ⟨hsame, hroom⟩
            have hlt := hroom code rfl (by simp [hchar])
            rw [← hsame, hbehind, hfull] at hlt
            exact absurd hlt (Nat.lt_irrefl _)
        · rename_i hroom
          have hlt : (Session.run events).driver.kbd.unread.length < 256 :=
            I.buffer.range.unread_lt
          constructor
          · intro h
            have hsame := List.append_cancel_right h
            refine ⟨hsame, fun _ _ _ => ?_⟩
            rw [← hsame, hbehind]
            omega
          · rintro ⟨hsame, -⟩
            rw [hsame]

end Session

end NekaKernel.Keyboard
