/-
  Console/Transcript.lean --- what several CPUs have printed.

  Source: `kprint` in `terminal64.c` and the exception branch of `interrupt_dispatch`
  in `idt.c`, with the machine of `Console/Machine.lean`.

  `print_lock` is there so that lines of different CPUs do not mix character by
  character.  The strings come out whole and in the order in which they got the lock,
  on the serial port and on the screen alike, and the last one as far as it has got;
  an exception in the middle of a string stops it there for good.
-/
import Mathlib.Data.List.Forall2
import NekaKernel.Console.PrintLock

set_option autoImplicit false

namespace NekaKernel.Console

open NekaKernel.Foundation

/-! ## Strings -/

/-- The first `n` characters of a string. -/
def chars (s : CString) (n : Nat) : List UInt8 := (List.range n).map s

/-- The characters of a whole string. -/
def IsText (s : CString) (text : List UInt8) : Prop :=
  ∃ n, (∀ i < n, s i ≠ 0) ∧ s n = 0 ∧ text = chars s n

theorem chars_succ (s : CString) (n : Nat) : chars s (n + 1) = chars s n ++ [s n] := by
  unfold chars
  rw [List.range_succ, List.map_append]
  rfl

section Transcripts

variable {κ τ : Type}

/-- The string that an act starts to print: its test-and-set finds the lock free. -/
def Terminal.opened (t : Terminal κ τ) : Act κ τ → List CString
  | .exec k _ =>
      match (t.running k).stack with
      | .testAndSet s _ :: _ => if t.printLock then [] else [s]
      | _ => []
  | _ => []

/-- The strings of a run, in the order in which they got the lock. -/
def lockOrder [DecidableEq κ] [DecidableEq τ] : Terminal κ τ → List (Act κ τ) → List CString
  | _, [] => []
  | t, a :: rest => t.opened a ++ ((t.step a).map fun t' => lockOrder t' rest).getD []

/-- Since `start` these bytes have come out on the two devices. -/
structure Written (start t : Terminal κ τ) (onSerial onScreen : List UInt8) : Prop where
  serial : t.serial = start.serial ++ onSerial
  screen : t.screen = onScreen.foldl putcVga start.screen

/-- How far the holder of the lock is with a string: so many characters are on the
serial port, and so many on the screen. -/
def Point.At (s : CString) (onSerial onScreen : Nat) : Point → Prop
  | .char s' n _ => s' = s ∧ onSerial = n ∧ onScreen = n
  | .putcVga s' n _ => s' = s ∧ s n ≠ 0 ∧ onSerial = n ∧ onScreen = n
  | .serialPutc s' n _ => s' = s ∧ s n ≠ 0 ∧ onSerial = n ∧ onScreen = n + 1
  | .release _ => s onSerial = 0 ∧ onScreen = onSerial
  | _ => False

/-- The CPUs' points between `print_lock_acquire` and the release. -/
def Terminal.holders (t : Terminal κ τ) (p : Point) : Prop :=
  ∃ k, p ∈ (t.running k).stack ∧ p.holding = true

/-- **The invariant**: whole strings, and the one of the holder. -/
inductive Transcript (start : Terminal κ τ) : List CString → Terminal κ τ → Prop
  | free {strings : List CString} {t : Terminal κ τ} (texts : List (List UInt8))
      (hlock : t.printLock = false)
      (htexts : List.Forall₂ IsText strings texts)
      (hout : Written start t texts.flatten texts.flatten) :
      Transcript start strings t
  | taken {t : Terminal κ τ} (whole : List CString) (s : CString)
      (texts : List (List UInt8)) (m n : Nat)
      (hlock : t.printLock = true) (htexts : List.Forall₂ IsText whole texts)
      (hchars : ∀ i < n, s i ≠ 0)
      (hout : Written start t (texts.flatten ++ chars s m) (texts.flatten ++ chars s n))
      (hat : ∀ p, t.holders p → p.At s m n) (hnear : n = m ∨ n = m + 1 ∧ s m ≠ 0) :
      Transcript start (whole ++ [s]) t

end Transcripts

/-! ## One act -/

section Acts

variable {κ τ : Type} {start t t' : Terminal κ τ} {k : κ} {strings : List CString}
  {status : UInt8} {i flags : Bool} {f g : Point} {r : List Point}

/-- Acts that print nothing and bring no holder. -/
theorem Transcript.same (T : Transcript start strings t) (hlock : t'.printLock = t.printLock)
    (hserial : t'.serial = t.serial) (hscreen : t'.screen = t.screen)
    (hholders : ∀ p, t'.holders p → t.holders p) : Transcript start strings t' := by
  cases T with
  | free texts hl htexts hout =>
    exact .free texts (hlock.trans hl) htexts
      ⟨hserial.trans hout.serial, hscreen.trans hout.screen⟩
  | taken whole s texts m n hl htexts hchars hout hat hnear =>
    exact .taken whole s texts m n (hlock.trans hl) htexts hchars
      ⟨hserial.trans hout.serial, hscreen.trans hout.screen⟩
        (fun p hp => hat p (hholders p hp)) hnear

variable [DecidableEq κ]

/-- A CPU goes on, with no holder that it did not have. -/
theorem holders_goOn {c : Context} (hrunning : t'.running = Function.update t.running k c)
    (hc : ∀ p ∈ c.stack, p.holding = true → p ∈ (t.running k).stack) {p : Point}
    (hp : t'.holders p) :
    t.holders p := by
  obtain ⟨j, hmem, hholding⟩ := hp
  rw [hrunning] at hmem
  rcases eq_or_ne j k with rfl | hne
  · rw [Function.update_self] at hmem
    exact ⟨j, hc p hmem hholding, hholding⟩
  · rw [Function.update_of_ne hne] at hmem
    exact ⟨j, hmem, hholding⟩

theorem Terminal.Exclusive.owner_eq {owner : Option κ} (X : t.Exclusive owner)
    (hst : (t.running k).stack = f :: r) (hf : f.holding = true) : owner = some k :=
  X.holds_iff.mp ⟨f, by rw [hst]; exact List.mem_cons_self, hf⟩

/-- The holder is one point, on one CPU. -/
theorem Terminal.Exclusive.holders_goOn {owner : Option κ} (X : t.Exclusive owner)
    (hst : (t.running k).stack = f :: r) (hf : f.holding = true)
    (hrunning : t'.running = Function.update t.running k ⟨i, g :: r⟩) {p : Point}
    (hp : t'.holders p) : p = g ∧ g.holding = true := by
  have howner : owner = some k := X.owner_eq hst hf
  obtain ⟨j, hmem, hholding⟩ := hp
  have hheld := X.running j
  rw [hrunning] at hmem
  rcases eq_or_ne j k with rfl | hne
  · rw [if_pos howner, hst, held_cons, if_pos hf] at hheld
    have hquiet : Quiet r := quiet_iff_held.mpr (by omega)
    rw [Function.update_self] at hmem
    rcases List.mem_cons.mp hmem with rfl | hr
    · exact ⟨rfl, hholding⟩
    · rw [hquiet p hr] at hholding
      cases hholding
  · rw [Function.update_of_ne hne] at hmem
    rw [if_neg (by rw [howner]; exact fun h => hne (Option.some.inj h).symm)] at hheld
    have hquiet := quiet_iff_held.mpr hheld
    rw [hquiet p hmem] at hholding
    cases hholding

/-- The holder is where the transcript says. -/
theorem Transcript.holder {owner : Option κ} (T : Transcript start strings t)
    (X : t.Exclusive owner) (hst : (t.running k).stack = f :: r) (hf : f.holding = true) :
    ∃ whole s texts m n, strings = whole ++ [s] ∧ List.Forall₂ IsText whole texts ∧
      (∀ i < n, s i ≠ 0) ∧
      Written start t (texts.flatten ++ chars s m) (texts.flatten ++ chars s n) ∧
      f.At s m n := by
  have hholder : t.holders f := ⟨k, by simp [hst], hf⟩
  cases T with
  | free texts hlock htexts hout =>
    have howner : owner = some k := X.owner_eq hst hf
    rw [X.lock, howner] at hlock
    cases hlock
  | taken whole s texts m n hlock htexts hchars hout hat hnear =>
    exact ⟨whole, s, texts, m, n, rfl, htexts, hchars, hout, hat f hholder⟩

/-- The holder goes on in its string. -/
theorem Transcript.advance {owner : Option κ} {whole : List CString} {s : CString}
    {texts : List (List UInt8)} {m n : Nat} (X : t.Exclusive owner)
    (hst : (t.running k).stack = f :: r) (hf : f.holding = true)
    (hrunning : t'.running = Function.update t.running k ⟨i, g :: r⟩)
    (hlock : t'.printLock = t.printLock) (htexts : List.Forall₂ IsText whole texts)
    (hchars : ∀ i < n, s i ≠ 0)
    (hout : Written start t' (texts.flatten ++ chars s m) (texts.flatten ++ chars s n))
    (hat : g.At s m n) (hnear : n = m ∨ n = m + 1 ∧ s m ≠ 0) :
    Transcript start (whole ++ [s]) t' := by
  have howner : owner = some k := X.owner_eq hst hf
  refine .taken whole s texts m n ?_ htexts hchars hout (fun p hp => ?_) hnear
  · rw [hlock, X.lock, howner]
    rfl
  · obtain ⟨rfl, -⟩ := X.holders_goOn hst hf hrunning hp
    exact hat

/-- A step of the holder. -/
theorem Transcript.run_holding {owner : Option κ} (T : Transcript start strings t)
    (X : t.Exclusive owner) (hst : (t.running k).stack = f :: r) (hf : f.holding = true)
    (hrun : t.run k status = some t') :
    Transcript start strings t' := by
  have hlocked : t.printLock = true := by
    rw [X.lock, X.owner_eq hst hf]
    rfl
  obtain ⟨whole, s, texts, m, n, rfl, htexts, hchars, ⟨hserial, hscreen⟩, hat⟩ :=
    T.holder X hst hf
  simp only [Terminal.run, hst] at hrun
  cases f with
  | char s' j flags =>
    obtain ⟨rfl, rfl, rfl⟩ := hat
    dsimp only at hrun
    split at hrun <;> rw [Option.some.injEq] at hrun <;> subst hrun
    · rename_i hzero
      exact .advance X hst hf rfl rfl htexts hchars ⟨hserial, hscreen⟩ ⟨hzero, rfl⟩ (.inl rfl)
    · rename_i hchar
      exact .advance X hst hf rfl rfl htexts hchars ⟨hserial, hscreen⟩
        ⟨rfl, hchar, rfl, rfl⟩ (.inl rfl)
  | putcVga s' j flags =>
    obtain ⟨rfl, hchar, rfl, rfl⟩ := hat
    rw [Option.some.injEq] at hrun
    subst hrun
    refine .advance (n := n + 1) X hst hf rfl rfl htexts (fun i hi => ?_) ⟨hserial, ?_⟩
      ⟨rfl, hchar, rfl, rfl⟩
      (.inr ⟨rfl, hchar⟩)
    · rcases Nat.lt_succ_iff_lt_or_eq.mp hi with hlt | rfl
      · exact hchars i hlt
      · exact hchar
    · dsimp only
      rw [hscreen, chars_succ, ← List.append_assoc]
      exact (List.foldl_concat ..).symm
  | serialPutc s' j flags =>
    obtain ⟨rfl, hchar, rfl, rfl⟩ := hat
    dsimp only at hrun
    split at hrun <;> rw [Option.some.injEq] at hrun <;> subst hrun
    · exact T
    · refine .advance X hst hf rfl rfl htexts hchars ⟨?_, hscreen⟩ ⟨rfl, rfl, rfl⟩ (.inl rfl)
      dsimp only
      rw [hserial, chars_succ, List.append_assoc, List.append_assoc]
  | release flags =>
    -- the string is whole now
    obtain ⟨hzero, rfl⟩ := hat
    rw [Option.some.injEq] at hrun
    subst hrun
    refine .free (texts ++ [chars s n]) rfl ?_ ⟨?_, ?_⟩
    · exact List.rel_append htexts (.cons ⟨n, hchars, hzero, rfl⟩ .nil)
    · exact hserial.trans (by simp)
    · exact hscreen.trans (by simp)
  | _ => simp [Point.holding] at hf

/-- The test-and-set that succeeds. -/
theorem Transcript.open_string (T : Transcript start strings t) {owner : Option κ}
    (X : t.Exclusive owner) {s : CString} (hfree : t.printLock = false)
    (hst : (t.running k).stack = .testAndSet s flags :: r) :
    Transcript start (strings ++ [s]) { t.goOn k ⟨i, .char s 0 flags :: r⟩ with
      printLock := true } := by
  cases T with
  | taken whole s texts m n hlock =>
    rw [hfree] at hlock
    cases hlock
  | free texts hlock htexts hout =>
    have hnone : owner = none := by
      rw [X.lock] at hfree
      exact Option.not_isSome_iff_eq_none.mp (by simp [hfree])
    have hquiet : ∀ p, ¬ t.holders p := by
      rintro p ⟨j, hp, hholding⟩
      have howner := X.holds_iff.mp ⟨p, hp, hholding⟩
      rw [hnone] at howner
      cases howner
    refine .taken strings s texts 0 0 rfl htexts (fun i hi => absurd hi (Nat.not_lt_zero i)) ?_
      (fun p hp => ?_) (.inl rfl)
    · rw [chars, List.range_zero, List.map_nil, List.append_nil]
      exact ⟨hout.serial, hout.screen⟩
    · obtain ⟨j, hmem, hholding⟩ := hp
      dsimp only [Terminal.goOn] at hmem
      rcases eq_or_ne j k with rfl | hne
      · rw [Function.update_self] at hmem
        rcases List.mem_cons.mp hmem with rfl | hr
        · exact ⟨rfl, rfl, rfl⟩
        · refine absurd ⟨j, ?_, hholding⟩ (hquiet p)
          rw [hst]
          exact List.mem_cons_of_mem _ hr
      · rw [Function.update_of_ne hne] at hmem
        exact absurd ⟨j, hmem, hholding⟩ (hquiet p)

/-- A step of `kprint` or of the exception handler. -/
theorem Transcript.run {owner : Option κ} (T : Transcript start strings t)
    (X : t.Exclusive owner) (hrun : t.run k status = some t') :
    Transcript start (strings ++ t.opened (.exec k status : Act κ τ)) t' := by
  cases hst : (t.running k).stack with
  | nil => simp [Terminal.run, hst] at hrun
  | cons f r =>
    have hsame : ∀ {c : Context}, t' = t.goOn k c → t.opened (.exec k status : Act κ τ) = [] →
        (∀ p ∈ c.stack, p.holding = true → p ∈ r) →
        Transcript start (strings ++ t.opened (.exec k status : Act κ τ)) t' := by
      rintro c rfl hopened hc
      rw [hopened, List.append_nil]
      refine T.same rfl rfl rfl fun p hp => holders_goOn (k := k) (c := c) rfl
        (fun q hq hholding => ?_) hp
      rw [hst]
      exact List.mem_cons_of_mem f (hc q hq hholding)
    have hnew : ∀ {g : Point}, g.holding = false → ∀ p ∈ g :: r, p.holding = true → p ∈ r := by
      intro g hg p hp hholding
      rcases List.mem_cons.mp hp with rfl | hp
      · rw [hg] at hholding
        cases hholding
      · exact hp
    cases f with
    | char s n flags | putcVga s n flags | serialPutc s n flags | release flags =>
      have hopened : t.opened (.exec k status : Act κ τ) = [] := by simp [Terminal.opened, hst]
      rw [hopened, List.append_nil]
      exact T.run_holding X hst rfl hrun
    | testAndSet s flags =>
      simp only [Terminal.run, hst] at hrun
      split at hrun <;> rw [Option.some.injEq] at hrun
      · rename_i htaken
        exact hsame hrun.symm (by simp [Terminal.opened, hst, htaken]) (hnew rfl)
      · rename_i hfree
        have hopened : t.opened (.exec k status : Act κ τ) = [s] := by
          simp [Terminal.opened, hst, hfree]
        rw [hopened, ← hrun]
        exact T.open_string X (by simpa using hfree) hst
    | spin s flags =>
      have hopened : t.opened (.exec k status : Act κ τ) = [] := by simp [Terminal.opened, hst]
      simp only [Terminal.run, hst] at hrun
      split at hrun <;> rw [Option.some.injEq] at hrun
      · rw [hopened, List.append_nil, ← hrun]
        exact T
      · exact hsame hrun.symm hopened (hnew rfl)
    | code | handler => simp [Terminal.run, hst] at hrun
    | entry s =>
      simp only [Terminal.run, hst, Option.some.injEq] at hrun
      exact hsame hrun.symm (by simp [Terminal.opened, hst]) (hnew rfl)
    | restore flags =>
      simp only [Terminal.run, hst, Option.some.injEq] at hrun
      exact hsame hrun.symm (by simp [Terminal.opened, hst]) fun p hp _ => hp
    | halt =>
      simp only [Terminal.run, hst, Option.some.injEq] at hrun
      exact hsame hrun.symm (by simp [Terminal.opened, hst]) (hnew rfl)
    | dispatch reports =>
      cases reports with
      | nil =>
        simp only [Terminal.run, hst, Option.some.injEq] at hrun
        exact hsame hrun.symm (by simp [Terminal.opened, hst]) (hnew rfl)
      | cons s reports =>
        simp only [Terminal.run, hst, Option.some.injEq] at hrun
        refine hsame hrun.symm (by simp [Terminal.opened, hst]) fun p hp hholding => ?_
        rcases List.mem_cons.mp hp with rfl | hp
        · cases hholding
        · exact hnew rfl p hp hholding

/-- **Step lemma.** -/
theorem Transcript.step [DecidableEq τ] {owner : Option κ} {a : Act κ τ}
    (T : Transcript start strings t) (X : t.Exclusive owner) (hstep : t.step a = some t') :
    Transcript start (strings ++ t.opened a) t' := by
  cases Terminal.moved_of_step hstep with
  | exec hrun => exact T.run X hrun
  | @call k s hown =>
    rw [show t.opened (.call k s) = [] from rfl, List.append_nil]
    refine T.same rfl rfl rfl fun p hp => holders_goOn rfl (fun q hq hholding => ?_) hp
    rcases List.mem_cons.mp hq with rfl | hq
    · cases hholding
    · exact hq
  | @setIf k b hown =>
    rw [show t.opened (.setIf k b) = [] from rfl, List.append_nil]
    exact T.same rfl rfl rfl fun p hp => holders_goOn (c := ⟨b, _⟩) rfl (fun q hq _ => hq) hp
  | @interrupt k hif =>
    rw [show t.opened (.interrupt k) = [] from rfl, List.append_nil]
    refine T.same rfl rfl rfl fun p hp => holders_goOn rfl (fun q hq hholding => ?_) hp
    rcases List.mem_cons.mp hq with rfl | hq
    · cases hholding
    · exact hq
  | @iret k r hst =>
    rw [show t.opened (.iret k) = [] from rfl, List.append_nil]
    refine T.same rfl rfl rfl fun p hp => holders_goOn rfl (fun q hq _ => ?_) hp
    rw [hst]
    exact List.mem_cons_of_mem _ hq
  | @switch k thread hown =>
    rw [show t.opened (.switch k thread) = [] from rfl, List.append_nil]
    refine T.same rfl rfl rfl fun p hp => holders_goOn (t := t) (k := k)
      (c := t.parked thread) rfl
      (fun q hq hholding => ?_) hp
    rw [X.parked thread q hq] at hholding
    cases hholding
  | exception k f =>
    rw [show t.opened (.exception k f) = [] from rfl, List.append_nil]
    refine T.same rfl rfl rfl fun p hp => holders_goOn rfl (fun q hq hholding => ?_) hp
    rcases List.mem_cons.mp hq with rfl | hq
    · cases hholding
    · exact hq

/-- **Run lemma.** -/
theorem Transcript.exec [DecidableEq τ] {Q : List Point → Prop} (hQ : ∀ st, Q st)
    {acts : List (Act κ τ)} :
    ∀ {strings : List CString} {t : Terminal κ τ} {owner : Option κ},
      Transcript start strings t →
      t.Exclusive owner → t.Inv Q → Foundation.exec Terminal.step t acts = some t' →
      Transcript start (strings ++ lockOrder t acts) t' := by
  induction acts with
  | nil =>
    intro strings t owner T _ _ hrun
    cases hrun
    rw [lockOrder, List.append_nil]
    exact T
  | cons a rest ih =>
    intro strings t owner T X I hrun
    obtain ⟨mid, hmid, hrest⟩ := Option.bind_eq_some_iff.mp hrun
    obtain ⟨owner', X'⟩ := X.step I hmid
    have I' : mid.Inv Q := I.step (fun _ _ _ => hQ _) hmid
    have hend := ih (T.step X hmid) X' I' hrest
    rw [lockOrder, hmid, ← List.append_assoc]
    exact hend

end Acts

/-! ## Every run -/

section Runs

variable {κ τ : Type} [DecidableEq κ] {start t : Terminal κ τ} {acts : List (Act κ τ)}

theorem exclusive_of_initial (h : start.Initial) : start.Exclusive none := by
  refine ⟨h.printLock, fun k => ?_, fun thread => ?_⟩
  · rw [h.running k]
    rfl
  · rw [h.parked thread]
    simp [Quiet, Point.holding]

variable [DecidableEq τ]

/-- **What the console shows.**  Whatever the CPUs do, with interrupts, thread switches
and exceptions at any point: the serial port has sent the strings that got the lock,
whole and in that order, and then as much as has been printed of the string that has
the lock now.  The screen shows the same characters, at most one ahead. -/
theorem kprint_transcript (hstart : start.Initial)
    (hrun : exec Terminal.step start acts = some t) :
    (t.printLock = false → ∃ texts, List.Forall₂ IsText (lockOrder start acts) texts ∧
      t.serial = start.serial ++ texts.flatten ∧
      t.screen = texts.flatten.foldl putcVga start.screen) ∧
    (t.printLock = true → ∃ whole s texts n, lockOrder start acts = whole ++ [s] ∧
      List.Forall₂ IsText whole texts ∧ (∀ i < n, s i ≠ 0) ∧
      t.serial = start.serial ++ texts.flatten ++ chars s n ∧
      (t.screen = (texts.flatten ++ chars s n).foldl putcVga start.screen ∨
        s n ≠ 0 ∧ t.screen = (texts.flatten ++ chars s (n + 1)).foldl putcVga
          start.screen)) := by
  have T₀ : Transcript start [] start :=
    .free [] hstart.printLock .nil ⟨(List.append_nil _).symm, rfl⟩
  have T := T₀.exec (Q := fun _ => True) (fun _ => trivial) (exclusive_of_initial hstart)
    (inv_of_initial hstart) hrun
  rw [List.nil_append] at T
  generalize lockOrder start acts = strings at T
  cases T with
  | free texts hlock htexts hout =>
    refine ⟨fun _ => ⟨texts, htexts, hout.serial, hout.screen⟩, fun htaken => ?_⟩
    rw [hlock] at htaken
    cases htaken
  | taken whole s texts m n hlock htexts hchars hout _ hnear =>
    refine ⟨fun hfree => ?_, fun _ => ⟨whole, s, texts, m, rfl, htexts, ?_, ?_, ?_⟩⟩
    · rw [hlock] at hfree
      cases hfree
    · exact fun i hi => hchars i (by omega)
    · rw [hout.serial, List.append_assoc]
    · rcases hnear with rfl | ⟨rfl, hchar⟩
      · exact .inl hout.screen
      · exact .inr ⟨hchar, hout.screen⟩

/-- CPU 0 prints and CPU 1 waits for the lock: the first character is out, and nothing
of CPU 1. -/
theorem kprint_transcript_contending :
    ∃ acts, acts = printing ++ .call 1 (cString (ascii "c")) ::
        (List.replicate 4 [.exec 1 0x20, .exec 0 0x20]).flatten ∧
      ∃ t, exec Terminal.step twoCpus acts = some t ∧ t.serial = ascii "h" ∧
      ∃ whole s texts n, lockOrder twoCpus acts = whole ++ [s] ∧
        List.Forall₂ IsText whole texts ∧
        t.serial = texts.flatten ++ chars s n := by
  refine ⟨_, rfl, ?_⟩
  have hfacts : (exec Terminal.step twoCpus (printing ++ .call 1 (cString (ascii "c")) ::
      (List.replicate 4 [.exec 1 0x20, .exec 0 0x20]).flatten)).map
        (fun t => (t.printLock, t.serial)) =
      some (true, ascii "h") := by
    decide +kernel
  obtain ⟨t, ht, hpair⟩ := Option.map_eq_some_iff.mp hfacts
  obtain ⟨hlock, hserial⟩ := Prod.mk.inj hpair
  obtain ⟨whole, s, texts, n, horder, htexts, -, hout, -⟩ :=
    (kprint_transcript initial_twoCpus ht).2 hlock
  exact ⟨t, ht, hserial, whole, s, texts, n, horder, htexts, hout⟩

end Runs

end NekaKernel.Console
