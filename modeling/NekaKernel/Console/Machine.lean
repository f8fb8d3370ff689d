/-
  Console/Machine.lean --- CPUs that print, one access to the console at a time.

  Source: `print_lock_acquire`, `print_lock_release`, `serial_putc`, `kprint` and
  `kprint_hex64` in `terminal64.c`, and the exception branch of
  `interrupt_dispatch` in `idt.c`.

  What a CPU has to come back to is a stack of points, the one it stands at on
  top.  Code outside `kprint` may call it at any time, change IF and give the CPU
  to another thread; an interrupt comes while IF is on and returns.  An exception
  comes whatever IF is, puts the handler on top of whatever is there, and the
  handler never returns.
-/
import NekaKernel.Console.Screen
import NekaKernel.Foundation.Run

set_option autoImplicit false

namespace NekaKernel.Console

open NekaKernel.Foundation

/-! ## What is printed -/

/-- A C string, by the index of its characters. -/
abbrev CString := Nat → UInt8

/-- A string with its final 0. -/
def cString (bytes : List UInt8) : CString := fun i => bytes.getD i 0

/-- `kprint_hex64`: the string that it gives to `kprint`. -/
def kprintHex64 (val : Nat) : CString :=
  let digit (buf : List UInt8 × Nat) (i : Nat) : List UInt8 × Nat :=
    (buf.1.set (17 - i) ((ascii "0123456789ABCDEF").getD (buf.2 % 16) 0), buf.2 / 16)
  cString ((List.range 16).foldl digit (ascii "0x0000000000000000", val)).1

/-- The names in `exception_name`. -/
def exceptionNames : List String :=
  ["Divide Error", "Debug", "NMI", "Breakpoint",
    "Overflow", "Bound Range Exceeded", "Invalid Opcode", "Device Not Available",
    "Double Fault", "Coprocessor Segment Overrun", "Invalid TSS", "Segment Not Present",
    "Stack-Segment Fault", "General Protection Fault", "Page Fault", "Reserved",
    "x87 FPU Error", "Alignment Check", "Machine Check", "SIMD FP Exception",
    "Virtualization Exception", "Control Protection", "Reserved", "Reserved",
    "Reserved", "Reserved", "Reserved", "Reserved",
    "Hypervisor Injection", "VMM Communication", "Security Exception", "Reserved"]

/-- What `interrupt_dispatch` prints of an `interrupt_frame_t`: the address `f`, the
fields, and the words that `stack_dump` shows from `f` on. -/
structure ExceptionFrame where
  address : Nat
  vector : Fin 32
  errorCode : Nat
  rip : Nat
  cs : Nat
  rflags : Nat
  stackDump : Nat → Nat

/-- The strings that `interrupt_dispatch` prints for an exception, in order. -/
def interruptDispatch (f : ExceptionFrame) : List CString :=
  [cString (ascii "\n*** EXCEPTION: "),
    cString (ascii (exceptionNames.getD f.vector.val "Unknown")),
    cString (ascii " (vector "), kprintHex64 f.vector.val,
    cString (ascii ", error_code "), kprintHex64 f.errorCode,
    cString (ascii ")\nRIP="), kprintHex64 f.rip,
    cString (ascii " RSP-frame CS="), kprintHex64 f.cs,
    cString (ascii " RFLAGS="), kprintHex64 f.rflags,
    cString (ascii "\nHalting kernel (no recovery implemented).\n"),
    cString (ascii "[diag] frame ptr f = "), kprintHex64 f.address, cString (ascii "\n")] ++
  (List.range 24).flatMap fun i =>
    [cString (ascii "[diag] f["), kprintHex64 i, cString (ascii "] = "),
      kprintHex64 (f.stackDump i), cString (ascii "\n")]

/-! ## The machine -/

/-- A point of the code.  `flags` is the IF bit that `kprint` has read. -/
inductive Point where
  /-- Whatever a CPU runs outside `kprint` and the handlers. -/
  | code
  /-- The handler of an interrupt that IF masks. -/
  | handler
  -- `kprint`, with `print_lock_acquire` and `print_lock_release`
  | entry (s : CString)
  | testAndSet (s : CString) (flags : Bool)
  | spin (s : CString) (flags : Bool)
  | char (s : CString) (i : Nat) (flags : Bool)
  | putcVga (s : CString) (i : Nat) (flags : Bool)
  | serialPutc (s : CString) (i : Nat) (flags : Bool)
  | release (flags : Bool)
  | restore (flags : Bool)
  /-- The exception branch of `interrupt_dispatch`, with what it has still to print. -/
  | dispatch (reports : List CString)
  /-- Its `cli; hlt`. -/
  | halt

/-- What runs on a CPU or waits to. -/
structure Context where
  ifFlag : Bool
  stack : List Point

section Machine

variable {κ τ : Type} [DecidableEq κ] [DecidableEq τ]

/-- The CPUs `κ`, the threads `τ` that wait to run, and what `terminal64.c` shares. -/
structure Terminal (κ τ : Type) where
  printLock : Bool
  screen : Screen
  serial : List UInt8
  running : κ → Context
  parked : τ → Context

/-- CPU `k` goes on in a context. -/
def Terminal.goOn (t : Terminal κ τ) (k : κ) (c : Context) : Terminal κ τ :=
  { t with running := Function.update t.running k c }

/-- The next step on CPU `k`, with the line status that it reads if it asks the
serial port. -/
def Terminal.run (t : Terminal κ τ) (k : κ) (status : UInt8) : Option (Terminal κ τ) :=
  let i := (t.running k).ifFlag
  match (t.running k).stack with
  | .entry s :: r => some (t.goOn k ⟨false, .testAndSet s i :: r⟩)
  | .testAndSet s flags :: r =>
      if t.printLock then some (t.goOn k ⟨i, .spin s flags :: r⟩)
      else some { t.goOn k ⟨i, .char s 0 flags :: r⟩ with printLock := true }
  | .spin s flags :: r =>
      if t.printLock then some t else some (t.goOn k ⟨i, .testAndSet s flags :: r⟩)
  | .char s n flags :: r =>
      if s n = 0 then some (t.goOn k ⟨i, .release flags :: r⟩)
      else some (t.goOn k ⟨i, .putcVga s n flags :: r⟩)
  | .putcVga s n flags :: r =>
      some { t.goOn k ⟨i, .serialPutc s n flags :: r⟩ with
        screen := Console.putcVga t.screen (s n) }
  | .serialPutc s n flags :: r =>
      if status &&& 0x20 = 0 then some t
      else some { t.goOn k ⟨i, .char s (n + 1) flags :: r⟩ with serial := t.serial ++ [s n] }
  | .release flags :: r => some { t.goOn k ⟨i, .restore flags :: r⟩ with printLock := false }
  | .restore flags :: r => some (t.goOn k ⟨if flags then true else i, r⟩)
  | .dispatch (s :: reports) :: r => some (t.goOn k ⟨i, .entry s :: .dispatch reports :: r⟩)
  | .dispatch [] :: r => some (t.goOn k ⟨i, .halt :: r⟩)
  | .halt :: r => some (t.goOn k ⟨false, .halt :: r⟩)
  | _ => none

/-- Code that may call `kprint`, change IF and switch threads. -/
def Point.own : Point → Bool
  | .code => true
  | .handler => true
  | _ => false

/-- The code on top of a stack, if it is such code. -/
def Context.atOwn (c : Context) : Bool := c.stack.head?.any Point.own

/-- What may happen next. -/
inductive Act (κ τ : Type) where
  /-- CPU `k` takes its next step in `kprint` or in the exception handler. -/
  | exec (k : κ) (status : UInt8)
  /-- The code on `k` calls `kprint`. -/
  | call (k : κ) (s : CString)
  /-- The code on `k` changes IF. -/
  | setIf (k : κ) (b : Bool)
  /-- An interrupt that IF masks comes to `k`. -/
  | interrupt (k : κ)
  /-- Its handler returns. -/
  | iret (k : κ)
  /-- The code on `k` gives the CPU to another thread. -/
  | switch (k : κ) (thread : τ)
  /-- An exception comes to `k`. -/
  | exception (k : κ) (f : ExceptionFrame)

/-- One act, or `none` when it cannot happen. -/
def Terminal.step (t : Terminal κ τ) : Act κ τ → Option (Terminal κ τ)
  | .exec k status => t.run k status
  | .call k s =>
      if (t.running k).atOwn then
        some (t.goOn k ⟨(t.running k).ifFlag, .entry s :: (t.running k).stack⟩)
      else none
  | .setIf k b => if (t.running k).atOwn then some (t.goOn k ⟨b, (t.running k).stack⟩) else none
  | .interrupt k =>
      if (t.running k).ifFlag then
        some (t.goOn k ⟨false, .handler :: (t.running k).stack⟩) else none
  | .iret k =>
      match (t.running k).stack with
      | .handler :: r => some (t.goOn k ⟨true, r⟩)
      | _ => none
  | .switch k thread =>
      if (t.running k).atOwn then
        some { t.goOn k (t.parked thread) with
          parked := Function.update t.parked thread (t.running k) }
      else none
  | .exception k f =>
    some (t.goOn k ⟨false, .dispatch (interruptDispatch f) :: (t.running k).stack⟩)

/-- What an act that happened has found and done. -/
inductive Terminal.Moved (t : Terminal κ τ) : Act κ τ → Terminal κ τ → Prop
  | exec {k : κ} {status : UInt8} {t' : Terminal κ τ} (hrun : t.run k status = some t') :
      Moved t (.exec k status) t'
  | call {k : κ} (s : CString) (hown : (t.running k).atOwn = true) :
      Moved t (.call k s) (t.goOn k ⟨(t.running k).ifFlag, .entry s :: (t.running k).stack⟩)
  | setIf {k : κ} (b : Bool) (hown : (t.running k).atOwn = true) :
      Moved t (.setIf k b) (t.goOn k ⟨b, (t.running k).stack⟩)
  | interrupt {k : κ} (hif : (t.running k).ifFlag = true) :
      Moved t (.interrupt k) (t.goOn k ⟨false, .handler :: (t.running k).stack⟩)
  | iret {k : κ} {r : List Point} (hst : (t.running k).stack = .handler :: r) :
      Moved t (.iret k) (t.goOn k ⟨true, r⟩)
  | switch {k : κ} {thread : τ} (hown : (t.running k).atOwn = true) :
      Moved t (.switch k thread)
        { t.goOn k (t.parked thread) with
          parked := Function.update t.parked thread (t.running k) }
  | exception (k : κ) (f : ExceptionFrame) :
      Moved t (.exception k f)
        (t.goOn k ⟨false, .dispatch (interruptDispatch f) :: (t.running k).stack⟩)

theorem Terminal.moved_of_step {t t' : Terminal κ τ} {a : Act κ τ} (h : t.step a = some t') :
    t.Moved a t' := by
  cases a with
  | exec k status => exact .exec h
  | call k s =>
    simp only [Terminal.step] at h
    split at h
    · rename_i hown
      rw [Option.some.injEq] at h
      exact h ▸ .call s hown
    · cases h
  | setIf k b =>
    simp only [Terminal.step] at h
    split at h
    · rename_i hown
      rw [Option.some.injEq] at h
      exact h ▸ .setIf b hown
    · cases h
  | interrupt k =>
    simp only [Terminal.step] at h
    split at h
    · rename_i hif
      rw [Option.some.injEq] at h
      exact h ▸ .interrupt hif
    · cases h
  | iret k =>
    simp only [Terminal.step] at h
    split at h
    · rename_i hst
      rw [Option.some.injEq] at h
      exact h ▸ .iret hst
    · cases h
  | switch k thread =>
    simp only [Terminal.step] at h
    split at h
    · rename_i hown
      rw [Option.some.injEq] at h
      exact h ▸ .switch hown
    · cases h
  | exception k f =>
    simp only [Terminal.step, Option.some.injEq] at h
    exact h ▸ .exception k f

/-- Nobody prints yet. -/
structure Terminal.Initial (t : Terminal κ τ) : Prop where
  printLock : t.printLock = false
  running : ∀ k, (t.running k).stack = [.code]
  parked : ∀ thread, (t.parked thread).stack = [.code]

end Machine

section Steps

variable {κ τ : Type} [DecidableEq κ]

@[simp] theorem Terminal.goOn_running (t : Terminal κ τ) (k : κ) (c : Context) :
    (t.goOn k c).running k = c :=
  Function.update_self ..

theorem Terminal.run_dispatch {t : Terminal κ τ} {k : κ} {i : Bool} {s : CString}
    {reports : List CString} {r : List Point}
    (hc : t.running k = ⟨i, .dispatch (s :: reports) :: r⟩) (status : UInt8) :
    t.run k status = some (t.goOn k ⟨i, .entry s :: .dispatch reports :: r⟩) := by
  simp only [Terminal.run, hc]

theorem Terminal.run_entry {t : Terminal κ τ} {k : κ} {i : Bool} {s : CString} {r : List Point}
    (hc : t.running k = ⟨i, .entry s :: r⟩) (status : UInt8) :
    t.run k status = some (t.goOn k ⟨false, .testAndSet s i :: r⟩) := by
  simp only [Terminal.run, hc]

end Steps

end NekaKernel.Console
