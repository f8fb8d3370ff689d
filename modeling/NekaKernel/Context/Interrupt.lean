/-
  Context/Interrupt.lean --- into `interrupt_dispatch` and back.

  Source: `isr.s` and `interrupt_frame_t` in `idt.h`.

  The CPU pushes the interrupted context on a 16-byte boundary, with SS and RSP from
  ring 0 too, which `interrupt_frame_t` does not name.  The entry of the
  vector adds what is missing of `vector` and `error_code`, and the stub the general
  registers; the C code sees one structure and the stub takes the context back from
  it.  The entries know the error codes of the vectors up to 17.  The vectors 21, 29
  and 30 have one as well, and for these the structure is one word off.
-/
import NekaKernel.Context.Cpu

set_option autoImplicit false

namespace NekaKernel.Context

open NekaKernel.Foundation

/-! ## The structure -/

/-- `interrupt_frame_t`. -/
@[ext]
structure InterruptFrame where
  r15 : UInt64
  r14 : UInt64
  r13 : UInt64
  r12 : UInt64
  r11 : UInt64
  r10 : UInt64
  r9 : UInt64
  r8 : UInt64
  rbp : UInt64
  rdi : UInt64
  rsi : UInt64
  rdx : UInt64
  rcx : UInt64
  rbx : UInt64
  rax : UInt64
  vector : UInt64
  errorCode : UInt64
  rip : UInt64
  cs : UInt64
  rflags : UInt64
  deriving DecidableEq, Repr

/-- The fields in memory, the first one lowest. -/
def InterruptFrame.words (f : InterruptFrame) : List UInt64 :=
  [f.r15, f.r14, f.r13, f.r12, f.r11, f.r10, f.r9, f.r8, f.rbp, f.rdi, f.rsi, f.rdx,
    f.rcx, f.rbx, f.rax, f.vector, f.errorCode, f.rip, f.cs, f.rflags]

/-- The structure at `a`. -/
def frameAt (m : Mem) (a : Nat) : InterruptFrame where
  r15 := m.word a
  r14 := m.word (a + 8)
  r13 := m.word (a + 16)
  r12 := m.word (a + 24)
  r11 := m.word (a + 32)
  r10 := m.word (a + 40)
  r9 := m.word (a + 48)
  r8 := m.word (a + 56)
  rbp := m.word (a + 64)
  rdi := m.word (a + 72)
  rsi := m.word (a + 80)
  rdx := m.word (a + 88)
  rcx := m.word (a + 96)
  rbx := m.word (a + 104)
  rax := m.word (a + 112)
  vector := m.word (a + 120)
  errorCode := m.word (a + 128)
  rip := m.word (a + 136)
  cs := m.word (a + 144)
  rflags := m.word (a + 152)

/-- The structure for a context, with these words where the entry and the CPU put
them. -/
def State.frame (s : State) (vector errorCode rip cs rflags : UInt64) : InterruptFrame where
  r15 := s.regs .r15
  r14 := s.regs .r14
  r13 := s.regs .r13
  r12 := s.regs .r12
  r11 := s.regs .r11
  r10 := s.regs .r10
  r9 := s.regs .r9
  r8 := s.regs .r8
  rbp := s.regs .rbp
  rdi := s.regs .rdi
  rsi := s.regs .rsi
  rdx := s.regs .rdx
  rcx := s.regs .rcx
  rbx := s.regs .rbx
  rax := s.regs .rax
  vector := vector
  errorCode := errorCode
  rip := rip
  cs := cs
  rflags := rflags

theorem frameAt_of_holds {m : Mem} {a : Nat} {f : InterruptFrame} {rest : List UInt64}
    (h : m.Holds a (f.words ++ rest)) : frameAt m a = f := by
  simp only [InterruptFrame.words, List.cons_append, List.nil_append, Mem.Holds,
    Nat.add_assoc] at h
  obtain ⟨h0, h1, h2, h3, h4, h5, h6, h7, h8, h9, h10, h11, h12, h13, h14, h15, h16,
    h17, h18, h19, -⟩ := h
  exact InterruptFrame.ext h0 h1 h2 h3 h4 h5 h6 h7 h8 h9 h10 h11 h12 h13 h14 h15 h16 h17 h18 h19

/-! ## Delivery -/

/-- The vectors for which the CPU pushes an error code. -/
def cpuErrorCode (vector : UInt64) : Bool :=
  hasErrorCode vector ∨ vector = 21 ∨ vector = 29 ∨ vector = 30

/-- Where the CPU starts to push: RSP0 from ring 3, the current stack otherwise. -/
def State.entryStack (s : State) (rsp0 : UInt64) : UInt64 :=
  let stack := if s.cpl = 3 then rsp0 else s.rsp
  stack - stack % 16

/-- The words that the CPU pushes. -/
def State.cpuWords (s : State) (vector errorCode : UInt64) : List UInt64 :=
  [s.ss, s.rsp, s.rflags, s.cs, s.rip] ++ if cpuErrorCode vector then [errorCode] else []

/-- An interrupt from either ring, up to the first instruction of the vector's entry. -/
def interrupted (rsp0 vector errorCode : UInt64) (s : State) : State :=
  { { s with rsp := s.entryStack rsp0 }.pushes (s.cpuWords vector errorCode) with
    cs := 0x08
    ss := if s.cpl = 3 then 0 else s.ss
    rflags := s.rflags &&& 0xFFFFFFFFFFFCBCFF }

/-- The interrupt up to the first instruction of `interrupt_dispatch`. -/
def dispatched (S : Symbols) (rsp0 vector errorCode : UInt64) (s : State) : State :=
  exec (interrupted rsp0 vector errorCode s) (isrEntry vector ++ isrCommonStub S)

/-- What the entry of the vector and the stub push before `interrupt_dispatch` runs. -/
def State.stubWords (s : State) (S : Symbols) (vector : UInt64) : List UInt64 :=
  (if hasErrorCode vector then [vector] else [0, vector]) ++ stubRegs s ++
    [S.isrCommonStubResume]

section Delivery

variable {S : Symbols} {rsp0 vector errorCode : UInt64} {s : State}

/-- The entry and the stub, from the state in which the CPU leaves the interrupted
code. -/
theorem exec_entry (S : Symbols) (vector : UInt64) (u : State) :
    (exec u (isrEntry vector ++ isrCommonStub S)).mem = (u.pushes (u.stubWords S vector)).mem ∧
    (exec u (isrEntry vector ++ isrCommonStub S)).rsp = (u.pushes (u.stubWords S vector)).rsp ∧
    (exec u (isrEntry vector ++ isrCommonStub S)).regs .rdi =
      (u.pushes (u.stubWords S vector)).rsp + 8 ∧
    (exec u (isrEntry vector ++ isrCommonStub S)).rip = S.interruptDispatch := by
  let ws : List UInt64 := if hasErrorCode vector then [vector] else [0, vector]
  have hentry : exec u (isrEntry vector) = u.pushes ws := by
    refine exec_pushes ?_
    unfold isrEntry ws
    cases hasErrorCode vector <;> rfl
  have hstub : exec (u.pushes ws) isrPushes = u.pushes (ws ++ stubRegs u) := by
    have hregs : stubRegs (u.pushes ws) = stubRegs u := by
      unfold stubRegs
      rw [State.pushes_regs]
    rw [State.pushes_append, ← hregs]
    exact exec_pushes rfl
  have hwords : u.pushes (u.stubWords S vector) =
      (u.pushes (ws ++ stubRegs u)).push S.isrCommonStubResume := by
    rw [State.stubWords, State.pushes_append]
    rfl
  rw [exec_append, isrCommonStub, exec_append, hentry, hstub, hwords]
  generalize u.pushes (ws ++ stubRegs u) = v
  refine ⟨rfl, rfl, ?_, rfl⟩
  exact (UInt64.sub_add_cancel v.rsp 8).symm

/-- The CPU's pushes leave room for those of the stub. -/
theorem cpuWords_length :
    (s.cpuWords vector errorCode).length = if cpuErrorCode vector then 6 else 5 := by
  unfold State.cpuWords
  split <;> rfl

theorem stubWords_length :
    (s.stubWords S vector).length = if hasErrorCode vector then 17 else 18 := by
  unfold State.stubWords
  split <;> rfl

theorem entryStack_aligned (rsp0 : UInt64) (s : State) :
    (s.entryStack rsp0).toNat % 16 = 0 := by
  unfold State.entryStack
  generalize (if s.cpl = 3 then rsp0 else s.rsp) = p
  have hle : p % 16 ≤ p := by
    rw [UInt64.le_iff_toNat_le, UInt64.toNat_mod]
    exact Nat.mod_le _ _
  rw [UInt64.toNat_sub_of_le _ _ hle, UInt64.toNat_mod, show (16 : UInt64).toNat = 16 from rfl]
  omega

theorem cpuErrorCode_ne_iff :
    cpuErrorCode vector ≠ hasErrorCode vector ↔ vector = 21 ∨ vector = 29 ∨ vector = 30 := by
  refine ⟨fun hne => ?_, ?_⟩
  · by_contra hno
    exact hne (by simp [cpuErrorCode, hno])
  · rintro (rfl | rfl | rfl) <;> decide

theorem cpuErrorCode_of_has (h : hasErrorCode vector = true) : cpuErrorCode vector = true := by
  simp [cpuErrorCode, h]

/-- Everything that is pushed, in order. -/
def State.allWords (s : State) (S : Symbols) (vector errorCode : UInt64) : List UInt64 :=
  s.cpuWords vector errorCode ++ s.stubWords S vector

theorem allWords_length :
    (s.allWords S vector errorCode).length =
      if cpuErrorCode vector = hasErrorCode vector then 23 else 24 := by
  rw [State.allWords, List.length_append, cpuWords_length, stubWords_length]
  cases hhas : hasErrorCode vector with
  | true => simp [cpuErrorCode_of_has hhas]
  | false => cases cpuErrorCode vector <;> rfl

theorem allWords_length_le : (s.allWords S vector errorCode).length ≤ 24 := by
  rw [allWords_length]
  split <;> decide

/-- The structure that the stub hands over.  Where the entry pushes an error code
beside the CPU's, the CPU's words appear one field late. -/
def State.handedOver (s : State) (vector errorCode : UInt64) : InterruptFrame :=
  if cpuErrorCode vector = hasErrorCode vector then
    s.frame vector (if hasErrorCode vector then errorCode else 0) s.rip s.cs s.rflags
  else s.frame vector 0 errorCode s.rip s.cs

theorem allWords_reverse : (s.allWords S vector errorCode).reverse =
    S.isrCommonStubResume :: ((s.handedOver vector errorCode).words ++
      if cpuErrorCode vector = hasErrorCode vector then [s.rsp, s.ss]
      else [s.rflags, s.rsp, s.ss]) := by
  unfold State.allWords State.cpuWords State.stubWords State.handedOver
  cases hhas : hasErrorCode vector with
  | true =>
    rw [cpuErrorCode_of_has hhas]
    rfl
  | false => cases cpuErrorCode vector <;> rfl

theorem interrupted_mem :
    (interrupted rsp0 vector errorCode s).mem =
      ({ s with rsp := s.entryStack rsp0 }.pushes (s.cpuWords vector errorCode)).mem := by
  unfold interrupted
  rfl

theorem interrupted_rsp :
    (interrupted rsp0 vector errorCode s).rsp =
      ({ s with rsp := s.entryStack rsp0 }.pushes (s.cpuWords vector errorCode)).rsp := by
  unfold interrupted
  rfl

theorem interrupted_regs : (interrupted rsp0 vector errorCode s).regs = s.regs := by
  unfold interrupted
  exact State.pushes_regs (s := { s with rsp := s.entryStack rsp0 })
    (s.cpuWords vector errorCode)

/-- What has been pushed when `interrupt_dispatch` starts. -/
theorem dispatched_eq (S : Symbols) (vector errorCode : UInt64)
    (hroom : 192 ≤ (s.entryStack rsp0).toNat) :
    (dispatched S rsp0 vector errorCode s).mem =
      s.mem.pushWords (s.entryStack rsp0).toNat (s.allWords S vector errorCode) ∧
    (dispatched S rsp0 vector errorCode s).rsp.toNat =
      (s.entryStack rsp0).toNat - 8 * (s.allWords S vector errorCode).length := by
  have hle : (s.allWords S vector errorCode).length ≤ 24 := allWords_length_le
  rw [State.allWords, List.length_append] at hle ⊢
  have hcpu : 8 * (s.cpuWords vector errorCode).length ≤ (s.entryStack rsp0).toNat :=
    Nat.le_trans (by omega) hroom
  obtain ⟨hmem, hrsp, -, -⟩ :=
    exec_entry S vector (interrupted rsp0 vector errorCode s)
  have hwords :
      (interrupted rsp0 vector errorCode s).stubWords S vector = s.stubWords S vector := by
    unfold State.stubWords stubRegs
    rw [interrupted_regs]
  have hursp : (interrupted rsp0 vector errorCode s).rsp.toNat =
      (s.entryStack rsp0).toNat - 8 * (s.cpuWords vector errorCode).length := by
    rw [interrupted_rsp]
    exact State.pushes_rsp hcpu
  have humem : (interrupted rsp0 vector errorCode s).mem =
      s.mem.pushWords (s.entryStack rsp0).toNat (s.cpuWords vector errorCode) := by
    rw [interrupted_mem]
    exact State.pushes_mem hcpu
  have hstub :
      8 * (s.stubWords S vector).length ≤ (interrupted rsp0 vector errorCode s).rsp.toNat := by
    omega
  rw [hwords] at hmem hrsp
  refine ⟨?_, ?_⟩
  · rw [dispatched, hmem, State.pushes_mem hstub, humem, hursp, Mem.pushWords_append]
  · rw [dispatched, hrsp, State.pushes_rsp hstub, hursp]
    omega

/-! ## The way back -/

/-- What the pops of the stub load. -/
def State.popped (u : State) : Reg → UInt64
  | .r15 => u.mem.word u.rsp.toNat
  | .r14 => u.mem.word (u.rsp + 8).toNat
  | .r13 => u.mem.word (u.rsp + 16).toNat
  | .r12 => u.mem.word (u.rsp + 24).toNat
  | .r11 => u.mem.word (u.rsp + 32).toNat
  | .r10 => u.mem.word (u.rsp + 40).toNat
  | .r9 => u.mem.word (u.rsp + 48).toNat
  | .r8 => u.mem.word (u.rsp + 56).toNat
  | .rbp => u.mem.word (u.rsp + 64).toNat
  | .rdi => u.mem.word (u.rsp + 72).toNat
  | .rsi => u.mem.word (u.rsp + 80).toNat
  | .rdx => u.mem.word (u.rsp + 88).toNat
  | .rcx => u.mem.word (u.rsp + 96).toNat
  | .rbx => u.mem.word (u.rsp + 104).toNat
  | .rax => u.mem.word (u.rsp + 112).toNat

theorem isrCommonStubReturn_eq (u : State) : exec u isrCommonStubReturn =
    { regs := u.popped
      rip := u.mem.word (u.rsp + 136).toNat
      cs := u.mem.word (u.rsp + 144).toNat
      rflags := u.mem.word (u.rsp + 152).toNat
      rsp := u.mem.word (u.rsp + 160).toNat
      ss := u.mem.word (u.rsp + 168).toNat
      mem := u.mem } := by
  simp only [exec, isrCommonStubReturn, List.foldl_cons, List.foldl_nil, Instr.step, State.drop,
    State.top, State.setReg, UInt64.add_assoc, UInt64.reduceAdd, State.mk.injEq, and_true]
  funext r
  cases r <;> rfl

/-- The stub returns to the context in the structure and the two words above it. -/
theorem isrCommonStubReturn_spec {u : State} (vec err : UInt64)
    (hrange : u.rsp.toNat + 176 ≤ 2 ^ 64)
    (hframe : u.mem.Holds u.rsp.toNat
      ((s.frame vec err s.rip s.cs s.rflags).words ++ [s.rsp, s.ss])) :
    exec u isrCommonStubReturn = { s with mem := u.mem } := by
  have hword : ∀ n v, n.toNat ≤ 168 → u.mem.word (u.rsp.toNat + n.toNat) = v →
      u.mem.word (u.rsp + n).toNat = v := by
    intro n v hn h
    rw [toNat_add_of_lt (by omega)]
    exact h
  simp only [InterruptFrame.words, State.frame, List.cons_append, List.nil_append, Mem.Holds,
    Nat.add_assoc, Nat.reduceAdd] at hframe
  obtain ⟨h0, h1, h2, h3, h4, h5, h6, h7, h8, h9, h10, h11, h12, h13, h14, -, -, h17,
    h18, h19, h20, h21, -⟩ := hframe
  have hregs : u.popped = s.regs := by
    funext r
    cases r with
    | r15 => exact h0
    | r14 => exact hword 8 _ (by decide) h1
    | r13 => exact hword 16 _ (by decide) h2
    | r12 => exact hword 24 _ (by decide) h3
    | r11 => exact hword 32 _ (by decide) h4
    | r10 => exact hword 40 _ (by decide) h5
    | r9 => exact hword 48 _ (by decide) h6
    | r8 => exact hword 56 _ (by decide) h7
    | rbp => exact hword 64 _ (by decide) h8
    | rdi => exact hword 72 _ (by decide) h9
    | rsi => exact hword 80 _ (by decide) h10
    | rdx => exact hword 88 _ (by decide) h11
    | rcx => exact hword 96 _ (by decide) h12
    | rbx => exact hword 104 _ (by decide) h13
    | rax => exact hword 112 _ (by decide) h14
  rw [isrCommonStubReturn_eq, hregs, hword 136 _ (by decide) h17, hword 144 _ (by decide) h18,
    hword 152 _ (by decide) h19, hword 160 _ (by decide) h20, hword 168 _ (by decide) h21]

/-- The pushed words, from the return address up. -/
theorem holds_dispatched (S : Symbols) (vector errorCode : UInt64)
    (hroom : 192 ≤ (s.entryStack rsp0).toNat) :
    (dispatched S rsp0 vector errorCode s).mem.Holds
      (dispatched S rsp0 vector errorCode s).rsp.toNat
        (s.allWords S vector errorCode).reverse := by
  obtain ⟨hmem, hrsp⟩ := dispatched_eq S vector errorCode hroom
  have hlen : (s.allWords S vector errorCode).length ≤ 24 := allWords_length_le
  rw [hmem, hrsp]
  exact Mem.holds_pushWords (by omega)

/-! ## Both ways -/

/-- The return address is in range. -/
theorem dispatched_rsp (hroom : 192 ≤ (s.entryStack rsp0).toNat) :
    ((dispatched S rsp0 vector errorCode s).rsp + 8).toNat =
      (dispatched S rsp0 vector errorCode s).rsp.toNat + 8 := by
  have hrsp := (dispatched_eq S vector errorCode hroom).2
  have hlt := (s.entryStack rsp0).toNat_lt
  have hlen : 23 ≤ (s.allWords S vector errorCode).length := by
    rw [allWords_length]
    split <;> decide
  refine toNat_add_of_lt ?_
  rw [show (8 : UInt64).toNat = 8 from rfl]
  omega

/-- Only the 192 bytes below the entry stack are written. -/
theorem dispatched_agree (hroom : 192 ≤ (s.entryStack rsp0).toNat) {lo hi : Nat}
    (hout : hi ≤ (s.entryStack rsp0).toNat - 192 ∨ (s.entryStack rsp0).toNat ≤ lo) :
    Mem.Agree s.mem (dispatched S rsp0 vector errorCode s).mem lo hi := by
  have hle : (s.allWords S vector errorCode).length ≤ 24 := allWords_length_le
  rw [(dispatched_eq S vector errorCode hroom).1]
  exact Mem.agree_pushWords (by omega) (by omega)

/-- RDI points to the structure. -/
theorem dispatched_frame (hroom : 192 ≤ (s.entryStack rsp0).toNat) :
    frameAt (dispatched S rsp0 vector errorCode s).mem
      ((dispatched S rsp0 vector errorCode s).regs .rdi).toNat =
        s.handedOver vector errorCode := by
  obtain ⟨-, hlast, hrdi, -⟩ :=
    exec_entry S vector (interrupted rsp0 vector errorCode s)
  have hat : (dispatched S rsp0 vector errorCode s).regs .rdi =
      (dispatched S rsp0 vector errorCode s).rsp + 8 := hrdi.trans (congrArg (· + 8) hlast.symm)
  have hholds := holds_dispatched S vector errorCode hroom
  rw [allWords_reverse] at hholds
  rw [hat, dispatched_rsp hroom]
  exact frameAt_of_holds hholds.2

/-- The stub returns to the interrupted code from whatever state has its words. -/
theorem dispatched_return (hroom : 192 ≤ (s.entryStack rsp0).toNat)
    (hagree : cpuErrorCode vector = hasErrorCode vector) {u : State}
    (hrsp : u.rsp = (dispatched S rsp0 vector errorCode s).rsp + 8)
    (hkept : Mem.Agree (dispatched S rsp0 vector errorCode s).mem u.mem
      ((dispatched S rsp0 vector errorCode s).rsp.toNat + 8) (s.entryStack rsp0).toNat) :
    exec u isrCommonStubReturn = { s with mem := u.mem } := by
  have hholds := holds_dispatched S vector errorCode hroom
  have hdown := (dispatched_eq S vector errorCode hroom).2
  have hlt := (s.entryStack rsp0).toNat_lt
  have hu : u.rsp.toNat = (dispatched S rsp0 vector errorCode s).rsp.toNat + 8 := by
    rw [hrsp, dispatched_rsp hroom]
  rw [allWords_length, if_pos hagree] at hdown
  rw [allWords_reverse, if_pos hagree, State.handedOver, if_pos hagree] at hholds
  refine isrCommonStubReturn_spec vector (if hasErrorCode vector then errorCode else 0)
    (by omega) ?_
  rw [hu]
  refine hholds.2.congr (hkept.mono (Nat.le_refl _) ?_)
  rw [show ∀ f : InterruptFrame, (f.words ++ [s.rsp, s.ss]).length = 22 from fun _ => rfl]
  omega

end Delivery

/-- **Into the dispatcher and back.**  Through any vector and from either ring, the
pushes stay within 192 bytes below the entry stack and `interrupt_dispatch` starts
with RDI at a structure with the interrupted context.  Its stack is aligned as the
ABI wants exactly when the entries and the CPU agree on the error code, and then the
stub's return gives the interrupted code its whole context back, whatever the handler
did to the rest.  For the vectors on which they disagree, RIP is read as the error
code, CS as RIP and RFLAGS as CS. -/
theorem interrupt_round_trip {S : Symbols} {rsp0 vector errorCode : UInt64} {s : State}
    (hroom : 192 ≤ (s.entryStack rsp0).toNat) :
    let top := (s.entryStack rsp0).toNat
    let t := dispatched S rsp0 vector errorCode s
    t.rip = S.interruptDispatch ∧
    (∀ lo hi, hi ≤ top - 192 ∨ top ≤ lo → Mem.Agree s.mem t.mem lo hi) ∧
    frameAt t.mem (t.regs .rdi).toNat = s.handedOver vector errorCode ∧
    (t.rsp.toNat % 16 = 8 ↔ cpuErrorCode vector = hasErrorCode vector) ∧
    (cpuErrorCode vector = hasErrorCode vector → ∀ u : State, u.rsp = t.rsp + 8 →
      Mem.Agree t.mem u.mem (t.rsp.toNat + 8) top →
        exec u isrCommonStubReturn = { s with mem := u.mem }) ∧
    (cpuErrorCode vector ≠ hasErrorCode vector ↔ vector = 21 ∨ vector = 29 ∨ vector = 30) := by
  intro top t
  have hrip : t.rip = S.interruptDispatch :=
    (exec_entry S vector (interrupted rsp0 vector errorCode s)).2.2.2
  refine ⟨hrip, fun lo hi => dispatched_agree hroom, dispatched_frame hroom, ?_,
    fun hagree u => dispatched_return hroom hagree, cpuErrorCode_ne_iff⟩
  have haligned := entryStack_aligned rsp0 s
  have hrsp : t.rsp.toNat = top - 8 * (s.allWords S vector errorCode).length :=
    (dispatched_eq S vector errorCode hroom).2
  rw [hrsp, allWords_length]
  by_cases hagree : cpuErrorCode vector = hasErrorCode vector
  · rw [if_pos hagree]
    exact iff_of_true (by omega) hagree
  · rw [if_neg hagree]
    exact iff_of_false (by omega) hagree

/-- A thread in ring 3 whose stack faults. -/
def faulting : State where
  regs := fun
    | .rax => 1
    | .rdi => 0x58
    | _ => 0
  rflags := 0x202
  rsp := 0x50002000
  rip := 0x5000000A
  cs := 0x1B
  ss := 0x23
  mem := fun _ => 0

def stubAt1M : Symbols where
  threadStart64 := 0x101000
  unlockAfterSwitch := 0x101100
  threadStart64Resume := 0x101010
  interruptDispatch := 0x101200
  isrCommonStubResume := 0x101400

theorem interrupt_round_trip_page_fault :
    let t := dispatched stubAt1M 0x242000 14 6 faulting
    frameAt t.mem (t.regs .rdi).toNat = faulting.frame 14 6 0x5000000A 0x1B 0x202 ∧
    exec { t with rsp := t.rsp + 8 } isrCommonStubReturn = { faulting with mem := t.mem } := by
  obtain ⟨-, -, hframe, -, hback, -⟩ :=
    @interrupt_round_trip stubAt1M 0x242000 14 6 faulting (by decide)
  exact ⟨hframe, hback (by decide) _ rfl (Mem.Agree.refl _ _ _)⟩

end NekaKernel.Context
