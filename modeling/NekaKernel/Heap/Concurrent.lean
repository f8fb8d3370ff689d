/-
  Heap/Concurrent.lean --- several CPUs in `kmalloc` and `kfree` at once.

  Source: `heap.c`, with `NKern_Lock` and `NKern_Unlock` of `nkern_lock.c` around
  the bodies.

  A call takes the index of its CPU, masks the interrupts, counts the section, spins on
  `big_kernel_lock` if it is the outermost one, and then makes its loads and stores one
  at a time; any other CPU may take a step before each of these.  While interrupts are
  on, the scheduler may put the code of a CPU away and resume other code there, also
  between the first two steps of a call: the counter is then another CPU's.  Sections
  nest, so a call may also come from a CPU that holds the lock already.  Code in a
  section is not put away, and no code is on two CPUs.

  A counter is stepped at once: with the interrupts masked, and with an index of its
  own, the CPU is the only one to touch it.

  `calls` is a note and read by no step: the calls in the order in which they got the
  lock, with the stores of the owners where they came.
-/
import Mathlib.Data.Sum.Basic
import Mathlib.Logic.Equiv.Basic
import NekaKernel.Heap.Footprint
import NekaKernel.Heap.World

set_option autoImplicit false

namespace NekaKernel.Heap

open NekaKernel.Foundation NekaKernel.Foundation.Program NekaKernel.Kernel

/-! ## Calls -/

/-- A call of `kmalloc` or `kfree`. -/
inductive Request where
  | kmalloc (n : Nat)
  | kfree (ptr : Nat)
  deriving DecidableEq, Repr

/-- The same call, made on one CPU alone. -/
def Request.call : Request → Call
  | .kmalloc n => .kmalloc n
  | .kfree ptr => .kfree ptr

/-- `kfree` ends without a value. -/
def endOfFree : Exit Unit → Exit Nat
  | .ret _ => .ret 0
  | .panic category code => .panic category code
  | .hang => .hang

/-- What the call does with the lock held, and how it ends. -/
def Request.body (heapList : Nat) : Request → Program (Exit Nat)
  | .kmalloc n => kmallocAccesses heapList n
  | .kfree ptr => endOfFree <$> kfreeAccesses ptr

/-- Where some code is; `none` stands for a section that is no call of the heap. -/
inductive Phase (κ : Type) where
  /-- Outside `NKern_Lock` and the calls, in a section or not. -/
  | running
  /-- In `NKern_Lock`, behind `cpu_idx()`. -/
  | indexed (i : κ) (request : Option Request)
  /-- Behind `cli`. -/
  | masked (i : κ) (request : Option Request)
  /-- In `spin_acquire`. -/
  | acquiring (request : Option Request)
  /-- Behind `NKern_Lock`, with the accesses still to make. -/
  | body (request : Request) (rest : Program (Exit Nat))
  /-- In `neka_panic`. -/
  | halted

/-- The call that is on its way to the lock. -/
def Phase.asks {κ : Type} : Phase κ → Option Request
  | .indexed _ request => request
  | .masked _ request => request
  | .acquiring request => request
  | _ => none

/-! ## The machine -/

/-- What the CPUs run and what is put away, the counters, `big_kernel_lock`, the heap,
and the pointers whose owners may use them. -/
structure SharedHeap (κ τ : Type) where
  bigKernelLock : Bool
  preemptDisableCount : κ → Nat
  phase : κ ⊕ τ → Phase κ
  heap : HeapState
  live : List (Nat × Nat)
  calls : List Call

/-- A step of one CPU. -/
inductive Act (κ τ : Type) where
  /-- `cpu_idx()` in the `NKern_Lock` of a section that is no call of the heap. -/
  | lock (c : κ)
  /-- A call of `kmalloc` or `kfree`, up to the same place. -/
  | call (c : κ) (request : Request)
  /-- `cli`. -/
  | cli (c : κ)
  /-- `preempt_disable_count[i]++`, and the test behind it. -/
  | count (c : κ)
  /-- One `__sync_lock_test_and_set`. -/
  | spin (c : κ)
  /-- One load or store of a body. -/
  | access (c : κ)
  /-- `NKern_Unlock`, and `return` or `neka_panic`. -/
  | finish (c : κ)
  /-- `NKern_Unlock` of a section that is no call of the heap. -/
  | unlock (c : κ)
  /-- The owner of `ptr` stores a byte. -/
  | store (c : κ) (ptr addr : Nat) (byte : UInt8)
  /-- The scheduler exchanges the code of the CPU for the code put away as `t`. -/
  | switch (c : κ) (t : τ)

namespace SharedHeap

section Machine

variable {κ τ : Type} [DecidableEq κ] [DecidableEq τ]

def pointers (s : SharedHeap κ τ) : List Nat := s.live.map Prod.fst

def setPhase (s : SharedHeap κ τ) (c : κ) (p : Phase κ) : SharedHeap κ τ :=
  { s with phase := Function.update s.phase (.inl c) p }

def setCount (s : SharedHeap κ τ) (c : κ) (n : Nat) : SharedHeap κ τ :=
  { s with preemptDisableCount := Function.update s.preemptDisableCount c n }

/-- `NKern_Unlock` on the counter and the lock. -/
def leave (s : SharedHeap κ τ) (c : κ) : SharedHeap κ τ :=
  let s := s.setCount c (s.preemptDisableCount c - 1)
  if s.preemptDisableCount c = 0 then { s with bigKernelLock := false } else s

/-- The call has the lock and goes to its body. -/
def enter (s : SharedHeap κ τ) (c : κ) (r : Request) : SharedHeap κ τ :=
  { s.setPhase c (.body r (r.body s.heap.heapList)) with calls := s.calls ++ [r.call] }

/-- Behind `NKern_Lock`. -/
def proceed (s : SharedHeap κ τ) (c : κ) : Option Request → SharedHeap κ τ
  | none => s.setPhase c .running
  | some r => s.enter c r

/-- A call that goes on to `NKern_Lock`.  `kmalloc(0)` and `kfree(NULL)` return at
once and change nothing; a pointer is freed by its owner. -/
def Accepts (s : SharedHeap κ τ) : Request → Prop
  | .kmalloc n => n ≠ 0 ∧ n < 2 ^ 64
  | .kfree ptr => ptr ∈ s.pointers

instance (s : SharedHeap κ τ) : (r : Request) → Decidable (s.Accepts r)
  | .kmalloc n => inferInstanceAs (Decidable (n ≠ 0 ∧ n < 2 ^ 64))
  | .kfree ptr => inferInstanceAs (Decidable (ptr ∈ s.pointers))

/-- From the call on the pointer is no longer the caller's. -/
def surrender (s : SharedHeap κ τ) : Request → SharedHeap κ τ
  | .kmalloc _ => s
  | .kfree ptr => { s with live := s.live.filter fun e => e.1 ≠ ptr }

/-- What the caller has when the call is over. -/
def settle (s : SharedHeap κ τ) (c : κ) : Request → Exit Nat → Option (SharedHeap κ τ)
  | .kmalloc n, .ret p => some { s.setPhase c .running with live := (p, n) :: s.live }
  | .kfree _, .ret _ => some (s.setPhase c .running)
  | _, .panic _ _ => some (s.setPhase c .halted)
  | _, .hang => none

/-- The code on the CPU has its interrupts on: it is in no section, and not behind
`cli`. -/
def Preemptible (s : SharedHeap κ τ) (c : κ) : Prop :=
  s.preemptDisableCount c = 0 ∧
    match s.phase (.inl c) with
    | .running => True
    | .indexed _ _ => True
    | _ => False

instance (s : SharedHeap κ τ) (c : κ) : Decidable (s.Preemptible c) := by
  unfold Preemptible
  split <;> infer_instance

/-- One step. -/
def step (s : SharedHeap κ τ) : Act κ τ → Option (SharedHeap κ τ)
  | .lock c =>
      match s.phase (.inl c) with
      | .running => some (s.setPhase c (.indexed c none))
      | _ => none
  | .call c r =>
      match s.phase (.inl c) with
      | .running =>
          if s.Accepts r then some ((s.surrender r).setPhase c (.indexed c (some r))) else none
      | _ => none
  | .cli c =>
      match s.phase (.inl c) with
      | .indexed i request => some (s.setPhase c (.masked i request))
      | _ => none
  | .count c =>
      match s.phase (.inl c) with
      | .masked i request =>
          let s := s.setCount i (s.preemptDisableCount i + 1)
          if s.preemptDisableCount i = 1 then some (s.setPhase c (.acquiring request))
          else some (s.proceed c request)
      | _ => none
  | .spin c =>
      match s.phase (.inl c) with
      | .acquiring request =>
          if s.bigKernelLock then some s
          else some ({ s with bigKernelLock := true }.proceed c request)
      | _ => none
  | .access c =>
      match s.phase (.inl c) with
      | .body r rest =>
          (rest.step s.heap.mem).map fun (rest, mem) =>
            { s.setPhase c (.body r rest) with heap := { s.heap with mem := mem } }
      | _ => none
  | .finish c =>
      match s.phase (.inl c) with
      | .body r (.done result) => (s.leave c).settle c r result
      | _ => none
  | .unlock c =>
      match s.phase (.inl c) with
      | .running => if 0 < s.preemptDisableCount c then some (s.leave c) else none
      | _ => none
  | .store c ptr addr byte =>
      match s.phase (.inl c) with
      | .running =>
          if ptr ∈ s.pointers ∧ ptr ≤ addr ∧
              addr < ptr + blockSizeOf s.heap.mem ptr - sizeofMagic then
            some { s with
              heap := { s.heap with mem := s.heap.mem.write addr 1 byte.toNat }
              calls := s.calls ++ [.store ptr addr byte] }
          else none
      | _ => none
  | .switch c t =>
      if s.Preemptible c then
        some { s with phase := s.phase ∘ Equiv.swap (Sum.inl c) (Sum.inr t) }
      else none

/-- After `heap_init`: nobody is in a section and nothing is allocated. -/
def Initial (A : Arena) (s : SharedHeap κ τ) : Prop :=
  ∃ m, s = ⟨false, fun _ => 0, fun _ => .running, heapInit A m, [], []⟩

/-- The guard of the runs: `cli` comes on the CPU whose index was read. -/
def OwnIndex (s : SharedHeap κ τ) : Act κ τ → Prop
  | .cli c => ∀ i request, s.phase (.inl c) = .indexed i request → i = c
  | _ => True

def Reachable (A : Arena) : SharedHeap κ τ → Prop := Reach (Initial A) step OwnIndex

end Machine

/-! ### What an update leaves alone -/

section Updates

variable {κ τ : Type} [DecidableEq κ] (s : SharedHeap κ τ) (c : κ)

@[simp] theorem setCount_phase (n : Nat) : (s.setCount c n).phase = s.phase := rfl
@[simp] theorem setCount_count (n : Nat) :
    (s.setCount c n).preemptDisableCount = Function.update s.preemptDisableCount c n := rfl
@[simp] theorem setCount_lock (n : Nat) :
    (s.setCount c n).bigKernelLock = s.bigKernelLock := rfl
@[simp] theorem setCount_heap (n : Nat) : (s.setCount c n).heap = s.heap := rfl
@[simp] theorem setCount_live (n : Nat) : (s.setCount c n).live = s.live := rfl
@[simp] theorem setCount_calls (n : Nat) : (s.setCount c n).calls = s.calls := rfl

@[simp] theorem leave_phase : (s.leave c).phase = s.phase := by
  unfold leave
  dsimp only
  split <;> rfl

@[simp] theorem leave_heap : (s.leave c).heap = s.heap := by
  unfold leave
  dsimp only
  split <;> rfl

@[simp] theorem leave_live : (s.leave c).live = s.live := by
  unfold leave
  dsimp only
  split <;> rfl

@[simp] theorem leave_calls : (s.leave c).calls = s.calls := by
  unfold leave
  dsimp only
  split <;> rfl

@[simp] theorem leave_count :
    (s.leave c).preemptDisableCount =
      Function.update s.preemptDisableCount c (s.preemptDisableCount c - 1) := by
  unfold leave
  dsimp only
  split <;> rfl

theorem leave_lock :
    (s.leave c).bigKernelLock =
      if s.preemptDisableCount c ≤ 1 then false else s.bigKernelLock := by
  unfold leave
  dsimp only
  rw [setCount_count, Function.update_self]
  rcases Nat.lt_or_ge 1 (s.preemptDisableCount c) with h | h
  · rw [if_neg (Nat.sub_ne_zero_of_lt h), if_neg (Nat.not_le_of_lt h)]
    rfl
  · rw [if_pos (Nat.sub_eq_zero_of_le h), if_pos h]

variable [DecidableEq τ]

@[simp] theorem setPhase_phase (p : Phase κ) :
    (s.setPhase c p).phase = Function.update s.phase (.inl c) p := rfl
@[simp] theorem setPhase_count (p : Phase κ) :
    (s.setPhase c p).preemptDisableCount = s.preemptDisableCount := rfl
@[simp] theorem setPhase_lock (p : Phase κ) :
    (s.setPhase c p).bigKernelLock = s.bigKernelLock := rfl
@[simp] theorem setPhase_heap (p : Phase κ) : (s.setPhase c p).heap = s.heap := rfl
@[simp] theorem setPhase_live (p : Phase κ) : (s.setPhase c p).live = s.live := rfl
@[simp] theorem setPhase_calls (p : Phase κ) : (s.setPhase c p).calls = s.calls := rfl

end Updates

section Surrender

variable {κ τ : Type} (s : SharedHeap κ τ)

@[simp] theorem surrender_phase (r : Request) : (s.surrender r).phase = s.phase := by
  cases r <;> rfl
@[simp] theorem surrender_count (r : Request) :
    (s.surrender r).preemptDisableCount = s.preemptDisableCount := by cases r <;> rfl
@[simp] theorem surrender_lock (r : Request) :
    (s.surrender r).bigKernelLock = s.bigKernelLock := by cases r <;> rfl
@[simp] theorem surrender_heap (r : Request) : (s.surrender r).heap = s.heap := by
  cases r <;> rfl
@[simp] theorem surrender_calls (r : Request) : (s.surrender r).calls = s.calls := by
  cases r <;> rfl

end Surrender

/-! ## What a step can do -/

section Rules

variable {κ τ : Type} [DecidableEq κ] [DecidableEq τ] {s s' : SharedHeap κ τ} {a : Act κ τ}

/-- A call behind `cpu_idx()`. -/
def request (s : SharedHeap κ τ) (c : κ) (r : Request) : SharedHeap κ τ :=
  (s.surrender r).setPhase c (.indexed c (some r))

/-- The steps of the runs, each with what it found. -/
inductive Rule (s : SharedHeap κ τ) : Act κ τ → SharedHeap κ τ → Prop
  | lock (c : κ) (hc : s.phase (.inl c) = .running) :
      Rule s (.lock c) (s.setPhase c (.indexed c none))
  | call (c : κ) (r : Request) (hc : s.phase (.inl c) = .running) (hr : s.Accepts r) :
      Rule s (.call c r) (s.request c r)
  | cli (c : κ) (q : Option Request) (hc : s.phase (.inl c) = .indexed c q) :
      Rule s (.cli c) (s.setPhase c (.masked c q))
  | outer (c i : κ) (q : Option Request) (hc : s.phase (.inl c) = .masked i q)
      (hcount : s.preemptDisableCount i = 0) :
      Rule s (.count c) ((s.setCount i 1).setPhase c (.acquiring q))
  | inner (c i : κ) (q : Option Request) (hc : s.phase (.inl c) = .masked i q)
      (hcount : 0 < s.preemptDisableCount i) :
      Rule s (.count c) ((s.setCount i (s.preemptDisableCount i + 1)).proceed c q)
  | wait (c : κ) : Rule s (.spin c) s
  | won (c : κ) (q : Option Request) (hc : s.phase (.inl c) = .acquiring q)
      (hlock : s.bigKernelLock = false) :
      Rule s (.spin c) ({ s with bigKernelLock := true }.proceed c q)
  | access (c : κ) (r : Request) (rest rest' : Program (Exit Nat)) (mem : Mem)
      (hc : s.phase (.inl c) = .body r rest)
      (hstep : rest.step s.heap.mem = some (rest', mem)) :
      Rule s (.access c)
        { s.setPhase c (.body r rest') with heap := { s.heap with mem := mem } }
  | finish (c : κ) (r : Request) (result : Exit Nat) (s' : SharedHeap κ τ)
      (hc : s.phase (.inl c) = .body r (.done result))
      (hs' : (s.leave c).settle c r result = some s') : Rule s (.finish c) s'
  | unlock (c : κ) (hc : s.phase (.inl c) = .running) (hcount : 0 < s.preemptDisableCount c) :
      Rule s (.unlock c) (s.leave c)
  | store (c : κ) (ptr addr : Nat) (byte : UInt8) (hptr : ptr ∈ s.pointers) (hlo : ptr ≤ addr)
      (hhi : addr < ptr + blockSizeOf s.heap.mem ptr - sizeofMagic) :
      Rule s (.store c ptr addr byte) { s with
        heap := { s.heap with mem := s.heap.mem.write addr 1 byte.toNat }
        calls := s.calls ++ [.store ptr addr byte] }
  | switch (c : κ) (t : τ)
      (hc : s.phase (.inl c) = .running ∨ ∃ i q, s.phase (.inl c) = .indexed i q)
      (hcount : s.preemptDisableCount c = 0) :
      Rule s (.switch c t) { s with phase := s.phase ∘ Equiv.swap (Sum.inl c) (Sum.inr t) }

theorem rule_of_step (hok : s.OwnIndex a) (h : s.step a = some s') : s.Rule a s' := by
  cases a with
  | lock c =>
    simp only [step] at h
    split at h
    · rename_i hc
      cases h
      exact .lock c hc
    · cases h
  | call c r =>
    simp only [step] at h
    split at h
    · rename_i hc
      split at h
      · rename_i hr
        cases h
        exact .call c r hc hr
      · cases h
    · cases h
  | cli c =>
    simp only [step] at h
    split at h
    · rename_i i q hc
      cases h
      obtain rfl : i = c := hok i q hc
      exact .cli i q hc
    · cases h
  | count c =>
    simp only [step] at h
    split at h
    · rename_i i q hc
      rw [setCount_count, Function.update_self] at h
      rcases Nat.eq_zero_or_pos (s.preemptDisableCount i) with hcount | hcount
      · rw [if_pos (by omega), hcount] at h
        cases h
        exact .outer c i q hc hcount
      · rw [if_neg (by omega)] at h
        cases h
        exact .inner c i q hc hcount
    · cases h
  | spin c =>
    simp only [step] at h
    split at h
    · rename_i q hc
      split at h
      · cases h
        exact .wait c
      · rename_i hlock
        cases h
        exact .won c q hc (by simpa using hlock)
    · cases h
  | access c =>
    simp only [step] at h
    split at h
    · rename_i r rest hc
      obtain ⟨⟨rest', mem⟩, hstep, rfl⟩ := Option.map_eq_some_iff.mp h
      exact .access c r rest rest' mem hc hstep
    · cases h
  | finish c =>
    simp only [step] at h
    split at h
    · rename_i r result hc
      exact .finish c r result s' hc h
    · cases h
  | unlock c =>
    simp only [step] at h
    split at h
    · rename_i hc
      split at h
      · rename_i hcount
        cases h
        exact .unlock c hc hcount
      · cases h
    · cases h
  | store c ptr addr byte =>
    simp only [step] at h
    split at h
    · split at h
      · rename_i hok
        cases h
        exact .store c ptr addr byte hok.1 hok.2.1 hok.2.2
      · cases h
    · cases h
  | switch c t =>
    simp only [step] at h
    split at h
    · rename_i hok
      cases h
      obtain ⟨hcount, hphase⟩ := hok
      refine .switch c t ?_ hcount
      split at hphase
      · rename_i hc
        exact .inl hc
      · rename_i i q hc
        exact .inr ⟨i, q, hc⟩
      · exact hphase.elim
    · cases h

end Rules

/-! ## One CPU at a time -/

section Exclusive

variable {κ τ : Type} {s s' : SharedHeap κ τ} {A : Arena} {c : κ}

/-- The CPU has counted a section and is past `spin_acquire`. -/
def Holds (s : SharedHeap κ τ) (c : κ) : Prop :=
  0 < s.preemptDisableCount c ∧ ∀ q, s.phase (.inl c) ≠ .acquiring q

/-- **Exclusion**: the lock is taken while a CPU is past `spin_acquire`, and one CPU
is. -/
structure Exclusion (s : SharedHeap κ τ) : Prop where
  acquiring : ∀ c q, s.phase (.inl c) = .acquiring q → s.preemptDisableCount c = 1
  body : ∀ c r rest, s.phase (.inl c) = .body r rest → 0 < s.preemptDisableCount c
  masked : ∀ c i q, s.phase (.inl c) = .masked i q → i = c
  away : ∀ t, s.phase (.inr t) = .running ∨ ∃ i q, s.phase (.inr t) = .indexed i q
  locked : ∀ c, s.Holds c → s.bigKernelLock = true
  one : ∀ c c', s.Holds c → s.Holds c' → c = c'

theorem exclusion_initial (h : Initial A s) : Exclusion s := by
  obtain ⟨m, rfl⟩ := h
  exact ⟨by simp, by simp, by simp, by simp, by simp [Holds], by simp [Holds]⟩

/-- A body is on a CPU, which is behind `spin_acquire`. -/
theorem Exclusion.holder (E : Exclusion s) {p : κ ⊕ τ} {r : Request}
    {rest : Program (Exit Nat)} (h : s.phase p = .body r rest) :
    ∃ c, p = .inl c ∧ s.Holds c := by
  cases p with
  | inl c => exact ⟨c, rfl, E.body c r rest h, by simp [h]⟩
  | inr t =>
    rcases E.away t with haway | ⟨i, q, haway⟩ <;> rw [h] at haway <;> cases haway

theorem Exclusion.body_unique (E : Exclusion s) {p p' : κ ⊕ τ} {r r' : Request}
    {rest rest' : Program (Exit Nat)} (h : s.phase p = .body r rest)
    (h' : s.phase p' = .body r' rest') : p = p' := by
  obtain ⟨c, rfl, hc⟩ := E.holder h
  obtain ⟨c', rfl, hc'⟩ := E.holder h'
  rw [E.one c c' hc hc']

/-- What a step of `c` does to the lock, the counter of `c` and its phase. -/
structure Exclusion.Move (s s' : SharedHeap κ τ) (c : κ) : Prop where
  others : ∀ d, d ≠ c → s'.phase (.inl d) = s.phase (.inl d) ∧
    s'.preemptDisableCount d = s.preemptDisableCount d
  away : ∀ t, s'.phase (.inr t) = .running ∨ ∃ i q, s'.phase (.inr t) = .indexed i q
  acquiring : ∀ q, s'.phase (.inl c) = .acquiring q → s'.preemptDisableCount c = 1
  body : ∀ r rest, s'.phase (.inl c) = .body r rest → 0 < s'.preemptDisableCount c
  masked : ∀ i q, s'.phase (.inl c) = .masked i q → i = c
  lock : s'.bigKernelLock = s.bigKernelLock ∧ (s'.Holds c → s.Holds c) ∨
    s.bigKernelLock = false ∧ s'.bigKernelLock = true ∨
    s.Holds c ∧ ¬ s'.Holds c

/-- **Step lemma**, for steps that change one CPU. -/
theorem Exclusion.move (E : Exclusion s) (h : Exclusion.Move s s' c) : Exclusion s' := by
  have hholds : ∀ d, d ≠ c → (s'.Holds d ↔ s.Holds d) := by
    intro d hd
    unfold Holds
    rw [(h.others d hd).1, (h.others d hd).2]
  have hone : ∀ d, d ≠ c → s'.Holds d → s'.Holds c → False := by
    intro d hd hhd hhc
    have hold := (hholds d hd).mp hhd
    rcases h.lock with ⟨-, hback⟩ | ⟨hfree, -⟩ | ⟨-, hnot⟩
    · exact hd (E.one d c hold (hback hhc))
    · rw [E.locked d hold] at hfree
      cases hfree
    · exact hnot hhc
  refine ⟨fun d q hd => ?_, fun d r rest hd => ?_, fun d i q hd => ?_, h.away, fun d hd => ?_,
    fun d d' hd hd' => ?_⟩
  · rcases eq_or_ne d c with rfl | hne
    · exact h.acquiring q hd
    · rw [(h.others d hne).1] at hd
      rw [(h.others d hne).2]
      exact E.acquiring d q hd
  · rcases eq_or_ne d c with rfl | hne
    · exact h.body r rest hd
    · rw [(h.others d hne).1] at hd
      rw [(h.others d hne).2]
      exact E.body d r rest hd
  · rcases eq_or_ne d c with rfl | hne
    · exact h.masked i q hd
    · rw [(h.others d hne).1] at hd
      exact E.masked d i q hd
  · rcases eq_or_ne d c with rfl | hne
    · rcases h.lock with ⟨hsame, hback⟩ | ⟨-, htaken⟩ | ⟨-, hnot⟩
      · exact hsame.trans (E.locked d (hback hd))
      · exact htaken
      · exact absurd hd hnot
    · have hold := (hholds d hne).mp hd
      rcases h.lock with ⟨hsame, -⟩ | ⟨-, htaken⟩ | ⟨hc, -⟩
      · exact hsame.trans (E.locked d hold)
      · exact htaken
      · exact absurd (E.one d c hold hc) hne
  · rcases eq_or_ne d c with rfl | hne
    · rcases eq_or_ne d' d with rfl | hne'
      · rfl
      · exact (hone d' hne' hd' hd).elim
    · rcases eq_or_ne d' c with rfl | hne'
      · exact (hone d hne hd hd').elim
      · exact E.one d d' ((hholds d hne).mp hd) ((hholds d' hne').mp hd')

end Exclusive

section Steps

variable {κ τ : Type} [DecidableEq κ] [DecidableEq τ] {s s' : SharedHeap κ τ} {A : Arena}
  {a : Act κ τ} {c : κ}

/-- A step that goes to a phase behind no `spin_acquire` and leaves the lock and the
counters alone. -/
theorem Exclusion.Move.at_phase (E : Exclusion s) (p : Phase κ)
    (hs' : s'.phase = Function.update s.phase (.inl c) p)
    (hcount : s'.preemptDisableCount = s.preemptDisableCount)
    (hlock : s'.bigKernelLock = s.bigKernelLock) (hp : ∀ q, p ≠ .acquiring q)
    (hbody : ∀ r rest, p = .body r rest → 0 < s.preemptDisableCount c)
    (hmasked : ∀ i q, p = .masked i q → i = c)
    (hc : ∀ q, s.phase (.inl c) ≠ .acquiring q) : Exclusion.Move s s' c := by
  refine ⟨fun d hd => ?_, fun t => ?_, fun q h => ?_, fun r rest h => ?_, fun i q h => ?_,
    .inl ⟨hlock, fun h => ⟨hcount ▸ h.1, hc⟩⟩⟩
  · rw [hs', hcount, Function.update_of_ne (Sum.inl_injective.ne hd)]
    exact ⟨rfl, rfl⟩
  · rw [hs', Function.update_of_ne Sum.inr_ne_inl]
    exact E.away t
  · rw [hs', Function.update_self] at h
    exact absurd h (hp q)
  · rw [hs', Function.update_self] at h
    rw [hcount]
    exact hbody r rest h
  · rw [hs', Function.update_self] at h
    exact hmasked i q h

/-- `NKern_Unlock`, and then code that is no call. -/
theorem Exclusion.Move.leave (E : Exclusion s) (p : Phase κ)
    (hs' : s'.phase = Function.update s.phase (.inl c) p)
    (hcount : s'.preemptDisableCount = (s.leave c).preemptDisableCount)
    (hlock : s'.bigKernelLock = (s.leave c).bigKernelLock) (hp : p = .running ∨ p = .halted)
    (hc : s.Holds c) : Exclusion.Move s s' c := by
  rw [leave_count] at hcount
  rw [leave_lock] at hlock
  refine ⟨fun d hd => ?_, fun t => ?_, fun q h => ?_, fun r rest h => ?_, fun i q h => ?_, ?_⟩
  · rw [hs', hcount, Function.update_of_ne (Sum.inl_injective.ne hd), Function.update_of_ne hd]
    exact ⟨rfl, rfl⟩
  · rw [hs', Function.update_of_ne Sum.inr_ne_inl]
    exact E.away t
  · rw [hs', Function.update_self] at h
    rcases hp with rfl | rfl <;> cases h
  · rw [hs', Function.update_self] at h
    rcases hp with rfl | rfl <;> cases h
  · rw [hs', Function.update_self] at h
    rcases hp with rfl | rfl <;> cases h
  · split at hlock
    · rename_i hle
      refine .inr (.inr ⟨hc, fun h => ?_⟩)
      have hpos := h.1
      rw [hcount, Function.update_self] at hpos
      omega
    · exact .inl ⟨hlock, fun _ => hc⟩

@[simp] theorem proceed_heap (s : SharedHeap κ τ) (c : κ) (q : Option Request) :
    (s.proceed c q).heap = s.heap := by cases q <;> rfl

@[simp] theorem proceed_live (s : SharedHeap κ τ) (c : κ) (q : Option Request) :
    (s.proceed c q).live = s.live := by cases q <;> rfl

theorem proceed_eq (s : SharedHeap κ τ) (c : κ) (q : Option Request) :
    ∃ p, (p = .running ∨ ∃ r, q = some r ∧ p = .body r (r.body s.heap.heapList)) ∧
      (s.proceed c q).phase = Function.update s.phase (.inl c) p ∧
      (s.proceed c q).preemptDisableCount = s.preemptDisableCount ∧
      (s.proceed c q).bigKernelLock = s.bigKernelLock := by
  cases q with
  | none => exact ⟨.running, .inl rfl, rfl, rfl, rfl⟩
  | some r => exact ⟨_, .inr ⟨r, rfl, rfl⟩, rfl, rfl, rfl⟩

/-- A CPU goes behind `NKern_Lock`, with its counter stepped and the lock taken or its
own. -/
theorem Exclusion.Move.proceed {t : SharedHeap κ τ} {q : Option Request} {n : Nat}
    (E : Exclusion s) (ht : t.phase = s.phase) (hs' : s' = t.proceed c q)
    (hcount : t.preemptDisableCount = Function.update s.preemptDisableCount c n) (hn : 0 < n)
    (hlock : t.bigKernelLock = s.bigKernelLock ∧ s.Holds c ∨
      s.bigKernelLock = false ∧ t.bigKernelLock = true) : Exclusion.Move s s' c := by
  obtain ⟨p, hp, hphase, hcount', hlock'⟩ := proceed_eq t c q
  rw [ht] at hphase
  rw [hcount] at hcount'
  rw [← hs'] at hphase hcount' hlock'
  have hnot : ∀ q, p ≠ .acquiring q := by
    intro q h
    rcases hp with rfl | ⟨r, -, rfl⟩ <;> cases h
  refine ⟨fun d hd => ?_, fun t' => ?_, fun q h => ?_, fun r rest _ => ?_, fun i q h => ?_, ?_⟩
  · rw [hphase, hcount', Function.update_of_ne (Sum.inl_injective.ne hd),
      Function.update_of_ne hd]
    exact ⟨rfl, rfl⟩
  · rw [hphase, Function.update_of_ne Sum.inr_ne_inl]
    exact E.away t'
  · rw [hphase, Function.update_self] at h
    exact absurd h (hnot q)
  · rw [hcount', Function.update_self]
    exact hn
  · rw [hphase, Function.update_self] at h
    rcases hp with rfl | ⟨r, -, rfl⟩ <;> cases h
  · rcases hlock with ⟨hsame, hc⟩ | ⟨hfree, htaken⟩
    · exact .inl ⟨hlock'.trans hsame, fun _ => hc⟩
    · exact .inr (.inl ⟨hfree, hlock'.trans htaken⟩)

theorem settle_eq {r : Request} {result : Exit Nat} (h : s.settle c r result = some s') :
    ∃ p, (p = .running ∨ p = .halted) ∧ s'.phase = Function.update s.phase (.inl c) p ∧
      s'.preemptDisableCount = s.preemptDisableCount ∧ s'.bigKernelLock = s.bigKernelLock ∧
      s'.heap = s.heap ∧ s'.calls = s.calls := by
  cases result with
  | ret p =>
    cases r <;> cases h <;> exact ⟨.running, .inl rfl, rfl, rfl, rfl, rfl, rfl⟩
  | panic category code =>
    cases r <;> cases h <;> exact ⟨.halted, .inr rfl, rfl, rfl, rfl, rfl, rfl⟩
  | hang => cases r <;> cases h

/-- What the scheduler does: the two exchanged codes are in no section. -/
theorem Exclusion.switch (E : Exclusion s) {t : τ}
    (hc : s.phase (.inl c) = .running ∨ ∃ i q, s.phase (.inl c) = .indexed i q)
    (hcount : s.preemptDisableCount c = 0) :
    Exclusion { s with phase := s.phase ∘ Equiv.swap (Sum.inl c) (Sum.inr t) } := by
  have hinl : ∀ d, d ≠ c →
      (s.phase ∘ Equiv.swap (Sum.inl c) (Sum.inr t)) (.inl d) = s.phase (.inl d) := fun d hd =>
    congrArg s.phase (Equiv.swap_apply_of_ne_of_ne (Sum.inl_injective.ne hd) Sum.inl_ne_inr)
  have hself : (s.phase ∘ Equiv.swap (Sum.inl c) (Sum.inr t)) (.inl c) = s.phase (.inr t) :=
    congrArg s.phase (Equiv.swap_apply_left _ _)
  have hholds : ∀ d, Holds { s with phase := s.phase ∘ Equiv.swap (Sum.inl c) (Sum.inr t) } d →
      s.Holds d := by
    rintro d ⟨hpos, hd⟩
    rcases eq_or_ne d c with rfl | hne
    · exact absurd hcount (Nat.ne_of_gt hpos)
    · exact ⟨hpos, fun q h => hd q ((hinl d hne).trans h)⟩
  have hquiet : ∀ p, (s.phase ∘ Equiv.swap (Sum.inl c) (Sum.inr t)) (.inl c) = p →
      p = .running ∨ ∃ i q, p = .indexed i q := by
    rintro p rfl
    rw [hself]
    exact E.away t
  refine ⟨fun d q hd => ?_, fun d r rest hd => ?_, fun d i q hd => ?_, fun t' => ?_,
    fun d hd => E.locked d (hholds d hd), fun d d' hd hd' =>
      E.one d d' (hholds d hd) (hholds d' hd')⟩
  · rcases eq_or_ne d c with rfl | hne
    · rcases hquiet _ hd with h | ⟨i, q, h⟩ <;> cases h
    · exact E.acquiring d q ((hinl d hne).symm.trans hd)
  · rcases eq_or_ne d c with rfl | hne
    · rcases hquiet _ hd with h | ⟨i, q, h⟩ <;> cases h
    · exact E.body d r rest ((hinl d hne).symm.trans hd)
  · rcases eq_or_ne d c with rfl | hne
    · rcases hquiet _ hd with h | ⟨i, q, h⟩ <;> cases h
    · exact E.masked d i q ((hinl d hne).symm.trans hd)
  · change s.phase (Equiv.swap (Sum.inl c) (Sum.inr t) (Sum.inr t')) = _ ∨ _
    rcases eq_or_ne t' t with rfl | hne
    · simpa [Equiv.swap_apply_right] using hc
    · simpa [Equiv.swap_apply_of_ne_of_ne Sum.inr_ne_inl (Sum.inr_injective.ne hne)]
        using E.away t'

/-- **Step lemma.** -/
theorem Exclusion.step (E : Exclusion s) (h : s.Rule a s') : Exclusion s' := by
  cases h with
  | lock c hc =>
    exact E.move (.at_phase E _ rfl rfl rfl (by simp) (by simp) (by simp) (by simp [hc]))
  | call c r hc hr =>
    refine E.move (c := c) (.at_phase E (.indexed c (some r)) ?_ ?_ ?_ (by simp) (by simp)
      (by simp) (by simp [hc])) <;> simp [request]
  | cli c q hc =>
    refine E.move (.at_phase E _ rfl rfl rfl (by simp) (by simp) ?_ (by simp [hc]))
    intro i q' h
    cases h
    rfl
  | outer c i q hc hcount =>
    obtain rfl := E.masked c i q hc
    refine E.move (c := i) ⟨fun d hd => ?_, fun t => ?_, fun q' h => ?_, fun r rest h => ?_,
      fun i' q' h => ?_, .inl ⟨rfl, fun h => ?_⟩⟩
    · simp [hd]
    · simpa using E.away t
    · simp
    · simp at h
    · simp at h
    · exact absurd (Function.update_self ..) (h.2 q)
  | inner c i q hc hcount =>
    obtain rfl := E.masked c i q hc
    exact E.move (.proceed (t := s.setCount i (s.preemptDisableCount i + 1)) E rfl rfl rfl
      (Nat.succ_pos _) (.inl ⟨rfl, hcount, by simp [hc]⟩))
  | wait c => exact E
  | won c q hc hlock =>
    have hcount := E.acquiring c q hc
    refine E.move (.proceed (t := { s with bigKernelLock := true }) (n := 1) E rfl rfl ?_
      (by decide) (.inr ⟨hlock, rfl⟩))
    rw [← hcount, Function.update_eq_self]
  | access c r rest rest' mem hc hstep =>
    exact E.move (.at_phase E (.body r rest') rfl rfl rfl (by simp)
      (fun _ _ _ => E.body c r rest hc) (by simp) (by simp [hc]))
  | finish c r result s' hc hs' =>
    obtain ⟨p, hp, hphase, hcount, hlock, -, -⟩ := settle_eq hs'
    rw [leave_phase] at hphase
    exact E.move (.leave E p hphase hcount hlock hp ⟨E.body c r _ hc, by simp [hc]⟩)
  | unlock c hc hcount =>
    refine E.move (.leave E .running ?_ rfl rfl (.inl rfl) ⟨hcount, by simp [hc]⟩)
    rw [leave_phase, ← hc, Function.update_eq_self]
  | store c ptr addr byte => exact ⟨E.acquiring, E.body, E.masked, E.away, E.locked, E.one⟩
  | switch c t hc hcount => exact E.switch hc hcount

end Steps

end SharedHeap

end NekaKernel.Heap
