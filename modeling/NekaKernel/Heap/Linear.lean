/-
  Heap/Linear.lean --- the calls of several CPUs are calls made one after the other.

  Source: `heap.c`, under the lock of `nkern_lock.c`.

  A call takes effect when it gets the lock: from there on its result is settled and
  the accesses still to make lead to the heap it leaves.  The owners of other blocks
  may store in the meantime, because no call goes where they keep their bytes.
-/
import NekaKernel.Heap.Concurrent
import NekaKernel.Heap.WellFormed

set_option autoImplicit false

namespace NekaKernel.Heap

open NekaKernel.Foundation NekaKernel.Foundation.Program NekaKernel.Kernel

/-! ## What the owners keep -/

/-- The bytes of the used blocks with these pointers that no call goes to: the size
field and the payload behind the magic word. -/
def Kept (l : List Seg) (ptrs : List Nat) (x : Nat) : Prop :=
  ∃ c ∈ usedSegs l, payload c ∈ ptrs ∧ (c.start ≤ x ∧ x < c.start + 8 ∨
    payload c ≤ x ∧ x < c.start + sizeofBlock + c.size)

section Kept

variable {A : Arena} {w : World} {l l' : List Seg} {ptrs ptrs' : List Nat} {x : Nat}

theorem Kept.mono (h : Kept l ptrs x) (hle : ∀ p ∈ ptrs, p ∈ ptrs') : Kept l ptrs' x := by
  obtain ⟨c, hc, hp, hx⟩ := h
  exact ⟨c, hc, hle _ hp, hx⟩

theorem Kept.owned (h : Kept l ptrs x)
    (hsub : ∀ c ∈ usedSegs l, payload c ∈ ptrs → c ∈ usedSegs l') :
    Owned l' x := by
  obtain ⟨c, hc, hp, hx⟩ := h
  obtain ⟨hmem, hu⟩ := mem_usedSegs.mp (hsub c hc hp)
  exact ⟨c, hmem, hu, hx⟩

end Kept

/-! ## One call, from its place in the sequence -/

/-- How a call ends, and what it does to the live pointers. -/
inductive Outcome (w : World) : Request → World → Exit Nat → Prop
  | allocated (n p : Nat) (h : HeapState) (hp : p ∉ w.pointers) :
      Outcome w (.kmalloc n) ⟨h, (p, n) :: w.live⟩ (.ret p)
  | outOfMemory (n : Nat) : Outcome w (.kmalloc n) w (.panic .HEAP panicHeapOom)
  | freed (ptr : Nat) (h : HeapState) :
      Outcome w (.kfree ptr) ⟨h, w.live.filter fun e => e.1 ≠ ptr⟩ (.ret 0)

/-- **What a body does**: what the call does at once, around what the owners of `ptrs`
keep. -/
structure Effect (A : Arena) (w : World) (ptrs : List Nat) (r : Request) (w' : World)
    (l' : List Seg) (result : Exit Nat) : Prop where
  step : w.step r.call = some w'
  inv : WorldInv A w' l'
  heapList : w'.heap.heapList = w.heap.heapList
  run : (r.body w.heap.heapList).run w.heap.mem = (result, w'.heap.mem)
  avoids : (r.body w.heap.heapList).Avoids (Kept l' ptrs) w.heap.mem
  outcome : Outcome w r w' result

section Effect

variable {A : Arena} {w : World} {l : List Seg} {ptrs : List Nat} {n ptr : Nat}

/-- What was live stays so, but for the pointer that is freed. -/
theorem Outcome.mem_live {w' : World} {r : Request} {result : Exit Nat} {e : Nat × Nat}
    (O : Outcome w r w' result) (he : e ∈ w.live) (hne : r ≠ .kfree e.1) : e ∈ w'.live := by
  cases O with
  | allocated n p h hp => exact List.mem_cons_of_mem _ he
  | outOfMemory n => exact he
  | freed ptr h =>
    exact List.mem_filter.mpr ⟨he, decide_eq_true fun heq => hne (congrArg _ heq.symm)⟩

/-- And what is live was so, or is what `kmalloc` returns. -/
theorem Outcome.of_mem_live {w' : World} {r : Request} {result : Exit Nat} {e : Nat × Nat}
    (O : Outcome w r w' result) (he : e ∈ w'.live) :
    e ∈ w.live ∧ r ≠ .kfree e.1 ∨ r = .kmalloc e.2 ∧ result = .ret e.1 := by
  cases O with
  | allocated n p h hp =>
    rcases List.mem_cons.mp he with rfl | he
    · exact .inr ⟨rfl, rfl⟩
    · exact .inl ⟨he, fun heq => by cases heq⟩
  | outOfMemory n => exact .inl ⟨he, fun heq => by cases heq⟩
  | freed ptr h =>
    obtain ⟨he, hne⟩ := List.mem_filter.mp he
    exact .inl ⟨he, fun heq => of_decide_eq_true hne (Request.kfree.inj heq).symm⟩

theorem Outcome.fresh {w' : World} {p : Nat} (O : Outcome w (.kmalloc n) w' (.ret p)) :
    (p, n) ∈ w'.live ∧ p ∉ w.pointers := by
  cases O with
  | allocated n p h hp => exact ⟨List.mem_cons_self, hp⟩

/-- The bodies are the functions of the allocator. -/
theorem run_kmalloc_body (hn : n ≠ 0) (s : HeapState) :
    ((Request.kmalloc n).body s.heapList).run s.mem = ((kmalloc s n).1, (kmalloc s n).2.mem) :=
  run_kmallocAccesses hn

theorem run_kfree_body (hptr : ptr ≠ 0) (s : HeapState) :
    ((Request.kfree ptr).body s.heapList).run s.mem =
      (endOfFree (kfree s ptr).1, (kfree s ptr).2.mem) := by
  have hrun := run_kfreeAccesses (m := s.mem) s.heapList hptr
  rw [Request.body, map_eq_pure_bind, run_bind, hrun]
  rfl

/-- A used block that the allocation has not made was there before it. -/
theorem WorldInv.used_before {w' : World} {pre post : List Seg} {b : Seg}
    (I' : WorldInv A w' (pre ++ (carve b (totalNeeded n) ++ post))) (hu : b.used = false)
    (hle : totalNeeded n ≤ b.size) (hlive : w'.live = (payload b, n) :: w.live) {c : Seg}
    (hc : c ∈ usedSegs (pre ++ (carve b (totalNeeded n) ++ post)))
    (hp : payload c ∈ w.pointers) :
    c ∈ usedSegs (pre ++ b :: post) := by
  obtain ⟨z, -, hold, hnew⟩ := usedSegs_after_carve pre post hu hle
  rw [hnew] at hc
  rw [hold]
  simp only [List.mem_append, List.mem_cons] at hc ⊢
  rcases hc with hc | rfl | hc
  · exact .inl hc
  · have hnodup := I'.nodup
    rw [World.pointers, hlive, List.map_cons, List.nodup_cons] at hnodup
    exact absurd hp hnodup.1
  · exact .inr hc

/-- **`kmalloc`** -/
theorem WorldInv.kmalloc_effect (I : WorldInv A w l) (hn : n ≠ 0) (hn64 : n < 2 ^ 64)
    (hptrs : ∀ p ∈ ptrs, p ∈ w.pointers) :
    ∃ w' l' result, Effect A w ptrs (.kmalloc n) w' l' result := by
  have hrun := run_kmalloc_body hn w.heap
  have havoids := I.rep.kmalloc_avoids n
  rcases kmalloc_spec I.rep hn with ⟨-, hoom⟩ | ⟨pre, b, post, h', rfl, hu, hle, -, hok, R⟩
  · rw [hoom] at hrun
    refine ⟨w, l, _, ?_, I, rfl, hrun, havoids.mono fun x hx => hx.owned fun c hc _ => hc,
      .outOfMemory n⟩
    rw [Request.call, World.step, if_pos hn64, hoom]
  · have I' := I.kmalloc hn hn64 hu hle R
    have hp : payload b ≠ 0 := by
      unfold payload sizeofBlock
      omega
    have hfresh : payload b ∉ w.pointers := (List.nodup_cons.mp I'.nodup).1
    rw [hok] at hrun
    refine ⟨_, _, _, ?_, I', R.list.trans I.rep.list.symm, hrun, havoids.mono fun x hx => ?_,
      .allocated n _ h' hfresh⟩
    · rw [Request.call, World.step, if_pos hn64, hok]
      exact congrArg some (congrArg (World.mk h') (if_neg hp))
    · exact hx.owned fun c hc hpc => I'.used_before hu hle rfl hc (hptrs _ hpc)

/-- **`kfree`** -/
theorem WorldInv.kfree_effect (I : WorldInv A w l) (hptr : ptr ∈ w.pointers)
    (hptrs : ∀ p ∈ ptrs, p ≠ ptr) :
    ∃ w' l' result, Effect A w ptrs (.kfree ptr) w' l' result := by
  obtain ⟨pre, b, post, rfl, hu, rfl⟩ := I.find_block hptr
  obtain ⟨h', hok, R⟩ := kfree_spec I.rep hu
  have hp : payload b ≠ 0 := by
    unfold payload sizeofBlock
    omega
  have hrun := run_kfree_body hp w.heap
  have havoids := I.rep.kfree_avoids hu
  rw [show payload b = b.start + sizeofBlock + sizeofMagic from rfl, hok] at hrun
  refine ⟨_, _, _, ?_, I.kfree hu R, R.list.trans I.rep.list.symm, hrun, ?_,
    .freed (payload b) h'⟩
  · rw [Request.call, World.step, if_pos hptr,
      show payload b = b.start + sizeofBlock + sizeofMagic from rfl, hok]
  · have hbody : (Request.kfree (payload b)).body w.heap.heapList =
      endOfFree <$> kfreeAccesses (payload b) := rfl
    rw [hbody, map_eq_pure_bind]
    refine Avoids.bind (havoids.mono fun x hx => ?_) (avoids_pure _)
    refine hx.owned fun c hc hpc => ?_
    obtain ⟨hold, hne⟩ := (mem_usedSegs_release I.rep.tiles hu c).mp hc
    obtain ⟨hmem, hcu⟩ := mem_usedSegs.mp hold
    refine mem_usedSegs.mpr ⟨?_, hcu⟩
    simp only [List.mem_append, List.mem_cons] at hmem ⊢
    rcases hmem with hpre | hb | hpost
    · exact .inl hpre
    · exact absurd hb hne
    · exact .inr (.inr hpost)

/-- The owner's store. -/
theorem WorldInv.store_step {addr : Nat} (byte : UInt8) (I : WorldInv A w l)
    (hptr : ptr ∈ w.pointers) (hlo : ptr ≤ addr)
    (hhi : addr < ptr + blockSizeOf w.heap.mem ptr - sizeofMagic) :
    ∃ w', w' = ⟨{ w.heap with mem := w.heap.mem.write addr 1 byte.toNat }, w.live⟩ ∧
      w.step (.store ptr addr byte) = some w' ∧ WorldInv A w' l ∧
      ∀ ptrs, ptr ∈ ptrs → Kept l ptrs addr := by
  refine ⟨_, rfl, ?_, ?_⟩
  · rw [World.step, if_pos ⟨hptr, hlo, hhi⟩]
  · obtain ⟨pre, b, post, rfl, hu, rfl⟩ := I.find_block hptr
    rw [(linked_mid.mp I.rep.linked).2.1.blockSizeOf_eq] at hhi
    have hend : addr < b.start + sizeofBlock + b.size := by
      unfold payload at *
      omega
    refine ⟨⟨I.rep.store hlo hend, I.live, I.nodup, I.asked⟩, fun ptrs hmem => ?_⟩
    exact ⟨b, mem_usedSegs.mpr ⟨by simp, hu⟩, hmem, .inr ⟨hlo, hend⟩⟩

end Effect

/-! ## The shared heap and the sequence -/

namespace SharedHeap

/-- A call in its body, with the sequence already past it. -/
structure Underway {κ τ : Type} (s : SharedHeap κ τ) (w : World) (l : List Seg) (r : Request)
    (rest : Program (Exit Nat)) : Prop where
  mem : (rest.run s.heap.mem).2 = w.heap.mem
  avoids : rest.Avoids (Kept l s.pointers) s.heap.mem
  allocated : ∀ n p, r = .kmalloc n → (rest.run s.heap.mem).1 = .ret p →
    (p, n) ∈ w.live ∧ p ∉ s.pointers ∧ ∀ c, (s.phase c).asks ≠ some (.kfree p)

/-- **The relation** between the shared heap and the calls in a row. -/
structure Linearized {κ τ : Type} (A : Arena) (s : SharedHeap κ τ) (w : World)
    (l : List Seg) : Prop where
  run : ∃ w₀, World.Initial A w₀ ∧ exec World.step w₀ s.calls = some w
  inv : WorldInv A w l
  heapList : s.heap.heapList = w.heap.heapList
  quiet : (∀ c r rest, s.phase c ≠ .body r rest) → s.heap.mem = w.heap.mem
  body : ∀ c r rest, s.phase c = .body r rest → Underway s w l r rest
  live : ∀ e ∈ s.live, e ∈ w.live
  asks : ∀ c n, (s.phase c).asks = some (.kmalloc n) → n ≠ 0 ∧ n < 2 ^ 64
  freeing : ∀ c ptr, (s.phase c).asks = some (.kfree ptr) → ptr ∈ w.pointers ∧ ptr ∉ s.pointers
  once : ∀ c d ptr, (s.phase c).asks = some (.kfree ptr) →
    (s.phase d).asks = some (.kfree ptr) →
    c = d
  accounted : ∀ e ∈ w.live, e ∈ s.live ∨ (∃ c, (s.phase c).asks = some (.kfree e.1)) ∨
    ∃ c rest, s.phase c = .body (.kmalloc e.2) rest ∧ (rest.run s.heap.mem).1 = .ret e.1

section Relation

variable {κ τ : Type} {A : Arena} {s s' : SharedHeap κ τ} {w : World} {l : List Seg} {c : κ}

theorem linearized_initial (h : Initial A s) : ∃ w l, Linearized A s w l := by
  obtain ⟨m, rfl⟩ := h
  have hinit : World.Initial A ⟨heapInit A m, []⟩ := ⟨m, rfl⟩
  refine ⟨_, _, ⟨_, hinit, rfl⟩, worldInv_init hinit, rfl, fun _ => rfl, ?_, ?_, ?_, ?_, ?_, ?_⟩
    <;>
    simp [Phase.asks]

theorem Linearized.pointers (L : Linearized A s w l) {p : Nat} (hp : p ∈ s.pointers) :
    p ∈ w.pointers := by
  obtain ⟨e, he, rfl⟩ := List.mem_map.mp hp
  exact List.mem_map_of_mem (L.live e he)

/-- What a waiting call would do now. -/
theorem Linearized.effect (L : Linearized A s w l) {r : Request}
    (hc : (s.phase (.inl c)).asks = some r) :
    ∃ w' l' result, Effect A w s.pointers r w' l' result := by
  cases r with
  | kmalloc n =>
    obtain ⟨hn, hn64⟩ := L.asks _ n hc
    exact L.inv.kmalloc_effect hn hn64 fun p hp => L.pointers hp
  | kfree ptr =>
    obtain ⟨hp, hnot⟩ := L.freeing _ ptr hc
    exact L.inv.kfree_effect hp fun p hp heq => hnot (heq ▸ hp)

/-- Steps that concern neither the heap nor a call of it. -/
theorem Linearized.same (L : Linearized A s w l) (hheap : s'.heap = s.heap)
    (hlive : s'.live = s.live) (hcalls : s'.calls = s.calls)
    (hbody : ∀ c r rest, s'.phase c = .body r rest ↔ s.phase c = .body r rest)
    (hasks : ∀ c, (s'.phase c).asks = (s.phase c).asks) : Linearized A s' w l := by
  have hptr : s'.pointers = s.pointers := congrArg (List.map Prod.fst) hlive
  constructor
  · rw [hcalls]
    exact L.run
  · exact L.inv
  · rw [hheap]
    exact L.heapList
  · intro h
    rw [hheap]
    exact L.quiet fun c r rest hc => h c r rest ((hbody c r rest).mpr hc)
  · intro c r rest hc
    obtain ⟨hmem, havoids, halloc⟩ := L.body c r rest ((hbody c r rest).mp hc)
    refine ⟨by rw [hheap]; exact hmem, by rw [hheap, hptr]; exact havoids, fun n p hr hp => ?_⟩
    rw [hheap] at hp
    obtain ⟨hlive, hnot, hfree⟩ := halloc n p hr hp
    exact ⟨hlive, hptr ▸ hnot, fun d hd => hfree d (hasks d ▸ hd)⟩
  · rw [hlive]
    exact L.live
  · exact fun c n hc => L.asks c n (hasks c ▸ hc)
  · intro c ptr hc
    rw [hptr]
    exact L.freeing c ptr (hasks c ▸ hc)
  · exact fun c d ptr hc hd => L.once c d ptr (hasks c ▸ hc) (hasks d ▸ hd)
  · intro e he
    rw [hlive, hheap]
    rcases L.accounted e he with h | ⟨d, hd⟩ | ⟨d, rest, hd, hret⟩
    · exact .inl h
    · exact .inr (.inl ⟨d, (hasks d).trans hd⟩)
    · exact .inr (.inr ⟨d, rest, (hbody d _ _).mpr hd, hret⟩)

/-- What is put away and what runs is told apart by no heap. -/
theorem Linearized.permuted (L : Linearized A s w l) (σ : Equiv.Perm (κ ⊕ τ)) :
    Linearized A { s with phase := s.phase ∘ σ } w l := by
  refine ⟨L.run, L.inv, L.heapList, fun h => L.quiet fun c r rest hc => ?_,
    fun c r rest hc => ?_, L.live, fun c => L.asks (σ c), fun c => L.freeing (σ c),
    fun c d ptr hc hd => σ.injective (L.once _ _ ptr hc hd), fun e he => ?_⟩
  · refine h (σ.symm c) r rest ?_
    change s.phase (σ (σ.symm c)) = _
    rw [σ.apply_symm_apply]
    exact hc
  · obtain ⟨hmem, havoids, halloc⟩ := L.body (σ c) r rest hc
    refine ⟨hmem, havoids, fun n p hr hp => ?_⟩
    obtain ⟨hlive, hnot, hfree⟩ := halloc n p hr hp
    exact ⟨hlive, hnot, fun d => hfree (σ d)⟩
  · rcases L.accounted e he with h | ⟨d, hd⟩ | ⟨d, rest, hd, hret⟩
    · exact .inl h
    · exact .inr (.inl ⟨σ.symm d, by simpa using hd⟩)
    · exact .inr (.inr ⟨σ.symm d, rest, by simpa using hd, hret⟩)

/-- The size of a live block reads the same while a call is under way. -/
theorem Linearized.blockSizeOf_eq (L : Linearized A s w l) {ptr : Nat}
    (hptr : ptr ∈ s.pointers) :
    blockSizeOf s.heap.mem ptr = blockSizeOf w.heap.mem ptr := by
  by_cases hbody : ∃ c r rest, s.phase c = .body r rest
  · obtain ⟨c, r, rest, hc⟩ := hbody
    obtain ⟨hmem, havoids, -⟩ := L.body c r rest hc
    obtain ⟨b, hb, rfl⟩ := (L.inv.live ptr).mp (L.pointers hptr)
    have hstart : payload b - sizeofMagic - sizeofBlock = b.start := by
      unfold payload
      omega
    unfold blockSizeOf
    rw [hstart, ← hmem]
    refine (Mem.read_congr fun x hlo hhi => ?_).symm
    exact havoids.run_at ⟨b, hb, hptr, .inl ⟨hlo, hhi⟩⟩
  · rw [L.quiet fun c r rest hc => hbody ⟨c, r, rest, hc⟩]

/-- An owner stores, whatever the others do. -/
theorem Linearized.store (L : Linearized A s w l) {ptr addr : Nat} (byte : UInt8)
    (hptr : ptr ∈ s.pointers) (hlo : ptr ≤ addr)
    (hhi : addr < ptr + blockSizeOf s.heap.mem ptr - sizeofMagic) :
    ∃ w', Linearized A { s with
      heap := { s.heap with mem := s.heap.mem.write addr 1 byte.toNat }
      calls := s.calls ++ [.store ptr addr byte] } w' l := by
  rw [L.blockSizeOf_eq hptr] at hhi
  obtain ⟨w', rfl, hstep, I', hkept⟩ := L.inv.store_step byte (L.pointers hptr) hlo hhi
  have hkept : Kept l s.pointers addr := hkept _ hptr
  have hrun : ∀ c r rest, s.phase c = .body r rest → _ := fun c r rest hc =>
    (L.body c r rest hc).avoids.run_write hkept byte.toNat
  refine ⟨_, ?_, I', L.heapList, ?_, ?_, L.live, L.asks, L.freeing, L.once, ?_⟩
  · obtain ⟨w₀, hinit, hold⟩ := L.run
    refine ⟨w₀, hinit, ?_⟩
    dsimp only
    rw [exec_append, hold, Option.bind_some, exec, hstep]
    rfl
  · intro h
    exact congrArg (fun m : Mem => m.write addr 1 byte.toNat) (L.quiet h)
  · intro c r rest hc
    obtain ⟨hres, havoids⟩ := hrun c r rest hc
    obtain ⟨hmem, -, halloc⟩ := L.body c r rest hc
    refine ⟨?_, havoids, fun n p hr hp => halloc n p hr ?_⟩
    · dsimp only
      rw [hres, hmem]
    · dsimp only at hp
      rw [hres] at hp
      exact hp
  · intro e he
    rcases L.accounted e he with h | h | ⟨c, rest, hc, hret⟩
    · exact .inl h
    · exact .inr (.inl h)
    · refine .inr (.inr ⟨c, rest, hc, ?_⟩)
      dsimp only
      rw [(hrun c _ rest hc).1]
      exact hret

/-- The block of a live pointer, as its owner sees it. -/
theorem Linearized.block (L : Linearized A s w l) {ptr : Nat} (hptr : ptr ∈ s.pointers) :
    ∃ b ∈ usedSegs l, payload b = ptr ∧ blockSizeOf s.heap.mem ptr = b.size := by
  obtain ⟨b, hb, rfl⟩ := (L.inv.live ptr).mp (L.pointers hptr)
  obtain ⟨pre, post, rfl⟩ := List.append_of_mem (mem_usedSegs.mp hb).1
  refine ⟨b, hb, rfl, ?_⟩
  rw [L.blockSizeOf_eq hptr]
  exact (linked_mid.mp L.inv.rep.linked).2.1.blockSizeOf_eq

/-- A store of one owner is outside the block of any other. -/
theorem Linearized.store_apart (L : Linearized A s w l) {ptr addr y : Nat} {b : Seg}
    (hptr : ptr ∈ s.pointers) (hlo : ptr ≤ addr)
    (hhi : addr < ptr + blockSizeOf s.heap.mem ptr - sizeofMagic) (hb : b ∈ usedSegs l)
    (hy : b.start ≤ y ∧ y < b.start + sizeofBlock + b.size) (hne : payload b ≠ ptr) :
    addr ≠ y := by
  obtain ⟨c, hc, rfl⟩ := (L.inv.live ptr).mp (L.pointers hptr)
  obtain ⟨hbl, -⟩ := mem_usedSegs.mp hb
  obtain ⟨hcl, -⟩ := mem_usedSegs.mp hc
  obtain ⟨pre, post, rfl⟩ := List.append_of_mem hcl
  rw [L.blockSizeOf_eq hptr, (linked_mid.mp L.inv.rep.linked).2.1.blockSizeOf_eq] at hhi
  have hapart := L.inv.rep.tiles.apart_of_ne hbl hcl fun h => hne (h ▸ rfl)
  unfold payload at hlo hhi
  omega

variable [DecidableEq κ] [DecidableEq τ]

theorem phase_update_iff {c : κ ⊕ τ} {p q : Phase κ} (hold : s.phase c ≠ q) (hnew : p ≠ q)
    (d : κ ⊕ τ) : Function.update s.phase c p d = q ↔ s.phase d = q := by
  rcases eq_or_ne d c with rfl | hne
  · rw [Function.update_self]
    exact ⟨fun h => absurd h hnew, fun h => absurd h hold⟩
  · rw [Function.update_of_ne hne]

theorem asks_update {c : κ ⊕ τ} {p : Phase κ} (h : p.asks = (s.phase c).asks) (d : κ ⊕ τ) :
    (Function.update s.phase c p d).asks = (s.phase d).asks := by
  rcases eq_or_ne d c with rfl | hne
  · rw [Function.update_self, h]
  · rw [Function.update_of_ne hne]

theorem request_phase (r : Request) :
    (s.request c r).phase = Function.update s.phase (.inl c) (.indexed c (some r)) := by
  simp [SharedHeap.request]

theorem request_heap (r : Request) : (s.request c r).heap = s.heap := by
  simp [SharedHeap.request]

theorem request_calls (r : Request) : (s.request c r).calls = s.calls := by
  simp [SharedHeap.request]

/-- Who frees a pointer has it no longer; the others keep theirs. -/
theorem mem_request_live {r : Request} {e : Nat × Nat} :
    e ∈ (s.request c r).live ↔ e ∈ s.live ∧ r ≠ .kfree e.1 := by
  cases r with
  | kmalloc n => exact ⟨fun h => ⟨h, fun heq => by cases heq⟩, And.left⟩
  | kfree ptr =>
    refine List.mem_filter.trans (and_congr_right fun _ => ?_)
    rw [decide_eq_true_eq, Ne, Ne, Request.kfree.injEq, eq_comm]

theorem mem_request_pointers {r : Request} {p : Nat} (hp : p ∈ (s.request c r).pointers) :
    p ∈ s.pointers ∧ r ≠ .kfree p := by
  obtain ⟨e, he, rfl⟩ := List.mem_map.mp hp
  obtain ⟨hlive, hne⟩ := mem_request_live.mp he
  exact ⟨List.mem_map_of_mem hlive, hne⟩

theorem asks_request {r r' : Request} {d : κ ⊕ τ}
    (hd : ((s.request c r).phase d).asks = some r') :
    d = .inl c ∧ r' = r ∨ d ≠ .inl c ∧ (s.phase d).asks = some r' := by
  rw [request_phase] at hd
  rcases eq_or_ne d (.inl c) with rfl | hne
  · rw [Function.update_self] at hd
    cases hd
    exact .inl ⟨rfl, rfl⟩
  · rw [Function.update_of_ne hne] at hd
    exact .inr ⟨hne, hd⟩

/-- A call before it has the lock. -/
theorem Linearized.request (L : Linearized A s w l) {r : Request}
    (hc : s.phase (.inl c) = .running) (hr : s.Accepts r) :
    Linearized A (s.request c r) w l := by
  have hbody : ∀ d r' rest,
      (s.request c r).phase d = .body r' rest ↔ s.phase d = .body r' rest := by
    intro d r' rest
    rw [request_phase]
    exact phase_update_iff (by simp [hc]) (by simp) d
  -- the pointer that is freed was the caller's, so nobody else frees it
  have hown : ∀ d ptr, r = .kfree ptr → (s.phase d).asks ≠ some (.kfree ptr) := by
    rintro d ptr rfl hd
    exact (L.freeing d ptr hd).2 hr
  constructor
  · rw [request_calls]
    exact L.run
  · exact L.inv
  · rw [request_heap]
    exact L.heapList
  · intro h
    rw [request_heap]
    exact L.quiet fun d r' rest hd => h d r' rest ((hbody d r' rest).mpr hd)
  · intro d r' rest hd
    obtain ⟨hmem, havoids, halloc⟩ := L.body d r' rest ((hbody d r' rest).mp hd)
    refine ⟨by rw [request_heap]; exact hmem, ?_, fun n p hr' hp => ?_⟩
    · rw [request_heap]
      exact havoids.mono fun x hx => hx.mono fun p hp => (mem_request_pointers hp).1
    · rw [request_heap] at hp
      obtain ⟨hlive, hnot, hfree⟩ := halloc n p hr' hp
      refine ⟨hlive, fun h => hnot (mem_request_pointers h).1, fun d' hd' => ?_⟩
      rcases asks_request hd' with ⟨-, rfl⟩ | ⟨-, hold⟩
      · exact hnot hr
      · exact hfree d' hold
  · exact fun e he => L.live e (mem_request_live.mp he).1
  · intro d n hd
    rcases asks_request hd with ⟨-, rfl⟩ | ⟨-, hold⟩
    · exact hr
    · exact L.asks d n hold
  · intro d ptr hd
    rcases asks_request hd with ⟨-, rfl⟩ | ⟨-, hold⟩
    · exact ⟨L.pointers hr, fun h => (mem_request_pointers h).2 rfl⟩
    · obtain ⟨hp, hnot⟩ := L.freeing d ptr hold
      exact ⟨hp, fun h => hnot (mem_request_pointers h).1⟩
  · intro d d' ptr hd hd'
    rcases asks_request hd with ⟨rfl, hr'⟩ | ⟨-, hold⟩ <;>
      rcases asks_request hd' with ⟨rfl, hr''⟩ | ⟨-, hold'⟩
    · rfl
    · exact absurd hold' (hown d' ptr hr'.symm)
    · exact absurd hold (hown d ptr hr''.symm)
    · exact L.once d d' ptr hold hold'
  · intro e he
    rw [request_heap]
    rcases L.accounted e he with h | ⟨d, hd⟩ | ⟨d, rest, hd, hret⟩
    · rcases eq_or_ne r (.kfree e.1) with rfl | hne
      · exact .inr (.inl ⟨.inl c, by rw [request_phase, Function.update_self]; rfl⟩)
      · exact .inl (mem_request_live.mpr ⟨h, hne⟩)
    · refine .inr (.inl ⟨d, ?_⟩)
      rw [request_phase, Function.update_of_ne (fun h => by simp [h, hc, Phase.asks] at hd)]
      exact hd
    · exact .inr (.inr ⟨d, rest, (hbody d _ _).mpr hd, hret⟩)

theorem enter_phase (r : Request) :
    (s.enter c r).phase =
      Function.update s.phase (.inl c) (.body r (r.body s.heap.heapList)) := rfl

theorem asks_enter {r r' : Request} {d : κ ⊕ τ} :
    ((s.enter c r).phase d).asks = some r' ↔ d ≠ .inl c ∧ (s.phase d).asks = some r' := by
  rw [enter_phase]
  rcases eq_or_ne d (.inl c) with rfl | hne
  · simp [Phase.asks]
  · simp [hne]

theorem body_enter {r r' : Request} {rest : Program (Exit Nat)} {d : κ ⊕ τ}
    (hnone : ∀ d r' rest, s.phase d ≠ .body r' rest)
    (hd : (s.enter c r).phase d = .body r' rest) :
    r' = r ∧ rest = r.body s.heap.heapList := by
  rw [enter_phase] at hd
  rcases eq_or_ne d (.inl c) with rfl | hne
  · rw [Function.update_self] at hd
    cases hd
    exact ⟨rfl, rfl⟩
  · rw [Function.update_of_ne hne] at hd
    exact absurd hd (hnone d r' rest)

/-- **A call gets the lock**: in the sequence it happens now. -/
theorem Linearized.enter (L : Linearized A s w l) {r : Request}
    (hc : (s.phase (.inl c)).asks = some r) (hnone : ∀ d r' rest, s.phase d ≠ .body r' rest) :
    ∃ w' l', Linearized A (s.enter c r) w' l' := by
  obtain ⟨w', l', result, X⟩ := L.effect hc
  have hmem : s.heap.mem = w.heap.mem := L.quiet hnone
  have hrun : (r.body s.heap.heapList).run s.heap.mem = (result, w'.heap.mem) := by
    rw [L.heapList, hmem]
    exact X.run
  refine ⟨w', l', ?_, X.inv, L.heapList.trans X.heapList.symm, ?_, ?_, ?_, ?_, ?_, ?_, ?_⟩
  · obtain ⟨w₀, hinit, hexec⟩ := L.run
    refine ⟨w₀, hinit, ?_⟩
    change exec World.step w₀ (s.calls ++ [r.call]) = some w'
    rw [exec_append, hexec, Option.bind_some, exec, X.step]
    rfl
  · exact fun h => absurd (Function.update_self ..) (h (.inl c) r (r.body s.heap.heapList))
  · intro d r' rest hd
    obtain ⟨rfl, rfl⟩ := body_enter hnone hd
    refine ⟨congrArg Prod.snd hrun, ?_, fun n p hr hp => ?_⟩
    · change Avoids (Kept l' s.pointers) _ s.heap.mem
      rw [L.heapList, hmem]
      exact X.avoids
    · obtain rfl : result = .ret p := (congrArg Prod.fst hrun).symm.trans hp
      obtain ⟨hnew, hnot⟩ := (hr ▸ X.outcome).fresh
      refine ⟨hnew, fun h => hnot (L.pointers h), fun d' hd' => ?_⟩
      exact hnot (L.freeing d' _ (asks_enter.mp hd').2).1
  · intro e he
    refine X.outcome.mem_live (L.live e he) fun heq => ?_
    exact (L.freeing _ e.1 (heq ▸ hc)).2 (List.mem_map_of_mem he)
  · exact fun d n hd => L.asks d n (asks_enter.mp hd).2
  · intro d ptr hd
    obtain ⟨hne, hold⟩ := asks_enter.mp hd
    obtain ⟨hptr, hnot⟩ := L.freeing d ptr hold
    obtain ⟨e, he, rfl⟩ := List.mem_map.mp hptr
    refine ⟨List.mem_map_of_mem (X.outcome.mem_live he fun heq => hne ?_), hnot⟩
    exact L.once d _ e.1 hold (heq ▸ hc)
  · exact fun d d' ptr hd hd' => L.once d d' ptr (asks_enter.mp hd).2 (asks_enter.mp hd').2
  · intro e he
    rcases X.outcome.of_mem_live he with ⟨he, hne⟩ | ⟨hr, hret⟩
    · rcases L.accounted e he with h | ⟨d, hd⟩ | ⟨d, rest, hd, -⟩
      · exact .inl h
      · refine .inr (.inl ⟨d, asks_enter.mpr ⟨fun heq => hne ?_, hd⟩⟩)
        exact Option.some.inj (hc.symm.trans (heq ▸ hd))
      · exact absurd hd (hnone d _ rest)
    · subst hr
      refine .inr (.inr ⟨.inl c, _, Function.update_self .., ?_⟩)
      exact (congrArg Prod.fst hrun).trans hret

/-- One access of the body. -/
theorem Linearized.access (L : Linearized A s w l) (E : Exclusion s) {r : Request}
    {rest rest' : Program (Exit Nat)} {mem : Mem} (hc : s.phase (.inl c) = .body r rest)
    (hstep : rest.step s.heap.mem = some (rest', mem)) :
    Linearized A { s.setPhase c (.body r rest') with
      heap := { s.heap with mem := mem } } w l := by
  have hrun := run_of_step hstep
  obtain ⟨hmem, havoids, halloc⟩ := L.body _ r rest hc
  have hasks : ∀ d, (Function.update s.phase (.inl c) (.body r rest') d).asks =
      (s.phase d).asks := asks_update (by simp [hc, Phase.asks])
  constructor
  · exact L.run
  · exact L.inv
  · exact L.heapList
  · exact fun h => absurd (Function.update_self ..) (h (.inl c) r rest')
  · intro d r' rest₁ hd
    change Function.update s.phase (.inl c) (.body r rest') d = _ at hd
    rcases eq_or_ne d (.inl c) with rfl | hne
    · rw [Function.update_self] at hd
      cases hd
      refine ⟨hrun ▸ hmem, havoids.step hstep, fun n p hr hp => ?_⟩
      change (rest'.run mem).1 = _ at hp
      rw [hrun] at hp
      obtain ⟨hlive, hnot, hfree⟩ := halloc n p hr hp
      exact ⟨hlive, hnot, fun d' hd' => hfree d' (hasks d' ▸ hd')⟩
    · rw [Function.update_of_ne hne] at hd
      exact absurd (E.body_unique hd hc) hne
  · exact L.live
  · exact fun d n hd => L.asks d n (hasks d ▸ hd)
  · exact fun d ptr hd => L.freeing d ptr (hasks d ▸ hd)
  · exact fun d d' ptr hd hd' => L.once d d' ptr (hasks d ▸ hd) (hasks d' ▸ hd')
  · intro e he
    rcases L.accounted e he with h | ⟨d, hd⟩ | ⟨d, rest₁, hd, hret⟩
    · exact .inl h
    · exact .inr (.inl ⟨d, (hasks d).trans hd⟩)
    · obtain rfl : d = .inl c := E.body_unique hd hc
      rw [hc] at hd
      cases hd
      refine .inr (.inr ⟨.inl c, rest', Function.update_self .., ?_⟩)
      change (rest'.run mem).1 = _
      rw [hrun]
      exact hret

/-- The caller of `kmalloc` has what it returned. -/
theorem mem_settle_live {r : Request} {result : Exit Nat} {e : Nat × Nat}
    (hs' : s.settle c r result = some s') :
    e ∈ s'.live ↔ e ∈ s.live ∨ r = .kmalloc e.2 ∧ result = .ret e.1 := by
  cases result with
  | ret p =>
    cases r with
    | kmalloc n =>
      cases hs'
      refine List.mem_cons.trans (or_comm.trans (or_congr_right ?_))
      rw [Prod.ext_iff, Request.kmalloc.injEq, Exit.ret.injEq, and_comm, eq_comm, @eq_comm _ p]
    | kfree ptr =>
      cases hs'
      exact ⟨.inl, fun h => h.resolve_right fun ⟨heq, _⟩ => by cases heq⟩
  | panic category code =>
    cases r <;> cases hs' <;>
      exact ⟨.inl, fun h => h.resolve_right fun ⟨_, heq⟩ => by cases heq⟩
  | hang => cases r <;> cases hs'

/-- The call is over: what it settled is what its caller has. -/
theorem Linearized.finish (L : Linearized A s w l) (E : Exclusion s) {r : Request}
    {result : Exit Nat} (hc : s.phase (.inl c) = .body r (.done result))
    (hs' : (s.leave c).settle c r result = some s') :
    Linearized A s' w l := by
  obtain ⟨p, hp, hphase, -, -, hheap, hcalls⟩ := settle_eq hs'
  rw [leave_phase] at hphase
  rw [leave_heap] at hheap
  rw [leave_calls] at hcalls
  obtain ⟨hmem, -, halloc⟩ := L.body _ r _ hc
  have hnone : ∀ d r' rest, s'.phase d ≠ .body r' rest := by
    intro d r' rest hd
    rw [hphase] at hd
    rcases eq_or_ne d (.inl c) with rfl | hne
    · rw [Function.update_self] at hd
      rcases hp with rfl | rfl <;> cases hd
    · rw [Function.update_of_ne hne] at hd
      exact hne (E.body_unique hd hc)
  have hasks : ∀ d, (s'.phase d).asks = (s.phase d).asks := by
    rw [hphase]
    refine asks_update ?_
    rcases hp with rfl | rfl <;> simp [hc, Phase.asks]
  have hlive : ∀ e, e ∈ s'.live ↔ e ∈ s.live ∨ r = .kmalloc e.2 ∧ result = .ret e.1 := by
    intro e
    rw [mem_settle_live hs', leave_live]
  constructor
  · rw [hcalls]
    exact L.run
  · exact L.inv
  · rw [hheap]
    exact L.heapList
  · intro _
    rw [hheap]
    exact hmem
  · exact fun d r' rest hd => absurd hd (hnone d r' rest)
  · intro e he
    rcases (hlive e).mp he with hold | ⟨hr, hq⟩
    · exact L.live e hold
    · exact (halloc e.2 e.1 hr hq).1
  · exact fun d n hd => L.asks d n (hasks d ▸ hd)
  · intro d ptr hd
    have hold := (hasks d).symm.trans hd
    obtain ⟨hptr, hnot⟩ := L.freeing d ptr hold
    refine ⟨hptr, fun h => ?_⟩
    obtain ⟨e, he, rfl⟩ := List.mem_map.mp h
    rcases (hlive e).mp he with he | ⟨hr, hq⟩
    · exact hnot (List.mem_map_of_mem he)
    · exact (halloc e.2 e.1 hr hq).2.2 d hold
  · exact fun d d' ptr hd hd' => L.once d d' ptr (hasks d ▸ hd) (hasks d' ▸ hd')
  · intro e he
    rcases L.accounted e he with h | ⟨d, hd⟩ | ⟨d, rest, hd, hret⟩
    · exact .inl ((hlive e).mpr (.inl h))
    · exact .inr (.inl ⟨d, (hasks d).trans hd⟩)
    · obtain rfl : d = .inl c := E.body_unique hd hc
      rw [hc] at hd
      cases hd
      exact .inl ((hlive e).mpr (.inr ⟨rfl, hret⟩))

/-- Behind `NKern_Lock`. -/
theorem Linearized.proceed (L : Linearized A s w l) {q : Option Request}
    (hc : (s.phase (.inl c)).asks = q) (hnone : ∀ d r rest, s.phase d ≠ .body r rest) :
    ∃ w' l', Linearized A (s.proceed c q) w' l' := by
  cases q with
  | none =>
    refine ⟨w, l, L.same rfl rfl rfl (fun d r rest => ?_) (asks_update hc.symm)⟩
    exact phase_update_iff (hnone _ r rest) (by simp) d
  | some r => exact L.enter hc hnone

/-- **Step lemma.** -/
theorem Linearized.step {a : Act κ τ} (L : Linearized A s w l) (E : Exclusion s)
    (h : s.Rule a s') : ∃ w' l', Linearized A s' w' l' := by
  cases h with
  | lock c hc =>
    refine ⟨w, l, L.same rfl rfl rfl (fun d r rest => ?_)
      (asks_update (by simp [hc, Phase.asks]))⟩
    exact phase_update_iff (by simp [hc]) (by simp) d
  | call c r hc hr => exact ⟨w, l, L.request hc hr⟩
  | cli c q hc =>
    refine ⟨w, l, L.same rfl rfl rfl (fun d r rest => ?_)
      (asks_update (by simp [hc, Phase.asks]))⟩
    exact phase_update_iff (by simp [hc]) (by simp) d
  | outer c i q hc hcount =>
    refine ⟨w, l, L.same rfl rfl rfl (fun d r rest => ?_)
      (asks_update (by simp [hc, Phase.asks]))⟩
    exact phase_update_iff (by simp [hc]) (by simp) d
  | inner c i q hc hcount =>
    obtain rfl := E.masked c i q hc
    have L' : Linearized A (s.setCount i (s.preemptDisableCount i + 1)) w l :=
      L.same rfl rfl rfl (fun _ _ _ => Iff.rfl) fun _ => rfl
    refine L'.proceed (by simp [hc, Phase.asks]) fun d r rest hd => ?_
    obtain ⟨d, rfl, hholds⟩ := E.holder hd
    obtain rfl := E.one d i hholds ⟨hcount, by simp [hc]⟩
    rw [setCount_phase, hc] at hd
    cases hd
  | wait c => exact ⟨w, l, L⟩
  | won c q hc hlock =>
    have L' : Linearized A { s with bigKernelLock := true } w l :=
      L.same rfl rfl rfl (fun _ _ _ => Iff.rfl) fun _ => rfl
    refine L'.proceed (by simp [hc, Phase.asks]) fun d r rest hd => ?_
    obtain ⟨d, rfl, hholds⟩ := E.holder hd
    rw [E.locked d hholds] at hlock
    cases hlock
  | access c r rest rest' mem hc hstep => exact ⟨w, l, L.access E hc hstep⟩
  | finish c r result s' hc hs' => exact ⟨w, l, L.finish E hc hs'⟩
  | unlock c hc hcount =>
    refine ⟨w, l, L.same (leave_heap s c) (leave_live s c) (leave_calls s c)
      (fun d r rest => ?_)
      fun d => ?_⟩ <;> rw [leave_phase]
  | store c ptr addr byte hptr hlo hhi =>
    obtain ⟨w', L'⟩ := L.store byte hptr hlo hhi
    exact ⟨w', l, L'⟩
  | switch c t hc hcount => exact ⟨w, l, L.permuted _⟩

/-- **Run lemma.** -/
theorem linearized_of_reach (h : Reachable A s) : ∃ w l, Linearized A s w l := by
  have hboth : Exclusion s ∧ ∃ w l, Linearized A s w l := by
    refine h.invariant (P := fun s => Exclusion s ∧ ∃ w l, Linearized A s w l) ?_ ?_
    · exact fun s hs => ⟨exclusion_initial hs, linearized_initial hs⟩
    · rintro s a s' ⟨E, w, l, L⟩ hok hs
      exact ⟨E.step (rule_of_step hok hs), L.step E (rule_of_step hok hs)⟩
  exact hboth.2

/-- **The calls of several CPUs are calls made one after the other.**  In every state
that an interleaving reaches in which each `NKern_Lock` masks the interrupts on the CPU
whose index it has read, the calls that have had the lock, in that order and with the
stores where they came, are a run of the allocator on one CPU.  What is live is live in
that run; a call in its body is on its way to the heap of that run, and when none is in
its body the heap is that heap. -/
theorem heap_calls_linearize (h : Reachable A s) :
    ∃ w₀ w, World.Initial A w₀ ∧ exec World.step w₀ s.calls = some w ∧
      (∀ e ∈ s.live, e ∈ w.live) ∧
      (∀ c r rest, s.phase c = .body r rest → (rest.run s.heap.mem).2 = w.heap.mem) ∧
      ((∀ c r rest, s.phase c ≠ .body r rest) → s.heap = w.heap ∧
        ∃ bs, blockList s.heap = some bs ∧ WellFormed A s.heap bs) ∧
      ((∀ c, s.phase c = .running ∨ s.phase c = .halted) → ∀ e, e ∈ w.live ↔ e ∈ s.live) := by
  obtain ⟨w, l, L⟩ := linearized_of_reach h
  obtain ⟨w₀, hinit, hrun⟩ := L.run
  refine ⟨w₀, w, hinit, hrun, L.live, fun c r rest hc => (L.body c r rest hc).mem,
    fun hnone => ?_, fun hidle e => ?_⟩
  · have hheap : s.heap = w.heap := congrArg₂ HeapState.mk L.heapList (L.quiet hnone)
    rw [hheap]
    exact ⟨rfl, _, L.inv.rep.blockList_eq, L.inv.rep.wellFormed⟩
  · refine ⟨fun he => ?_, L.live e⟩
    rcases L.accounted e he with hlive | ⟨c, hc⟩ | ⟨c, rest, hc, -⟩
    · exact hlive
    · rcases hidle c with hp | hp <;> rw [hp] at hc <;> cases hc
    · rcases hidle c with hp | hp <;> rw [hp] at hc <;> cases hc

/-- While CPU 0 is in `kmalloc(100)` CPU 1 waits; the code there was put away behind
`cpu_idx()` and came back.  The heap will be the one after `kmalloc(100)` alone. -/
theorem heap_calls_linearize_two_cpus :
    ∃ s : SharedHeap (Fin 2) Unit, s.phase (.inl 1) = .acquiring (some (.kmalloc 50)) ∧
      ∃ w₀ w, World.Initial arenaAt2M w₀ ∧ World.step w₀ (.kmalloc 100) = some w ∧
        ∀ r rest, s.phase (.inl 0) = .body r rest →
          (rest.run s.heap.mem).2 = w.heap.mem := by
  have h₀ : @Reachable (Fin 2) Unit _ _ arenaAt2M _ := Reach.start ⟨fun _ => 0, rfl⟩
  have h₁ : Reachable arenaAt2M _ := Reach.step h₀ trivial (a := .call 1 (.kmalloc 50)) rfl
  have h₂ : Reachable arenaAt2M _ := Reach.step h₁ trivial (a := .switch 1 ()) rfl
  have h₃ : Reachable arenaAt2M _ := Reach.step h₂ trivial (a := .call 0 (.kmalloc 100)) rfl
  have h₄ : Reachable arenaAt2M _ := Reach.step h₃ (by rintro _ _ ⟨⟩; rfl) (a := .cli 0) rfl
  have h₅ : Reachable arenaAt2M _ := Reach.step h₄ trivial (a := .count 0) rfl
  have h₆ : Reachable arenaAt2M _ := Reach.step h₅ trivial (a := .spin 0) rfl
  have h₇ : Reachable arenaAt2M _ := Reach.step h₆ trivial (a := .switch 1 ()) rfl
  have h₈ : Reachable arenaAt2M _ := Reach.step h₇ (by rintro _ _ ⟨⟩; rfl) (a := .cli 1) rfl
  have h₉ : Reachable arenaAt2M _ := Reach.step h₈ trivial (a := .count 1) rfl
  obtain ⟨w₀, w, hinit, hrun, -, hbody, -⟩ := heap_calls_linearize h₉
  refine ⟨_, ?_, w₀, w, hinit, ?_, hbody (.inl 0)⟩
  · rfl
  · obtain ⟨w', hw', hend⟩ := Option.bind_eq_some_iff.mp hrun
    cases hend
    exact hw'

/-! ## The bytes of an allocation -/

/-- **Step lemma** for a byte that the owner of `ptr` keeps. -/
theorem Linearized.kept_step {a : Act κ τ} {ptr y : Nat} (L : Linearized A s w l)
    (hptr : ptr ∈ s.pointers) (hy : Kept l [ptr] y) (hstore : ∀ c byte, a ≠ .store c ptr y byte)
    (h : s.Rule a s') :
    s'.heap.mem y = s.heap.mem y := by
  cases h with
  | lock | cli | outer | wait | switch => rfl
  | unlock c => rw [leave_heap]
  | call c r => simp [SharedHeap.request]
  | inner c i q => simp
  | won c q => simp
  | access c r rest rest' mem hc hstep =>
    refine (L.body _ r rest hc).avoids.step_at hstep (hy.mono fun p hp => ?_)
    rw [List.mem_singleton.mp hp]
    exact hptr
  | finish c r result s' hc hs' =>
    obtain ⟨-, -, -, -, -, hheap, -⟩ := settle_eq hs'
    rw [hheap, leave_heap]
  | store c ptr' addr byte hptr' hlo hhi =>
    have hne : addr ≠ y := by
      obtain ⟨b, hb, hp, hrange⟩ := hy
      rw [List.mem_singleton] at hp
      rcases eq_or_ne ptr' ptr with rfl | hother
      · exact fun heq => hstore c byte (heq ▸ rfl)
      · refine L.store_apart hptr' hlo hhi hb ?_ fun h => hother (h.symm.trans hp)
        unfold payload at hrange
        unfold sizeofBlock at *
        omega
    exact Mem.write_outside (by omega)

/-- A pointer stays live unless it is given to `kfree`. -/
theorem live_step {a : Act κ τ} {e : Nat × Nat} (he : e ∈ s.live)
    (hfree : ∀ c, a ≠ .call c (.kfree e.1)) (h : s.Rule a s') : e ∈ s'.live := by
  cases h with
  | lock | cli | outer | wait | switch | access | store => exact he
  | inner c i q => simpa using he
  | won c q => simpa using he
  | unlock c =>
    rw [leave_live]
    exact he
  | call c r => exact mem_request_live.mpr ⟨he, fun hr => hfree c (hr ▸ rfl)⟩
  | finish c r result s' hc hs' =>
    rw [← leave_live s c] at he
    exact (mem_settle_live hs').mpr (.inl he)

/-- **An allocation is its owner's.**  Over any interleaving of the CPUs in which each
`NKern_Lock` masks the interrupts on the CPU whose index it has read, with calls under
way at both ends, a byte of a live allocation changes only by a store of the owner, and
the allocation stays live and as large as it was until it is given to `kfree`. -/
theorem live_byte_kept {acts : List (Act κ τ)} {e : Nat × Nat} {x : Nat} (h : Reachable A s)
    (he : e ∈ s.live) (hx : e.1 ≤ x ∧ x < e.1 + blockSizeOf s.heap.mem e.1 - sizeofMagic)
    (hfree : ∀ c, .call c (.kfree e.1) ∉ acts) (hstore : ∀ c byte, .store c e.1 x byte ∉ acts)
    (hown : Guarded step OwnIndex s acts) (hrun : exec step s acts = some s') :
    e ∈ s'.live ∧ blockSizeOf s'.heap.mem e.1 = blockSizeOf s.heap.mem e.1 ∧
      s'.heap.mem x = s.heap.mem x := by
  induction acts generalizing s with
  | nil =>
    cases hrun
    exact ⟨he, rfl, rfl⟩
  | cons a rest ih =>
    obtain ⟨mid, hmid, hrest⟩ := Option.bind_eq_some_iff.mp hrun
    obtain ⟨hok, hnext⟩ := hown
    have hrule := rule_of_step hok hmid
    obtain ⟨w, l, L⟩ := linearized_of_reach h
    have hptr : e.1 ∈ s.pointers := List.mem_map_of_mem he
    obtain ⟨b, hb, hp, hsize⟩ := L.block hptr
    have hbyte : ∀ y, (b.start ≤ y ∧ y < b.start + 8 ∨ payload b ≤ y ∧
      y < b.start + sizeofBlock + b.size) →
        (∀ c byte, a ≠ .store c e.1 y byte) → mid.heap.mem y = s.heap.mem y := by
      intro y hy hno
      exact L.kept_step hptr ⟨b, hb, List.mem_singleton.mpr hp, hy⟩ hno hrule
    have hsame : mid.heap.mem x = s.heap.mem x := by
      refine hbyte x (.inr ?_) fun c byte heq => hstore c byte (heq ▸ List.mem_cons_self)
      rw [hsize] at hx
      unfold payload at *
      omega
    -- the owner does not store to the size field: it is in front of the pointer
    have hsizeMid : blockSizeOf mid.heap.mem e.1 = blockSizeOf s.heap.mem e.1 := by
      have hfield : e.1 - sizeofMagic - sizeofBlock = b.start := by
        unfold payload at hp
        omega
      unfold blockSizeOf
      rw [hfield]
      refine Mem.read_congr fun y hlo hhi => hbyte y (.inl ⟨hlo, hhi⟩) fun c byte heq => ?_
      subst heq
      cases hrule with
      | store _ _ _ _ _ hle _ =>
        unfold payload sizeofBlock at hp
        omega
    have heMid : e ∈ mid.live :=
      live_step he (fun c heq => hfree c (heq ▸ List.mem_cons_self)) hrule
    rw [← hsizeMid] at hx
    obtain ⟨hlive, hblock, hmem⟩ := ih (Reach.step h hok hmid) heMid hx
      (fun c hc => hfree c (List.mem_cons_of_mem _ hc))
      (fun c byte hc => hstore c byte (List.mem_cons_of_mem _ hc)) (hnext mid hmid) hrest
    exact ⟨hlive, hblock.trans hsizeMid, hmem.trans hsame⟩

/-! ## Undisturbed -/

/-- The body of `c` has made its last access. -/
def afterBody (s : SharedHeap κ τ) (c : κ) (r : Request) (rest : Program (Exit Nat)) :
    SharedHeap κ τ :=
  { s.setPhase c (.body r (.done (rest.run s.heap.mem).1)) with
    heap := { s.heap with mem := (rest.run s.heap.mem).2 } }

/-- A body that nobody disturbs goes to its end. -/
theorem exec_accesses {r : Request} {rest : Program (Exit Nat)} {s : SharedHeap κ τ}
    (hc : s.phase (.inl c) = .body r rest) :
    ∃ k, exec step s (List.replicate k (.access c)) = some (s.afterBody c r rest) := by
  have hmore : ∀ {s : SharedHeap κ τ} {rest rest' : Program (Exit Nat)} {mem : Mem},
      s.phase (.inl c) = .body r rest → rest.step s.heap.mem = some (rest', mem) →
      (∀ {s : SharedHeap κ τ}, s.phase (.inl c) = .body r rest' →
        ∃ k, exec step s (List.replicate k (.access c)) = some (s.afterBody c r rest')) →
      ∃ k, exec step s (List.replicate k (.access c)) = some (s.afterBody c r rest) := by
    intro s rest rest' mem hc hstep ih
    obtain ⟨s₁, hs₁⟩ : ∃ s₁, s₁ =
        { s.setPhase c (.body r rest') with heap := { s.heap with mem := mem } } := ⟨_, rfl⟩
    obtain ⟨k, hk⟩ := ih (s := s₁) (by simp [hs₁])
    have hfirst : s.step (.access c) = some s₁ := by
      simp only [SharedHeap.step, hc, hstep, hs₁]
      rfl
    refine ⟨k + 1, ?_⟩
    rw [List.replicate_succ, exec, hfirst, Option.bind_some, hk, hs₁]
    simp only [afterBody, setPhase, run_of_step hstep, Function.update_idem]
  induction rest generalizing s with
  | done result =>
    refine ⟨0, congrArg some ?_⟩
    have hsame : Function.update s.phase (.inl c) (.body r (.done result)) = s.phase := by
      rw [← hc, Function.update_eq_self]
    unfold afterBody setPhase
    rw [Program.run, hsame]
  | load a n next ih => exact hmore hc rfl (ih _)
  | store a n v next ih => exact hmore hc rfl ih

/-- The call is in its body, alone. -/
def begun (s : SharedHeap κ τ) (c : κ) (r : Request) : SharedHeap κ τ :=
  { (s.surrender r).setCount c 1 with bigKernelLock := true }.enter c r

/-- A call from a CPU in no section, with the lock free. -/
theorem exec_call {r : Request} (hc : s.phase (.inl c) = .running) (hr : s.Accepts r)
    (hcount : s.preemptDisableCount c = 0) (hlock : s.bigKernelLock = false) :
    Guarded step OwnIndex s [.call c r, .cli c, .count c, .spin c] ∧
      exec step s [.call c r, .cli c, .count c, .spin c] = some (s.begun c r) := by
  have hcall : s.step (.call c r) = some (s.request c r) := by
    simp only [step, hc]
    rw [if_pos hr]
    rfl
  obtain ⟨s₂, hs₂⟩ : ∃ s₂, s₂ = (s.request c r).setPhase c (.masked c (some r)) := ⟨_, rfl⟩
  have hcli : (s.request c r).step (.cli c) = some s₂ := by
    simp only [step, SharedHeap.request, setPhase_phase, Function.update_self, hs₂]
  obtain ⟨s₃, hs₃⟩ : ∃ s₃, s₃ = (s₂.setCount c 1).setPhase c (.acquiring (some r)) := ⟨_, rfl⟩
  have hcounted : s₂.step (.count c) = some s₃ := by
    have hphase : s₂.phase (.inl c) = .masked c (some r) := by simp [hs₂]
    have hzero : s₂.preemptDisableCount c = 0 := by simp [hs₂, SharedHeap.request, hcount]
    simp only [step, hphase, hzero, hs₃]
    exact if_pos (by simp)
  have hspin : s₃.step (.spin c) = some (s.begun c r) := by
    have hphase : s₃.phase (.inl c) = .acquiring (some r) := by simp [hs₃]
    have hfree : s₃.bigKernelLock = false := by simp [hs₃, hs₂, SharedHeap.request, hlock]
    have hbegun : { s₃ with bigKernelLock := true }.proceed c (some r) = s.begun c r := by
      rw [hs₃, hs₂]
      cases r <;> simp [proceed, begun, SharedHeap.enter, SharedHeap.request,
        surrender, setPhase, setCount]
    simp only [step, hphase, hfree]
    exact congrArg some hbegun
  refine ⟨⟨trivial, fun s₁ h₁ => ⟨fun i q hi => ?_, fun _ _ => ⟨trivial, fun _ _ => ⟨trivial,
    fun _ _ => trivial⟩⟩⟩⟩, ?_⟩
  · obtain rfl := Option.some.inj (hcall.symm.trans h₁)
    simp only [SharedHeap.request, setPhase_phase, Function.update_self] at hi
    cases hi
    rfl
  · rw [exec, hcall, Option.bind_some, exec, hcli, Option.bind_some, exec, hcounted,
      Option.bind_some, exec, hspin]
    rfl

/-- One allocation on one CPU, while the others do nothing. -/
theorem exists_live {n : Nat} (c : κ) (hn : n ≠ 0) (hn64 : n < 2 ^ 64)
    (hfit : totalNeeded n ≤ heapSize - sizeofBlock) :
    ∃ s : SharedHeap κ τ, Reachable A s ∧ (A.base + sizeofBlock + sizeofMagic, n) ∈ s.live ∧
      (∀ d, s.phase d = .running) ∧ (∀ d, s.preemptDisableCount d = 0) ∧
      s.bigKernelLock = false := by
  obtain ⟨s₀, hs₀⟩ : ∃ s₀ : SharedHeap κ τ,
      s₀ = ⟨false, fun _ => 0, fun _ => .running, heapInit A fun _ => 0, [], []⟩ := ⟨_, rfl⟩
  have hstart : Reachable A s₀ := Reach.start ⟨_, hs₀⟩
  obtain ⟨hown, hrun⟩ := exec_call (s := s₀) (c := c) (r := .kmalloc n) (by rw [hs₀])
    ⟨hn, hn64⟩ (by rw [hs₀]) (by rw [hs₀])
  have hspin := hstart.guarded hown hrun
  generalize hs : s₀.begun c (.kmalloc n) = s at hspin
  have hc : s.phase (.inl c) =
      .body (.kmalloc n) ((Request.kmalloc n).body (heapInit A fun _ => 0).heapList) := by
    rw [← hs, hs₀]
    exact Function.update_self ..
  have hheap : s.heap = heapInit A fun _ => 0 := by
    rw [← hs, hs₀]
    rfl
  obtain ⟨k, hk⟩ := exec_accesses hc
  have hbody : Reachable A (s.afterBody c (.kmalloc n)
      ((Request.kmalloc n).body (heapInit A fun _ => 0).heapList)) := by
    refine Reach.exec hspin (fun j mid a ha _ => ?_) hk
    obtain rfl := List.eq_of_mem_replicate (List.mem_of_getElem? ha)
    exact trivial
  have hrun := run_kmalloc_body hn (heapInit A fun _ => 0)
  rcases kmalloc_spec (heapInit_spec A fun _ => 0) hn with
    ⟨hnone, -⟩ | ⟨pre, b, post, h', hl, -, -, -, hok, -⟩
  · have hfirst := hnone _ List.mem_cons_self
    simp [fits, hfit] at hfirst
  · have hb : b = ⟨A.base, heapSize - sizeofBlock, false⟩ := by
      have hmem : b ∈ [(⟨A.base, heapSize - sizeofBlock, false⟩ : Seg)] := by simp [hl]
      exact List.mem_singleton.mp hmem
    subst hb
    rw [hok] at hrun
    unfold afterBody at hbody
    rw [hheap, hrun] at hbody
    have hdone : @Reachable κ τ _ _ A _ := Reach.step hbody trivial (a := .finish c) <| by
      simp only [step, setPhase_phase, Function.update_self]
      rfl
    refine ⟨_, hdone, ?_, fun d => ?_, fun d => ?_, ?_⟩
    · exact List.mem_cons_self
    · rcases eq_or_ne d (.inl c) with rfl | hne
      · simp
      · simp [hne, ← hs, hs₀, begun, SharedHeap.enter, surrender]
    · rcases eq_or_ne d c with rfl | hne
      · simp [← hs, hs₀, begun, SharedHeap.enter, surrender]
      · simp [hne, ← hs, hs₀, begun, SharedHeap.enter, surrender]
    · simp [leave_lock, ← hs, hs₀, begun, SharedHeap.enter, surrender]

/-- The owner's bytes while another CPU gets into `kmalloc`. -/
theorem live_byte_kept_during_kmalloc :
    ∃ s s' : SharedHeap (Fin 2) Unit, (0x200024, 100) ∈ s.live ∧
      exec step s [.call 1 (.kmalloc 50), .cli 1, .count 1, .spin 1] = some s' ∧
      (∃ rest, s'.phase (.inl 1) = .body (.kmalloc 50) rest) ∧
      s'.heap.mem 0x200024 = s.heap.mem 0x200024 := by
  obtain ⟨s, h, hlive, hidle, hcount, hlock⟩ :=
    exists_live (A := arenaAt2M) (τ := Unit) (n := 100) (0 : Fin 2) (by decide) (by decide)
      (by decide)
  obtain ⟨w, l, L⟩ := linearized_of_reach h
  obtain ⟨b, hb, hp, hsize⟩ := L.block (List.mem_map_of_mem hlive)
  have hasked : totalNeeded 100 ≤ b.size := (L.inv.asked _ (L.live _ hlive)).2.2 b hb hp
  have hneeded : totalNeeded 100 = 116 := by decide
  obtain ⟨hown, hrun⟩ := exec_call (c := (1 : Fin 2)) (r := .kmalloc 50) (hidle (.inl 1))
    ⟨by decide, by decide⟩ (hcount 1) hlock
  have hbody : (s.begun 1 (.kmalloc 50)).phase (.inl 1) =
      .body (.kmalloc 50) ((Request.kmalloc 50).body s.heap.heapList) := by
    simp [begun, SharedHeap.enter]
  refine ⟨s, _, hlive, hrun, ⟨_, hbody⟩, ?_⟩
  refine (live_byte_kept (x := 0x200024) h hlive ⟨Nat.le_refl _, ?_⟩ ?_ ?_ hown hrun).2.2
  · rw [hsize]
    unfold sizeofMagic
    change 0x200024 < 0x200024 + b.size - 4
    omega
  · intro c hc
    simp at hc
  · intro c byte hc
    simp at hc

end Relation

end SharedHeap

end NekaKernel.Heap
