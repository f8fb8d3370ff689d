/-
  Paging/Signatures.lean --- the threads' test of isolation.

  Source: `write_signature` and `verify_signature` in `main64.c`.

  Each thread writes its letter at `DEMO_VA` and later reads it back; in between, and
  also between two of its stores, the timer may let other threads write theirs.  A
  thread finds its letter whatever the others wrote and when, as long as each has an
  address space of its own.
-/
import NekaKernel.Foundation.Latest
import NekaKernel.Foundation.Run
import NekaKernel.Paging.Isolation

set_option autoImplicit false

namespace NekaKernel.Paging

open NekaKernel.Foundation NekaKernel.Kernel

/-- `p[off] = c` in `write_signature`, by the thread in space number `space`. -/
structure SignatureStore where
  space : Nat
  off : Nat
  c : UInt8
  deriving DecidableEq, Repr

/-- `write_signature(c)` by the thread in space `i`. -/
def writeSignature (i : Nat) (c : UInt8) : List SignatureStore :=
  (List.range 4).map fun off => ⟨i, off, c⟩

/-- One store, under the thread's own CR3; `none` is a page fault. -/
def SignatureStore.step (w : World) (m : Mem) (s : SignatureStore) : Option Mem :=
  w.spaces[s.space]?.bind fun sp => storeVa m sp.cr3 (demoVa + s.off) 1 s.c.toNat

/-- The store is one of a thread that has an address space. -/
def SignatureStore.Valid (w : World) (s : SignatureStore) : Prop :=
  s.off < 4 ∧ ∃ sp, w.spaces[s.space]? = some sp ∧ sp.kind = .addressSpace

/-- The first `n` iterations of `verify_signature`: whether all bytes so far were the
expected one. -/
def verifyChars (cr3 : Nat) (expected : UInt8) (m : Mem) : Nat → Option Bool
  | 0 => some true
  | n + 1 => (verifyChars cr3 expected m n).bind fun ok =>
      if ok then (loadVa m cr3 (demoVa + n) 1).map fun v => v == expected.toNat else some false

/-- `verify_signature`. -/
def verifySignature (cr3 : Nat) (expected : UInt8) (m : Mem) : Option Bool :=
  verifyChars cr3 expected m 4

section Signatures

variable {w : World} {L : Layout} {x : Member} {m : Mem}

/-- Writing a page of a space keeps the layout. -/
theorem Holds.withPage (H : Holds w L) (hx : x ∈ L.members) {m : Mem} {frame : Nat}
    (hframe : frame ∈ x.space.pages) (hm : w.page.mem.AgreeOutside frame m) :
    Holds ⟨{ w.page with mem := m }, w.spaces⟩ L := by
  have hin := Space.pages_subset hframe
  obtain ⟨hpml4, hpdpt, hpds⟩ := H.member_ne hx hin
  have hpage : IsTable frame := H.member_table hx hin
  have hkeep : ∀ t ∈ frames w L, frame ≠ t → ∀ i < 512, m.entry t i = w.page.mem.entry t i := by
    intro t ht hne i hi
    exact hm.read hpage.1 (H.isTable ht).1 hne (by omega)
  refine ⟨H.tables, H.nodup, fun i hi => ?_, fun i hi => ?_, fun d hd j hj => ?_,
    H.first, H.spaces, fun y hy => ?_⟩
  · exact (hkeep _ (mem_frames_pml4 w L) hpml4 i hi).trans (H.pml4 i hi)
  · exact (hkeep _ (mem_frames_pdpt w L) hpdpt i hi).trans (H.pdpt i hi)
  · dsimp only
    rw [hkeep d (Holds.mem_pds hd) (hpds d hd) j hj]
    exact H.leaves d hd j hj
  · have Y := H.stands y hy
    refine ⟨Y.isMade, Y.built.congr fun t ht => ?_, Y.first, Y.shares⟩
    refine hkeep t (Holds.mem_member hy (Space.tables_subset ht)) ?_
    rintro rfl
    exact H.page_notMem_tables hx hy hframe ht

/-- The memory `m` in place of the world's. -/
def World.withMem (w : World) (m : Mem) : World := ⟨{ w.page with mem := m }, w.spaces⟩

/-- The byte at `DEMO_VA + off` of the store's space is the stored one. -/
def Shows (w : World) (m : Mem) (s : SignatureStore) : Prop :=
  ∀ sp, w.spaces[s.space]? = some sp → loadVa m sp.cr3 (demoVa + s.off) 1 = some s.c.toNat

/-- **Step lemma.**  A store is seen by its thread, and the bytes at all other places
stay as they are, in its own space and in the others. -/
theorem Holds.signatureStore (H : Holds (w.withMem m) L) {s : SignatureStore}
    (hs : s.Valid w) : ∃ m', s.step w m = some m' ∧ Holds (w.withMem m') L ∧ Shows w m' s ∧
      ∀ t : SignatureStore, t.Valid w → ¬ (t.space = s.space ∧ t.off = s.off) →
        Shows w m t → Shows w m' t := by
  obtain ⟨hoff, sp, hsp, hkind⟩ := hs
  obtain ⟨x, hxi, hx, rfl⟩ := H.member_at hsp
  obtain ⟨frame, hframe, hisframe, hdemo⟩ := H.demo_space hx hkind
  have hstep : s.step w m = some (m.write (frame + s.off) 1 s.c.toNat) := by
    rw [SignatureStore.step, hsp, Option.bind_some, storeVa]
    rw [show translateVa m x.created.cr3 (demoVa + s.off) =
      some ⟨frame + s.off, supervisor⟩ from
      hdemo s.off (by omega)]
    rfl
  have hm : Mem.AgreeOutside frame m (m.write (frame + s.off) 1 s.c.toNat) :=
    Mem.agreeOutside_write (by omega)
  have hown : ∀ off < 4096, translateVa (m.write (frame + s.off) 1 s.c.toNat) x.created.cr3
      (demoVa + off) = some ⟨frame + off, supervisor⟩ := fun off hlt =>
    (H.page_write hx hframe hm (H.cr3_mem_roots hx) _).trans (hdemo off hlt)
  refine ⟨_, hstep, H.withPage hx hframe hm, fun sp' hsp' => ?_,
    fun t ht hother hshown sp' hsp' => ?_⟩
  · obtain rfl := Option.some.inj (hsp.symm.trans hsp')
    rw [loadVa, hown s.off (by omega)]
    exact congrArg some (Mem.read_write_of_lt s.c.toNat_lt)
  · have hbefore := hshown sp' hsp'
    by_cases hsame : t.space = s.space
    · -- another byte of the same page
      rw [hsame] at hsp'
      obtain rfl := Option.some.inj (hsp.symm.trans hsp')
      have hne : t.off ≠ s.off := fun h => hother ⟨hsame, h⟩
      have hlt := ht.1
      rw [loadVa, show translateVa m x.created.cr3 (demoVa + t.off) =
        some ⟨frame + t.off, supervisor⟩ from hdemo t.off (by omega)] at hbefore
      have hread : (m.write (frame + s.off) 1 s.c.toNat).read (frame + t.off) 1 =
          m.read (frame + t.off) 1 := Mem.read_write_of_disjoint (by omega)
      rw [loadVa, hown t.off (by omega)]
      exact (congrArg some hread).trans hbefore
    · obtain ⟨y, hyi, -, rfl⟩ := H.member_at hsp'
      have hlt := ht.1
      exact (H.demo_load hxi hyi hsame hframe hm (by omega) (by omega)).trans hbefore

/-- **Run lemma.**  Each thread sees its latest store to each byte. -/
theorem Holds.signatureStores (H : Holds w L) {stores : List SignatureStore}
    (hvalid : ∀ s ∈ stores, s.Valid w) :
    ∃ m, exec (SignatureStore.step w) w.page.mem stores = some m ∧ Holds (w.withMem m) L ∧
      ∀ s, Latest (fun t : SignatureStore => t.space = s.space ∧ t.off = s.off) stores s →
        Shows w m s := by
  induction stores using List.reverseRecOn with
  | nil => exact ⟨w.page.mem, rfl, H, fun s hs => absurd hs Latest.not_nil⟩
  | append_singleton stores s ih =>
    obtain ⟨m, hexec, Hm, hshows⟩ := ih fun t ht => hvalid t (List.mem_append_left _ ht)
    obtain ⟨m', hstep, Hm', hown, hothers⟩ := Hm.signatureStore (hvalid s (by simp))
    refine ⟨m', ?_, Hm', fun t ht => ?_⟩
    · rw [exec_append, hexec, Option.bind_some, exec, hstep]
      rfl
    · let P : SignatureStore → Prop := fun u => u.space = t.space ∧ u.off = t.off
      by_cases hsame : P s
      · obtain rfl := (Latest.concat_of hsame).mp ht
        exact hown
      · have hlatest : Latest P stores t := (Latest.concat_of_not hsame).mp ht
        exact hothers t (hvalid t (List.mem_append_left _ hlatest.mem))
          (fun h => hsame ⟨h.1.symm, h.2.symm⟩) (hshows t hlatest)

/-- Letters that are there are found. -/
theorem verifyChars_true {cr3 : Nat} {expected : UInt8} : ∀ (n : Nat),
    (∀ i < n, loadVa m cr3 (demoVa + i) 1 = some expected.toNat) →
      verifyChars cr3 expected m n = some true := by
  intro n
  induction n with
  | zero =>
    intro _
    rfl
  | succ n ih =>
    intro h
    rw [verifyChars, ih fun i hi => h i (Nat.lt_succ_of_lt hi), Option.bind_some,
      h n (Nat.lt_succ_self n)]
    simp

/-- The stores of the thread's last `write_signature` are its latest ones. -/
theorem latest_writeSignature {stores before : List SignatureStore} {i off : Nat} {c : UInt8}
    (h : (stores.filter fun s => s.space = i) = before ++ writeSignature i c) (hoff : off < 4) :
    Latest (fun s : SignatureStore => s.space = i ∧ s.off = off) stores ⟨i, off, c⟩ := by
  refine Latest.of_filter (p := fun s => s.space = i) (fun s hs => by simpa using hs.1) ?_
  rw [h]
  refine ⟨⟨rfl, rfl⟩, before ++ (writeSignature i c).take off,
    (writeSignature i c).drop (off + 1), ?_, fun s hs hsame => ?_⟩
  · obtain rfl | rfl | rfl | rfl : off = 0 ∨ off = 1 ∨ off = 2 ∨ off = 3 := by omega
    all_goals simp [writeSignature, List.range_succ]
  · rw [writeSignature, ← List.map_drop] at hs
    obtain ⟨k, hk, rfl⟩ := List.mem_map.mp hs
    obtain rfl : k = off := hsame.2
    obtain rfl | rfl | rfl | rfl : k = 0 ∨ k = 1 ∨ k = 2 ∨ k = 3 := by omega
    all_goals exact absurd hk (by decide)

/-- **Signatures survive.**  In every world that calls reach, any number of threads with
address spaces of their own write letters at `DEMO_VA`, their single stores interleaved
in any order: no store faults, and `verify_signature` finds for each thread the letter
of its own last `write_signature`. -/
theorem signatures_survive (r : Reach Booted World.step (fun _ op => op.Outside) w)
    {stores : List SignatureStore} (hvalid : ∀ s ∈ stores, s.Valid w) :
    ∃ m, exec (SignatureStore.step w) w.page.mem stores = some m ∧
      ∀ i sp before c, w.spaces[i]? = some sp →
        (stores.filter fun s => s.space = i) = before ++ writeSignature i c →
          verifySignature sp.cr3 c m = some true := by
  obtain ⟨L, H, -⟩ := reach_holds r
  obtain ⟨m, hexec, -, hshows⟩ := H.signatureStores hvalid
  refine ⟨m, hexec, fun i sp before c hsp hlast => verifyChars_true 4 fun off hoff => ?_⟩
  exact hshows ⟨i, off, c⟩ (latest_writeSignature hlast hoff) sp hsp

/-- Two threads, each preempted in the middle of `write_signature`. -/
def interleavedStores : List SignatureStore :=
  [⟨0, 0, 0x41⟩, ⟨0, 1, 0x41⟩, ⟨2, 0, 0x42⟩, ⟨0, 2, 0x41⟩, ⟨2, 1, 0x42⟩, ⟨2, 2, 0x42⟩,
    ⟨2, 3, 0x42⟩, ⟨0, 3, 0x41⟩]

/-- The threads of `ThreadA` and `ThreadB`, with a ring-3 process made between them. -/
theorem signatures_survive_two :
    ∃ w₀ w sp sp' m, pagingInitKernelMap (poolState 0x200000) = some ((), w₀.page) ∧
      exec World.step w₀ threeSpaces = some w ∧ w.spaces[0]? = some sp ∧
      w.spaces[2]? = some sp' ∧
      exec (SignatureStore.step w) w.page.mem interleavedStores = some m ∧
      verifySignature sp.cr3 0x41 m = some true ∧
      verifySignature sp'.cr3 0x42 m = some true := by
  obtain ⟨w₀, w, hinit, hboot, hrun⟩ := threeSpaces_run
  obtain ⟨sp, hsp, hkind⟩ := hboot.made_at hrun (i := 0) rfl
  obtain ⟨sp', hsp', hkind'⟩ := hboot.made_at hrun (i := 2) rfl
  have hvalid : ∀ s ∈ interleavedStores, s.Valid w := by
    simp [interleavedStores, SignatureStore.Valid, hsp, hsp', hkind, hkind']
  obtain ⟨m, hexec, hfound⟩ := signatures_survive (hboot.reach threeSpaces_outside hrun) hvalid
  exact ⟨w₀, w, sp, sp', m, hinit, hrun, hsp, hsp', hexec, hfound 0 sp [] 0x41 hsp rfl,
    hfound 2 sp' [] 0x42 hsp' rfl⟩

end Signatures

end NekaKernel.Paging
