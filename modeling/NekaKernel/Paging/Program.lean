/-
  Paging/Program.lean --- the program that a ring-3 process finds in its code page.

  Source: `create_user_process` in `paging64.c`.

  The program is copied into a frame by its physical address; the process fetches it
  through its own tables.  Both hold in every world after the call, because no later
  call writes to the frames of a process.
-/
import NekaKernel.Paging.Isolation

set_option autoImplicit false

namespace NekaKernel.Paging

open NekaKernel.Foundation NekaKernel.Kernel

/-! ## A process in memory -/

/-- The tables of a ring-3 process stand in memory and its code page holds the
program. -/
structure Loaded (m : Mem) (sp : Space) (code stack : Nat) : Prop where
  tables : ∀ f ∈ sp.frames, IsTable f
  flags : sp.flags = 0x07
  pdIdx : sp.pdIdx = 128
  pages : sp.pages = [code, stack]
  built : ∃ slots, Built m sp slots
  program : ProgramAt m code

/-- The byte that ring 3 fetches at `va`. -/
def fetchByte (m : Mem) (cr3 va : Nat) : Option UInt8 :=
  (translateVa m cr3 va).bind fun t => if t.rights.user then some (m t.pa) else none

section Process

variable {m m' : Mem} {sp : Space} {code stack : Nat}

/-- A process depends on its own frames only. -/
theorem Loaded.congr (h : Loaded m sp code stack)
    (hkeep : ∀ f ∈ sp.frames, ∀ i < 512, m'.entry f i = m.entry f i) :
    Loaded m' sp code stack := by
  obtain ⟨slots, hbuilt⟩ := h.built
  have hcode : code ∈ sp.frames := Space.pages_subset (h.pages ▸ List.mem_cons_self)
  exact ⟨h.tables, h.flags, h.pdIdx, h.pages,
    ⟨slots, hbuilt.congr fun t ht i hi => hkeep t (Space.tables_subset ht) i hi⟩,
    h.program.congr fun j hj => hkeep code hcode j (by omega)⟩

/-- The walk to the code page. -/
theorem Loaded.translate (h : Loaded m sp code stack) {off : Nat} (hoff : off < 4096) :
    translateVa m sp.pml4 (userCodeVa + off) = some ⟨code + off, Rights.all⟩ := by
  obtain ⟨slots, hbuilt⟩ := h.built
  have hidx : userCodeVa + off < 2 ^ 39 ∧ indexAt (userCodeVa + off) 30 = 1 ∧
      indexAt (userCodeVa + off) 21 = 128 ∧ indexAt (userCodeVa + off) 12 = 0 ∧
      (userCodeVa + off) % 2 ^ 12 = off := by
    unfold indexAt userCodeVa
    omega
  have htable : ∀ f ∈ sp.tables, IsTable f := fun f hf => h.tables f (Space.tables_subset hf)
  have hcode : IsTable code := h.tables code (Space.pages_subset (h.pages ▸ List.mem_cons_self))
  have hflags : TableFlags sp.flags := Or.inr h.flags
  have hpdpt := hbuilt.pdpt _ (indexAt_lt (userCodeVa + off) 30)
  have hpd := hbuilt.pd _ (indexAt_lt (userCodeVa + off) 21)
  have hpt := hbuilt.pt _ (indexAt_lt (userCodeVa + off) 12)
  rw [if_pos hidx.2.1] at hpdpt
  rw [if_pos (hidx.2.2.1.trans h.pdIdx.symm)] at hpd
  simp only [h.pages, hidx.2.2.2.1, List.getElem?_cons_zero, h.flags] at hpt
  rw [translate_root (htable _ (by simp [Space.tables]))
    (htable _ (by simp [Space.tables])) hflags
    hbuilt.pml4, if_pos hidx.1, walk_table 1 hflags (htable _ (by simp [Space.tables])) hpdpt,
    walk_table 0 hflags (htable _ (by simp [Space.tables])) hpd, h.flags,
    walk_page (hidx.2.2.2.1 ▸ hpt) hcode.1 hcode.2 (by decide) (by decide), hidx.2.2.2.2]
  rfl

/-- The process fetches the program. -/
theorem Loaded.fetch (h : Loaded m sp code stack) {i : Nat} (hi : i < userProgram.length) :
    fetchByte m sp.pml4 (userCodeVa + i) = some (UInt8.ofNat (userProgram.getD i 0)) := by
  have hlen : userProgram.length = 14 := rfl
  rw [fetchByte, h.translate (by omega), ← h.program i hi]
  rfl

end Process

/-! ## Every world -/

section Worlds

variable {w w' : World} {L : Layout}

/-- Every ring-3 process has the program in its code frame. -/
def Programmed (w : World) : Prop :=
  ∀ c ∈ w.spaces, c.kind = .userProcess → ∀ code, c.taken[2]? = some code →
    ProgramAt w.page.mem code

/-- The code frame of a process is in use. -/
theorem Holds.code_frame (H : Holds w L) {x : Member} (hx : x ∈ L.members) {code : Nat}
    (hcode : x.created.taken[2]? = some code) : code ∈ x.space.frames :=
  (H.stands x hx).isMade.taken_subset (List.mem_of_getElem? hcode)

/-- A call that leaves the frames of the processes alone leaves their programs. -/
theorem Holds.programmed_keep (H : Holds w L) (hprogram : Programmed w) {m : Mem}
    (hkeep : ∀ f ∈ frames w L, f ≠ w.page.kernelPdpt → f ∉ L.pds.map Prod.snd →
      ∀ i < 512, m.entry f i = w.page.mem.entry f i) {c : Created} (hc : c ∈ w.spaces)
    (hkind : c.kind = .userProcess) {code : Nat} (hcode : c.taken[2]? = some code) :
    ProgramAt m code := by
  obtain ⟨x, hx, rfl⟩ := H.member_of_mem hc
  have hin := H.code_frame hx hcode
  obtain ⟨-, hpdpt, hpds⟩ := H.member_ne hx hin
  refine (hprogram _ hc hkind code hcode).congr fun j hj => ?_
  exact hkeep code (Holds.mem_member hx hin) hpdpt (fun hpd => hpds code hpd rfl) j (by omega)

theorem Holds.programmed_step (H : Holds w L) (P : L.Private)
    (hprogram : Programmed w) {op : Op} (hop : op.Outside) (h : w.step op = some w') :
    Programmed w' := by
  -- what a creation leaves as it was
  have hcreate : ∀ s' own, Since w.page s' own → ∀ f ∈ frames w L, f ≠ w.page.kernelPdpt →
      f ∉ L.pds.map Prod.snd → ∀ i < 512, s'.mem.entry f i = w.page.mem.entry f i := by
    intro s' own S f hf _ _ i hi
    refine S.touches.entry (fun g hg => (S.table H.ready hg).1) (H.isTable hf).1 ?_ hi
    exact fun hown => H.notMem_supply hf (S.mem_supply hown)
  cases op with
  | pagingMapMmio2mb pa =>
    have hpa : pa < 2 ^ 64 := Nat.lt_trans hop.1 (by decide)
    obtain ⟨⟨⟨⟩, s'⟩, hcall, rfl⟩ := Option.map_eq_some_iff.mp h
    intro c hc hkind code hcode
    refine H.programmed_keep hprogram (fun f hf hpdpt hpds i hi => ?_) hc hkind hcode
    have hslot := H.pdpt _ (tableIndex_lt pa 30)
    cases hl : L.pds.lookup (tableIndex pa 30) with
    | some d =>
      rw [link_of_some hl] at hslot
      obtain ⟨-, -, hentry⟩ := mmio_of_present hcall hpa (H.pds_table _ d hl) hslot
      have hother : f ≠ d := fun heq => hpds (heq ▸ mem_of_lookup hl)
      rw [hentry f i (H.isTable hf).1 hi, if_neg fun heq => hother heq.1]
    | none =>
      rw [link_of_none hl] at hslot
      obtain ⟨pd, hsupply, -, hentry⟩ := mmio_of_absent H.ready hcall hpa (by rw [hslot]; rfl)
      have hnew : f ≠ pd := by
        intro heq
        exact H.notMem_supply hf (heq ▸ hsupply ▸ List.mem_cons_self)
      rw [hentry f i (H.isTable hf).1 hi, if_neg fun heq => hnew heq.1,
        if_neg fun heq => hpdpt heq.1, if_neg hnew]
  | createAddressSpace =>
    obtain ⟨⟨r, s'⟩, hcall, rfl⟩ := Option.map_eq_some_iff.mp h
    obtain ⟨sp, frame, -, -, -, -, S, -⟩ := createAddressSpace_spec H.ready hcall
    intro c hc hkind code hcode
    rcases List.mem_append.mp hc with hold | hnew
    · exact H.programmed_keep hprogram (hcreate s' _ S) hold hkind hcode
    · rw [List.mem_singleton.mp hnew] at hkind
      cases hkind
  | createUserProcess =>
    obtain ⟨⟨r, s'⟩, hcall, rfl⟩ := Option.map_eq_some_iff.mp h
    have habsent : present (w.page.mem.entry w.page.kernelPdpt 1) = false := by
      rw [H.pdpt 1 (by decide), link_of_none P]
      rfl
    obtain ⟨sp, code', stack, -, -, -, -, S, -, hnewProgram⟩ :=
      createUserProcess_spec H.ready hcall habsent
    intro c hc hkind code hcode
    rcases List.mem_append.mp hc with hold | hnew
    · exact H.programmed_keep hprogram (hcreate s' _ S) hold hkind hcode
    · have htaken : takenFrom w.page s' = [sp.pml4, sp.pdpt, code', stack, sp.pd, sp.pt] :=
        takenFrom_eq S.supply
      rw [List.mem_singleton.mp hnew] at hcode
      dsimp only at hcode
      rw [htaken] at hcode
      exact Option.some.inj hcode ▸ hnewProgram

/-- **Every process is loaded.**  Whatever calls come after its creation. -/
theorem loaded_of_reach (r : Reach Booted World.step (fun _ op => op.Outside) w) {c : Created}
    (hc : c ∈ w.spaces) (hkind : c.kind = .userProcess) :
    ∃ sp code stack, Loaded w.page.mem sp code stack ∧ sp.pml4 = c.cr3 ∧
      c.taken = [sp.pml4, sp.pdpt, code, stack, sp.pd, sp.pt] := by
  have hinv : ∃ L, Holds w L ∧ L.Private ∧ Programmed w := by
    refine Reach.invariant (P := fun w => ∃ L, Holds w L ∧ L.Private ∧ Programmed w) ?_ ?_ r
    · intro w hboot
      obtain ⟨pd, H, -⟩ := hboot.holds
      refine ⟨_, H, rfl, fun c hc => ?_⟩
      rw [H.spaces] at hc
      cases hc
    · rintro w op w' ⟨L, H, P, hprogram⟩ hop h
      obtain ⟨L', H', P'⟩ := H.step P hop h
      exact ⟨L', H', P', H.programmed_step P hprogram hop h⟩
  obtain ⟨L, H, -, hprogram⟩ := hinv
  obtain ⟨x, hx, rfl⟩ := H.member_of_mem hc
  have X := H.stands x hx
  have hmade := X.isMade
  unfold Matches at hmade
  rw [hkind] at hmade
  obtain ⟨hcr3, hflags, hpd, code, stack, hpages, htaken⟩ := hmade
  refine ⟨x.space, code, stack, ⟨?_, hflags, hpd, hpages, ⟨_, X.built⟩, ?_⟩, hcr3.symm, htaken⟩
  · exact fun f hf => H.member_table hx hf
  · exact hprogram _ hc hkind code (by rw [htaken]; rfl)

end Worlds

end NekaKernel.Paging
