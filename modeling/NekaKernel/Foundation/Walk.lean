/-
  Foundation/Walk.lean --- how an x86-64 processor translates an address.

  Four levels of tables, nine bits of the address for each.  An entry has the
  present bit 0, the writable bit 1, the user bit 2 and, above the last level, the
  page-size bit 7; its address field is bits 51 to 12.  A page-size entry maps
  2 MiB or 1 GiB and must have zeroes between bit 12 and its address.  Rights are
  the conjunction over the levels.  Accessed and dirty bits, the TLB and the
  execute-disable bit are left out.
-/
import NekaKernel.Foundation.Frames

set_option autoImplicit false

namespace NekaKernel.Foundation

/-! ## Entries -/

/-- Nine bits of an address from bit `shift` on. -/
def indexAt (va shift : Nat) : Nat := va / 2 ^ shift % 512

/-- The address field of an entry, and of CR3. -/
def frameOf (e : Nat) : Nat := e / 2 ^ 12 % 2 ^ 40 * 2 ^ 12

/-- What an access may do. -/
structure Rights where
  user : Bool
  writable : Bool
  deriving DecidableEq, Repr

namespace Rights

/-- Before the first level. -/
def all : Rights := ⟨true, true⟩

/-- The rights left by an entry. -/
def meet (r : Rights) (e : Nat) : Rights := ⟨r.user && e.testBit 2, r.writable && e.testBit 1⟩

@[simp] theorem meet_meet (r : Rights) (e : Nat) : (r.meet e).meet e = r.meet e := by
  simp [meet]

end Rights

/-- Where an address goes, and with which rights. -/
structure Translation where
  pa : Nat
  rights : Rights
  deriving DecidableEq, Repr

/-! ## The walk -/

/-- The page of `2 ^ (12 + 9 * level)` bytes that entry `e` maps. -/
def largePage (e va level : Nat) (r : Rights) : Option Translation :=
  let shift := 12 + 9 * level
  -- the last level that can hold a page-size entry is the third
  if level ≤ 2 ∧ e / 2 ^ 13 % 2 ^ (9 * level - 1) = 0 then
    some ⟨e / 2 ^ shift % 2 ^ (52 - shift) * 2 ^ shift + va % 2 ^ shift, r⟩
  else none

/-- The walk from a table with `level` levels of tables, its own included. -/
def walk (m : Mem) (va : Nat) : Nat → Nat → Rights → Option Translation
  | 0, _, _ => none
  | level + 1, table, r =>
      let e := m.entry table (indexAt va (12 + 9 * level))
      if e.testBit 0 then
        if level = 0 then some ⟨frameOf e + va % 2 ^ 12, r.meet e⟩
        else if e.testBit 7 then largePage e va level (r.meet e)
        else walk m va level (frameOf e) (r.meet e)
      else none

/-- Bits 63 to 47 are equal. -/
def Canonical (va : Nat) : Prop := va < 2 ^ 47 ∨ (2 ^ 64 - 2 ^ 47 ≤ va ∧ va < 2 ^ 64)

instance (va : Nat) : Decidable (Canonical va) := inferInstanceAs (Decidable (_ ∨ _))

/-- The translation of `va` under the tables at `cr3`. -/
def translateVa (m : Mem) (cr3 va : Nat) : Option Translation :=
  if Canonical va then walk m va 4 (frameOf cr3) Rights.all else none

/-- A supervisor load of `n` bytes that stay within a page. -/
def loadVa (m : Mem) (cr3 va n : Nat) : Option Nat :=
  (translateVa m cr3 va).map fun t => m.read t.pa n

/-- A supervisor store of `n` bytes that stay within a page. -/
def storeVa (m : Mem) (cr3 va n v : Nat) : Option Mem :=
  (translateVa m cr3 va).bind fun t => if t.rights.writable then
    some (m.write t.pa n v) else none

/-- `f` is a table of the tree of `level` levels at `table`. -/
def IsTableOf (m : Mem) : Nat → Nat → Nat → Prop
  | 0, _, _ => False
  | level + 1, table, f => f = table ∨
      ∃ i < 512, (m.entry table i).testBit 0 = true ∧ (m.entry table i).testBit 7 = false ∧
        IsTableOf m level (frameOf (m.entry table i)) f

section Walk

variable {m m' : Mem} {va level table : Nat} {r : Rights}

theorem indexAt_lt (va shift : Nat) : indexAt va shift < 512 := Nat.mod_lt _ (by decide)

theorem isTableOf_self (m : Mem) (level table : Nat) :
    IsTableOf m (level + 1) table table := Or.inl rfl

/-- The walk depends on the entries of the tables below only. -/
theorem walk_congr : ∀ {level table : Nat} {r : Rights},
    (∀ f, IsTableOf m level table f → ∀ i < 512, m'.entry f i = m.entry f i) →
      walk m' va level table r = walk m va level table r := by
  intro level
  induction level with
  | zero =>
    intro table r _
    rfl
  | succ level ih =>
    intro table r h
    have hentry : m'.entry table (indexAt va (12 + 9 * level)) =
        m.entry table (indexAt va (12 + 9 * level)) :=
      h table (isTableOf_self m level table) _ (indexAt_lt va _)
    unfold walk
    simp only [hentry]
    split
    · rename_i hpresent
      split
      · rfl
      split
      · rfl
      · rename_i hlarge
        apply ih
        intro f hf i hi
        exact h f (Or.inr ⟨_, indexAt_lt va _, hpresent, by simpa using hlarge, hf⟩) i hi
    · rfl

theorem translate_congr {cr3 : Nat}
    (h : ∀ f, IsTableOf m 4 (frameOf cr3) f → ∀ i < 512, m'.entry f i = m.entry f i) :
    translateVa m' cr3 va = translateVa m cr3 va := by
  unfold translateVa
  rw [walk_congr h]

/-- The first 512 GiB are the addresses under entry 0 of the PML4. -/
theorem canonical_low_iff (va : Nat) : (Canonical va ∧ indexAt va 39 = 0) ↔ va < 2 ^ 39 := by
  unfold Canonical indexAt
  omega

/-! ## One level -/

theorem walk_absent (level : Nat) (he : m.entry table (indexAt va (12 + 9 * level)) = 0) :
    walk m va (level + 1) table r = none := by
  rw [walk, he]
  rfl

variable {f flags : Nat}

theorem frameOf_or (hf : IsFrame f) (hlt : f < 2 ^ 52) (hflags : flags < 4096) :
    frameOf (f ||| flags) = f := by
  unfold IsFrame at hf
  unfold frameOf
  rw [frame_or hf hflags]
  omega

theorem frameOf_self (hf : IsFrame f) (hlt : f < 2 ^ 52) : frameOf f = f := by
  have h : frameOf (f ||| 0) = f := frameOf_or hf hlt (by decide)
  rwa [Nat.or_zero] at h

/-- The tables below a table: itself, and those below the entries that point to
tables. -/
theorem IsTableOf.below {g : Nat} (h : IsTableOf m (level + 1) table g) :
    g = table ∨ ∃ i < 512, m.entry table i ≠ 0 ∧ (m.entry table i).testBit 7 = false ∧
      IsTableOf m level (frameOf (m.entry table i)) g := by
  rcases h with hself | ⟨i, hi, hpresent, hlarge, hbelow⟩
  · exact Or.inl hself
  · refine Or.inr ⟨i, hi, ?_, hlarge, hbelow⟩
    intro hzero
    rw [hzero] at hpresent
    exact absurd hpresent (by decide)

/-- A table without entries that point to tables is alone. -/
theorem IsTableOf.alone {g : Nat} (h : IsTableOf m (level + 1) table g)
    (hleaf : ∀ i < 512, m.entry table i = 0 ∨ (m.entry table i).testBit 7 = true) :
    g = table := by
  rcases h.below with hself | ⟨i, hi, hne, hlarge, -⟩
  · exact hself
  · rcases hleaf i hi with hzero | hset
    · exact absurd hzero hne
    · rw [hset] at hlarge
      exact absurd hlarge (by decide)

theorem Rights.meet_or (hf : IsFrame f) (r : Rights) : r.meet (f ||| flags) = r.meet flags := by
  unfold Rights.meet
  rw [frame_or_testBit hf (by decide), frame_or_testBit hf (by decide)]

/-- An entry that points to a table. -/
theorem walk_link (level : Nat)
    (he : m.entry table (indexAt va (12 + 9 * (level + 1))) = f ||| flags) (hf : IsFrame f)
    (hlt : f < 2 ^ 52) (hflags : flags < 4096) (hpresent : flags.testBit 0 = true)
    (hlarge : flags.testBit 7 = false) :
    walk m va (level + 2) table r = walk m va (level + 1) f (r.meet flags) := by
  rw [walk]
  simp only [he, frame_or_testBit hf (show 0 < 12 by decide),
    frame_or_testBit hf (show 7 < 12 by decide),
    hpresent, hlarge, frameOf_or hf hlt hflags, Rights.meet_or hf, if_true]
  rfl

/-- An entry that points to a page of 4096 bytes. -/
theorem walk_page (he : m.entry table (indexAt va 12) = f ||| flags) (hf : IsFrame f)
    (hlt : f < 2 ^ 52) (hflags : flags < 4096) (hpresent : flags.testBit 0 = true) :
    walk m va 1 table r = some ⟨f + va % 2 ^ 12, r.meet flags⟩ := by
  rw [walk]
  simp only [Nat.mul_zero, Nat.add_zero, he,
    frame_or_testBit hf (show 0 < 12 by decide), hpresent,
    frameOf_or hf hlt hflags, Rights.meet_or hf, if_true]

/-- An entry that maps 2 MiB. -/
theorem walk_large (he : m.entry table (indexAt va 21) = f ||| flags) (hf : f % 2 ^ 21 = 0)
    (hlt : f < 2 ^ 52) (hflags : flags < 4096) (hpresent : flags.testBit 0 = true)
    (hlarge : flags.testBit 7 = true) :
    walk m va 2 table r = some ⟨f + va % 2 ^ 21, r.meet flags⟩ := by
  have hframe : IsFrame f := by
    unfold IsFrame
    omega
  have hor : f ||| flags = f + flags := frame_or hframe hflags
  -- bits 20 to 13 are zero, and bits 51 to 21 are the address
  have hzero : (f + flags) / 2 ^ 13 % 2 ^ 8 = 0 := by omega
  have haddr : (f + flags) / 2 ^ 21 % 2 ^ 31 * 2 ^ 21 = f := by omega
  have hpage : largePage (f ||| flags) va 1 (r.meet flags) =
      some ⟨f + va % 2 ^ 21, r.meet flags⟩ := by
    unfold largePage
    rw [hor]
    dsimp only
    rw [if_pos ⟨by decide, hzero⟩]
    exact congrArg (fun a => some (Translation.mk (a + va % 2 ^ 21) (r.meet flags))) haddr
  rw [walk]
  simp only [Nat.mul_one, he, frame_or_testBit hframe (show 0 < 12 by decide),
    frame_or_testBit hframe (show 7 < 12 by decide), hpresent, hlarge, Rights.meet_or hframe,
      if_true, hpage]
  rfl

/-- Rights are never regained on the way down. -/
theorem walk_user {t : Translation} : ∀ {level table : Nat} {r : Rights},
    walk m va level table r = some t → t.rights.user = true → r.user = true := by
  intro level
  induction level with
  | zero =>
    intro table r h
    exact absurd h (by simp [walk])
  | succ level ih =>
    intro table r h huser
    have hmeet : ∀ e, (r.meet e).user = true → r.user = true := by
      intro e he
      exact (Bool.and_eq_true_iff.mp he).1
    unfold walk at h
    dsimp only at h
    split at h
    · split at h
      · rw [← Option.some.inj h] at huser
        exact hmeet _ huser
      split at h
      · unfold largePage at h
        dsimp only at h
        split at h
        · rw [← Option.some.inj h] at huser
          exact hmeet _ huser
        · exact absurd h (by simp)
      · exact hmeet _ (ih h huser)
    · exact absurd h (by simp)

end Walk

end NekaKernel.Foundation
