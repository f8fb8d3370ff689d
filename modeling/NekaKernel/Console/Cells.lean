/-
  Console/Cells.lean --- what the cells of the text screen hold.

  Source: `serial_init`, `serial_putc`, `putc_vga`, `kprint` and `terminal64_init`
  in `terminal64.c`.

  Where a character goes depends on the characters before it alone: the abstract
  screen has a cursor that counts its 2000 cells round and round, and a cell shows
  the byte that was printed to it last, or a space.  The driver widens a signed
  `char` to the 16 bits of a cell, so the upper half of a cell is the attribute only
  under a byte below 0x80.

  The lock and the IF of `kprint` are in `Console/Machine.lean`.  COM1 is taken to
  become ready: while it is not, the CPU stands between two characters.
-/
import NekaKernel.Console.Machine
import NekaKernel.Foundation.Stores

set_option autoImplicit false

namespace NekaKernel.Console

open NekaKernel.Foundation

/-! ## The functions -/

/-- The screen, and what was sent to the ports, the first byte first. -/
structure Devices where
  screen : Screen
  ports : List (Nat × UInt8)

/-- `COM1`. -/
def com1 : Nat := 0x3F8

/-- `outb`. -/
def outb (d : Devices) (port : Nat) (val : UInt8) : Devices :=
  { d with ports := d.ports ++ [(port, val)] }

/-- `serial_init`. -/
def serialInit (d : Devices) : Devices :=
  let d := outb (outb d (com1 + 1) 0x00) (com1 + 3) 0x80
  let d := outb (outb d (com1 + 0) 0x03) (com1 + 1) 0x00
  let d := outb (outb d (com1 + 3) 0x03) (com1 + 2) 0xC7
  outb d (com1 + 4) 0x0B

/-- The stores of `terminal64_init`. -/
def clearStores : List (Nat × BitVec 16) :=
  (List.range 25).flatMap fun y => (List.range 80).map fun x =>
    (y * 80 + x, 0x0A00#16 ||| 0x20#16)

/-- `terminal64_init`. -/
def terminal64Init (d : Devices) : Devices :=
  let d := serialInit d
  { d with screen := ⟨stored d.screen.vga clearStores, 0, 0⟩ }

/-- `serial_putc`. -/
def serialPutc (d : Devices) (c : UInt8) : Devices := outb d com1 c

/-- `kprint` of the bytes at `s`, where the first 0 ends the string. -/
def kprint (d : Devices) : List UInt8 → Devices
  | [] => d
  | c :: s =>
    if c = 0 then d else kprint (serialPutc { d with screen := putcVga d.screen c } c) s

/-- The characters of the string at `s`. -/
def characters (s : List UInt8) : List UInt8 := s.takeWhile (· ≠ 0)

/-! ## The stores -/

/-- The word that `putc_vga` stores for a character. -/
def cell (c : UInt8) : BitVec 16 := c.toBitVec.signExtend 16 ||| 0x0A00#16

/-- The index of `VGA_MEMORY` that the cursor is at. -/
def Screen.position (t : Screen) : Nat := t.termRow * 80 + t.termCol

/-- The store of `putc_vga`, if there is one. -/
def putcVgaStore (t : Screen) (c : UInt8) : List (Nat × BitVec 16) :=
  if c = 0x0A then [] else [(t.position, cell c)]

/-- The stores made in printing characters. -/
def vgaStores (t : Screen) : List UInt8 → List (Nat × BitVec 16)
  | [] => []
  | c :: s => putcVgaStore t c ++ vgaStores (putcVga t c) s

/-! ## The abstract screen -/

/-- The cursor after a character. -/
def advance (p : Nat) (c : UInt8) : Nat :=
  if c = 0x0A then (p / 80 + 1) * 80 % 2000 else (p + 1) % 2000

/-- The cell of each character that has one, from the cursor `p` on. -/
def placed (p : Nat) : List UInt8 → List (Nat × UInt8)
  | [] => []
  | c :: s => (if c = 0x0A then [] else [(p, c)]) ++ placed (advance p c) s

/-- The byte each cell shows after printing characters to the empty screen. -/
def shown (s : List UInt8) : Nat → UInt8 := stored (fun _ => 0x20) (placed 0 s)

/-- The attribute over a byte. -/
def attributed (c : UInt8) : BitVec 16 := 0x0A00#16 ||| c.toBitVec.setWidth 16

/-- After `terminal64_init`, which left the screen `start`, and the characters `s`, which
left `t`: no store was outside the buffer, and the cells have the attribute over what
they show. -/
structure ShowsText (start : Screen) (s : List UInt8) (t : Screen) : Prop where
  inside : ∀ w ∈ clearStores ++ vgaStores start s, w.1 < 2000
  cells : ∀ i < 2000, t.vga i = attributed (shown s i)

/-- Every character outside ASCII has been printed over. -/
def PrintedOver (s : List UInt8) : Prop :=
  ∀ before w after, placed 0 s = before ++ w :: after → ¬ w.2 < 0x80 → ∃ v ∈ after, v.1 = w.1

section Printing

variable {t start : Screen} {d : Devices} {s s' : List UInt8} {c : UInt8} {p i : Nat}

/-- `kprint` prints the characters of its string on both devices. -/
theorem kprint_eq (d : Devices) (s : List UInt8) :
    kprint d s = ⟨(characters s).foldl putcVga d.screen,
      d.ports ++ (characters s).map fun c => (com1, c)⟩ := by
  induction s generalizing d with
  | nil => simp [kprint, characters]
  | cons c s ih =>
    rw [kprint]
    split
    · rename_i hzero
      simp [characters, hzero]
    · rename_i hchar
      have hcons : characters (c :: s) = c :: characters s :=
        List.takeWhile_cons_of_pos (by simpa using hchar)
      rw [ih, hcons]
      simp [serialPutc, outb]

/-- A sequence of calls prints the characters of its strings. -/
theorem kprints_screen (d : Devices) (strings : List (List UInt8)) :
    (strings.foldl kprint d).screen = (strings.flatMap characters).foldl putcVga d.screen := by
  induction strings generalizing d with
  | nil => rfl
  | cons s strings ih =>
    rw [List.foldl_cons, ih, kprint_eq, List.flatMap_cons, List.foldl_append]

theorem putcVga_vga (t : Screen) (c : UInt8) :
    (putcVga t c).vga = stored t.vga (putcVgaStore t c) := by
  unfold putcVga putcVgaStore
  split
  · rfl
  · dsimp only
    split <;> rfl

theorem foldl_putcVga_vga (t : Screen) (s : List UInt8) :
    (s.foldl putcVga t).vga = stored t.vga (vgaStores t s) := by
  induction s generalizing t with
  | nil => rfl
  | cons c s ih => rw [List.foldl_cons, ih, vgaStores, stored_append, putcVga_vga]

theorem Screen.OnScreen.position_lt (h : t.OnScreen) : t.position < 2000 := by
  have hrow := h.row
  have hcol := h.col
  unfold Screen.position
  omega

/-- The two branches that wrap the cursor count cells modulo 2000. -/
theorem Screen.OnScreen.position_putcVga (h : t.OnScreen) (c : UInt8) :
    (Console.putcVga t c).position = advance t.position c := by
  have hrow := h.row
  have hcol := h.col
  unfold Console.putcVga advance Screen.position
  by_cases hline : c = 0x0A
  · rw [if_pos hline, if_pos hline]
    dsimp only
    split <;> omega
  · rw [if_neg hline, if_neg hline]
    dsimp only
    split
    · split <;> dsimp only <;> omega
    · dsimp only
      omega

theorem advance_lt (p : Nat) (c : UInt8) : advance p c < 2000 := by
  unfold advance
  split <;> exact Nat.mod_lt _ (by decide)

theorem placed_lt (hp : p < 2000) : ∀ w ∈ placed p s, w.1 < 2000 := by
  induction s generalizing p with
  | nil => exact nofun
  | cons c s ih =>
    intro w hw
    rw [placed] at hw
    rcases List.mem_append.mp hw with hw | hw
    · split at hw
      · exact absurd hw (by simp)
      · rw [List.mem_singleton.mp hw]
        exact hp
    · exact ih (advance_lt p c) w hw

theorem mem_placed {w : Nat × UInt8} (hw : w ∈ placed p s) : w.2 ∈ s := by
  induction s generalizing p with
  | nil => exact absurd hw (by simp [placed])
  | cons c s ih =>
    rw [placed] at hw
    rcases List.mem_append.mp hw with hw | hw
    · split at hw
      · exact absurd hw (by simp)
      · rw [List.mem_singleton.mp hw]
        exact List.mem_cons_self
    · exact List.mem_cons_of_mem _ (ih hw)

/-- What is placed by characters and one more. -/
theorem placed_concat (p : Nat) (s : List UInt8) (c : UInt8) :
    placed p (s ++ [c]) = placed p s ++ if c = 0x0A then [] else [(s.foldl advance p, c)] := by
  induction s generalizing p with
  | nil => simp [placed]
  | cons b s ih => rw [List.cons_append, placed, ih, placed, List.append_assoc, List.foldl_cons]

/-- **The stores are those of the abstract screen.** -/
theorem Screen.OnScreen.vgaStores_eq (h : t.OnScreen) (s : List UInt8) :
    vgaStores t s = (placed t.position s).map fun w => (w.1, cell w.2) := by
  induction s generalizing t with
  | nil => rfl
  | cons c s ih =>
    rw [vgaStores, placed, List.map_append, ih (h.putcVga c), h.position_putcVga]
    unfold putcVgaStore
    split <;> rfl

theorem mem_clearStores {w : Nat × BitVec 16} :
    w ∈ clearStores ↔ w.1 < 2000 ∧ w.2 = cell 0x20 := by
  have hblank : 0x0A00#16 ||| 0x20#16 = cell 0x20 := by decide
  unfold clearStores
  rw [hblank, List.mem_flatMap]
  simp only [List.mem_map, List.mem_range]
  constructor
  · rintro ⟨y, hy, x, hx, rfl⟩
    exact ⟨by dsimp only; omega, rfl⟩
  · rintro ⟨hlt, hw⟩
    refine ⟨w.1 / 80, by omega, w.1 % 80, Nat.mod_lt _ (by decide), Prod.ext ?_ hw.symm⟩
    dsimp only
    omega

/-- `terminal64_init` clears the screen. -/
theorem stored_clearStores (vga : Nat → BitVec 16) (hi : i < 2000) :
    stored vga clearStores i = cell 0x20 := by
  rcases latest_or_ne clearStores i with ⟨w, hlatest⟩ | hne
  · rw [stored_of_latest hlatest]
    obtain ⟨-, before, after, hw, -⟩ := hlatest
    exact (mem_clearStores.mp (hw ▸ by simp)).2
  · exact absurd rfl (hne (i, cell 0x20) (mem_clearStores.mpr ⟨hi, rfl⟩))

theorem terminal64Init_screen (d : Devices) :
    (terminal64Init d).screen = ⟨stored (serialInit d).screen.vga clearStores, 0, 0⟩ := rfl

theorem onScreen_terminal64Init (d : Devices) : (terminal64Init d).screen.OnScreen :=
  ⟨Nat.zero_lt_succ 24, Nat.zero_lt_succ 79⟩

/-- **The cells hold the bytes of the abstract screen**, widened with their sign. -/
theorem vga_foldl_putcVga (d : Devices) (s : List UInt8) (hi : i < 2000) :
    (s.foldl putcVga (terminal64Init d).screen).vga i = cell (shown s i) := by
  have hblank : (terminal64Init d).screen.vga i = cell 0x20 := by
    rw [terminal64Init_screen]
    dsimp only
    exact stored_clearStores _ hi
  rw [foldl_putcVga_vga, (onScreen_terminal64Init d).vgaStores_eq,
    stored_congr (n := fun _ => cell 0x20) hblank]
  exact stored_map cell _ _ i

theorem cell_eq_attributed_iff (c : UInt8) : cell c = attributed c ↔ c < 0x80 := by
  unfold cell attributed
  rw [UInt8.lt_iff_toBitVec_lt]
  generalize c.toBitVec = b
  revert b
  decide

/-- No store is outside the buffer. -/
theorem stores_inside (d : Devices) (s : List UInt8) :
    ∀ w ∈ clearStores ++ vgaStores (terminal64Init d).screen s, w.1 < 2000 := by
  intro w hw
  rcases List.mem_append.mp hw with hw | hw
  · exact (mem_clearStores.mp hw).1
  · rw [(onScreen_terminal64Init d).vgaStores_eq] at hw
    obtain ⟨v, hv, rfl⟩ := List.mem_map.mp hw
    exact placed_lt (onScreen_terminal64Init d).position_lt v hv

theorem shown_of_le (s : List UInt8) (hi : 2000 ≤ i) : shown s i = 0x20 := by
  refine stored_of_ne fun w hw heq => ?_
  have hlt := placed_lt (by decide) w hw
  omega

/-- The attribute is everywhere if and only if no byte from 0x80 on is shown. -/
theorem showsText_iff (d : Devices) (s : List UInt8) :
    ShowsText (terminal64Init d).screen s (s.foldl putcVga (terminal64Init d).screen) ↔
    PrintedOver s := by
  have hall : (∀ i, shown s i < 0x80) ↔ PrintedOver s :=
    stored_forall_iff (P := fun b => b < 0x80) fun _ => by decide
  rw [← hall]
  constructor
  · intro h i
    by_cases hi : i < 2000
    · rw [← cell_eq_attributed_iff, ← vga_foldl_putcVga d s hi]
      exact h.cells i hi
    · rw [shown_of_le s (Nat.le_of_not_lt hi)]
      decide
  · intro h
    refine ⟨stores_inside d s, fun i hi => ?_⟩
    rw [vga_foldl_putcVga d s hi]
    exact (cell_eq_attributed_iff _).mpr (h i)

/-- A byte from 0x80 on is shown as soon as it is printed. -/
theorem not_printedOver_concat (s : List UInt8) (hc : ¬ c < 0x80) :
    ¬ PrintedOver (s ++ [c]) := by
  intro h
  have hline : c ≠ 0x0A := by
    rintro rfl
    exact hc (by decide)
  have hlast := placed_concat 0 s c
  rw [if_neg hline] at hlast
  obtain ⟨v, hv, -⟩ := h _ _ _ hlast hc
  exact absurd hv (by simp)

theorem printedOver_of_ascii (h : ∀ c ∈ s, c < 0x80) : PrintedOver s := by
  intro before w after hs hw
  exact absurd (h _ (mem_placed (p := 0) (hs ▸ by simp))) hw

end Printing

/-! ## The screen of the machine -/

section Machine

variable {κ τ : Type} [DecidableEq κ] [DecidableEq τ] {t t' : Terminal κ τ} {k : κ}
    {i flags : Bool} {r : List Point}

/-- The CPU goes on from character `n` of a string to the end of `kprint`. -/
theorem Terminal.exec_char {f : CString} (s : List UInt8) : ∀ {n : Nat} {t : Terminal κ τ},
    t.running k = ⟨i, .char f n flags :: r⟩ → (∀ j, f (n + j) = s.getD j 0) →
      ∃ m t', exec Terminal.step t (List.replicate m (.exec k 0x20)) = some t' ∧
        t'.running = Function.update t.running k ⟨if flags then true else i, r⟩ ∧
        t'.printLock = false ∧
        t'.screen = (characters s).foldl Console.putcVga t.screen ∧
        t'.serial = t.serial ++ characters s := by
  induction s with
  | nil =>
    intro n t hc hf
    have hzero : f n = 0 := by simpa using hf 0
    refine ⟨3, { t.goOn k ⟨if flags then true else i, r⟩ with printLock := false }, ?_, rfl,
      rfl, rfl, ?_⟩
    · simp [List.replicate, exec, Terminal.step, Terminal.run, hc, hzero, Terminal.goOn]
    · exact (List.append_nil _).symm
  | cons c s ih =>
    intro n t hc hf
    have hhead : f n = c := by simpa using hf 0
    by_cases hzero : c = 0
    · refine ⟨3, { t.goOn k ⟨if flags then true else i, r⟩ with printLock := false }, ?_, rfl,
        rfl, ?_, ?_⟩
      · simp [List.replicate, exec, Terminal.step, Terminal.run, hc, hhead, hzero,
          Terminal.goOn]
      · simp [characters, hzero, Terminal.goOn]
      · simp [characters, hzero, Terminal.goOn]
    · have hcons : characters (c :: s) = c :: characters s :=
        List.takeWhile_cons_of_pos (by simpa using hzero)
      obtain ⟨mid, hmid, hrunning, hscreen, hserial⟩ :
          ∃ mid, exec Terminal.step t (List.replicate 3 (.exec k 0x20)) = some mid ∧
            mid.running = Function.update t.running k ⟨i, .char f (n + 1) flags :: r⟩ ∧
            mid.screen = Console.putcVga t.screen c ∧ mid.serial = t.serial ++ [c] := by
        refine ⟨{ t.goOn k ⟨i, .char f (n + 1) flags :: r⟩ with
          screen := Console.putcVga t.screen c
          serial := t.serial ++ [c] }, ?_, rfl, rfl, rfl⟩
        simp [List.replicate, exec, Terminal.step, Terminal.run, hc, hhead, hzero,
          Terminal.goOn]
      have hchar : mid.running k = ⟨i, .char f (n + 1) flags :: r⟩ := by
        rw [hrunning, Function.update_self]
      obtain ⟨m, t', hrest, hrunning', hfree, hscreen', hserial'⟩ := ih hchar fun j => by
        have hj := hf (j + 1)
        rwa [List.getD_cons_succ, Nat.add_comm j, ← Nat.add_assoc] at hj
      refine ⟨3 + m, t', ?_, ?_, hfree, ?_, ?_⟩
      · rw [← List.replicate_append_replicate, exec_append, hmid, Option.bind_some]
        exact hrest
      · rw [hrunning', hrunning, Function.update_idem]
      · rw [hscreen', hscreen, hcons, List.foldl_cons]
      · rw [hserial', hserial, hcons, List.append_assoc, List.singleton_append]

/-- **A call that nothing comes between**, with the port ready whenever it is asked,
does what `kprint` does to both devices, and leaves the lock and the IF as they
were. -/
theorem Terminal.exec_kprint {s : List UInt8} {ports : List (Nat × UInt8)}
    (hc : t.running k = ⟨i, .entry (cString s) :: r⟩) (hfree : t.printLock = false)
    (hports : ports = t.serial.map fun c => (com1, c)) :
    ∃ m t', exec Terminal.step t (List.replicate m (.exec k 0x20)) = some t' ∧
      t'.running = Function.update t.running k ⟨i, r⟩ ∧ t'.printLock = false ∧
      kprint ⟨t.screen, ports⟩ s = ⟨t'.screen, t'.serial.map fun c => (com1, c)⟩ := by
  obtain ⟨mid, hmid, hrunning, hscreen, hserial⟩ :
      ∃ mid, exec Terminal.step t (List.replicate 2 (.exec k 0x20)) = some mid ∧
        mid.running = Function.update t.running k ⟨false, .char (cString s) 0 i :: r⟩ ∧
        mid.screen = t.screen ∧ mid.serial = t.serial := by
    refine ⟨{ t.goOn k ⟨false, .char (cString s) 0 i :: r⟩ with printLock := true }, ?_,
      rfl, rfl, rfl⟩
    simp [List.replicate, exec, Terminal.step, Terminal.run, hc, hfree, Terminal.goOn]
  have hchar : mid.running k = ⟨false, .char (cString s) 0 i :: r⟩ := by
    rw [hrunning, Function.update_self]
  obtain ⟨m, t', hrest, hrunning', hfree', hscreen', hserial'⟩ :=
    Terminal.exec_char s hchar fun j => by
    rw [Nat.zero_add]
    rfl
  refine ⟨2 + m, t', ?_, ?_, hfree', ?_⟩
  · rw [← List.replicate_append_replicate, exec_append, hmid, Option.bind_some]
    exact hrest
  · rw [hrunning', hrunning, Function.update_idem]
    cases i <;> rfl
  · rw [kprint_eq, hports, hscreen', hserial', hscreen, hserial, List.map_append]

/-- Both CPUs are at the entry of `kprint`. -/
def calling : Terminal (Fin 2) Unit :=
  ⟨false, ⟨fun _ => 0, 0, 0⟩, [], fun _ => ⟨true, [.entry (cString (ascii "hi")), .code]⟩,
    fun _ => ⟨true, [.code]⟩⟩

/-- CPU 0 goes on alone, and the string is out. -/
theorem exec_kprint_calling :
    ∃ m t', exec Terminal.step calling (List.replicate m (.exec 0 0x20)) = some t' ∧
      t'.printLock = false ∧ t'.serial = ascii "hi" := by
  obtain ⟨m, t', hrun, -, hfree, hout⟩ :=
    Terminal.exec_kprint (t := calling) (k := 0) (s := ascii "hi") rfl rfl rfl
  have hports : (ascii "hi").map (fun c => (com1, c)) = t'.serial.map fun c => (com1, c) :=
    congrArg Devices.ports hout
  have hstring := (List.map_inj_right fun c d h => (Prod.mk.inj h).2).mp hports
  exact ⟨m, t', hrun, hfree, hstring.symm⟩

end Machine

/-- **When the screen keeps its attribute.**  After `terminal64_init` and any calls of
`kprint`, all stores were inside the buffer and every cell has the attribute over what
was printed to it last if and only if every byte from 0x80 on has been printed over;
it is so after every character if and only if there is no such byte in the strings. -/
theorem screen_cells_iff (d : Devices) (strings : List (List UInt8)) :
    (ShowsText (terminal64Init d).screen (strings.flatMap characters)
      (strings.foldl kprint (terminal64Init d)).screen ↔
        PrintedOver (strings.flatMap characters)) ∧
      ((∀ done, done <+: strings.flatMap characters →
          ShowsText (terminal64Init d).screen done
            (done.foldl putcVga (terminal64Init d).screen)) ↔
        ∀ s ∈ strings, ∀ c ∈ characters s, c < 0x80) := by
  refine ⟨?_, ?_, ?_⟩
  · rw [kprints_screen]
    exact showsText_iff d _
  · intro h s hs c hc
    by_contra hbad
    obtain ⟨before, after, hsplit⟩ := List.append_of_mem (List.mem_flatMap.mpr ⟨s, hs, hc⟩)
    have hdone : before ++ [c] <+: strings.flatMap characters := ⟨after, by rw [hsplit]; simp⟩
    exact not_printedOver_concat before hbad ((showsText_iff d _).mp (h _ hdone))
  · intro h done hdone
    refine (showsText_iff d done).mpr (printedOver_of_ascii fun c hc => ?_)
    obtain ⟨s, hs, hcs⟩ := List.mem_flatMap.mp (hdone.subset hc)
    exact h s hs c hcs

/-- What `smp_start_aps` prints on a machine with one processor, as the compiler has it:
the dash is three bytes. -/
def singleCpuMessage : List UInt8 :=
  ascii "[smp] single-CPU system (or ACPI unavailable) " ++ [0xE2, 0x80, 0x94] ++
    ascii " skipping AP bringup\n"

/-- The dash takes its cells out of the attribute. -/
theorem screen_cells_dash :
    ∃ d : Devices, (kprint (terminal64Init d) singleCpuMessage).screen.vga 46 = 0xFFE2#16 ∧
      attributed (shown (characters singleCpuMessage) 46) = 0x0AE2#16 ∧
      ¬ ShowsText (terminal64Init d).screen (characters singleCpuMessage)
        (kprint (terminal64Init d) singleCpuMessage).screen := by
  have hshown : shown (characters singleCpuMessage) 46 = 0xE2 := by decide +kernel
  have hcell : (kprint (terminal64Init ⟨⟨fun _ => 0, 0, 0⟩, []⟩) singleCpuMessage).screen.vga
      46 = 0xFFE2#16 := by
    rw [kprint_eq]
    dsimp only
    rw [vga_foldl_putcVga _ _ (by decide), hshown]
    decide
  refine ⟨⟨⟨fun _ => 0, 0, 0⟩, []⟩, hcell, by rw [hshown]; decide, fun h => ?_⟩
  have hattr := h.cells 46 (by decide)
  rw [hcell, hshown] at hattr
  exact absurd hattr (by decide)

end NekaKernel.Console
