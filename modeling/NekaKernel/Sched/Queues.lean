/-
  Sched/Queues.lean --- the ready queues as lists.

  Source: `sched64.c`.

  A priority's ready queue is a circular list through `next`, entered at
  `ready_queue[p]`.  `Queues` is what it is for: one list for each priority, its
  head first.  A new thread is put at the end, which is just before the head, and
  a reschedule on a CPU that runs the head moves the head to the end.  The data
  of `sched64.c` represent such lists after any calls on any CPUs; bitmap, heads
  and links never disagree, so the search for the tail always ends.
-/
import Mathlib.Data.Fintype.Card
import NekaKernel.Foundation.Ring
import NekaKernel.Sched.Exclusive

set_option autoImplicit false

namespace NekaKernel.Sched

open NekaKernel.Foundation NekaKernel.Kernel

/-! ## The queues -/

/-- The ready queues, the thread each CPU runs and the time slices. -/
structure Queues where
  rings : Nat → List Tid
  current : Cpu → Option Tid
  slice : Tid → Nat
  count : Nat

/-- What `sched64_init` leaves. -/
def Queues.empty : Queues := ⟨fun _ => [], fun _ => none, fun _ => 0, 0⟩

/-- A new thread joins the end of its priority's queue. -/
def Queues.create (q : Queues) (priority : Nat) : Queues :=
  if h : q.count < maxThreads64 ∧ priority < numPriorities64 then
    { q with
      rings := Function.update q.rings priority (q.rings priority ++ [⟨q.count, h.1⟩])
      slice := Function.update q.slice ⟨q.count, h.1⟩ 5
      count := q.count + 1 }
  else q

/-- The highest priority below `n` whose queue is not empty. -/
def topBelow (rings : Nat → List Tid) : Nat → Option Nat
  | 0 => none
  | n + 1 => if rings n = [] then topBelow rings n else some n

/-- The highest priority with a thread. -/
def Queues.top (q : Queues) : Option Nat := topBelow q.rings numPriorities64

/-- A queue whose head runs on the rescheduling CPU is turned by one. -/
def turn (ring : List Tid) (running : Option Tid) : List Tid :=
  if ring.head? = running then ring.rotate 1 else ring

/-- CPU `c` takes the head of the highest queue, turned if it runs that head. -/
def Queues.reschedule (q : Queues) (c : Cpu) : Queues :=
  match q.top with
  | none => q
  | some prio =>
      let ring := turn (q.rings prio) (q.current c)
      { q with
        rings := Function.update q.rings prio ring
        current := Function.update q.current c ring.head? }

/-- A timer tick on CPU `c`. -/
def Queues.tick (q : Queues) (c : Cpu) (locked : Bool) : Queues :=
  match q.current c with
  | none => q
  | some cur =>
      if 0 < q.slice cur then
        if q.slice cur - 1 = 0 then
          let q := { q with slice := Function.update q.slice cur 5 }
          if locked then q else q.reschedule c
        else { q with slice := Function.update q.slice cur (q.slice cur - 1) }
      else q

/-! ## The highest queue -/

section Top

variable {rings : Nat → List Tid} {n p : Nat}

theorem topBelow_eq_none : topBelow rings n = none ↔ ∀ r, r < n → rings r = [] := by
  induction n with
  | zero => simp [topBelow]
  | succ n ih =>
    rw [topBelow]
    split
    · rename_i hempty
      rw [ih]
      constructor
      · intro h r hr
        rcases Nat.lt_succ_iff_lt_or_eq.mp hr with hlt | rfl
        · exact h r hlt
        · exact hempty
      · exact fun h r hr => h r (Nat.lt_succ_of_lt hr)
    · rename_i hfull
      constructor
      · intro h
        cases h
      · exact fun h => absurd (h n (Nat.lt_succ_self n)) hfull

theorem topBelow_eq_some : topBelow rings n = some p ↔
    p < n ∧ rings p ≠ [] ∧ ∀ r, r < n → rings r ≠ [] → r ≤ p := by
  induction n with
  | zero => simp [topBelow]
  | succ n ih =>
    rw [topBelow]
    split
    · rename_i hempty
      rw [ih]
      constructor
      · rintro ⟨hlt, hne, hmax⟩
        refine ⟨Nat.lt_succ_of_lt hlt, hne, fun r hr hrne => ?_⟩
        rcases Nat.lt_succ_iff_lt_or_eq.mp hr with hlt' | rfl
        · exact hmax r hlt' hrne
        · exact absurd hempty hrne
      · rintro ⟨hlt, hne, hmax⟩
        refine ⟨?_, hne, fun r hr => hmax r (Nat.lt_succ_of_lt hr)⟩
        rcases Nat.lt_succ_iff_lt_or_eq.mp hlt with hlt' | rfl
        · exact hlt'
        · exact absurd hempty hne
    · rename_i hfull
      rw [Option.some.injEq]
      constructor
      · rintro rfl
        exact ⟨Nat.lt_succ_self n, hfull, fun r hr _ => Nat.le_of_lt_succ hr⟩
      · rintro ⟨hlt, _, hmax⟩
        exact Nat.le_antisymm (hmax n (Nat.lt_succ_self n) hfull) (Nat.le_of_lt_succ hlt)

end Top

theorem turn_perm (ring : List Tid) (running : Option Tid) : (turn ring running).Perm ring := by
  unfold turn
  split
  · exact List.rotate_perm ring 1
  · exact List.Perm.refl ring

theorem turn_ne_nil {ring : List Tid} (h : ring ≠ []) (running : Option Tid) :
    turn ring running ≠ [] :=
  fun hnil => h (List.Perm.eq_nil (hnil ▸ (turn_perm ring running).symm))

/-! ## Representation -/

/-- `t->next`. -/
def Scheduler64.link (s : Scheduler64) (t : Tid) : Option Tid := (s.threads t).next

/-- The data of `sched64.c` hold the queues `q`. -/
structure Represents (s : Scheduler64) (q : Queues) : Prop where
  count : s.threadCount = q.count
  current : s.current = q.current
  running : ∀ c t, q.current c = some t → t.val < q.count
  slices : ∀ t : Tid, t.val < q.count → (s.threads t).timeSlice = q.slice t
  heads : ∀ p, s.readyQueue p = (q.rings p).head?
  rings : ∀ p, IsRing s.link (q.rings p)
  members : ∀ p t, t ∈ q.rings p ↔ t.val < q.count ∧ (s.threads t).priority = p
  bits : ∀ p, s.readyBitmap.testBit p = true ↔ q.rings p ≠ []
  bounded : ∀ p, q.rings p ≠ [] → p < numPriorities64

section Represents

variable {L : ThreadTable} {s s' : Scheduler64} {q : Queues} {c : Cpu}

theorem represents_init (s : Scheduler64) : Represents (sched64Init s) Queues.empty := by
  refine ⟨rfl, rfl, ?_, ?_, fun _ => rfl, fun _ => isRing_nil, ?_, ?_, ?_⟩ <;>
    simp [Queues.empty, sched64Init]

/-- A change that keeps queues and priorities keeps the lists. -/
theorem Represents.congr {slice : Tid → Nat} (R : Represents s q) (h : SameQueues s s')
    (hprio : ∀ t, (s'.threads t).priority = (s.threads t).priority)
    (hslice : ∀ t : Tid, t.val < q.count → (s'.threads t).timeSlice = slice t) :
    Represents s' { q with slice := slice } := by
  refine ⟨?_, ?_, R.running, hslice, ?_, ?_, ?_, ?_, R.bounded⟩
  · rw [h.threadCount]
    exact R.count
  · rw [h.current]
    exact R.current
  · rw [h.readyQueue]
    exact R.heads
  · exact fun p => (R.rings p).congr fun x _ => h.next x
  · intro p t
    rw [hprio]
    exact R.members p t
  · rw [h.readyBitmap]
    exact R.bits

/-- A thread that has been created is in the queue of its priority. -/
theorem Represents.mem_ring (R : Represents s q) {t : Tid} (ht : t.val < q.count) :
    t ∈ q.rings (s.threads t).priority :=
  (R.members _ t).mpr ⟨ht, rfl⟩

theorem Represents.wf (R : Represents s q) : Wf s := by
  refine ⟨?_, ?_, ?_, ?_⟩
  · intro p hp
    have hne := (R.bits p).mp hp
    obtain ⟨t, ht⟩ := List.exists_cons_of_ne_nil hne
    obtain ⟨rest, hring⟩ := ht
    refine ⟨R.bounded p hne, t, ?_⟩
    rw [R.heads, hring]
    rfl
  · intro p t ht
    rw [R.heads] at ht
    rw [R.count]
    exact ((R.members p t).mp (List.mem_of_mem_head? ht)).1
  · intro t ht
    rw [R.count] at ht ⊢
    obtain ⟨u, hu, hnext⟩ := (R.rings _).next_mem (R.mem_ring ht)
    exact ⟨u, hnext, ((R.members _ u).mp hu).1⟩
  · intro hpos hzero
    rw [R.count] at hpos
    have hmem := R.mem_ring (t := ⟨0, by decide⟩) hpos
    have hbit := (R.bits _).mpr (List.ne_nil_of_mem hmem)
    rw [hzero] at hbit
    simp at hbit

/-- `find_highest_bit64` finds the highest queue that is not empty. -/
theorem Represents.top (R : Represents s q) : findHighestBit64 s.readyBitmap = q.top := by
  unfold findHighestBit64
  split
  · rename_i hzero
    symm
    refine topBelow_eq_none.mpr fun r _ => ?_
    by_contra hne
    have hbit := (R.bits r).mpr hne
    rw [hzero] at hbit
    simp at hbit
  · rename_i hne
    have hle : ∀ r, q.rings r ≠ [] → r ≤ 31 := by
      intro r hr
      have := R.bounded r hr
      unfold numPriorities64 at this
      omega
    obtain ⟨i, hi⟩ := Nat.exists_testBit_of_ne_zero hne
    have hset := scanDown_set (hle i ((R.bits i).mp hi)) hi
    symm
    refine topBelow_eq_some.mpr ⟨?_, (R.bits _).mp hset, fun r _ hr => ?_⟩
    · exact R.bounded _ ((R.bits _).mp hset)
    · exact le_scanDown (hle r hr) ((R.bits r).mpr hr)

/-! ## Reschedule and tick -/

/-- The thread `sched64_reschedule` picks is the head of the turned queue. -/
theorem Represents.pick (R : Represents s q) {prio : Nat} {head : Tid}
    (hhead : s.readyQueue prio = some head) :
    (if some head = s.current c then (s.threads head).next else some head) =
      (turn (q.rings prio) (q.current c)).head? := by
  rw [R.heads] at hhead
  unfold turn
  rw [← R.current, hhead]
  split
  · exact (R.rings prio).next_head hhead
  · exact hhead.symm

theorem isRing_turn {link : Tid → Option Tid} {ring : List Tid} (R : IsRing link ring)
    (running : Option Tid) : IsRing link (turn ring running) := by
  unfold turn
  split
  · exact R.rotate
  · exact R

theorem Represents.reschedule (R : Represents s q) (c : Cpu) :
    Represents (sched64Reschedule s c).1 (q.reschedule c) := by
  rcases Nat.eq_zero_or_pos s.threadCount with hzero | hpos
  · have hempty := R.wf.bitmap_zero hzero
    have htop : q.top = none := by
      rw [← R.top, hempty]
      rfl
    rw [sched64Reschedule_of_empty hempty]
    unfold Queues.reschedule
    rw [htop]
    exact R
  · obtain ⟨prio, head, next, htop, hhead, hpick, hsame, _⟩ :=
      sched64Reschedule_spec R.wf hpos c
    rw [R.pick hhead] at hpick
    rw [R.top] at htop
    have hpicked : next.val < q.count := by
      have hmem := (turn_perm _ _).mem_iff.mp (List.mem_of_mem_head? hpick)
      exact ((R.members prio next).mp hmem).1
    -- the queues of the turned list, before states and CR3 are written
    have hturned : Represents { s with
        current := Function.update s.current c (some next)
        readyQueue := Function.update s.readyQueue prio (some next) } (q.reschedule c) := by
      unfold Queues.reschedule
      rw [htop]
      dsimp only
      have hmembers : ∀ p t, t ∈ Function.update q.rings prio
        (turn (q.rings prio) (q.current c)) p ↔
          t ∈ q.rings p := by
        intro p t
        by_cases hp : p = prio
        · subst hp
          rw [Function.update_self]
          exact (turn_perm _ _).mem_iff
        · rw [Function.update_of_ne hp]
      have hnil : ∀ p, Function.update q.rings prio (turn (q.rings prio) (q.current c)) p ≠ [] ↔
          q.rings p ≠ [] := by
        intro p
        simp only [ne_eq, List.eq_nil_iff_forall_not_mem, hmembers]
      refine ⟨R.count, ?_, ?_, R.slices, ?_, ?_, ?_, ?_, ?_⟩
      · dsimp only
        rw [hpick, R.current]
      · intro d t ht
        dsimp only at ht ⊢
        by_cases hd : d = c
        · subst hd
          rw [Function.update_self, hpick, Option.some.injEq] at ht
          exact ht ▸ hpicked
        · rw [Function.update_of_ne hd] at ht
          exact R.running d t ht
      · intro p
        dsimp only
        by_cases hp : p = prio
        · subst hp
          rw [Function.update_self, Function.update_self, hpick]
        · rw [Function.update_of_ne hp, Function.update_of_ne hp]
          exact R.heads p
      · intro p
        dsimp only
        by_cases hp : p = prio
        · subst hp
          rw [Function.update_self]
          exact isRing_turn (R.rings p) _
        · rw [Function.update_of_ne hp]
          exact R.rings p
      · exact fun p t => (hmembers p t).trans (R.members p t)
      · exact fun p => (R.bits p).trans (hnil p).symm
      · exact fun p hp => R.bounded p ((hnil p).mp hp)
    refine hturned.congr hsame ?_ ?_
    · exact sched64Reschedule_keeps Thread64.priority fun _ _ => rfl
    · intro t ht
      rw [sched64Reschedule_keeps Thread64.timeSlice fun _ _ => rfl]
      exact hturned.slices t ht

/-- Writing the running thread's time slice. -/
theorem Represents.setSlice (R : Represents s q) (t : Tid) (n : Nat) (f : Thread64 → Thread64)
    (hf : ∀ th, f th = { th with timeSlice := (f th).timeSlice })
    (hn : (f (s.threads t)).timeSlice = n) :
    Represents (s.modify t f) { q with slice := Function.update q.slice t n } := by
  have hnext : ∀ th, (f th).next = th.next := by
    intro th
    rw [hf th]
  have hprio : ∀ th, (f th).priority = th.priority := by
    intro th
    rw [hf th]
  refine R.congr (sameQueues_modify f hnext) (modify_keeps Thread64.priority f hprio) ?_
  intro u hu
  unfold Scheduler64.modify
  by_cases hut : u = t
  · subst hut
    dsimp only
    rw [Function.update_self, Function.update_self, hn]
  · dsimp only
    rw [Function.update_of_ne hut, Function.update_of_ne hut]
    exact R.slices u hu

/-- A tick on a CPU that runs a thread counts its slice down, and at zero resets
it and reschedules unless the lock is held. -/
theorem apply_timerTick_of_running {cur : Tid} (locked : Bool) (h : s.current c = some cur) :
    s.apply (.timerTick c locked) =
      if 0 < (s.threads cur).timeSlice then
        if (s.threads cur).timeSlice - 1 = 0 then
          if locked then s.modify cur fun th => { th with timeSlice := 5 }
          else (sched64Reschedule (s.modify cur fun th => { th with timeSlice := 5 }) c).1
        else s.modify cur fun th => { th with timeSlice := th.timeSlice - 1 }
      else s := by
  unfold Scheduler64.apply sched64TimerTick
  dsimp only
  rw [h]
  dsimp only
  by_cases hpos : 0 < (s.threads cur).timeSlice
  · rw [if_pos hpos, if_pos hpos]
    by_cases hlast : (s.threads cur).timeSlice - 1 = 0
    · rw [if_pos hlast, if_pos hlast]
      cases locked <;> rfl
    · rw [if_neg hlast, if_neg hlast]
  · rw [if_neg hpos, if_neg hpos]

theorem Represents.tick (R : Represents s q) (c : Cpu) (locked : Bool) :
    Represents (s.apply (.timerTick c locked)) (q.tick c locked) := by
  unfold Queues.tick
  cases hcur : q.current c with
  | none =>
    rw [apply_timerTick_of_idle locked (R.current ▸ hcur)]
    exact R
  | some cur =>
    have hslice := R.slices cur (R.running c cur hcur)
    rw [apply_timerTick_of_running locked (R.current ▸ hcur), hslice]
    dsimp only
    by_cases hpos : 0 < q.slice cur
    · rw [if_pos hpos, if_pos hpos]
      by_cases hlast : q.slice cur - 1 = 0
      · have hreset := R.setSlice cur 5 (fun th => { th with timeSlice := 5 })
          (fun _ => rfl) rfl
        rw [if_pos hlast, if_pos hlast]
        cases locked with
        | true => exact hreset
        | false => exact hreset.reschedule c
      · rw [if_neg hlast, if_neg hlast]
        refine R.setSlice cur _ (fun th => { th with timeSlice := th.timeSlice - 1 })
          (fun _ => rfl) ?_
        dsimp only
        rw [hslice]
    · rw [if_neg hpos, if_neg hpos]
      exact R

/-! ## Creation -/

theorem findTail_eq (threads : Tid → Thread64) (head : Tid) :
    ∀ (fuel : Nat) (t : Tid),
      findTail threads head fuel t = lastBefore (fun u => (threads u).next) head fuel t := by
  intro fuel
  induction fuel with
  | zero => exact fun _ => rfl
  | succ fuel ih =>
    intro t
    rw [findTail, lastBefore]
    cases (threads t).next with
    | none => rfl
    | some n =>
      dsimp only
      split
      · rfl
      · exact ih n

/-- The tail search ends after at most as many steps as there are threads. -/
theorem Represents.findTail (R : Represents s q) {p : Nat} {head : Tid} (fuel : Nat)
    (hhead : s.readyQueue p = some head) (hfuel : maxThreads64 ≤ fuel) :
    ∃ front last, q.rings p = front ++ [last] ∧ findTail s.threads head fuel head =
      some last := by
  rw [R.heads] at hhead
  have hne : q.rings p ≠ [] := by
    intro hnil
    rw [hnil] at hhead
    cases hhead
  have hring := R.rings p
  have hlen : (q.rings p).length ≤ 16 := by
    simpa using hring.nodup.length_le_card
  rw [← List.dropLast_append_getLast hne] at hhead hring hlen
  refine ⟨_, _, (List.dropLast_append_getLast hne).symm, ?_⟩
  rw [findTail_eq]
  refine hring.lastBefore_eq hhead ?_
  rw [List.length_append, List.length_singleton] at hlen
  unfold maxThreads64 at hfuel
  omega

/-- Creation returns. -/
theorem Represents.create_returns (R : Represents s q) (priority cr3 : Nat) :
    ∃ r s', sched64CreateThread L s priority cr3 = (.ret r, s') := by
  unfold sched64CreateThread
  split
  · dsimp only
    cases hq : s.readyQueue priority with
    | none => exact ⟨_, _, rfl⟩
    | some head =>
      obtain ⟨_, last, _, htail⟩ := R.findTail loopFuel hq (by decide)
      dsimp only
      rw [htail]
      exact ⟨_, _, rfl⟩
  · exact ⟨_, _, rfl⟩

/-- The new thread and what creation leaves of the others. -/
theorem sched64CreateThread_threads {t : Tid} {priority cr3 : Nat}
    (h : sched64CreateThread L s priority cr3 = (.ret (some t), s')) :
    (∃ next, s'.threads t = freshThread L t priority cr3 next) ∧
      ∀ u, u ≠ t → ∃ next, s'.threads u = { s.threads u with next := next } := by
  rcases sched64CreateThread_cases h with ⟨hr, _⟩ | ⟨t', hr, _, _, _, _, _, hring⟩
  · cases hr
  cases hr
  rcases hring with ⟨_, _, hthreads⟩ | ⟨head, tail, _, _, _, hthreads⟩
  · rw [hthreads]
    refine ⟨⟨_, Function.update_self ..⟩, fun u hu => ⟨(s.threads u).next, ?_⟩⟩
    rw [Function.update_of_ne hu]
  · rw [hthreads]
    refine ⟨⟨_, Function.update_self ..⟩, fun u hu => ?_⟩
    rw [Function.update_of_ne hu]
    by_cases htail : u = tail
    · subst htail
      exact ⟨_, Function.update_self ..⟩
    · exact ⟨(s.threads u).next, by rw [Function.update_of_ne htail]⟩

/-- The queues after a creation: the new thread closes the ring of its priority,
and the other rings keep their links. -/
theorem Represents.create_rings (R : Represents s q) {t : Tid} {priority cr3 : Nat}
    (h : sched64CreateThread L s priority cr3 = (.ret (some t), s'))
    (hfresh : ∀ p, t ∉ q.rings p) (p : Nat) :
    IsRing s'.link (Function.update q.rings priority (q.rings priority ++ [t]) p) ∧
      s'.readyQueue p =
        (Function.update q.rings priority (q.rings priority ++ [t]) p).head? := by
  rcases sched64CreateThread_cases h with ⟨hr, _⟩ | ⟨t', hr, _, _, _, _, _, hring⟩
  · cases hr
  cases hr
  rcases hring with ⟨hq, hqueue, hthreads⟩ | ⟨head, tail, hq, htail, hqueue, hthreads⟩
  · have hlink : s'.link = Function.update s.link t (some t) := by
      funext u
      unfold Scheduler64.link
      rw [hthreads]
      by_cases hu : u = t
      · subst hu
        rw [Function.update_self, Function.update_self]
        rfl
      · rw [Function.update_of_ne hu, Function.update_of_ne hu]
    rw [hlink, hqueue]
    by_cases hp : p = priority
    · subst hp
      have hempty : q.rings p = [] := by
        rw [R.heads] at hq
        exact List.head?_eq_none_iff.mp hq
      rw [Function.update_self, Function.update_self, hempty]
      exact ⟨isRing_singleton (Function.update_self ..), rfl⟩
    · rw [Function.update_of_ne hp, Function.update_of_ne hp]
      refine ⟨(R.rings p).congr fun u hu => ?_, R.heads p⟩
      have hut : u ≠ t := fun heq => hfresh p (heq ▸ hu)
      rw [Function.update_of_ne hut]
  · obtain ⟨front, last, hsplit, htail'⟩ := R.findTail loopFuel hq (by decide)
    have hlast : last = tail := Option.some.inj (htail'.symm.trans htail)
    subst hlast
    have hlink : s'.link = Function.update (Function.update s.link last (some t)) t
        (some head) := by
      funext u
      unfold Scheduler64.link
      rw [hthreads]
      by_cases hu : u = t
      · subst hu
        rw [Function.update_self, Function.update_self]
        rfl
      · rw [Function.update_of_ne hu, Function.update_of_ne hu]
        by_cases hul : u = last
        · subst hul
          rw [Function.update_self, Function.update_self]
        · rw [Function.update_of_ne hul, Function.update_of_ne hul]
    rw [hlink, hqueue]
    have hhead := R.heads priority
    rw [hq, hsplit] at hhead
    by_cases hp : p = priority
    · subst hp
      have hring := R.rings p
      have hnot := hfresh p
      rw [hsplit] at hring hnot
      rw [Function.update_self, hsplit]
      refine ⟨hring.append hhead.symm hnot, ?_⟩
      rw [hq, List.head?_append, ← hhead]
      rfl
    · rw [Function.update_of_ne hp]
      refine ⟨(R.rings p).congr fun u hu => ?_, R.heads p⟩
      have hut : u ≠ t := fun heq => hfresh p (heq ▸ hu)
      -- the old tail has the new thread's priority
      have hul : u ≠ last := by
        rintro rfl
        have hmem : u ∈ q.rings priority := by
          rw [hsplit]
          exact List.mem_concat_self
        exact hp (((R.members p u).mp hu).2.symm.trans ((R.members priority u).mp hmem).2)
      rw [Function.update_of_ne hut, Function.update_of_ne hul]

theorem Represents.create (R : Represents s q) {priority cr3 : Nat} {r : Option Tid}
    (h : sched64CreateThread L s priority cr3 = (.ret r, s')) :
    Represents s' (q.create priority) := by
  rcases sched64CreateThread_cases h with
    ⟨_, rfl, hfull⟩ | ⟨t, rfl, ht, hprio, hcount, hbitmap, hcur, _⟩
  · unfold Queues.create
    rw [dif_neg (R.count ▸ hfull)]
    exact R
  have hroom : q.count < maxThreads64 ∧ priority < numPriorities64 := by
    refine ⟨?_, hprio⟩
    rw [← R.count, ← ht]
    exact t.isLt
  have hnew : (⟨q.count, hroom.1⟩ : Tid) = t := Fin.ext (by rw [ht, R.count])
  have hold : ∀ u : Tid, u.val < q.count → u ≠ t := by
    rintro u hu rfl
    rw [← R.count] at hu
    omega
  have hsucc : ∀ u : Tid, u.val < q.count + 1 → u = t ∨ u.val < q.count := by
    intro u hu
    rcases Nat.lt_succ_iff_lt_or_eq.mp hu with hlt | heq
    · exact Or.inr hlt
    · exact Or.inl (Fin.ext (by rw [heq, ht, R.count]))
  have hlt : t.val < q.count + 1 := by
    rw [ht, R.count]
    exact Nat.lt_succ_self _
  have hfresh : ∀ p, t ∉ q.rings p := fun p hmem => hold t ((R.members p t).mp hmem).1 rfl
  obtain ⟨⟨_, hthread⟩, hothers⟩ := sched64CreateThread_threads h
  unfold Queues.create
  rw [dif_pos hroom, hnew]
  refine ⟨?_, ?_, ?_, ?_, ?_, ?_, ?_, ?_, ?_⟩
  · rw [hcount, R.count]
  · rw [hcur]
    exact R.current
  · exact fun c u hu => Nat.lt_succ_of_lt (R.running c u hu)
  · intro u hu
    rcases hsucc u hu with rfl | hlt'
    · dsimp only
      rw [hthread, Function.update_self]
      rfl
    · obtain ⟨_, hkept⟩ := hothers u (hold u hlt')
      dsimp only
      rw [hkept, Function.update_of_ne (hold u hlt')]
      exact R.slices u hlt'
  · exact fun p => (R.create_rings h hfresh p).2
  · exact fun p => (R.create_rings h hfresh p).1
  · intro p u
    dsimp only
    by_cases hut : u = t
    · subst hut
      rw [hthread]
      by_cases hp : p = priority
      · subst hp
        simp [freshThread, hlt]
      · simp [Function.update_of_ne hp, hfresh p, freshThread, Ne.symm hp]
    · obtain ⟨_, hkept⟩ := hothers u hut
      have hcount' : u.val < q.count + 1 ↔ u.val < q.count :=
        ⟨fun hu => (hsucc u hu).resolve_left hut, Nat.lt_succ_of_lt⟩
      rw [hkept, hcount', ← R.members p u]
      by_cases hp : p = priority
      · subst hp
        simp [hut]
      · rw [Function.update_of_ne hp]
  · intro p
    dsimp only
    rw [hbitmap, Nat.testBit_or, Nat.one_shiftLeft, Nat.testBit_two_pow, Bool.or_eq_true,
      decide_eq_true_eq, R.bits]
    by_cases hp : p = priority
    · subst hp
      simp
    · rw [Function.update_of_ne hp]
      simp [Ne.symm hp]
  · intro p
    dsimp only
    by_cases hp : p = priority
    · subst hp
      exact fun _ => hprio
    · rw [Function.update_of_ne hp]
      exact R.bounded p

end Represents

/-! ## Runs -/

/-- `t->cr3 = cr3`, as `main64.c` does for the launcher. -/
def Scheduler64.assignCr3 (s : Scheduler64) (t : Tid) (cr3 : Nat) : Scheduler64 :=
  s.modify t fun th => { th with cr3 := cr3 }

/-- A call into the scheduler from any CPU, or an assignment to a thread's `cr3`. -/
inductive Call where
  | create (priority cr3 : Nat)
  | assignCr3 (t : Tid) (cr3 : Nat)
  | op (o : Op)
  deriving DecidableEq, Repr

/-- The scheduler, and the threads that `sched64_create_thread` has returned with
the priorities asked for, in order. -/
structure History where
  sched : Scheduler64
  made : List (Tid × Nat)

/-- One call; `none` means that `sched64_create_thread` does not return. -/
def History.call (L : ThreadTable) (h : History) : Call → Option History
  | .create priority cr3 =>
      match sched64CreateThread L h.sched priority cr3 with
      | (.ret (some t), s) => some ⟨s, h.made ++ [(t, priority)]⟩
      | (.ret none, s) => some ⟨s, h.made⟩
      | _ => none
  | .assignCr3 t cr3 => some { h with sched := h.sched.assignCr3 t cr3 }
  | .op o => some { h with sched := h.sched.apply o }

/-- The calls on the lists. -/
def Queues.call (q : Queues) : Call → Queues
  | .create priority _ => q.create priority
  | .assignCr3 _ _ => q
  | .op (.reschedule c) => q.reschedule c
  | .op (.timerTick c locked) => q.tick c locked

/-- The lists after the calls in order. -/
def Queues.run (calls : List Call) : Queues := calls.foldl Queues.call Queues.empty

/-- The threads made with priority `p`, in order. -/
def History.madeAt (h : History) (p : Nat) : List Tid := (h.made.filter (·.2 = p)).map (·.1)

/-- The history and the lists are those of one run. -/
structure Agrees (h : History) (q : Queues) : Prop where
  represents : Represents h.sched q
  perm : ∀ p, (q.rings p).Perm (h.madeAt p)

section Runs

variable {L : ThreadTable} {h h' : History} {q : Queues}

/-- Assigning `cr3` changes nothing else of a thread. -/
theorem assignCr3_keeps {s : Scheduler64} {t : Tid} {cr3 : Nat} {β : Type} (g : Thread64 → β)
    (hg : ∀ th v, g { th with cr3 := v } = g th) (u : Tid) :
    g ((s.assignCr3 t cr3).threads u) = g (s.threads u) := by
  unfold Scheduler64.assignCr3
  apply modify_keeps g
  exact fun th => hg th cr3

theorem assignCr3_frame {s : Scheduler64} {t : Tid} {cr3 : Nat} :
    SameQueues s (s.assignCr3 t cr3) :=
  ⟨rfl, rfl, rfl, rfl, assignCr3_keeps Thread64.next fun _ _ => rfl⟩

theorem mem_madeAt {t : Tid} {p : Nat} : t ∈ h.madeAt p ↔ (t, p) ∈ h.made := by
  simp [History.madeAt]

theorem madeAt_concat {s : Scheduler64} {t : Tid} {p priority : Nat} :
    History.madeAt ⟨s, h.made ++ [(t, priority)]⟩ p =
      h.madeAt p ++ if priority = p then [t] else [] := by
  unfold History.madeAt
  rw [List.filter_append, List.map_append]
  by_cases hp : priority = p <;> simp [hp]

theorem Agrees.mem_iff (A : Agrees h q) {t : Tid} {p : Nat} : t ∈ q.rings p ↔ (t, p) ∈ h.made :=
  (A.perm p).mem_iff.trans mem_madeAt

theorem reschedule_perm (q : Queues) (c : Cpu) (p : Nat) :
    ((q.reschedule c).rings p).Perm (q.rings p) := by
  unfold Queues.reschedule
  cases q.top with
  | none => exact List.Perm.refl _
  | some prio =>
    dsimp only
    by_cases hp : p = prio
    · subst hp
      rw [Function.update_self]
      exact turn_perm _ _
    · rw [Function.update_of_ne hp]

theorem tick_perm (q : Queues) (c : Cpu) (locked : Bool) (p : Nat) :
    ((q.tick c locked).rings p).Perm (q.rings p) := by
  unfold Queues.tick
  cases q.current c with
  | none => exact List.Perm.refl _
  | some cur =>
    dsimp only
    split
    · split
      · split
        · exact List.Perm.refl _
        · exact reschedule_perm _ c p
      · exact List.Perm.refl _
    · exact List.Perm.refl _

/-- What is returned is the next entry of the table, if there is room. -/
theorem Represents.create_result {s s' : Scheduler64} (R : Represents s q) {priority cr3 : Nat}
    {t : Tid} (h : sched64CreateThread L s priority cr3 = (.ret (some t), s')) :
    (q.create priority).rings = Function.update q.rings priority (q.rings priority ++ [t]) := by
  rcases sched64CreateThread_cases h with ⟨hr, _⟩ | ⟨t', hr, ht, hprio, _⟩
  · cases hr
  cases hr
  have hroom : q.count < maxThreads64 ∧ priority < numPriorities64 := by
    refine ⟨?_, hprio⟩
    rw [← R.count, ← ht]
    exact t.isLt
  unfold Queues.create
  rw [dif_pos hroom]
  have hnew : (⟨q.count, hroom.1⟩ : Tid) = t := Fin.ext (by rw [ht, R.count])
  rw [hnew]

/-- A refused creation changes no list. -/
theorem Represents.create_refused {s s' : Scheduler64} (R : Represents s q) {priority cr3 : Nat}
    (h : sched64CreateThread L s priority cr3 = (.ret none, s')) : q.create priority = q := by
  rcases sched64CreateThread_cases h with ⟨_, _, hfull⟩ | ⟨_, hr, _⟩
  · unfold Queues.create
    rw [dif_neg (R.count ▸ hfull)]
  · cases hr

/-- **Step.**  Every call returns, and does to the lists what it should. -/
theorem Agrees.call (A : Agrees h q) (L : ThreadTable) (k : Call) :
    ∃ h', h.call L k = some h' ∧ Agrees h' (q.call k) := by
  cases k with
  | create priority cr3 =>
    obtain ⟨r, s', hret⟩ := A.represents.create_returns (L := L) priority cr3
    have R' := A.represents.create hret
    rw [History.call, hret]
    cases r with
    | none =>
      refine ⟨_, rfl, R', fun p => ?_⟩
      rw [Queues.call, A.represents.create_refused hret]
      exact A.perm p
    | some t =>
      refine ⟨_, rfl, R', fun p => ?_⟩
      rw [Queues.call, A.represents.create_result hret]
      rw [madeAt_concat]
      by_cases hp : priority = p
      · subst hp
        rw [Function.update_self, if_pos rfl]
        exact (A.perm priority).append_right [t]
      · rw [Function.update_of_ne (Ne.symm hp), if_neg hp, List.append_nil]
        exact A.perm p
  | assignCr3 t cr3 =>
    refine ⟨_, rfl, ?_, A.perm⟩
    refine A.represents.congr assignCr3_frame ?_ ?_
    · exact assignCr3_keeps Thread64.priority fun _ _ => rfl
    · intro u hu
      exact (assignCr3_keeps Thread64.timeSlice (fun _ _ => rfl) u).trans
        (A.represents.slices u hu)
  | op o =>
    cases o with
    | reschedule c =>
      exact ⟨_, rfl, A.represents.reschedule c,
        fun p => (reschedule_perm q c p).trans (A.perm p)⟩
    | timerTick c locked =>
      exact ⟨_, rfl, A.represents.tick c locked,
        fun p => (tick_perm q c locked p).trans (A.perm p)⟩

/-- **Run.**  The lists follow the scheduler through any calls. -/
theorem Agrees.exec (calls : List Call) :
    ∀ {h : History} {q : Queues}, Agrees h q →
      ∃ h', exec (History.call L) h calls = some h' ∧
        Agrees h' (calls.foldl Queues.call q) := by
  induction calls with
  | nil =>
    intro h q A
    exact ⟨h, rfl, A⟩
  | cons k calls ih =>
    intro h q A
    obtain ⟨mid, hmid, Amid⟩ := A.call L k
    obtain ⟨h', hrest, A'⟩ := ih Amid
    refine ⟨h', ?_, A'⟩
    rw [Foundation.exec, hmid]
    exact hrest

theorem agrees_init (s : Scheduler64) : Agrees ⟨sched64Init s, []⟩ Queues.empty :=
  ⟨represents_init s, fun _ => List.Perm.refl []⟩

/-- What a reschedule picks has the highest priority of all threads. -/
theorem Agrees.picks_highest (A : Agrees h q) (c : Cpu) {u : Tid} {r : Nat}
    (hmade : (u, r) ∈ h.made) :
    ∃ t p, (sched64Reschedule h.sched c).1.current c = some t ∧ (t, p) ∈ h.made ∧
      ∀ v p', (v, p') ∈ h.made → p' ≤ p := by
  have hbound : ∀ {v p'}, (v, p') ∈ h.made → p' < numPriorities64 ∧ q.rings p' ≠ [] := by
    intro v p' hv
    have hne := List.ne_nil_of_mem (A.mem_iff.mpr hv)
    exact ⟨A.represents.bounded p' hne, hne⟩
  obtain ⟨hr, hrne⟩ := hbound hmade
  obtain ⟨p, htop⟩ : ∃ p, q.top = some p := by
    refine Option.ne_none_iff_exists'.mp fun hnone => ?_
    exact hrne (topBelow_eq_none.mp hnone r hr)
  obtain ⟨_, hpne, hmax⟩ := topBelow_eq_some.mp htop
  obtain ⟨t, rest, hturn⟩ := List.exists_cons_of_ne_nil (turn_ne_nil hpne (q.current c))
  refine ⟨t, p, ?_, ?_, fun v p' hv => hmax p' (hbound hv).1 (hbound hv).2⟩
  · rw [(A.represents.reschedule c).current]
    unfold Queues.reschedule
    rw [htop]
    dsimp only
    rw [Function.update_self, hturn]
    rfl
  · refine A.mem_iff.mp ((turn_perm (q.rings p) (q.current c)).mem_iff.mp ?_)
    rw [hturn]
    exact List.mem_cons_self

end Runs

/-- **The ready queues.**  After any calls of any CPUs, every creation has
returned; bit, head and created threads of a priority agree; the links from the
head visit the threads made with that priority, each once, in the order in which
`Queues.run` appended and turned them; the tail search ends within 16 links; and
a reschedule would pick a thread of the highest priority. -/
theorem ready_queues_hold (L : ThreadTable) (s : Scheduler64) (calls : List Call) :
    ∃ h, exec (History.call L) ⟨sched64Init s, []⟩ calls = some h ∧
      (∀ t p, (t, p) ∈ h.made → (h.sched.threads t).priority = p) ∧
      (∀ p, (h.sched.readyBitmap.testBit p = true ↔ h.sched.readyQueue p ≠ none) ∧
        (h.sched.readyQueue p ≠ none ↔ ∃ t, (t, p) ∈ h.made) ∧
        h.sched.readyQueue p = ((Queues.run calls).rings p).head? ∧
        IsRing (fun t => (h.sched.threads t).next) ((Queues.run calls).rings p) ∧
        ((Queues.run calls).rings p).Perm (h.madeAt p) ∧
        ∀ head, h.sched.readyQueue p = some head →
          ∃ tail, findTail h.sched.threads head maxThreads64 head = some tail) ∧
      ∀ c, h.made ≠ [] → ∃ t p, (sched64Reschedule h.sched c).1.current c = some t ∧
        (t, p) ∈ h.made ∧ ∀ u r, (u, r) ∈ h.made → r ≤ p := by
  obtain ⟨h, hrun, A⟩ := (agrees_init s).exec (L := L) calls
  have R := A.represents
  have hqueue : ∀ p, h.sched.readyQueue p ≠ none ↔ (Queues.run calls).rings p ≠ [] := by
    intro p
    rw [R.heads]
    exact not_congr List.head?_eq_none_iff
  refine ⟨h, hrun, ?_, fun p => ⟨?_, ?_, R.heads p, R.rings p, A.perm p, ?_⟩, ?_⟩
  · intro t p hmade
    exact ((R.members p t).mp (A.mem_iff.mpr hmade)).2
  · exact (R.bits p).trans (hqueue p).symm
  · rw [hqueue]
    constructor
    · intro hne
      obtain ⟨t, ht⟩ := List.exists_mem_of_ne_nil _ hne
      exact ⟨t, A.mem_iff.mp ht⟩
    · rintro ⟨t, ht⟩
      exact List.ne_nil_of_mem (A.mem_iff.mpr ht)
  · intro head hhead
    obtain ⟨_, last, _, htail⟩ := R.findTail maxThreads64 hhead (Nat.le_refl _)
    exact ⟨last, htail⟩
  · intro c hne
    obtain ⟨⟨u, r⟩, hmem⟩ := List.exists_mem_of_ne_nil _ hne
    exact A.picks_highest c hmem

end NekaKernel.Sched
