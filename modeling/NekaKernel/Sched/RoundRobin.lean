/-
  Sched/RoundRobin.lean --- the timer of one CPU.

  Source: `sched64.c`, called as `main64.c` does on one CPU: threads are created,
  `sched64_reschedule` starts the first of them, and from then on every timer
  interrupt calls `sched64_timer_tick` with the lock free.

  A thread runs for five ticks.  Its slice is reset before the switch, so every
  thread that waits has a full one, and the head of the highest ring is always
  the thread that runs.  After `k` ticks the ring has turned `k / 5` times.
-/
import NekaKernel.Sched.Queues

set_option autoImplicit false

namespace NekaKernel.Sched

open NekaKernel.Foundation NekaKernel.Kernel

/-- Calls of `sched64_create_thread` with these priorities and address spaces. -/
def createAll (specs : List (Nat × Nat)) : List Call := specs.map fun x => .create x.1 x.2

/-- One `sched64_reschedule`, then `k` ticks with the lock free. -/
def timerRun (c : Cpu) (k : Nat) : List Op :=
  .reschedule c :: List.replicate k (.timerTick c false)

/-- Of the created threads exactly the one CPU `c` runs is marked running. -/
def OneRunning (c : Cpu) (s : Scheduler64) : Prop :=
  ∀ t : Tid, t.val < s.threadCount →
    (s.threads t).state = if s.current c = some t then .T64_RUNNING else .T64_READY

section States

variable {s s' : Scheduler64} {c : Cpu}

theorem OneRunning.congr (h : OneRunning c s) (hcount : s'.threadCount = s.threadCount)
    (hcur : s'.current = s.current)
    (hstate : ∀ t, (s'.threads t).state = (s.threads t).state) : OneRunning c s' := by
  intro t ht
  rw [hstate, hcur]
  exact h t (hcount ▸ ht)

theorem OneRunning.reschedule (h : OneRunning c s) (W : Wf s) :
    OneRunning c (sched64Reschedule s c).1 := by
  rcases sched64Reschedule_state (s := s) (c := c)
    with ⟨prev, next, hout, hstate⟩ | ⟨hout, hthreads⟩
  · obtain ⟨rfl, hne, _, hcur, hcount⟩ := sched64Reschedule_switch W (Prod.ext rfl hout)
    intro t ht
    rw [hcount] at ht
    rw [hstate, hcur, Function.update_self, h t ht]
    by_cases hprev : some t = s.current c
    · have hnext : next ≠ t := by
        rintro rfl
        exact hne hprev
      rw [if_pos hprev, if_neg (by simpa using hnext)]
    · rw [if_neg hprev, if_neg (Ne.symm hprev)]
      by_cases hnext : t = next
      · rw [if_pos hnext, if_pos (by rw [hnext])]
      · rw [if_neg hnext, if_neg (by simpa using Ne.symm hnext)]
  · obtain ⟨hcur, hcount⟩ := sched64Reschedule_stay W (Prod.ext rfl rfl) hout
    exact h.congr hcount hcur fun t => by rw [hthreads]

end States

/-! ## Creation in order -/

/-- Nothing has run yet: the queues are in creation order, all slices are full
and all threads are ready. -/
structure Fresh (h : History) (q : Queues) : Prop where
  agrees : Agrees h q
  order : ∀ p, q.rings p = h.madeAt p
  idle : ∀ c, q.current c = none
  full : ∀ t : Tid, t.val < q.count → q.slice t = 5
  ready : ∀ t : Tid, t.val < q.count → (h.sched.threads t).state = .T64_READY

section Creation

variable {L : ThreadTable} {h : History} {q : Queues}

theorem fresh_init (s : Scheduler64) : Fresh ⟨sched64Init s, []⟩ Queues.empty := by
  refine ⟨agrees_init s, fun _ => rfl, fun _ => rfl, ?_, ?_⟩ <;> simp [Queues.empty]

/-- With room for it a thread is returned, and joins the end of its queue. -/
theorem Fresh.create (F : Fresh h q) {priority : Nat} (cr3 : Nat)
    (hprio : priority < numPriorities64) (hroom : q.count < maxThreads64) :
    ∃ h' t, h.call L (.create priority cr3) = some h' ∧ h'.made = h.made ++ [(t, priority)] ∧
      Fresh h' (q.create priority) ∧ (q.create priority).count = q.count + 1 := by
  have R := F.agrees.represents
  have hguard : q.count < maxThreads64 ∧ priority < numPriorities64 := ⟨hroom, hprio⟩
  obtain ⟨r, s', hret⟩ := R.create_returns (L := L) priority cr3
  obtain ⟨h', hcall, A'⟩ := F.agrees.call L (.create priority cr3)
  rw [History.call, hret] at hcall
  have hcount : (q.create priority).count = q.count + 1 := by
    unfold Queues.create
    rw [dif_pos hguard]
  rcases sched64CreateThread_cases hret with ⟨_, _, hfull⟩ | ⟨t, rfl, ht, _⟩
  · rw [R.count] at hfull
    exact absurd hguard hfull
  cases hcall
  have hnew : (⟨q.count, hroom⟩ : Tid) = t := Fin.ext (by rw [ht, R.count])
  obtain ⟨⟨_, hthread⟩, hothers⟩ := sched64CreateThread_threads hret
  have hold : ∀ u : Tid, u.val < q.count + 1 → u ≠ t → u.val < q.count := by
    intro u hu hne
    have hval : u.val ≠ t.val := fun heq => hne (Fin.ext heq)
    rw [ht, R.count] at hval
    omega
  refine ⟨_, t, ?_, rfl, ⟨A', ?_, ?_, ?_, ?_⟩, hcount⟩
  · rw [History.call, hret]
  · intro p
    rw [R.create_result hret, madeAt_concat]
    by_cases hp : priority = p
    · subst hp
      rw [Function.update_self, if_pos rfl, F.order]
    · rw [Function.update_of_ne (Ne.symm hp), if_neg hp, List.append_nil, F.order]
  · intro c
    unfold Queues.create
    rw [dif_pos hguard]
    exact F.idle c
  · intro u hu
    rw [hcount] at hu
    unfold Queues.create
    rw [dif_pos hguard, hnew]
    by_cases hut : u = t
    · subst hut
      exact Function.update_self ..
    · dsimp only
      rw [Function.update_of_ne hut]
      exact F.full u (hold u hu hut)
  · intro u hu
    rw [hcount] at hu
    by_cases hut : u = t
    · subst hut
      dsimp only
      rw [hthread]
      rfl
    · obtain ⟨_, hkept⟩ := hothers u hut
      dsimp only
      rw [hkept]
      exact F.ready u (hold u hu hut)

theorem Fresh.createAll {specs : List (Nat × Nat)} :
    ∀ {h : History} {q : Queues}, Fresh h q → (∀ x ∈ specs, x.1 < numPriorities64) →
      q.count + specs.length ≤ maxThreads64 →
      ∃ h' q', exec (History.call L) h (createAll specs) = some h' ∧ Fresh h' q' ∧
        h'.made.map (·.2) = h.made.map (·.2) ++ specs.map (·.1) := by
  induction specs with
  | nil =>
    intro h q F _ _
    exact ⟨h, q, rfl, F, by simp⟩
  | cons x specs ih =>
    intro h q F hprio hroom
    rw [List.length_cons] at hroom
    obtain ⟨mid, t, hmid, hmade, Fmid, hcount⟩ :=
      F.create (L := L) x.2 (hprio x List.mem_cons_self) (by omega)
    obtain ⟨h', q', hrest, F', hmade'⟩ :=
      ih Fmid (fun y hy => hprio y (List.mem_cons_of_mem x hy)) (by omega)
    refine ⟨h', q', ?_, F', ?_⟩
    · rw [Sched.createAll, List.map_cons, exec, hmid]
      exact hrest
    · rw [hmade', hmade]
      simp

end Creation

/-! ## Ticks -/

/-- After `k` ticks with `n` threads: the highest ring `ts` has turned `k / 5`
times, CPU `c` runs its head, which has used `k % 5` ticks of its slice, and
nothing else runs. -/
structure Robin (c : Cpu) (ts : List Tid) (n p k : Nat) (s : Scheduler64)
    (q : Queues) : Prop where
  represents : Represents s q
  count : q.count = n
  top : q.top = some p
  ring : q.rings p = ts.rotate (k / 5)
  current : q.current c = (ts.rotate (k / 5)).head?
  others : ∀ d, d ≠ c → q.current d = none
  slices : ∀ t : Tid, t.val < q.count →
    q.slice t = if q.current c = some t then 5 - k % 5 else 5
  states : OneRunning c s

section Ticks

variable {c : Cpu} {ts : List Tid} {n p k : Nat} {s : Scheduler64} {q : Queues}

/-- The highest queue stays the highest. -/
theorem top_reschedule (h : q.top = some p) : (q.reschedule c).top = some p := by
  have hrings : ∀ r, (q.reschedule c).rings r = [] ↔ q.rings r = [] := fun r =>
    ⟨fun hnil => List.Perm.eq_nil (hnil ▸ (reschedule_perm q c r).symm),
      fun hnil => List.Perm.eq_nil (hnil ▸ reschedule_perm q c r)⟩
  unfold Queues.top at h ⊢
  rw [topBelow_eq_some] at h ⊢
  simpa only [ne_eq, hrings] using h

/-- A reschedule of a CPU that runs the head of the highest queue turns it. -/
theorem reschedule_turns (htop : q.top = some p) (hrun : q.current c = (q.rings p).head?) :
    q.reschedule c = { q with
      rings := Function.update q.rings p ((q.rings p).rotate 1)
      current := Function.update q.current c ((q.rings p).rotate 1).head? } := by
  unfold Queues.reschedule turn
  rw [htop]
  dsimp only
  rw [if_pos hrun.symm]

/-- A reschedule of an idle CPU takes the head of the highest queue. -/
theorem reschedule_starts (htop : q.top = some p) (hne : q.rings p ≠ [])
    (hidle : q.current c = none) :
    q.reschedule c = { q with current := Function.update q.current c (q.rings p).head? } := by
  have hhead : (q.rings p).head? ≠ q.current c := by
    rw [hidle]
    exact fun hnone => hne (List.head?_eq_none_iff.mp hnone)
  unfold Queues.reschedule turn
  rw [htop]
  dsimp only
  rw [if_neg hhead, Function.update_eq_self]

theorem rotate_ne_nil (hne : ts ≠ []) (n : Nat) : ts.rotate n ≠ [] :=
  fun hnil => hne (List.rotate_eq_nil_iff.mp hnil)

theorem Robin.running (Rb : Robin c ts n p k s q) (hne : ts ≠ []) :
    ∃ cur, q.current c = some cur ∧ cur.val < q.count ∧ q.slice cur = 5 - k % 5 := by
  obtain ⟨cur, rest, hcons⟩ := List.exists_cons_of_ne_nil (rotate_ne_nil hne (k / 5))
  have hcur : q.current c = some cur := by
    rw [Rb.current, hcons]
    rfl
  have hlt := Rb.represents.running c cur hcur
  refine ⟨cur, hcur, hlt, ?_⟩
  rw [Rb.slices cur hlt, if_pos hcur]

/-- A tick that does not end the slice counts it down. -/
theorem Robin.tick_within (Rb : Robin c ts n p k s q) (hne : ts ≠ []) (hk : k % 5 ≠ 4) :
    Robin c ts n p (k + 1) (s.apply (.timerTick c false)) (q.tick c false) := by
  obtain ⟨cur, hcur, hlt, hslice⟩ := Rb.running hne
  have hscur : s.current c = some cur := Rb.represents.current ▸ hcur
  have hdiv : (k + 1) / 5 = k / 5 := by omega
  have hmod : (k + 1) % 5 = k % 5 + 1 := by omega
  have hpos : 0 < q.slice cur := by omega
  have hmore : q.slice cur - 1 ≠ 0 := by omega
  have hq : q.tick c false = { q with
      slice := Function.update q.slice cur (q.slice cur - 1) } := by
    unfold Queues.tick
    rw [hcur]
    dsimp only
    rw [if_pos hpos, if_neg hmore]
  have hs : s.apply (.timerTick c false) =
      s.modify cur fun th => { th with timeSlice := th.timeSlice - 1 } := by
    rw [apply_timerTick_of_running false hscur, Rb.represents.slices cur hlt,
      if_pos hpos, if_neg hmore]
  have R' := Rb.represents.tick c false
  rw [hq] at R' ⊢
  refine ⟨R', Rb.count, Rb.top, ?_, ?_, Rb.others, ?_, ?_⟩
  · rw [hdiv]
    exact Rb.ring
  · rw [hdiv]
    exact Rb.current
  · intro t ht
    dsimp only at ht ⊢
    by_cases htc : t = cur
    · subst htc
      rw [Function.update_self, if_pos hcur, hslice, hmod]
      omega
    · have hnot : q.current c ≠ some t := by
        rw [hcur]
        simpa using Ne.symm htc
      rw [Function.update_of_ne htc, Rb.slices t ht, if_neg hnot, if_neg hnot]
  · rw [hs]
    refine Rb.states.congr rfl rfl ?_
    apply modify_keeps Thread64.state
    exact fun _ => rfl

/-- The tick that ends the slice resets it and turns the ring. -/
theorem Robin.tick_last (Rb : Robin c ts n p k s q) (hne : ts ≠ []) (hk : k % 5 = 4) :
    Robin c ts n p (k + 1) (s.apply (.timerTick c false)) (q.tick c false) := by
  obtain ⟨cur, hcur, hlt, hslice⟩ := Rb.running hne
  have hscur : s.current c = some cur := Rb.represents.current ▸ hcur
  have hdiv : (k + 1) / 5 = k / 5 + 1 := by omega
  have hmod : (k + 1) % 5 = 0 := by omega
  have hpos : 0 < q.slice cur := by omega
  have hdone : q.slice cur - 1 = 0 := by omega
  have hturn : (q.rings p).rotate 1 = ts.rotate ((k + 1) / 5) := by
    rw [Rb.ring, List.rotate_rotate, hdiv]
  have hq : q.tick c false =
      { q with
        slice := Function.update q.slice cur 5
        rings := Function.update q.rings p (ts.rotate ((k + 1) / 5))
        current := Function.update q.current c (ts.rotate ((k + 1) / 5)).head? } := by
    unfold Queues.tick
    rw [hcur]
    dsimp only
    rw [if_pos hpos, if_pos hdone, if_neg Bool.false_ne_true]
    have hrun : q.current c = (q.rings p).head? := by rw [Rb.current, Rb.ring]
    rw [reschedule_turns (q := { q with slice := Function.update q.slice cur 5 }) Rb.top hrun]
    dsimp only
    rw [hturn]
  have hs : s.apply (.timerTick c false) =
      (sched64Reschedule (s.modify cur fun th => { th with timeSlice := 5 }) c).1 := by
    rw [apply_timerTick_of_running false hscur, Rb.represents.slices cur hlt,
      if_pos hpos, if_pos hdone, if_neg Bool.false_ne_true]
  have hreset := Rb.represents.setSlice cur 5 (fun th => { th with timeSlice := 5 })
    (fun _ => rfl) rfl
  have htop : (q.tick c false).top = some p := by
    unfold Queues.tick
    rw [hcur]
    dsimp only
    rw [if_pos hpos, if_pos hdone, if_neg Bool.false_ne_true]
    exact top_reschedule Rb.top
  have R' := Rb.represents.tick c false
  rw [hq] at R' htop ⊢
  refine ⟨R', Rb.count, htop, ?_, ?_, ?_, ?_, ?_⟩
  · exact Function.update_self ..
  · exact Function.update_self ..
  · intro d hd
    dsimp only
    rw [Function.update_of_ne hd]
    exact Rb.others d hd
  · -- the slice just reset is full, and so were those of the threads that wait
    intro t ht
    dsimp only at ht ⊢
    rw [hmod, ite_self]
    by_cases htc : t = cur
    · subst htc
      exact Function.update_self ..
    · have hnot : q.current c ≠ some t := by
        rw [hcur]
        simpa using Ne.symm htc
      rw [Function.update_of_ne htc, Rb.slices t ht, if_neg hnot]
  · rw [hs]
    refine OneRunning.reschedule ?_ hreset.wf
    refine Rb.states.congr rfl rfl ?_
    apply modify_keeps Thread64.state
    exact fun _ => rfl

/-- **Step.**  One tick. -/
theorem Robin.tick (Rb : Robin c ts n p k s q) (hne : ts ≠ []) :
    Robin c ts n p (k + 1) (s.apply (.timerTick c false)) (q.tick c false) := by
  by_cases hk : k % 5 = 4
  · exact Rb.tick_last hne hk
  · exact Rb.tick_within hne hk

/-- **Run.**  Any number of ticks after the first reschedule. -/
theorem Robin.ticks (Rb : Robin c ts n p 0 s q) (hne : ts ≠ []) :
    ∀ k, ∃ q', Robin c ts n p k (runOps s (List.replicate k (.timerTick c false))) q' := by
  intro k
  induction k with
  | zero => exact ⟨q, Rb⟩
  | succ k ih =>
    obtain ⟨q', Rb'⟩ := ih
    have hnext : runOps s (List.replicate (k + 1) (.timerTick c false)) =
        (runOps s (List.replicate k (.timerTick c false))).apply (.timerTick c false) := by
      unfold runOps
      rw [List.replicate_succ', List.foldl_append]
      rfl
    rw [hnext]
    exact ⟨_, Rb'.tick hne⟩

/-- The first reschedule starts the first thread of the highest priority. -/
theorem Fresh.start {h : History} (F : Fresh h q) (c : Cpu) (htop : q.top = some p) :
    Robin c (h.madeAt p) q.count p 0 (sched64Reschedule h.sched c).1 (q.reschedule c) := by
  have R := F.agrees.represents
  obtain ⟨_, hne, _⟩ := topBelow_eq_some.mp htop
  have hq := reschedule_starts htop hne (F.idle c)
  have R' := R.reschedule c
  have hstates : OneRunning c h.sched := by
    intro t ht
    rw [R.count] at ht
    rw [F.ready t ht, R.current, F.idle]
    rfl
  rw [hq] at R' ⊢
  refine ⟨R', rfl, htop, ?_, ?_, ?_, ?_, hstates.reschedule R.wf⟩
  · simpa using F.order p
  · dsimp only
    rw [Function.update_self, F.order]
    simp
  · intro d hd
    dsimp only
    rw [Function.update_of_ne hd]
    exact F.idle d
  · intro t ht
    rw [ite_self]
    exact F.full t ht

end Ticks

/-- The priorities of the created threads, seen through the queues. -/
theorem Fresh.top_eq {h : History} {q : Queues} (F : Fresh h q) {p : Nat}
    (hmem : p ∈ h.made.map (·.2)) (hmax : ∀ r ∈ h.made.map (·.2), r ≤ p) : q.top = some p := by
  have hring : ∀ r, q.rings r ≠ [] ↔ r ∈ h.made.map (·.2) := by
    intro r
    rw [F.order, List.mem_map]
    constructor
    · intro hne
      obtain ⟨t, ht⟩ := List.exists_mem_of_ne_nil _ hne
      exact ⟨(t, r), mem_madeAt.mp ht, rfl⟩
    · rintro ⟨⟨t, _⟩, hmade, rfl⟩
      exact List.ne_nil_of_mem (mem_madeAt.mpr hmade)
  have hne := (hring p).mpr hmem
  refine topBelow_eq_some.mpr ⟨F.agrees.represents.bounded p hne, hne, fun r _ hr => ?_⟩
  exact hmax r ((hring r).mp hr)

/-- The head of a list that has been turned `n` times. -/
theorem head?_rotate_mod {ts : List Tid} (hne : ts ≠ []) (n : Nat) :
    (ts.rotate n).head? = ts[n % ts.length]? := by
  rw [← List.rotate_mod]
  exact List.head?_rotate (Nat.mod_lt _ (List.length_pos_of_ne_nil hne))

/-- **Round robin.**  Threads of any priorities are created and one CPU starts
the scheduler.  With `ts` the threads of the highest priority in creation order,
after `k` ticks the thread `ts[(k / 5) % m]` runs, with `k % 5` ticks of its slice
used; every other thread is ready with a full slice; and whatever runs on any CPU
has the highest priority. -/
theorem timer_round_robin (L : ThreadTable) (s : Scheduler64) (c : Cpu)
    (specs : List (Nat × Nat)) (hprio : ∀ x ∈ specs, x.1 < numPriorities64)
    (hlen : specs.length ≤ maxThreads64) (p : Nat) (hp : p ∈ specs.map (·.1))
    (hmax : ∀ r ∈ specs.map (·.1), r ≤ p) :
    ∃ h, exec (History.call L) ⟨sched64Init s, []⟩ (createAll specs) = some h ∧
      h.made.map (·.2) = specs.map (·.1) ∧ (h.madeAt p).Nodup ∧
      ∀ k, ∃ cur, (h.madeAt p)[(k / 5) % (h.madeAt p).length]? = some cur ∧
        (runOps h.sched (timerRun c k)).current c = some cur ∧
        ((runOps h.sched (timerRun c k)).threads cur).timeSlice = 5 - k % 5 ∧
        ((runOps h.sched (timerRun c k)).threads cur).state = .T64_RUNNING ∧
        (∀ t r, (t, r) ∈ h.made → t ≠ cur →
          ((runOps h.sched (timerRun c k)).threads t).timeSlice = 5 ∧
          ((runOps h.sched (timerRun c k)).threads t).state = .T64_READY) ∧
        ∀ d t r, (t, r) ∈ h.made → (runOps h.sched (timerRun c k)).current d =
          some t → r = p := by
  obtain ⟨h, q, hrun, F, hmade⟩ :=
    (fresh_init s).createAll (L := L) hprio (by simpa [Queues.empty] using hlen)
  rw [List.map_nil, List.nil_append] at hmade
  have R := F.agrees.represents
  have htop := F.top_eq (hmade ▸ hp) (hmade ▸ hmax)
  have hnodup : (h.madeAt p).Nodup := F.order p ▸ (R.rings p).nodup
  have hne : h.madeAt p ≠ [] := F.order p ▸ (topBelow_eq_some.mp htop).2.1
  have hcreated : ∀ {t r}, (t, r) ∈ h.made → t.val < q.count := by
    intro t r hmem
    exact ((R.members r t).mp (F.agrees.mem_iff.mpr hmem)).1
  refine ⟨h, hrun, hmade, hnodup, fun k => ?_⟩
  obtain ⟨q', Rb⟩ := (F.start c htop).ticks hne k
  have hstate : runOps h.sched (timerRun c k) =
      runOps (sched64Reschedule h.sched c).1 (List.replicate k (.timerTick c false)) := rfl
  rw [← hstate] at Rb
  obtain ⟨cur, hcur, hlt, hslice⟩ := Rb.running hne
  have R' := Rb.represents
  have hscur : (runOps h.sched (timerRun c k)).current c = some cur := R'.current ▸ hcur
  have hbound : ∀ {t : Tid}, t.val < q.count →
      t.val < (runOps h.sched (timerRun c k)).threadCount := by
    intro t ht
    rw [R'.count, Rb.count]
    exact ht
  refine ⟨cur, ?_, hscur, ?_, ?_, ?_, ?_⟩
  · rw [← head?_rotate_mod hne, ← Rb.current, hcur]
  · rw [R'.slices cur hlt, hslice]
  · rw [Rb.states cur (hbound (Rb.count ▸ hlt)), if_pos hscur]
  · intro t r hmem htc
    have hnot : some cur ≠ some t := by simpa using Ne.symm htc
    have ht : t.val < q'.count := Rb.count ▸ hcreated hmem
    refine ⟨?_, ?_⟩
    · rw [R'.slices t ht, Rb.slices t ht, hcur, if_neg hnot]
    · rw [Rb.states t (hbound (hcreated hmem)), hscur, if_neg hnot]
  · intro d t r hmem hrunning
    rw [R'.current] at hrunning
    have hd : d = c := by
      by_contra hdc
      rw [Rb.others d hdc] at hrunning
      cases hrunning
    subst hd
    rw [Rb.current] at hrunning
    have hin : t ∈ h.madeAt p := List.mem_rotate.mp (List.mem_of_mem_head? hrunning)
    have hr := ((R.members r t).mp (F.agrees.mem_iff.mpr hmem)).2
    have hp' := ((R.members p t).mp (F.agrees.mem_iff.mpr (mem_madeAt.mp hin))).2
    exact hr.symm.trans hp'

/-- The threads of `main64.c`, priorities 5, 5, 2 and 5, on the boot CPU. -/
theorem timer_round_robin_boot :
    ∃ h, exec (History.call tableAt3M) ⟨sched64Init zeroStatics, []⟩
        (createAll [(5, 0x1000), (5, 0x2000), (2, 0x3000), (5, 0x4000)]) = some h ∧
      h.madeAt 5 = [0, 1, 3] ∧
      ∀ k, ∃ cur, (h.madeAt 5)[(k / 5) % (h.madeAt 5).length]? = some cur ∧
        (runOps h.sched (timerRun bsp k)).current bsp = some cur := by
  obtain ⟨h, hrun, _, _, hticks⟩ := timer_round_robin tableAt3M zeroStatics bsp
    [(5, 0x1000), (5, 0x2000), (2, 0x3000), (5, 0x4000)] (by decide) (by decide) 5
      (by decide) (by decide)
  refine ⟨h, hrun, ?_, fun k => ?_⟩
  · have hview : (exec (History.call tableAt3M) ⟨sched64Init zeroStatics, []⟩
        (createAll [(5, 0x1000), (5, 0x2000), (2, 0x3000), (5, 0x4000)])).map (·.madeAt 5) =
        some [0, 1, 3] := by
      decide +kernel
    rw [hrun] at hview
    exact Option.some.inj hview
  · obtain ⟨cur, hget, hcur, _⟩ := hticks k
    exact ⟨cur, hget, hcur⟩

end NekaKernel.Sched
