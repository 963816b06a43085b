import ArchiveOs.Runners
import Mathlib.Algebra.Order.BigOperators.Group.Finset

-- The timer: round robin in which each process keeps the CPU for as many intervals
-- as its priority says.
namespace ArchiveOs.Kernel
open Fs2
open Prog

-- Turns of q 0, q 1, .. intervals: which one an interval belongs to.
section Spans
variable {q : Nat → Nat} {k l e t : Nat}

theorem span_le (less : k < l) : ∑ j ∈ Finset.range k,q j + q k ≤ ∑ j ∈ Finset.range l,q j := by
  rw [← Finset.sum_range_succ]
  exact Finset.sum_le_sum_of_subset (Finset.range_mono less)

theorem span_unique (inside : e < q k) (here : t = ∑ j ∈ Finset.range k,q j + e)
    (from_l : ∑ j ∈ Finset.range l,q j ≤ t) (before : t < ∑ j ∈ Finset.range (l + 1),q j) : k = l := by
  rw [Finset.sum_range_succ] at before
  rcases Nat.lt_trichotomy k l with less | same | more
  · have gap := span_le (q := q) less
    omega
  · exact same
  · have gap := span_le (q := q) more
    omega

end Spans

-- One interrupt of the timer; what the programs do in between is not said.
def Tick (m m' : Machine) : Prop :=
  ∃ (ctx : Ctx) (ram : UInt32 → UInt8),(handle (.irq gicSourceTimer0)).Ends (m.enter ctx ram) () m'

inductive Ticks (m : Machine) : Nat → Machine → Prop where
  | none : Ticks m 0 m
  | more {n : Nat} {m' m'' : Machine} : Ticks m n m' → Tick m' m'' → Ticks m (n + 1) m''

-- Live, and created, ready or executing.
def Machine.Taker (m : Machine) (i : Fin pcbSize) : Prop :=
  alive m.pcballoc i = true ∧ ((m.pcb i).status = .created ∨ (m.pcb i).status = .ready ∨ (m.pcb i).status = .executing)

def Machine.quantum (m : Machine) (i : Fin pcbSize) : Nat := max 1 (m.pcb i).basePriority.toNat

-- The running process is the one that executes, and another one can go on.
structure Shared (m : Machine) : Prop where
  runner : m.procs.Runner
  rival : ∃ j,j ≠ m.current ∧ m.Taker j

section Ticks
variable {m m' : Machine} {i j : Fin pcbSize} {n : Nat}

theorem taker_can (runner : m.procs.Runner) (other : i ≠ m.current) : m.procs.canRun i = true ↔ m.Taker i := by
  rw [Procs.canRun_iff]
  constructor
  · rintro ⟨live,created | ready⟩
    · exact ⟨live,.inl created⟩
    · exact ⟨live,.inr (.inl ready)⟩
  · rintro ⟨live,created | ready | runs⟩
    · exact ⟨live,.inl created⟩
    · exact ⟨live,.inr ready⟩
    · exact absurd runs (runner.alone i live other)

theorem taker_current (runner : m.procs.Runner) : m.Taker m.current := ⟨runner.live,.inr (.inr runner.runs)⟩

theorem Shared.follower (shared : Shared m) (i : Fin pcbSize) : ∃ j,Cycle.Follows m.Taker i j := by
  have someone : ∃ j,j ≠ i ∧ m.Taker j := by
    obtain ⟨j,other,takes⟩ := shared.rival
    by_cases here : i = m.current
    · exact ⟨j,here ▸ other,takes⟩
    · exact ⟨m.current,fun same => here same.symm,taker_current shared.runner⟩
  classical
  obtain ⟨j,other,takes⟩ := someone
  cases found : Cycle.around (fun l => decide (m.Taker l)) i with
  | none =>
      have fails := Cycle.around_none found j other
      rw [decide_eq_true takes] at fails
      cases fails
  | some l => exact ⟨l,Cycle.around_follows found fun _ _ => decide_eq_true_iff⟩

def Machine.priorities (m : Machine) (i : Fin pcbSize) : Int := (m.pcb i).basePriority

theorem setPcb_priorities (m : Machine) (i : Fin pcbSize) {f : Pcb → Pcb} (same : ∀ p,(f p).basePriority = p.basePriority) :
    (m.setPcb i f).priorities = m.priorities := by
  funext j
  by_cases here : j = i
  · rw [here]
    exact (congrArg Pcb.basePriority (put_self ..)).trans (same _)
  · exact congrArg Pcb.basePriority (put_other _ _ here)

theorem contextSwitch_priorities {st : Status} (run : (contextSwitch (some m.current) i st).Ends m () m') :
    m'.priorities = m.priorities := by
  obtain ⟨_,rfl⟩ := ends_of_ok rfl run
  have old := setPcb_priorities m m.current (f := fun p => {p with ctx := m.ctx,status := st}) fun _ => rfl
  have new := fun t : Machine => setPcb_priorities t i (f := fun p => {p with status := .executing}) fun _ => rfl
  exact (new _).trans old

theorem next_counter {st : Status} (run : (next st).Ends m () m') :
    m'.currentRuntime = 0 ∧ m'.priorities = m.priorities := by
  unfold next at run
  simp only [ends_bind,ends_update,ends_read] at run
  obtain ⟨_,t,rfl,_,_,⟨rfl,rfl⟩,r,_,found,run⟩ := run
  obtain ⟨_,rfl⟩ := (ends_search m.procs.canRun fun i a t =>
    ends_processCanRun (m := {m with currentRuntime := 0})).mp found
  cases r with
  | none =>
      obtain ⟨_,rfl⟩ := ends_pure.mp run
      exact ⟨rfl,rfl⟩
  | some i =>
      have same := contextSwitch_priorities (m := {m with currentRuntime := 0}) run
      obtain ⟨_,rfl⟩ := ends_of_ok rfl run
      exact ⟨rfl,same⟩

-- What an interrupt does: the interval is counted, or the next process is switched to.
inductive Ticked (m m' : Machine) (v : Procs) : Prop where
  | stays : m.currentRuntime < m.priorities m.current → m'.procs = v →
      m'.currentRuntime = m.currentRuntime + 1 → Ticked m m' v
  | moves : m.currentRuntime ≥ m.priorities m.current → m'.procs = v.next .ready →
      m'.currentRuntime = 1 → Ticked m m' v

theorem schedule_ticked (run : schedule.Ends m () m') :
    m'.priorities = m.priorities ∧ Ticked m m' m.procs := by
  unfold schedule running at run
  simp only [ends_bind,ends_read,ends_ite,ends_update] at run
  obtain ⟨_,_,⟨rfl,rfl⟩,_,_,⟨rfl,rfl⟩,⟨due,_,t,switch,rfl⟩ | ⟨early,rfl⟩⟩ := run
  · obtain ⟨zero,same⟩ := next_counter switch
    have moved : t.procs = m.procs.next .ready := next_procs switch
    refine ⟨same,.moves due moved ?_⟩
    show t.currentRuntime + 1 = 1
    rw [zero]
    rfl
  · exact ⟨rfl,.stays (Int.not_le.mp early) rfl rfl⟩

theorem next_ends (m : Machine) (st : Status) : ∃ m',(next st).Ends m () m' := by
  unfold next
  simp only [ends_bind,ends_update,ends_read]
  have search := fun r => @ends_search _ _ _ _ _ processCanRun m.current (m.current + 1) pcbSize {m with currentRuntime := 0}
    {m with currentRuntime := 0} m.procs.canRun (fun i a t => ends_processCanRun (m := {m with currentRuntime := 0})) r
  cases found : Cycle.scan m.procs.canRun m.current pcbSize (m.current + 1) with
  | none => exact ⟨_,(),_,rfl,_,_,⟨rfl,rfl⟩,_,_,(search _).mpr ⟨found,rfl⟩,ends_pure.mpr ⟨rfl,rfl⟩⟩
  | some i => exact ⟨_,(),_,rfl,_,_,⟨rfl,rfl⟩,_,_,(search _).mpr ⟨found,rfl⟩,rfl⟩

theorem schedule_ends (m : Machine) : ∃ m',schedule.Ends m () m' := by
  unfold schedule running
  simp only [ends_bind,ends_read,ends_ite,ends_update]
  by_cases due : m.currentRuntime ≥ (m.pcb m.current).basePriority
  · obtain ⟨t,run⟩ := next_ends m .ready
    exact ⟨_,_,_,⟨rfl,rfl⟩,_,_,⟨rfl,rfl⟩,.inl ⟨due,(),t,run,rfl⟩⟩
  · exact ⟨_,_,_,⟨rfl,rfl⟩,_,_,⟨rfl,rfl⟩,.inr ⟨due,rfl⟩⟩

theorem tick_ends (m : Machine) : ∃ m',Tick m m' := by
  obtain ⟨m',run⟩ := schedule_ends (m.enter m.ctx m.ram)
  exact ⟨m',m.ctx,m.ram,run⟩

theorem ticks_end (m : Machine) (n : Nat) : ∃ m',Ticks m n m' := by
  induction n with
  | zero => exact ⟨m,.none⟩
  | succ n ih =>
      obtain ⟨t,run⟩ := ih
      obtain ⟨m',tick⟩ := tick_ends t
      exact ⟨m',.more run tick⟩

theorem tick_ticked (tick : Tick m m') :
    m'.priorities = m.priorities ∧ ∃ c : Ctx,Ticked m m' {m.procs with regs := c} := by
  obtain ⟨ctx,ram,run⟩ := tick
  obtain ⟨same,ticked⟩ := schedule_ticked run
  refine ⟨same,ctx,?_⟩
  cases ticked with
  | stays early procs counted => exact .stays early procs counted
  | moves due procs counted => exact .moves due procs counted

theorem next_found {v : Procs} {st : Status} (found : Cycle.around v.canRun v.current = some i) :
    v.next st = v.switchTo i st := by
  unfold Procs.next
  rw [found]

theorem switched_takers (runner : m.procs.Runner) {c : Ctx} (other : i ≠ m.current) (can : m.procs.canRun i = true)
    (switched : m'.procs = ({m.procs with regs := c} : Procs).switchTo i .ready) :
    m'.procs.Runner ∧ m'.Taker = m.Taker ∧ m'.current = i := by
  have runner' : m'.procs.Runner := by
    rw [switched]
    exact Procs.Rest.switch (v := {m.procs with regs := c}) ⟨runner.alone,runner.own⟩ other can (by decide)
  have takes := (taker_can runner other).mp can
  have current : m'.current = i := by
    have pid := (congrArg Procs.current switched).trans (Procs.switchTo_current other)
    exact pid.trans (runner.own i takes.1)
  have alloc : m'.pcballoc = m.pcballoc := congrArg Procs.alloc switched
  have new : (m'.pcb i).status = .executing := by
    show (m'.procs.pcb i).status = _
    rw [switched,Procs.switchTo_new other]
  have old : (m'.pcb m.current).status = .ready := by
    show (m'.procs.pcb m.current).status = _
    rw [switched]
    exact congrArg Proc.status (Procs.switchTo_old other)
  have rest : ∀ l,l ≠ m.current → l ≠ i → (m'.pcb l).status = (m.pcb l).status := by
    intro l away away'
    show (m'.procs.pcb l).status = _
    rw [switched,Procs.switchTo_other away away']
    rfl
  refine ⟨runner',funext fun l => ?_,current⟩
  unfold Machine.Taker
  rw [alloc]
  by_cases at_i : l = i
  · rw [at_i,new]
    exact propext ⟨fun _ => takes,fun here => ⟨here.1,.inr (.inr rfl)⟩⟩
  · by_cases at_old : l = m.current
    · rw [at_old,old]
      exact propext ⟨fun _ => taker_current runner,fun here => ⟨here.1,.inr (.inl rfl)⟩⟩
    · rw [rest l at_old at_i]

theorem Shared.switch (shared : Shared m) {c : Ctx} (moves : m'.procs = ({m.procs with regs := c} : Procs).next .ready) :
    Shared m' ∧ m'.Taker = m.Taker ∧ Cycle.Follows m.Taker m.current m'.current := by
  obtain ⟨j,other,takes⟩ := shared.rival
  have can := (taker_can shared.runner other).mpr takes
  cases found : Cycle.around m.procs.canRun m.current with
  | none =>
      rw [Cycle.around_none found j other] at can
      cases can
  | some i =>
      have follows := Cycle.around_follows found fun l away => taker_can shared.runner away
      have switched : m'.procs = ({m.procs with regs := c} : Procs).switchTo i .ready := moves.trans (next_found found)
      obtain ⟨runner,takers,current⟩ :=
        switched_takers shared.runner follows.other (Cycle.around_some found).2 switched
      refine ⟨⟨runner,m.current,?_,?_⟩,takers,current ▸ follows⟩
      · rw [current]
        exact follows.other.symm
      · rw [takers]
        exact taker_current shared.runner

theorem Shared.stay (shared : Shared m) {c : Ctx} (stays : m'.procs = {m.procs with regs := c}) :
    Shared m' ∧ m'.Taker = m.Taker ∧ m'.current = m.current := by
  have alloc : m'.pcballoc = m.pcballoc := congrArg Procs.alloc stays
  have current : m'.current = m.current := congrArg Procs.current stays
  have status : ∀ i,(m'.pcb i).status = (m.pcb i).status := fun i => congrArg (fun v : Procs => (v.pcb i).status) stays
  have takers : m'.Taker = m.Taker := by
    funext i
    unfold Machine.Taker
    rw [alloc,status]
  refine ⟨⟨?_,?_⟩,takers,current⟩
  · rw [stays]
    exact ⟨shared.runner.live,shared.runner.runs,shared.runner.alone,shared.runner.own⟩
  · rw [takers,current]
    exact shared.rival

-- The machine after e intervals of turn k, which is that of process d k.
structure Turn (d : Nat → Fin pcbSize) (m₀ : Machine) (k e : Nat) (m : Machine) : Prop where
  shared : Shared m
  takers : m.Taker = m₀.Taker
  weights : m.priorities = m₀.priorities
  here : m.current = d k
  used : m.currentRuntime = 1 + e
  inside : e < m₀.quantum (d k)

-- An interrupt ends the turn when the quantum is used up, and otherwise counts on.
theorem Turn.tick {d : Nat → Fin pcbSize} {m₀ : Machine} {k e : Nat} (turn : Turn d m₀ k e m)
    (order : ∀ k,Cycle.Follows m₀.Taker (d k) (d (k + 1))) (tick : Tick m m') :
    Turn d m₀ k (e + 1) m' ∨ e + 1 = m₀.quantum (d k) ∧ Turn d m₀ (k + 1) 0 m' := by
  obtain ⟨weights,c,ticked⟩ := tick_ticked tick
  have priority : m.priorities m.current = (m₀.pcb (d k)).basePriority := by
    rw [turn.weights,turn.here]
    rfl
  have inside := turn.inside
  unfold Machine.quantum at inside ⊢
  cases ticked with
  | stays early procs counted =>
      rw [priority,turn.used] at early
      obtain ⟨shared,takers,current⟩ := turn.shared.stay procs
      refine .inl ⟨shared,takers.trans turn.takers,weights.trans turn.weights,current.trans turn.here,?_,?_⟩
      · rw [counted,turn.used]
        push_cast
        omega
      · unfold Machine.quantum
        omega
  | moves due procs counted =>
      rw [priority,turn.used] at due
      obtain ⟨shared,takers,follows⟩ := turn.shared.switch procs
      rw [turn.takers,turn.here] at follows
      refine .inr ⟨by omega,shared,takers.trans turn.takers,weights.trans turn.weights,follows.unique (order k),counted,?_⟩
      unfold Machine.quantum
      omega

theorem Turn.ticks {d : Nat → Fin pcbSize} {m₀ : Machine} {t : Nat} (turn : Turn d m₀ 0 0 m₀)
    (order : ∀ k,Cycle.Follows m₀.Taker (d k) (d (k + 1))) (run : Ticks m₀ t m) :
    ∃ k e,Turn d m₀ k e m ∧ t = ∑ j ∈ Finset.range k,m₀.quantum (d j) + e := by
  induction run with
  | none => exact ⟨0,0,turn,rfl⟩
  | @more n m' m'' _ tick ih =>
      obtain ⟨k,e,turn',count⟩ := ih
      rcases turn'.tick order tick with next | ⟨full,next⟩
      · exact ⟨k,e + 1,next,by omega⟩
      · refine ⟨k + 1,0,next,?_⟩
        rw [Finset.sum_range_succ]
        omega

theorem Shared.order (shared : Shared m) (start : Fin pcbSize) :
    ∃ d : Nat → Fin pcbSize,d 0 = start ∧ ∀ k,Cycle.Follows m.Taker (d k) (d (k + 1)) := by
  choose after follows using shared.follower
  refine ⟨fun k => after^[k] start,rfl,fun k => ?_⟩
  show Cycle.Follows m.Taker (after^[k] start) (after^[k + 1] start)
  rw [Function.iterate_succ_apply']
  exact follows _

theorem Shared.ticks (shared : Shared m) (run : Ticks m n m') :
    Shared m' ∧ m'.Taker = m.Taker ∧ m'.priorities = m.priorities := by
  induction run with
  | none => exact ⟨shared,rfl,rfl⟩
  | more _ tick ih =>
      obtain ⟨shared,takers,weights⟩ := ih
      obtain ⟨same,c,ticked⟩ := tick_ticked tick
      cases ticked with
      | stays _ procs _ =>
          obtain ⟨shared',takers',_⟩ := shared.stay procs
          exact ⟨shared',takers'.trans takers,same.trans weights⟩
      | moves _ procs _ =>
          obtain ⟨shared',takers',_⟩ := shared.switch procs
          exact ⟨shared',takers'.trans takers,same.trans weights⟩

-- From a switch by the timer on, the processes that can go on take turns in the order
-- of their pids, each for as many intervals as its priority says.
theorem weighted_round_robin {m₀ : Machine} (shared : Shared m) (run : Ticks m n m') (switch : Tick m' m₀)
    (switched : m₀.current ≠ m'.current) :
    Cycle.Follows m.Taker m'.current m₀.current ∧ (∀ t,∃ m₁,Ticks m₀ t m₁) ∧
      ∃ d : Nat → Fin pcbSize,d 0 = m₀.current ∧ (∀ k,Cycle.Follows m.Taker (d k) (d (k + 1))) ∧
        ∀ k t m₁,Ticks m₀ t m₁ → ∑ j ∈ Finset.range k,m.quantum (d j) ≤ t →
          t < ∑ j ∈ Finset.range (k + 1),m.quantum (d j) → m₁.current = d k := by
  obtain ⟨shared',takers',weights'⟩ := shared.ticks run
  obtain ⟨weights,c,ticked⟩ := tick_ticked switch
  cases ticked with
  | stays _ procs _ => exact absurd (shared'.stay procs).2.2 switched
  | moves _ procs counted =>
      obtain ⟨shared₀,takers,follows⟩ := shared'.switch procs
      rw [takers'] at takers follows
      have same : m₀.quantum = m.quantum := by
        funext i
        have priority : (m₀.pcb i).basePriority = (m.pcb i).basePriority := congrFun (weights.trans weights') i
        unfold Machine.quantum
        rw [priority]
      obtain ⟨d,start,order⟩ := shared₀.order m₀.current
      have first : Turn d m₀ 0 0 m₀ := by
        refine ⟨shared₀,rfl,rfl,start.symm,counted,?_⟩
        unfold Machine.quantum
        omega
      refine ⟨follows,ticks_end m₀,d,start,takers ▸ order,fun k t m₁ run₁ after before => ?_⟩
      rw [← same] at after before
      obtain ⟨l,e,turn,count⟩ := first.ticks order run₁
      have is_k : l = k := span_unique (q := fun j => m₀.quantum (d j)) turn.inside count after before
      rw [turn.here,is_k]

end Ticks

-- The first process forks, and its child is next after five more interrupts.
def Machine.pair : Machine := (Machine.started (few 5)).call 0x03 0 0

def Machine.tock (m : Machine) : Nat → Machine
  | 0 => m
  | n + 1 => (handle (.irq gicSourceTimer0)).after (m.tock n)

theorem tock_tick {m : Machine} {n : Nat} (done : (handle (.irq gicSourceTimer0)).done (m.tock n) = true) :
    Tick (m.tock n) (m.tock (n + 1)) := ⟨(m.tock n).ctx,(m.tock n).ram,ends_after done⟩

theorem pair_shared : Shared Machine.pair := by
  have started : Reached Steady (Machine.started (few 5)) := started_reached (by decide) (by decide +kernel)
  refine ⟨(started.calls ⟨?_,?_,?_,?_⟩ (by decide +kernel)).runner,1,?_,?_,?_⟩
  · exact fun _ _ => by decide +kernel
  iterate 3 exact fun wrong => absurd wrong (by decide)
  all_goals decide +kernel

theorem weighted_round_robin_pair : Cycle.Follows Machine.pair.Taker (Machine.pair.tock 5).current (Machine.pair.tock 6).current := by
  have run : Ticks Machine.pair 5 (Machine.pair.tock 5) := by
    iterate 5 refine .more ?_ (tock_tick (by decide +kernel))
    exact .none
  exact (weighted_round_robin pair_shared run (tock_tick (by decide +kernel)) (by decide +kernel)).1

end ArchiveOs.Kernel
