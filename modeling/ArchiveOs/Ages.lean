import ArchiveOs.Aging
import ArchiveOs.Turns
import Mathlib.Order.Bounds.Defs

-- The scheduler that the kernel has when SCHEDULE_AGES is true.
namespace ArchiveOs.Kernel
open Fs2
open Prog (read update)
open Prog hiding read update

-- pcb_t has one more field then, the age.
structure AgedMachine where
  machine : Machine
  age : Fin pcbSize → Int

abbrev AgedSys := Prog Touch Stop AgedMachine

-- The functions that do not look at the ages.
def ageless {α : Type} (p : Sys α) : AgedSys α := fun a =>
  match p a.machine with
  | (notes,.error e) => (notes,.error e)
  | (notes,.ok (x,m)) => (notes,.ok (x,{a with machine := m}))

def agedPriority (a : AgedMachine) (i : Fin pcbSize) : Int := (a.machine.pcb i).basePriority + a.age i

-- The loop of schedule, with the process that is the best so far.
def agingLoop (current : Fin pcbSize) : (turns : Nat) → (i new : Fin pcbSize) → AgedSys (Fin pcbSize)
  | 0,_,new => pure new
  | turns + 1,i,new => do
    if i = current then pure new
    else if ← ageless (processCanRun i) then do
      update fun a => {a with age := put a.age i (a.age i + 1)}
      let new ← read fun a => if agedPriority a i > agedPriority a new then i else new
      agingLoop current turns (i + 1) new
    else agingLoop current turns (i + 1) new

def scheduleAges : AgedSys Unit := do
  let current ← read fun a => a.machine.current
  let new ← agingLoop current pcbSize (current + 1) current
  if new ≠ current then do
    update fun a => {a with age := put a.age new 0}
    ageless (contextSwitch (some current) new .ready)
  else pure ()

def irqAges (id : UInt32) : AgedSys Unit := if id = gicSourceTimer0 then scheduleAges else pure ()

def AgedTick (a a' : AgedMachine) : Prop := ∃ (ctx : Ctx) (ram : UInt32 → UInt8),
  (irqAges gicSourceTimer0).Ends {a with machine := a.machine.enter ctx ram} () a'

section Ticks
variable {a a' : AgedMachine} {i new r : Fin pcbSize} {turns : Nat}

theorem ends_ageless {α : Type} {p : Sys α} {x : α} :
    (ageless p).Ends a x a' ↔ ∃ m,p.Ends a.machine x m ∧ {a with machine := m} = a' := by
  unfold ageless Prog.Ends
  rcases first : p a.machine with ⟨notes,e | ⟨y,m⟩⟩
  · simp [first]
  · simp only [first,Except.ok.injEq,Prod.mk.injEq]
    constructor
    · rintro ⟨rfl,rfl⟩; exact ⟨m,⟨rfl,rfl⟩,rfl⟩
    · rintro ⟨_,⟨rfl,rfl⟩,rfl⟩; exact ⟨rfl,rfl⟩

-- How far a place is away from the running process.
def gap (a : AgedMachine) (i : Fin pcbSize) : Nat := (i - a.machine.current).val

-- What the loop does from distance g on: those who can run get one older, and the
-- result is the best of them and of the one that was the best before.
structure Aged (a a' : AgedMachine) (g : Nat) (new r : Fin pcbSize) : Prop where
  machine : a'.machine = a.machine
  older : ∀ l,g ≤ gap a l → a.machine.procs.canRun l = true → a'.age l = a.age l + 1
  same : ∀ l,(gap a l < g ∨ a.machine.procs.canRun l = false) → a'.age l = a.age l
  result : r = new ∨ g ≤ gap a r ∧ a.machine.procs.canRun r = true
  best : ∀ l,g ≤ gap a l → a.machine.procs.canRun l = true → agedPriority a' l ≤ agedPriority a' r
  kept : agedPriority a' new ≤ agedPriority a' r

theorem Aged.done {g : Nat} (all : ∀ l,gap a l < g) : Aged a a g r r where
  machine := rfl
  older l late := absurd (all l) (Nat.not_lt.mpr late)
  same _ _ := rfl
  result := .inl rfl
  best l late := absurd (all l) (Nat.not_lt.mpr late)
  kept := Int.le_refl _

theorem Aged.skip {g : Nat} (aged : Aged a a' (g + 1) new r) (here : gap a i = g)
    (cannot : a.machine.procs.canRun i = false) : Aged a a' g new r := by
  have later : ∀ l,g ≤ gap a l → a.machine.procs.canRun l = true → g + 1 ≤ gap a l := by
    intro l late can
    refine Nat.lt_of_le_of_ne late fun same => ?_
    rw [Cycle.gap_inj (same.symm.trans here.symm) (i := l),cannot] at can
    cases can
  refine ⟨aged.machine,fun l late can => aged.older l (later l late can) can,fun l early => ?_,?_,
    fun l late can => aged.best l (later l late can) can,aged.kept⟩
  · exact aged.same l (early.imp_left fun less => by omega)
  · exact aged.result.imp_right fun ⟨late,can⟩ => ⟨by omega,can⟩

theorem Aged.priority {g : Nat} {l : Fin pcbSize} (aged : Aged a a' g new r) (early : gap a l < g) :
    agedPriority a' l = agedPriority a l := by
  unfold agedPriority
  rw [aged.machine,aged.same l (.inl early)]

theorem Aged.count {g : Nat} {b : AgedMachine} (grown : {a with age := put a.age i (a.age i + 1)} = b)
    (aged : Aged b a' (g + 1) (if agedPriority b i > agedPriority b new then i else new) r) (here : gap a i = g)
    (can : a.machine.procs.canRun i = true) (before : gap a new < g) : Aged a a' g new r := by
  have machine : b.machine = a.machine := by rw [← grown]
  have away : ∀ l,gap b l = gap a l := by
    intro l
    unfold gap
    rw [machine]
  have self : b.age i = a.age i + 1 := by
    rw [← grown]
    exact put_self ..
  have other : ∀ l,l ≠ i → b.age l = a.age l := by
    intro l apart
    rw [← grown]
    exact put_other _ _ apart
  have early_i : gap b i < g + 1 := by rw [away]; omega
  have early_new : gap b new < g + 1 := by rw [away]; omega
  have later : ∀ l,l ≠ i → g ≤ gap a l → g + 1 ≤ gap b l := by
    intro l apart late
    rw [away]
    exact Nat.lt_of_le_of_ne late fun same => apart (Cycle.gap_inj (same.symm.trans here.symm))
  have won : agedPriority a' i ≤ agedPriority a' r ∧ agedPriority a' new ≤ agedPriority a' r := by
    have kept := aged.kept
    have here_i := aged.priority early_i
    have here_new := aged.priority early_new
    split at kept
    · omega
    · omega
  refine ⟨aged.machine.trans machine,fun l late can_l => ?_,fun l early => ?_,?_,fun l late can_l => ?_,won.2⟩
  · by_cases at_i : l = i
    · rw [at_i,aged.same i (.inl early_i),self]
    · rw [aged.older l (later l at_i late) (by rw [machine]; exact can_l),other l at_i]
  · have apart : l ≠ i := by
      rintro rfl
      rcases early with less | cannot
      · omega
      · rw [cannot] at can
        cases can
    rw [aged.same l ?_,other l apart]
    rw [away,machine]
    exact early.imp_left fun less => by omega
  · rcases aged.result with same | ⟨late,can_r⟩
    · split at same
      · exact .inr ⟨by rw [same]; omega,same ▸ can⟩
      · exact .inl same
    · rw [away] at late
      rw [machine] at can_r
      exact .inr ⟨by omega,can_r⟩
  · by_cases at_i : l = i
    · rw [at_i]
      exact won.1
    · exact aged.best l (later l at_i late) (by rw [machine]; exact can_l)

theorem agingLoop_aged {g : Nat} (place : i = a.machine.current ∧ g = pcbSize ∨ gap a i = g ∧ 0 < g)
    (enough : pcbSize ≤ turns + g) (before : gap a new < g)
    (run : (agingLoop a.machine.current turns i new).Ends a r a') : Aged a a' g new r := by
  induction turns generalizing a i new g with
  | zero =>
      obtain ⟨rfl,rfl⟩ := ends_pure.mp run
      exact .done fun l => Nat.lt_of_lt_of_le (l - a.machine.current).isLt (by omega)
  | succ turns ih =>
      unfold agingLoop at run
      simp only [ends_ite,ends_bind,ends_pure,ends_ageless,ends_update,ends_read,ends_processCanRun] at run
      rcases place with ⟨last,rfl⟩ | ⟨here,some⟩
      · rcases run with ⟨_,rfl,rfl⟩ | ⟨wrong,_⟩
        · exact .done fun l => (l - a.machine.current).isLt
        · exact absurd last wrong
      · rcases run with ⟨wrong,_⟩ | ⟨_,_,_,⟨_,⟨passes,rfl⟩,rfl⟩,rest⟩
        · unfold gap at here
          rw [wrong,sub_self] at here
          exact absurd here.symm (Nat.ne_of_gt some)
        · have next : i + 1 = a.machine.current ∧ g + 1 = pcbSize ∨ gap a (i + 1) = g + 1 ∧ 0 < g + 1 := by
            rcases Cycle.gap_step i a.machine.current with ⟨last,stop⟩ | step
            · exact .inl ⟨stop,here ▸ last⟩
            · exact .inr ⟨here ▸ step,Nat.succ_pos g⟩
          rcases rest with ⟨can,_,b,grown,_,_,⟨rfl,rfl⟩,rest⟩ | ⟨cannot,rest⟩
          · have machine : b.machine = a.machine := by rw [← grown]
            have away : ∀ l,gap b l = gap a l := by
              intro l
              unfold gap
              rw [machine]
            refine .count grown (ih (a := b) (i := i + 1) ?_ (by omega) ?_ ?_) here (passes.trans can) before
            · rw [machine,away]
              exact next
            · rw [away]
              split
              · omega
              · omega
            · rw [machine]
              exact rest
          · exact (ih next (by omega) (by omega) rest).skip here (passes.trans (Bool.eq_false_iff.mpr cannot))

def AgedMachine.state (a : AgedMachine) : Aging.State pcbSize := ⟨a.machine.current,a.age⟩

def AgedMachine.base (a : AgedMachine) (i : Fin pcbSize) : Int := (a.machine.pcb i).basePriority

-- What the scheduler keeps, and what its step is.
structure AgedStep (a a' : AgedMachine) : Prop where
  runner : a'.machine.procs.Runner
  takers : a'.machine.Taker = a.machine.Taker
  base : a'.base = a.base
  step : Aging.Step a.base a.machine.Taker a.state a'.state

theorem one_gap (a : AgedMachine) : gap a (a.machine.current + 1) = 1 := by
  unfold gap
  rw [add_sub_cancel_left]
  rfl

theorem gap_zero (a : AgedMachine) : gap a a.machine.current = 0 := by
  unfold gap
  rw [sub_self]
  rfl

-- A taker that waits is one older behind the loop, and no better than its result.
theorem Aged.taker {j : Fin pcbSize} (runner : a.machine.procs.Runner) (aged : Aged a a' 1 a.machine.current r)
    (takes : a.machine.Taker j) (other : j ≠ a.machine.current) :
    a'.age j = a.age j + 1 ∧ agedPriority a' j = agedPriority a j + 1 ∧ agedPriority a' j ≤ agedPriority a' r := by
  have can := (taker_can runner other).mpr takes
  have late : 1 ≤ gap a j := Cycle.gap_pos other
  have older := aged.older j late can
  refine ⟨older,?_,aged.best j late can⟩
  unfold agedPriority
  rw [aged.machine,older,Int.add_assoc]

theorem scheduleAges_step (runner : a.machine.procs.Runner) (run : scheduleAges.Ends a () a') : AgedStep a a' := by
  unfold scheduleAges at run
  simp only [ends_bind,ends_read,ends_ite,ends_update,ends_ageless,ends_pure] at run
  obtain ⟨_,_,⟨rfl,rfl⟩,new,b,loop,rest⟩ := run
  have aged : Aged a b 1 a.machine.current new :=
    agingLoop_aged (.inr ⟨one_gap a,Nat.one_pos⟩) (by omega) (by rw [gap_zero]; exact Nat.one_pos) loop
  have frozen : b.age a.machine.current = a.age a.machine.current := aged.same _ (.inl (by rw [gap_zero]; exact Nat.one_pos))
  rcases rest with ⟨moved,_,_,rfl,m,switch,rfl⟩ | ⟨stays,_,rfl⟩
  · have other : new ≠ a.machine.current := moved
    have can : a.machine.procs.canRun new = true := (aged.result.resolve_left other).2
    change (contextSwitch (some a.machine.current) new .ready).Ends b.machine _ m at switch
    rw [aged.machine] at switch
    have switched : m.procs = ({a.machine.procs with regs := a.machine.ctx} : Procs).switchTo new .ready :=
      contextSwitch_procs switch
    obtain ⟨runner',takers,current⟩ := switched_takers runner other can switched
    have high : ∀ j,a.machine.Taker j → j ≠ a.machine.current → agedPriority a j ≤ agedPriority a new := by
      intro j takes away
      obtain ⟨_,value,best⟩ := aged.taker runner takes away
      obtain ⟨_,value',_⟩ := aged.taker runner ((taker_can runner other).mp can) other
      omega
    refine ⟨runner',takers,contextSwitch_priorities switch,.moves ?_ ?_ ?_ ?_ ?_ ?_⟩
    · show a.machine.Taker m.current
      rw [current]
      exact (taker_can runner other).mp can
    · show m.current ≠ a.machine.current
      rw [current]
      exact other
    · intro j takes away
      show agedPriority a j ≤ agedPriority a m.current
      rw [current]
      exact high j takes away
    · show put b.age new 0 m.current = 0
      rw [current,put_self]
    · show put b.age new 0 a.machine.current = a.age a.machine.current
      rw [put_other _ _ (Ne.symm other),frozen]
    · intro j takes away away'
      change j ≠ m.current at away'
      rw [current] at away'
      exact (put_other _ _ away').trans (aged.taker runner takes away).1
  · have same : new = a.machine.current := not_not.mp stays
    refine ⟨aged.machine ▸ runner,congrArg Machine.Taker aged.machine,?_,.stays ?_ (congrArg Machine.current aged.machine) frozen ?_⟩
    · funext i
      unfold AgedMachine.base
      rw [aged.machine]
    · intro j takes other
      obtain ⟨_,value,best⟩ := aged.taker runner takes other
      rw [same,value,aged.priority (l := a.machine.current) (by rw [gap_zero]; exact Nat.one_pos)] at best
      exact best
    · exact fun j takes other => (aged.taker runner takes other).1

theorem AgedTick.step (runner : a.machine.procs.Runner) (tick : AgedTick a a') : AgedStep a a' := by
  obtain ⟨ctx,ram,run⟩ := tick
  have entered : (a.machine.enter ctx ram).procs.Runner := ⟨runner.live,runner.runs,runner.alone,runner.own⟩
  obtain ⟨runner',takers,base,step⟩ := scheduleAges_step (a := {a with machine := a.machine.enter ctx ram}) entered run
  exact ⟨runner',takers,base,step⟩

theorem aged_run {run : Nat → AgedMachine} (runner : (run 0).machine.procs.Runner) (ticks : ∀ t,AgedTick (run t) (run (t + 1)))
    (t : Nat) : (run t).machine.procs.Runner ∧ (run t).machine.Taker = (run 0).machine.Taker ∧ (run t).base = (run 0).base := by
  induction t with
  | zero => exact ⟨runner,rfl,rfl⟩
  | succ t ih =>
      obtain ⟨runner',takers,base⟩ := ih
      have step := (ticks t).step runner'
      exact ⟨step.runner,step.takers.trans takers,step.base.trans base⟩

-- Every process that can run is dispatched, no later than the distance to the highest
-- value says, and a round.
theorem aging_never_starves {run : Nat → AgedMachine} {top : Int} (runner : (run 0).machine.procs.Runner)
    (ages : ∀ j,0 ≤ (run 0).age j) (ticks : ∀ t,AgedTick (run t) (run (t + 1)))
    (highest : IsGreatest {v | ∃ j,(run 0).machine.Taker j ∧ v = agedPriority (run 0) j} top)
    (can : (run 0).machine.procs.canRun i = true) :
    ∃ t,t ≤ (max 0 (top - agedPriority (run 0) i + 1)).toNat + pcbSize ∧ (run t).machine.current = i := by
  have other : i ≠ (run 0).machine.current := by
    rintro rfl
    rcases (Procs.canRun_iff.mp can).2 with created | ready
    · exact absurd (created.symm.trans runner.runs) (by decide)
    · exact absurd (ready.symm.trans runner.runs) (by decide)
  have bound : ∀ j,(run 0).machine.Taker j → agedPriority (run 0) j ≤ top := fun j takes => highest.2 ⟨j,takes,rfl⟩
  have bases : ∀ j,(run 0).machine.Taker j → (run 0).base j ≤ top := by
    intro j takes
    have value := bound j takes
    have age := ages j
    unfold agedPriority at value
    unfold AgedMachine.base
    omega
  have steps : ∀ t,Aging.Step (run 0).base (run 0).machine.Taker (run t).state (run (t + 1)).state := by
    intro t
    obtain ⟨runner',takers,base⟩ := aged_run runner ticks t
    rw [← takers,← base]
    exact ((ticks t).step runner').step
  have waits : Aging.Waits (run 0).base (run 0).machine.Taker top i (agedPriority (run 0) i) (run 0).state :=
    ⟨(taker_can runner other).mp can,other,rfl,bound _ (taker_current runner)⟩
  obtain ⟨t,early,here⟩ := @Aging.Waits.within _ _ _ _ _ _ (fun t => (run t).state) bases steps waits
  exact ⟨t,by omega,here⟩

theorem agingLoop_ends (a : AgedMachine) : ∃ r a',(agingLoop a.machine.current turns i new).Ends a r a' := by
  induction turns generalizing a i new with
  | zero => exact ⟨new,a,ends_pure.mpr ⟨rfl,rfl⟩⟩
  | succ turns ih =>
      unfold agingLoop
      simp only [ends_ite,ends_bind,ends_pure,ends_ageless,ends_update,ends_read,ends_processCanRun]
      by_cases last : i = a.machine.current
      · exact ⟨new,a,.inl ⟨last,rfl,rfl⟩⟩
      · by_cases can : a.machine.procs.canRun i = true
        · obtain ⟨r,a',rest⟩ := ih {a with age := put a.age i (a.age i + 1)}
          exact ⟨r,a',.inr ⟨last,_,_,⟨_,⟨rfl,rfl⟩,rfl⟩,.inl ⟨can,(),_,rfl,_,_,⟨rfl,rfl⟩,rest⟩⟩⟩
        · obtain ⟨r,a',rest⟩ := ih a
          exact ⟨r,a',.inr ⟨last,_,_,⟨_,⟨rfl,rfl⟩,rfl⟩,.inr ⟨can,rest⟩⟩⟩

theorem aged_tick_ends (a : AgedMachine) : ∃ a',AgedTick a a' := by
  obtain ⟨new,b,loop⟩ := @agingLoop_ends (a.machine.current + 1) a.machine.current pcbSize a
  have run : ∃ a',scheduleAges.Ends a () a' := by
    unfold scheduleAges
    simp only [ends_bind,ends_read,ends_ite,ends_update,ends_ageless,ends_pure]
    by_cases moved : new ≠ a.machine.current
    · exact ⟨_,_,_,⟨rfl,rfl⟩,new,b,loop,.inl ⟨moved,(),_,rfl,_,rfl,rfl⟩⟩
    · exact ⟨b,_,_,⟨rfl,rfl⟩,new,b,loop,.inr ⟨moved,trivial,rfl⟩⟩
  obtain ⟨a',run⟩ := run
  exact ⟨a',a.machine.ctx,a.machine.ram,run⟩

theorem aged_runs (a : AgedMachine) : ∃ run : Nat → AgedMachine,run 0 = a ∧ ∀ t,AgedTick (run t) (run (t + 1)) := by
  choose next ticks using aged_tick_ends
  refine ⟨fun t => next^[t] a,rfl,fun t => ?_⟩
  show AgedTick (next^[t] a) (next^[t + 1] a)
  rw [Function.iterate_succ_apply']
  exact ticks _

end Ticks

-- A parent and its child of the same priority, both of no age.
def AgedMachine.pair : AgedMachine := ⟨Machine.pair,fun _ => 0⟩

theorem aging_never_starves_pair : ∃ run : Nat → AgedMachine,run 0 = .pair ∧ (∀ t,AgedTick (run t) (run (t + 1))) ∧
    ∃ t,t ≤ 33 ∧ (run t).machine.current = 1 := by
  obtain ⟨run,start,ticks⟩ := aged_runs .pair
  have values : ∀ j,(run 0).machine.Taker j → agedPriority (run 0) j = 5 := by
    rw [start]
    unfold Machine.Taker
    decide +kernel
  have first : agedPriority (run 0) 1 = 5 := by
    rw [start]
    decide +kernel
  have highest : IsGreatest {v | ∃ j,(run 0).machine.Taker j ∧ v = agedPriority (run 0) j} 5 := by
    refine ⟨⟨1,?_,first.symm⟩,?_⟩
    · rw [start]
      unfold Machine.Taker
      decide +kernel
    · rintro v ⟨j,takes,rfl⟩
      exact (values j takes).le
  obtain ⟨t,early,here⟩ := aging_never_starves (i := 1) (by rw [start]; exact pair_shared.runner)
    (fun j => by rw [start]; exact Int.le_refl 0) ticks highest (by rw [start]; decide +kernel)
  rw [first] at early
  exact ⟨run,start,ticks,t,early,here⟩

end ArchiveOs.Kernel
