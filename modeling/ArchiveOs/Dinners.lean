import ArchiveOs.Sections
import ArchiveOs.Philosophers

-- The philosophers as processes of the kernel.
namespace ArchiveOs.Kernel
open Fs2
open Prog
open Philosophers

namespace Procs
variable {v w : Procs} {i j k : Fin pcbSize} {semId x : UInt32}

-- The semaphores of the kernel and who waits for them.
def sems (v : Procs) : Sems pcbSize pcbSize where
  value := v.sem
  asks i :=
    if v.Alive i ∧ (v.pcb i).status = .waiting then
      if bound : (v.pcb i).waiting.semId.toNat < pcbSize then some (⟨_,bound⟩,(v.pcb i).waiting.x) else none
    else none

theorem asks_some : v.sems.asks i = some (k,x) ↔ v.Alive i ∧ v.Waiting i k x := by
  unfold sems Waiting
  dsimp only
  constructor
  · intro asks
    split at asks
    · rename_i waits
      split at asks
      · cases asks
        exact ⟨waits.1,waits.2,rfl,rfl⟩
      · cases asks
    · cases asks
  · rintro ⟨live,status,index,rfl⟩
    rw [if_pos ⟨live,status⟩,dif_pos (by rw [index]; exact k.isLt)]
    congr 2
    exact Fin.ext index

theorem asks_same (live : w.Alive i ↔ v.Alive i) (status : (w.pcb i).status = .waiting ↔ (v.pcb i).status = .waiting)
    (waiting : (w.pcb i).waiting = (v.pcb i).waiting) : w.sems.asks i = v.sems.asks i := by
  unfold sems
  simp only [live,status,waiting]

theorem asks_none (goes : ¬ (v.Alive i ∧ (v.pcb i).status = .waiting)) : v.sems.asks i = none := if_neg goes

theorem covers_eligible (index : semId.toNat = k.val) : v.sems.covers k x j = v.eligible semId x j := by
  rw [Bool.eq_iff_iff,Sems.covers_iff,eligible_iff]
  constructor
  · rintro ⟨y,asks,less⟩
    obtain ⟨live,status,named,rfl⟩ := asks_some.mp asks
    exact ⟨live,status,UInt32.toNat_inj.mp (named.trans index.symm),less⟩
  · rintro ⟨live,status,named,less⟩
    exact ⟨_,asks_some.mpr ⟨live,status,named ▸ index,rfl⟩,less⟩

theorem put_update (table : Fin pcbSize → UInt32) (k : Fin pcbSize) (x : UInt32) :
    put table k x = Function.update table k x := funext fun j => (Function.update_apply table k x j).symm

theorem post_sems (index : semId.toNat = k.val) : (v.post k semId x).sems = v.sems.post v.current k x := by
  have test : v.sems.covers k x = v.eligible semId x := funext fun _ => covers_eligible index
  unfold Procs.post chosen Sems.post
  rw [test]
  cases found : Cycle.around (v.eligible semId x) v.current with
  | none =>
      exact congrArg (fun f => (⟨f,v.sems.asks⟩ : Sems pcbSize pcbSize)) (put_update ..)
  | some j =>
      obtain ⟨live,status,named,less⟩ := eligible_iff.mp (Cycle.around_some found).2
      have demand : v.sems.demand j = (v.pcb j).waiting.x := by
        unfold Sems.demand
        rw [asks_some.mpr ⟨live,status,named ▸ index,rfl⟩]
      dsimp only
      rw [demand]
      have asks : ∀ i,(({v with sem := put v.sem k (v.sem k + (x - (v.pcb j).waiting.x))} : Procs).setPcb j fun p =>
          {p with status := .ready}).sems.asks i = Function.update v.sems.asks j none i := by
        intro i
        by_cases here : i = j
        · subst here
          rw [Function.update_self]
          refine asks_none fun waits => ?_
          have ready := waits.2
          rw [setPcb_self] at ready
          cases ready
        · rw [Function.update_of_ne here]
          refine asks_same Iff.rfl ?_ ?_ <;> rw [setPcb_other _ _ here]
      exact congrArg₂ (fun f g => (⟨f,g⟩ : Sems pcbSize pcbSize)) (put_update ..) (funext asks)

theorem doSemPost_sems (index : semId.toNat = k.val) (more : x ≠ 0) :
    (v.doSemPost semId x).sems = v.sems.post v.current k x := by
  have bound : semId.toNat < pcbSize := by
    rw [index]
    exact k.isLt
  have posted : v.doSemPost semId x = v.post ⟨semId.toNat,bound⟩ semId x := by
    unfold Procs.doSemPost
    rw [dif_pos bound,if_neg more]
  rw [posted,post_sems (k := ⟨semId.toNat,bound⟩) rfl]
  congr 1
  exact Fin.ext index

theorem posted_sems (index : semId.toNat = k.val) (good : Sems pcbSize pcbSize → Prop) (before : good v.sems)
    (after : good (v.sems.post v.current k x)) : good (v.doSemPost semId x).sems := by
  by_cases more : x = 0
  · have nothing : v.doSemPost semId x = v := by
      unfold Procs.doSemPost
      simp only [more,if_true,dite_eq_ite,ite_self]
    rw [nothing]
    exact before
  · rw [doSemPost_sems index more]
    exact after

theorem take_sems (enough : v.sem k ≥ x) : (v.take k x).sems = v.sems.wait i k x := by
  have granted : v.sems.wait i k x = {v.sems with value := Function.update v.sem k (v.sem k - x)} := if_pos enough
  rw [granted]
  exact congrArg (fun f => (⟨f,v.sems.asks⟩ : Sems pcbSize pcbSize)) (put_update ..)

theorem block_sems (index : semId.toNat = k.val) (short : ¬ v.sem k ≥ x) (live : v.Alive v.current) :
    (v.block semId x).sems = v.sems.wait v.current k x := by
  have asks : ∀ i,(v.block semId x).sems.asks i = Function.update v.sems.asks v.current (some (k,x)) i := by
    intro i
    by_cases here : i = v.current
    · subst here
      rw [Function.update_self]
      refine asks_some.mpr ⟨live,?_,?_,?_⟩ <;> rw [block_self]
      exact index
    · rw [Function.update_of_ne here]
      refine asks_same Iff.rfl ?_ ?_ <;> rw [block_other _ _ _ here]
  have blocked : v.sems.wait v.current k x = {v.sems with asks := Function.update v.sems.asks v.current (some (k,x))} :=
    if_neg short
  rw [blocked]
  exact congrArg (fun g => (⟨v.sem,g⟩ : Sems pcbSize pcbSize)) (funext asks)

theorem sems_same (sem : w.sem = v.sem) (alive : ∀ i,w.Alive i ↔ v.Alive i)
    (status : ∀ i,(w.pcb i).status = .waiting ↔ (v.pcb i).status = .waiting)
    (waiting : ∀ i,(w.pcb i).waiting = (v.pcb i).waiting) : w.sems = v.sems := by
  have asks : w.sems.asks = v.sems.asks := funext fun i => asks_same (alive i) (status i) (waiting i)
  exact congrArg₂ (fun f g => (⟨f,g⟩ : Sems pcbSize pcbSize)) sem asks

theorem next_sems {st : Status} (stops : st = .waiting ↔ (v.pcb v.current).status = .waiting) :
    (v.next st).sems = v.sems := by
  refine sems_same (next_sem ..) (fun i => ?_) (fun i => ⟨next_waits stops.mp,fun waits => ?_⟩)
    fun i => next_same Proc.waiting (fun _ _ _ => rfl) v i st
  · unfold Alive
    rw [next_alloc]
  · rcases v.next_cases st with ⟨stays,_⟩ | ⟨j,other,can,moves⟩
    · rw [stays]
      exact waits
    · rw [moves]
      by_cases old : i = v.current
      · rw [old,switchTo_old other]
        exact stops.mpr (old ▸ waits)
      · have new : i ≠ j := by
          rintro rfl
          rcases (canRun_iff.mp can).2 with status | status <;> rw [waits] at status <;> cases status
        rw [switchTo_other old new]
        exact waits

theorem saveRegs_sems (v : Procs) : v.saveRegs.sems = v.sems := by
  refine sems_same rfl (fun _ => Iff.rfl) (fun i => ?_) (saveRegs_same Proc.waiting (fun _ _ => rfl) v)
  rw [saveRegs_same Proc.status fun _ _ => rfl]

theorem born_sems (v : Procs) {child : Fin pcbSize} (free : v.firstFree = some child) (stack : UInt32) :
    (v.born child stack).sems = v.sems := by
  have asks : ∀ i,(v.born child stack).sems.asks i = v.sems.asks i := by
    intro i
    by_cases new : i = child
    · subst new
      rw [asks_none fun waits => ?_,asks_none fun waits => ?_]
      · have dead := waits.1
        unfold Alive at dead
        rw [firstFree_dead free] at dead
        cases dead
      · have created := waits.2
        rw [(born_self ..).2.2] at created
        cases created
    · refine asks_same ?_ ?_ ?_
      · refine (born_live ..).trans (or_iff_left new)
      · rw [born_other _ _ new,saveRegs_same Proc.status fun _ _ => rfl]
      · rw [born_other _ _ new,saveRegs_same Proc.waiting fun _ _ => rfl]
  exact congrArg (fun g => (⟨v.sem,g⟩ : Sems pcbSize pcbSize)) (funext asks)

end Procs
section Runs
variable {N : Nat} [NeZero N] {m m' : Machine} {v : Procs} {e : Event} {pc pc' : Fin N → Phase}

-- A waiting process waits for a semaphore of the table.
def Procs.Named (v : Procs) : Prop := ∀ i,v.Alive i → (v.pcb i).status = .waiting →
  (v.pcb i).waiting.semId.toNat < pcbSize

-- N philosophers with pids of their own; fork f is semaphore f.
structure Guests (N : Nat) where
  seat : Fin N → Fin pcbSize
  seats : Function.Injective seat
  fits : N ≤ pcbSize
  spawner : Fin pcbSize
  apart : ∀ i,seat i ≠ spawner

def Guests.table (g : Guests N) : Seating N pcbSize pcbSize where
  seat := g.seat
  fork := Fin.castLE g.fits
  seats := g.seats
  forks := Fin.castLE_injective g.fits

-- The semaphore call that comes next in the loop.
def callId : Phase → Nat
  | .hungry | .reaching => 0x0A
  | .eating | .putting => 0x09

theorem callId_cases (p : Phase) : callId p = 0x09 ∨ callId p = 0x0A := by
  cases p <;> decide

def callFork (p : Phase) (i : Fin N) : Fin N :=
  match p with
  | .hungry | .eating => firstFork i
  | .reaching | .putting => secondFork i

-- What the processes may do. A philosopher makes the calls of its loop, or one that has
-- nothing to do with processes and semaphores; the others keep away from the forks, and
-- nobody exits or is killed.
inductive Serves (g : Guests N) (m : Machine) (pc : Fin N → Phase) : Event → (Fin N → Phase) → Prop where
  | irq (id : UInt32) : Serves g m pc (.irq id) pc
  | turn (id : UInt32) (i : Fin N) : m.current = g.seat i → id.toNat = callId (pc i) →
      (m.ctx.gpr 0).toNat = (callFork (pc i) i).val → m.ctx.gpr 1 = 1 →
      Serves g m pc (.svc id) (Function.update pc i (pc i).next)
  | prints (id : UInt32) : id.toNat ∉ [0x03,0x04,0x05,0x06,0x08,0x09,0x0A,0x0F] → Serves g m pc (.svc id) pc
  | others (id : UInt32) : (∀ i,m.current ≠ g.seat i) → id.toNat ≠ 0x04 → id.toNat ≠ 0x06 →
      (id.toNat = 0x03 → m.procs.firstFree ≠ none → m.heap.offers = true) →
      (id.toNat ∈ [0x08,0x09,0x0A] → N ≤ (m.ctx.gpr 0).toNat) → (id.toNat = 0x0A → m.current ≠ g.spawner) →
      Serves g m pc (.svc id) pc

-- From a state in which no philosopher waits and each fork lies on the table. The
-- spawner can run whenever it does not.
inductive Dinner (g : Guests N) : Machine → (Fin N → Phase) → Prop where
  | start {m : Machine} : Reached Steady m → (∀ f : Fin N,m.sem (Fin.castLE g.fits f) = 1) →
      (∀ i,g.seat i ∈ m.live → (m.pcb (g.seat i)).status ≠ .waiting) →
      (∀ j ∈ m.live,∀ (f : Fin N) d,¬ m.procs.Waiting j (Fin.castLE g.fits f) d) → Dinner g m fun _ => .hungry
  | call {m m' : Machine} {pc pc' : Fin N → Phase} {e : Event} {ctx : Ctx} {ram : UInt32 → UInt8} : Dinner g m pc →
      m.current = g.spawner ∨ m.procs.canRun g.spawner = true → Serves g (m.enter ctx ram) pc e pc' →
      (handle e).Ends (m.enter ctx ram) () m' → Dinner g m' pc'

theorem Serves.steady {g : Guests N} (serves : Serves g m pc e pc')
    (spawner : m.current = g.spawner ∨ m.procs.canRun g.spawner = true) : Steady m e := by
  have relieved : m.current ≠ g.spawner → Relieved m.procs := fun other =>
    ⟨g.spawner,Ne.symm other,spawner.resolve_left other⟩
  cases serves with
  | irq id => trivial
  | turn id i here call =>
      have away : m.current ≠ g.spawner := here ▸ g.apart i
      have known := callId_cases (pc i)
      refine ⟨fun fork => ?_,fun exit => ?_,fun kill => ?_,fun _ _ => relieved away⟩ <;> omega
  | prints id call =>
      simp only [List.mem_cons,List.not_mem_nil,or_false,not_or] at call
      refine ⟨fun fork => ?_,fun exit => ?_,fun kill => ?_,fun wait => ?_⟩ <;> omega
  | others id _ exit kill fork _ wait =>
      exact ⟨fork,fun call => absurd call exit,fun call => absurd call kill,fun call _ => relieved (wait call)⟩

theorem ProcsAfter.dining {g : Guests N} (runner : m.procs.Runner) (steady : Steady m e) (did : ProcsAfter m v e)
    (serves : Serves g m pc e pc') (dining : Dining g.table m.procs.sems pc) : Dining g.table v.sems pc' := by
  have awake : (m.procs.pcb m.procs.current).status ≠ .waiting := by
    rw [runner.runs]
    decide
  have switched : ∀ st,st ≠ .waiting → (m.procs.next st).sems = m.procs.sems := fun st stops =>
    Procs.next_sems ⟨fun wrong => absurd wrong stops,fun wrong => absurd wrong awake⟩
  have free : ∀ i,m.current = g.seat i → m.procs.sems.asks (g.seat i) = none := fun i here =>
    Procs.asks_none fun waits => awake ((congrArg (fun i => (m.procs.pcb i).status) here).trans waits.2)
  -- A call that is no call of the loop leaves the phases.
  have same : v.sems = m.procs.sems → (∀ id,e = .svc id → id.toNat ≠ 0x09 ∧ id.toNat ≠ 0x0A) →
      Dining g.table v.sems pc' := by
    intro equal strange
    rw [equal]
    cases serves with
    | irq id => exact dining
    | turn id i _ call =>
        have known := callId_cases (pc i)
        obtain ⟨post,wait⟩ := strange id rfl
        omega
    | prints id => exact dining
    | others id => exact dining
  cases did with
  | stays view => exact same (by rw [view]) fun _ wrong => nomatch wrong
  | ticks view => exact same (by rw [view]; exact switched _ (by decide)) fun _ wrong => nomatch wrong
  | yields call view =>
      refine same (by rw [view]; exact switched _ (by decide)) fun id equal => ?_
      cases equal
      rw [call]
      decide
  | forks call did =>
      refine same ?_ fun id equal => ?_
      · cases did with
        | full _ view =>
            rw [view]
            exact m.procs.saveRegs_sems
        | poor free fails _ =>
            rw [steady.1 call (by rw [free]; exact Option.some_ne_none _)] at fails
            cases fails
        | born free _ _ view =>
            rw [view]
            exact m.procs.born_sems free _
      · cases equal
        rw [call]
        decide
  | exits call =>
      cases serves with
      | turn id i _ kind =>
          have known := callId_cases (pc i)
          omega
      | prints id kind => exact absurd (by rw [call]; decide) kind
      | others id _ exit => exact absurd call exit
  | execs call view =>
      refine same (by rw [view]; rfl) fun id equal => ?_
      cases equal
      rw [call]
      decide
  | kills call =>
      cases serves with
      | turn id i _ kind =>
          have known := callId_cases (pc i)
          omega
      | prints id kind => exact absurd (by rw [call]; decide) kind
      | others id _ _ kill => exact absurd call kill
  | inits call did =>
      cases serves with
      | turn id i _ kind =>
          have known := callId_cases (pc i)
          omega
      | prints id kind => exact absurd (by rw [call]; decide) kind
      | others id _ _ _ _ away =>
          have far := away (by rw [call]; decide)
          cases did with
          | refused => exact dining
          | posted k small index =>
              have strange : ∀ f,k ≠ g.table.fork f := by
                rintro f rfl
                have bound := f.isLt
                exact absurd (index ▸ far) (Nat.not_le.mpr bound)
              exact Procs.posted_sems (v := m.procs) index (fun w => Dining g.table w pc) dining
                (dining.posts _ k _ strange)
  | posts call view =>
      rw [view]
      cases serves with
      | turn id i here kind fork unit =>
          have index : (m.ctx.gpr 0).toNat = (g.table.fork (callFork (pc i) i)).val := fork
          have turn := dining.turn i (free i here)
          rw [unit]
          have posted : (m.procs.doSemPost (m.ctx.gpr 0) 1).sems =
              m.procs.sems.post m.procs.current (g.table.fork (callFork (pc i) i)) 1 := Procs.doSemPost_sems index (by decide)
          rw [posted]
          have seat : m.procs.current = g.table.seat i := here
          rw [seat]
          rw [call] at kind
          unfold Seating.act at turn
          cases phase : pc i with
          | hungry | reaching =>
              rw [phase] at kind
              cases kind
          | eating | putting =>
              rw [phase] at turn
              exact turn
      | prints id kind => exact absurd (by rw [call]; decide) kind
      | others id _ _ _ _ away =>
          have far := away (by rw [call]; decide)
          by_cases bound : (m.ctx.gpr 0).toNat < pcbSize
          · have strange : ∀ f,(⟨_,bound⟩ : Fin pcbSize) ≠ g.table.fork f := by
              intro f equal
              have value : (m.ctx.gpr 0).toNat = f.val := congrArg Fin.val equal
              have less := f.isLt
              omega
            exact Procs.posted_sems (v := m.procs) (k := ⟨_,bound⟩) rfl (fun w => Dining g.table w pc) dining
              (dining.posts _ _ _ strange)
          · have nothing : m.procs.doSemPost (m.ctx.gpr 0) (m.ctx.gpr 1) = m.procs := dif_neg bound
            rw [nothing]
            exact dining
  | waits call did =>
      have waited : ∃ k : Fin pcbSize,(m.ctx.gpr 0).toNat = k.val ∧
          v.sems = m.procs.sems.wait m.procs.current k (m.ctx.gpr 1) := by
        cases did with
        | granted k index enough => exact ⟨k,index,Procs.take_sems enough⟩
        | blocked k index short =>
            refine ⟨k,index,?_⟩
            rw [Procs.next_sems]
            · exact Procs.block_sems index short runner.live
            · show Status.waiting = .waiting ↔ ((m.procs.block _ _).pcb m.procs.current).status = .waiting
              rw [Procs.block_self]
      obtain ⟨k,index,view⟩ := waited
      rw [view]
      cases serves with
      | turn id i here kind fork unit =>
          have equal : k = g.table.fork (callFork (pc i) i) := Fin.ext (index.symm.trans fork)
          have turn := dining.turn i (free i here)
          have seat : m.procs.current = g.table.seat i := here
          rw [unit,equal,seat]
          rw [call] at kind
          unfold Seating.act at turn
          cases phase : pc i with
          | hungry | reaching =>
              rw [phase] at turn
              exact turn
          | eating | putting =>
              rw [phase] at kind
              cases kind
      | prints id kind => exact absurd (by rw [call]; decide) kind
      | others id strange _ _ _ away =>
          have far := away (by rw [call]; decide)
          refine dining.waits _ k _ strange fun f equal => ?_
          have value : k.val = f.val := congrArg Fin.val equal
          have less := f.isLt
          omega
  | execxs call view =>
      refine same (by rw [view]; rfl) fun id equal => ?_
      cases equal
      rw [call]
      decide
  | other call view =>
      refine same (by rcases view with rfl | ⟨r,rfl⟩ <;> rfl) fun id equal => ?_
      cases equal
      simp only [List.mem_cons,List.not_mem_nil,or_false,not_or] at call
      exact ⟨call.2.2.2.2.2.2.1,call.2.2.2.2.2.2.2.1⟩

theorem Dinner.dining {g : Guests N} (dinner : Dinner g m pc) :
    Reached Steady m ∧ Dining g.table m.procs.sems pc := by
  induction dinner with
  | start reached ones seated others =>
      refine ⟨reached,.start ones (fun i => ?_) fun j f x asks => ?_⟩
      · exact Procs.asks_none fun waits => seated i waits.1 waits.2
      · obtain ⟨live,waits⟩ := Procs.asks_some.mp asks
        exact others j live f x waits
  | @call m m' pc pc' e ctx ram _ spawner serves run ih =>
      obtain ⟨reached,dining⟩ := ih
      have steady : Steady (m.enter ctx ram) e := serves.steady spawner
      have runner := reached.runner
      have entered : (m.enter ctx ram).procs.Runner := ⟨runner.live,runner.runs,runner.alone,runner.own⟩
      exact ⟨.call reached steady run,(handle_did run).dining entered steady serves dining⟩

theorem Procs.Booted.named (b : Booted v) : v.Named := by
  intro i live waits
  rw [b.only live,b.status] at waits
  cases waits

theorem ProcsAfter.named (runner : m.procs.Runner) (steady : Steady m e) (named : m.procs.Named) (did : ProcsAfter m v e) : v.Named := by
  have less : ∀ {w : Procs},(∀ i,w.Alive i → (w.pcb i).status = .waiting → m.procs.Alive i ∧
      (m.procs.pcb i).status = .waiting ∧ (m.procs.pcb i).waiting = (w.pcb i).waiting) → w.Named := by
    intro w same i live waits
    obtain ⟨was,waited,equal⟩ := same i live waits
    rw [← equal]
    exact named i was waited
  have next : ∀ {w : Procs} {st : Status},w.Named → (st = .waiting → (w.pcb w.current).status = .waiting) →
      (w.next st).Named := by
    intro w st named stops i live waits
    unfold Procs.Alive at live
    rw [Procs.next_alloc] at live
    rw [Procs.next_same Proc.waiting fun _ _ _ => rfl]
    exact named i live (Procs.next_waits stops waits)
  cases did with
  | stays view =>
      rw [view]
      exact named
  | ticks view =>
      rw [view]
      exact next named fun wrong => nomatch wrong
  | yields _ view =>
      rw [view]
      exact next named fun wrong => nomatch wrong
  | forks call did =>
      cases did with
      | full _ view =>
          rw [view]
          refine less fun i live waits => ⟨live,?_,?_⟩
          · exact (Procs.saveRegs_same Proc.status (fun _ _ => rfl) m.procs i).symm.trans waits
          · exact (Procs.saveRegs_same Proc.waiting (fun _ _ => rfl) m.procs i).symm
      | poor free fails _ =>
          rw [steady.1 call (by rw [free]; exact Option.some_ne_none _)] at fails
          cases fails
      | @born child stack free _ _ view =>
          rw [view]
          refine less fun i live waits => ?_
          by_cases new : i = child
          · rw [new] at waits
            have created := (Procs.born_self m.procs child stack).2.2
            rw [show ((m.procs.born child stack).pcb child).status = .waiting from waits] at created
            cases created
          · have same : ((m.procs.born child stack).pcb i) = m.procs.saveRegs.pcb i := Procs.born_other _ _ new
            refine ⟨((born_live child stack i).mp live).resolve_right new,?_,?_⟩
            · exact (Procs.saveRegs_same Proc.status (fun _ _ => rfl) m.procs i).symm.trans
                ((congrArg Proc.status same).symm.trans waits)
            · exact ((congrArg Proc.waiting same).trans (Procs.saveRegs_same Proc.waiting (fun _ _ => rfl) m.procs i)).symm
  | exits _ _ _ view =>
      rw [view]
      refine next (less fun i live waits => ?_) fun wrong => nomatch wrong
      obtain ⟨was,other⟩ := (exit_live runner.live i).mp live
      rw [Procs.exit_other _ other] at waits ⊢
      exact ⟨was,waits,rfl⟩
  | execs _ view =>
      rw [view]
      exact named
  | kills _ did =>
      cases did with
      | none => exact named
      | one i =>
          refine less fun j live waits => ?_
          rw [Procs.kill_pcb] at waits ⊢
          exact ⟨((kill_live i j).mp live).1,waits,rfl⟩
  | inits _ did =>
      cases did with
      | refused => exact named
      | posted k =>
          refine less fun i live waits => ?_
          have same := Procs.doSemPost_waits (v := m.procs) waits
          refine ⟨?_,same ▸ waits,(congrArg Proc.waiting same).symm⟩
          have alloc := (m.procs.doSemPost_rest (m.ctx.gpr 0) (m.ctx.gpr 1 - m.procs.sem k)).1
          unfold Procs.Alive
          rw [← alloc]
          exact live
  | posts _ view =>
      rw [view]
      refine less fun i live waits => ?_
      have same := Procs.doSemPost_waits waits
      refine ⟨?_,same ▸ waits,(congrArg Proc.waiting same).symm⟩
      have alloc := (m.procs.doSemPost_rest (m.ctx.gpr 0) (m.ctx.gpr 1)).1
      unfold Procs.Alive
      rw [← alloc]
      exact live
  | waits _ did =>
      cases did with
      | granted k => exact named
      | blocked k index _ =>
          refine next (fun i live waits => ?_) fun _ => ?_
          · by_cases here : i = m.procs.current
            · rw [here,Procs.block_self]
              exact index ▸ k.isLt
            · rw [Procs.block_other _ _ _ here] at waits ⊢
              exact named i live waits
          · show ((m.procs.block _ _).pcb m.procs.current).status = _
            rw [Procs.block_self]
  | execxs _ view =>
      rw [view]
      exact named
  | other _ view => rcases view with rfl | ⟨r,rfl⟩ <;> exact named

theorem Reached.named (reached : Reached Steady m) : m.procs.Named := by
  induction reached with
  | boot z run => exact Procs.Booted.named (boot_booted z run)
  | @call m m' e ctx ram before steady run ih =>
      have runner := before.runner
      have entered : (m.enter ctx ram).procs.Runner := ⟨runner.live,runner.runs,runner.alone,runner.own⟩
      exact (handle_did run).named entered steady ih

-- For any number of philosophers in any table of processes and semaphores, and for
-- those that run on the kernel.
theorem philosophers_safe :
    (∀ {N n k : Nat} [NeZero N] [NeZero n] (t : Seating N n k) (v : Sems n k) (pc : Fin N → Phase),2 ≤ N →
      Dining t v pc → Safe t v pc) ∧
    ∀ {N : Nat} [NeZero N] (g : Guests N) (m : Machine) (pc : Fin N → Phase),2 ≤ N → Dinner g m pc →
      Safe g.table m.procs.sems pc ∧ ∃ i,¬ (g.seat i ∈ m.live ∧ (m.pcb (g.seat i)).status = .waiting) := by
  refine ⟨fun t v pc two dining => dining.safe two,fun g m pc two dinner => ?_⟩
  obtain ⟨reached,dining⟩ := dinner.dining
  have safe := dining.safe two
  refine ⟨safe,?_⟩
  obtain ⟨i,free⟩ := safe.someone
  refine ⟨i,fun waits => ?_⟩
  have named := reached.named (g.seat i) waits.1 waits.2
  have asks : m.procs.sems.asks (g.seat i) = some (⟨_,named⟩,(m.pcb (g.seat i)).waiting.x) :=
    Procs.asks_some.mpr ⟨waits.1,waits.2,rfl,rfl⟩
  exact absurd (asks.symm.trans free) (Option.some_ne_none _)

end Runs

theorem guest_lt (i : Fin 2) : i.val + 1 < pcbSize := by
  have bound := i.isLt
  show i.val + 1 < 32
  omega

-- The first process forks two philosophers and sets two forks on the table.
def twoGuests : Guests 2 where
  seat i := ⟨i.val + 1,guest_lt i⟩
  seats i j same := Fin.ext (Nat.succ.inj (congrArg Fin.val same))
  fits := by decide
  spawner := 0
  apart i same := Nat.succ_ne_zero i.val (congrArg Fin.val same)

def Machine.joined : Machine := ((Machine.started (few 8)).call 0x03 0 0).call 0x03 0 0
def Machine.laid : Machine := (Machine.joined.call 0x08 0 1).call 0x08 1 1

theorem forks_steady {m : Machine} (offers : m.heap.offers = true) : Steady (m.asks 0 0) (.svc 0x03) :=
  ⟨fun _ _ => offers,fun wrong => absurd wrong (by decide),fun wrong => absurd wrong (by decide),fun wrong => absurd wrong (by decide)⟩

theorem inits_steady (m : Machine) (k : UInt32) : Steady (m.asks k 1) (.svc 0x08) :=
  ⟨fun wrong => absurd wrong (by decide),fun wrong => absurd wrong (by decide),fun wrong => absurd wrong (by decide),
    fun wrong => absurd wrong (by decide)⟩

theorem joined_reached : Reached Steady Machine.joined := by
  have started : Reached Steady (Machine.started (few 8)) := started_reached (by decide) (by decide +kernel)
  have once : Reached Steady ((Machine.started (few 8)).call 0x03 0 0) := by
    refine started.calls (forks_steady ?_) ?_
    all_goals decide +kernel
  refine once.calls (forks_steady ?_) ?_
  all_goals decide +kernel

theorem Dinner.begin {N : Nat} [NeZero N] {g : Guests N} {m : Machine} (reached : Reached Steady m)
    (ones : ∀ f : Fin N,m.sem (Fin.castLE g.fits f) = 1) (awake : ∀ i,(m.pcb i).status ≠ .waiting) :
    Dinner g m fun _ => .hungry :=
  .start reached ones (fun i _ => awake (g.seat i)) fun j _ _ _ waits => awake j waits.1

theorem laid_dinner : Dinner twoGuests Machine.laid fun _ => .hungry := by
  have once : Reached Steady (Machine.joined.call 0x08 0 1) := joined_reached.calls (inits_steady _ 0) (by decide +kernel)
  have laid : Reached Steady Machine.laid := once.calls (inits_steady _ 1) (by decide +kernel)
  exact .begin laid (by decide +kernel) (by decide +kernel)

theorem Dinner.calls {N : Nat} [NeZero N] {g : Guests N} {m : Machine} {pc pc' : Fin N → Phase} {id r0 r1 : UInt32}
    (dinner : Dinner g m pc) (spawner : m.current = g.spawner ∨ m.procs.canRun g.spawner = true)
    (serves : Serves g (m.asks r0 r1) pc (.svc id) pc') (ends : (handle (.svc id)).done (m.asks r0 r1) = true) :
    Dinner g (m.call id r0 r1) pc' :=
  .call dinner spawner serves (ends_after ends)

-- The first philosopher takes both forks, then the second one asks for one of them.
def Machine.fed : Machine := ((Machine.laid.call 0x00 0 0).call 0x0A 0 1).call 0x0A 1 1
def Machine.dined : Machine := (Machine.fed.call 0x00 0 0).call 0x0A 0 1

def fedPhases : Fin 2 → Phase := fun i => if i = 0 then .eating else .hungry
def dinedPhases : Fin 2 → Phase := fun i => if i = 0 then .eating else .reaching

theorem fed_dinner : Dinner twoGuests Machine.fed fedPhases := by
  have turned : Dinner twoGuests (Machine.laid.call 0x00 0 0) fun _ => .hungry := by
    refine laid_dinner.calls (.inl ?_) (.prints _ (by decide)) ?_
    all_goals decide +kernel
  have first : Dinner twoGuests ((Machine.laid.call 0x00 0 0).call 0x0A 0 1) (Function.update (fun _ => .hungry) 0 .reaching) := by
    refine turned.calls (.inr ?_) (.turn 0x0A 0 ?_ rfl rfl rfl) ?_
    all_goals decide +kernel
  have both : Dinner twoGuests Machine.fed (Function.update (Function.update (fun _ => .hungry) 0 .reaching) 0 .eating) := by
    refine first.calls (.inr ?_) (.turn 0x0A 0 ?_ rfl rfl rfl) ?_
    all_goals decide +kernel
  have phases : Function.update (Function.update (fun _ => .hungry) 0 .reaching) 0 .eating = fedPhases := by decide
  rw [phases] at both
  exact both

theorem dined_dinner : Dinner twoGuests Machine.dined dinedPhases := by
  have turned : Dinner twoGuests (Machine.fed.call 0x00 0 0) fedPhases := by
    refine fed_dinner.calls (.inr ?_) (.prints _ (by decide)) ?_
    all_goals decide +kernel
  have asked : Dinner twoGuests Machine.dined (Function.update fedPhases 1 .reaching) := by
    refine turned.calls (.inr ?_) (.turn 0x0A 1 ?_ rfl rfl rfl) ?_
    all_goals decide +kernel
  have phases : Function.update fedPhases 1 .reaching = dinedPhases := by decide
  rw [phases] at asked
  exact asked

-- The first one eats, the second one waits.
theorem philosophers_safe_two : Eats twoGuests.table Machine.dined.procs.sems dinedPhases 0 ∧
    (twoGuests.seat 1 ∈ Machine.dined.live ∧ (Machine.dined.pcb (twoGuests.seat 1)).status = .waiting) ∧
    Safe twoGuests.table Machine.dined.procs.sems dinedPhases ∧
    ∃ i,¬ (twoGuests.seat i ∈ Machine.dined.live ∧ (Machine.dined.pcb (twoGuests.seat i)).status = .waiting) := by
  have lives : alive Machine.dined.pcballoc (twoGuests.seat 1) = true := by decide +kernel
  refine ⟨⟨rfl,?_⟩,⟨lives,?_⟩,philosophers_safe.2 twoGuests Machine.dined _ (Nat.le_refl 2) dined_dinner⟩
  all_goals decide +kernel

end ArchiveOs.Kernel
