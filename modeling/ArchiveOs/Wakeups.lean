import ArchiveOs.Runners

-- Who waits for units that are there.
namespace ArchiveOs.Kernel
open Fs2
open Prog

namespace Procs
variable {v w : Procs}

-- Process i is marked as waiting for d units of semaphore k.
def Waiting (v : Procs) (i k : Fin pcbSize) (d : UInt32) : Prop :=
  (v.pcb i).status = .waiting ∧ (v.pcb i).waiting.semId.toNat = k.val ∧ (v.pcb i).waiting.x = d

-- What process i waits for is not there.
def Unmet (v : Procs) (i : Fin pcbSize) : Prop := ∀ k d,v.Waiting i k d → v.sem k < d

def NoneLost (v : Procs) : Prop := ∀ i,v.Alive i → v.Unmet i

theorem Booted.noneLost (b : Booted v) : v.NoneLost := by
  intro i live k d waits
  have status := waits.1
  rw [b.only live,b.status] at status
  cases status

theorem NoneLost.less (none : v.NoneLost) (alive : ∀ i,w.Alive i → (w.pcb i).status = .waiting →
    v.Alive i ∧ (v.pcb i).status = .waiting ∧ (v.pcb i).waiting = (w.pcb i).waiting) (sem : ∀ k,w.sem k ≤ v.sem k) :
    w.NoneLost := by
  intro i live k d ⟨status,index,demand⟩
  obtain ⟨was,waited,same⟩ := alive i live status
  rw [← same] at index demand
  exact UInt32.lt_of_le_of_lt (sem k) (none i was k d ⟨waited,index,demand⟩)

theorem NoneLost.next (none : v.NoneLost) {st : Status} (stops : st = .waiting → (v.pcb v.current).status = .waiting) :
    (v.next st).NoneLost := by
  refine none.less (fun j live status => ⟨?_,next_waits stops status,?_⟩) fun k => ?_
  · unfold Alive at live
    rw [next_alloc] at live
    exact live
  · exact (next_same Proc.waiting (fun _ _ _ => rfl) v j st).symm
  · rw [next_sem]
    exact UInt32.le_refl _

theorem NoneLost.take (none : v.NoneLost) {k : Fin pcbSize} {x : UInt32} (enough : v.sem k ≥ x) :
    (v.take k x).NoneLost := by
  refine none.less (fun i live status => ⟨live,status,rfl⟩) fun j => ?_
  show put v.sem k (v.sem k - x) j ≤ v.sem j
  by_cases here : j = k
  · rw [here,put_self]
    apply UInt32.le_iff_toNat_le.mpr
    rw [UInt32.toNat_sub_of_le _ _ enough]
    exact Nat.sub_le ..
  · rw [put_other _ _ here]
    exact UInt32.le_refl _

theorem NoneLost.block (none : v.NoneLost) {semId x : UInt32} {k : Fin pcbSize} (index : semId.toNat = k.val)
    (short : v.sem k < x) : (v.block semId x).NoneLost := by
  intro i live j d ⟨status,named,demand⟩
  by_cases here : i = v.current
  · rw [here,block_self] at named demand
    have same : j = k := Fin.ext (named.symm.trans index)
    rw [same,← demand]
    exact short
  · rw [block_other v semId x here] at status named demand
    exact none i live j d ⟨status,named,demand⟩

theorem NoneLost.born (none : v.NoneLost) (child : Fin pcbSize) (stack : UInt32) : (v.born child stack).NoneLost := by
  refine none.less (fun i live status => ?_) fun k => UInt32.le_refl _
  by_cases new : i = child
  · rw [new,(born_self v child stack).2.2] at status
    cases status
  · rw [born_other v stack new,saveRegs_same Proc.status fun _ _ => rfl] at status
    rw [born_other v stack new,saveRegs_same Proc.waiting fun _ _ => rfl]
    rcases (born_live ..).mp live with was | same
    · exact ⟨was,status,rfl⟩
    · exact absurd same new

theorem NoneLost.unborn (none : v.NoneLost) (child : Fin pcbSize) (parent : v.Unmet v.current) :
    (v.unborn child).NoneLost := by
  intro i live k d ⟨status,index,demand⟩
  by_cases new : i = child
  · rw [new,unborn_self] at status index demand
    exact parent k d ⟨status,index,demand⟩
  · rw [unborn_other v new,saveRegs_same Proc.status fun _ _ => rfl] at status
    rw [unborn_other v new,saveRegs_same Proc.waiting fun _ _ => rfl] at index demand
    have was : alive (v.alloc ||| bit child) i = true := live
    rw [alive_or,decide_eq_false new,Bool.or_false] at was
    exact none i was k d ⟨status,index,demand⟩

-- The units of a post are used up: once the first process in turn that waits for no
-- more than x has got its share, every other waiter asks for more than there is.
def UsedUp (v : Procs) (semId x : UInt32) : Prop := ∀ k : Fin pcbSize,semId.toNat = k.val → x ≠ 0 →
  match v.chosen semId x with
  | some i => ∀ j d,j ≠ i → v.Alive j → v.Waiting j k d → v.sem k + (x - (v.pcb i).waiting.x) < d
  | none => ∀ j d,v.Alive j → v.Waiting j k d → v.sem k + x < d

theorem NoneLost.doSemPost (none : v.NoneLost) {semId x : UInt32} (used : v.UsedUp semId x) :
    (v.doSemPost semId x).NoneLost := by
  generalize after : v.doSemPost semId x = w
  have did := v.doSemPost_posts semId x
  rw [after] at did
  cases did with
  | nothing => exact none
  | some k index more did =>
      have units := used k index more
      cases did with
      | woke i found =>
          rw [found] at units
          intro j live l d ⟨status,named,demand⟩
          have other : j ≠ i := by
            rintro rfl
            rw [setPcb_self] at status
            cases status
          rw [setPcb_other _ _ other] at status named demand
          show put v.sem k _ l < d
          by_cases here : l = k
          · rw [here,put_self]
            exact units j d other live ⟨status,here ▸ named,demand⟩
          · rw [put_other _ _ here]
            exact none j live l d ⟨status,named,demand⟩
      | kept found =>
          rw [found] at units
          intro j live l d waits
          show put v.sem k _ l < d
          by_cases here : l = k
          · rw [here,put_self]
            exact units j d live (here ▸ waits)
          · rw [put_other _ _ here]
            exact none j live l d waits

end Procs

section Runs
variable {m m' : Machine} {v : Procs} {e : Event}

-- Each post uses up its units, and so does SEM_INIT, which posts the difference; a
-- fork that gets no memory is not made by a process whose own wait is met; and only a
-- live process exits.
def Prompt (m : Machine) : Event → Prop
  | .irq _ => True
  | .svc id =>
      (id.toNat = 0x03 → m.procs.firstFree ≠ none → m.heap.offers = false → m.procs.Unmet m.current) ∧
      (id.toNat = 0x04 → m.procs.Alive m.current) ∧
      (id.toNat = 0x08 → (m.ctx.gpr 1).toNat < pcbSize → ∀ k : Fin pcbSize,(m.ctx.gpr 0).toNat = k.val →
        m.procs.UsedUp (m.ctx.gpr 0) (m.ctx.gpr 1 - m.sem k)) ∧
      (id.toNat = 0x09 → m.procs.UsedUp (m.ctx.gpr 0) (m.ctx.gpr 1))

theorem ProcsAfter.noneLost (none : m.procs.NoneLost) (prompt : Prompt m e) (did : ProcsAfter m v e) : v.NoneLost := by
  cases did with
  | stays view =>
      rw [view]
      exact none
  | ticks view =>
      rw [view]
      exact none.next fun wrong => nomatch wrong
  | yields _ view =>
      rw [view]
      exact none.next fun wrong => nomatch wrong
  | forks call did =>
      cases did with
      | full _ view =>
          rw [view]
          refine none.less (fun i live status => ⟨live,?_,?_⟩) fun k => UInt32.le_refl _
          · exact (Procs.saveRegs_same Proc.status (fun _ _ => rfl) _ i).symm.trans status
          · exact (Procs.saveRegs_same Proc.waiting (fun _ _ => rfl) _ i).symm
      | poor free fails view =>
          rw [view]
          exact none.unborn _ (prompt.1 call (by rw [free]; exact Option.some_ne_none _) fails)
      | born free _ _ view =>
          rw [view]
          exact none.born _ _
  | exits call _ _ view =>
      rw [view]
      have live := prompt.2.1 call
      have ended : m.procs.exit.NoneLost := by
        refine none.less (fun i here status => ?_) fun k => UInt32.le_refl _
        obtain ⟨was,other⟩ := (exit_live live i).mp here
        rw [Procs.exit_other _ other] at status ⊢
        exact ⟨was,status,rfl⟩
      exact ended.next fun wrong => nomatch wrong
  | execs _ view =>
      rw [view]
      exact none
  | kills _ did =>
      cases did with
      | none => exact none
      | one i =>
          refine none.less (fun j live status => ?_) fun k => ?_
          · rw [Procs.kill_pcb] at status ⊢
            exact ⟨((kill_live ..).mp live).1,status,rfl⟩
          · rw [(Procs.kill_rest ..).2.2]
            exact UInt32.le_refl _
  | inits call did =>
      cases did with
      | refused => exact none
      | posted k small index => exact none.doSemPost (prompt.2.2.1 call small k index)
  | posts call view =>
      rw [view]
      exact none.doSemPost (prompt.2.2.2 call)
  | waits _ did =>
      cases did with
      | granted k index enough => exact none.take enough
      | blocked k index short =>
          refine (none.block index (UInt32.not_le.mp short)).next fun _ => ?_
          show ((m.procs.block _ _).pcb m.procs.current).status = _
          rw [Procs.block_self]
  | execxs _ view =>
      rw [view]
      exact none
  | other _ view => rcases view with rfl | ⟨r,rfl⟩ <;> exact none

theorem Reached.noneLost (reached : Reached Prompt m) : m.procs.NoneLost := by
  induction reached with
  | boot z run => exact Procs.Booted.noneLost (boot_booted z run)
  | @call m m' e ctx ram _ prompt run ih =>
      have entered : (m.enter ctx ram).procs.NoneLost := ih
      exact (handle_did run).noneLost entered prompt

-- A live process that waits for d units of a semaphore finds fewer there.
def NoLostWakeup (m : Machine) : Prop := ∀ i ∈ m.live,∀ k : Fin pcbSize,(m.pcb i).status = .waiting →
  (m.pcb i).waiting.semId.toNat = k.val → m.sem k < (m.pcb i).waiting.x

theorem no_lost_wakeup (reached : Reached Prompt m) : NoLostWakeup m :=
  fun i live k status index => reached.noneLost i live k _ ⟨status,index,rfl⟩

end Runs

-- One process waits for five units, and another one posts three, twice.
def Machine.waits : Machine := (((Machine.started (few 6)).call 0x03 0 0).call 0x00 0 0).call 0x0A 0 5
def Machine.posts : Machine := (Machine.waits.call 0x09 0 3).call 0x09 0 3

theorem no_lost_wakeup_waits : NoLostWakeup Machine.waits := by
  have started : Reached Prompt (Machine.started (few 6)) := started_reached (by decide) (by decide +kernel)
  have forked : Reached Prompt ((Machine.started (few 6)).call 0x03 0 0) := by
    refine started.calls ⟨?_,?_,?_,?_⟩ (by decide +kernel)
    · exact fun _ _ fails => absurd fails (by decide +kernel)
    all_goals exact fun wrong => absurd wrong (by decide)
  have yielded : Reached Prompt (((Machine.started (few 6)).call 0x03 0 0).call 0x00 0 0) := by
    refine forked.calls ⟨?_,?_,?_,?_⟩ (by decide +kernel)
    all_goals exact fun wrong => absurd wrong (by decide)
  refine no_lost_wakeup (yielded.calls ⟨?_,?_,?_,?_⟩ (by decide +kernel))
  all_goals exact fun wrong => absurd wrong (by decide)

theorem wakeup_lost : ¬ ∀ m,Reached Any m → NoLostWakeup m := by
  intro all
  have started : Reached Any (Machine.started (few 6)) := started_reached (by decide) (by decide +kernel)
  have forked : Reached Any ((Machine.started (few 6)).call 0x03 0 0) := started.calls trivial (by decide +kernel)
  have yielded : Reached Any (((Machine.started (few 6)).call 0x03 0 0).call 0x00 0 0) :=
    forked.calls trivial (by decide +kernel)
  have waits : Reached Any Machine.waits := yielded.calls trivial (by decide +kernel)
  have posted : Reached Any (Machine.waits.call 0x09 0 3) := waits.calls trivial (by decide +kernel)
  have none := all Machine.posts (posted.calls trivial (by decide +kernel))
  exact absurd (none 1 (by unfold Machine.live; decide +kernel) 0 (by decide +kernel) (by decide +kernel)) (by decide +kernel)

end ArchiveOs.Kernel
