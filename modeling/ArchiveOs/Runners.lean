import ArchiveOs.Contexts

-- Who runs.
namespace ArchiveOs.Kernel
open Fs2
open Prog

namespace Procs
variable {v : Procs}

-- The running process lives, and it is the only live one that counts as running.
structure Runner (v : Procs) : Prop where
  live : v.Alive v.current
  runs : (v.pcb v.current).status = .executing
  alone : ∀ i,v.Alive i → i ≠ v.current → (v.pcb i).status ≠ .executing
  own : ∀ i,v.Alive i → (v.pcb i).pid = i

theorem Booted.runner (b : Booted v) : v.Runner := by
  refine ⟨?_,?_,fun i live other => ?_,fun i live => ?_⟩
  · rw [b.current]
    unfold Alive
    rw [b.alloc]
    decide
  · rw [b.current]
    exact b.status
  · rw [b.current] at other
    exact absurd (b.only live) other
  · rw [b.only live]
    exact b.pid

-- The others of a table whose running process may just have stopped.
structure Rest (v : Procs) : Prop where
  alone : ∀ i,v.Alive i → i ≠ v.current → (v.pcb i).status ≠ .executing
  own : ∀ i,v.Alive i → (v.pcb i).pid = i

theorem Runner.rest (runner : v.Runner) : v.Rest := ⟨runner.alone,runner.own⟩

theorem Rest.switch (rest : v.Rest) {i : Fin pcbSize} (other : i ≠ v.current) (can : v.canRun i = true) {st : Status}
    (stops : st ≠ .executing) : (v.switchTo i st).Runner := by
  have live := (canRun_iff.mp can).1
  have current : (v.switchTo i st).current = i := (switchTo_current other).trans (rest.own i live)
  refine ⟨?_,?_,fun j here away => ?_,fun j here => ?_⟩
  · rw [current]
    exact live
  · rw [current,switchTo_new other]
  · rw [current] at away
    by_cases old : j = v.current
    · rw [old,switchTo_old other]
      exact stops
    · rw [switchTo_other old away]
      exact rest.alone j here old
  · rw [switchTo_same Proc.pid fun _ _ _ => rfl]
    exact rest.own j here

theorem Rest.next (rest : v.Rest) (someone : ∃ j,j ≠ v.current ∧ v.canRun j = true) {st : Status} (stops : st ≠ .executing) :
    (v.next st).Runner := by
  rcases v.next_cases st with ⟨_,nobody⟩ | ⟨i,other,can,moves⟩
  · obtain ⟨j,other,can⟩ := someone
    rw [nobody j other] at can
    cases can
  · rw [moves]
    exact rest.switch other can stops

theorem Runner.next (runner : v.Runner) {st : Status} (stops : st ≠ .executing) : (v.next st).Runner := by
  rcases v.next_cases st with ⟨stays,_⟩ | ⟨i,other,can,moves⟩
  · rw [stays]
    exact runner
  · rw [moves]
    exact runner.rest.switch other can stops

theorem Runner.keep (runner : v.Runner) {w : Procs} (current : w.current = v.current) (live : w.Alive v.current)
    (alive : ∀ i,w.Alive i → v.Alive i) (pids : ∀ i,(w.pcb i).pid = (v.pcb i).pid)
    (runs : (w.pcb v.current).status = (v.pcb v.current).status)
    (status : ∀ i,v.Alive i → (w.pcb i).status = .executing → (v.pcb i).status = .executing) : w.Runner := by
  refine ⟨?_,?_,fun i here other starts => ?_,fun i here => ?_⟩
  · rw [current]
    exact live
  · rw [current,runs]
    exact runner.runs
  · rw [current] at other
    exact runner.alone i (alive i here) other (status i (alive i here) starts)
  · rw [pids]
    exact runner.own i (alive i here)

theorem Runner.doSemPost (runner : v.Runner) (semId x : UInt32) : (v.doSemPost semId x).Runner := by
  obtain ⟨alloc,current,_⟩ := v.doSemPost_rest semId x
  have alive : ∀ i,(v.doSemPost semId x).Alive i ↔ v.Alive i := by
    intro i
    unfold Alive
    rw [alloc]
  refine runner.keep current ((alive _).mpr runner.live) (fun i => (alive i).mp)
    (doSemPost_same Proc.pid (fun _ _ => rfl) v semId x) ?_ fun i live starts => ?_
  · rcases v.doSemPost_pcb semId x v.current with stays | ⟨other,_⟩
    · rw [stays]
    · exact absurd rfl other
  · rcases v.doSemPost_pcb semId x i with stays | ⟨_,_,woke⟩
    · rw [stays] at starts
      exact starts
    · rw [woke] at starts
      cases starts

theorem Runner.exit (runner : v.Runner) : v.exit.Rest := by
  refine ⟨fun i live other => ?_,fun i live => ?_⟩
  · rw [exit_other v other]
    exact runner.alone i ((exit_live runner.live i).mp live).1 other
  · rw [exit_same Proc.pid fun _ _ => rfl]
    exact runner.own i ((exit_live runner.live i).mp live).1

theorem Runner.block (runner : v.Runner) (semId x : UInt32) : (v.block semId x).Rest := by
  refine ⟨fun i live other => ?_,fun i live => ?_⟩
  · rw [block_other v semId x other]
    exact runner.alone i live other
  · rw [block_same Proc.pid fun _ _ _ => rfl]
    exact runner.own i live

theorem Runner.born (runner : v.Runner) {child : Fin pcbSize} (free : v.firstFree = some child) (stack : UInt32) :
    (v.born child stack).Runner := by
  have other : v.current ≠ child := by
    rintro rfl
    have live := runner.live
    unfold Alive at live
    rw [firstFree_dead free] at live
    cases live
  have status : ∀ i,i ≠ child → ((v.born child stack).pcb i).status = (v.pcb i).status := fun i old =>
    (congrArg Proc.status (born_other v stack old)).trans (saveRegs_same Proc.status (fun _ _ => rfl) v i)
  refine ⟨(born_live ..).mpr (.inl runner.live),?_,fun i live away => ?_,fun i live => ?_⟩
  · exact (status _ other).trans runner.runs
  · by_cases new : i = child
    · rw [new,(born_self v child stack).2.2]
      intro wrong
      cases wrong
    · rw [status i new]
      rcases (born_live ..).mp live with old | same
      · exact runner.alone i old away
      · exact absurd same new
  · by_cases new : i = child
    · rw [new]
      exact (born_self v child stack).1
    · rw [born_other v stack new,saveRegs_same Proc.pid fun _ _ => rfl]
      rcases (born_live ..).mp live with old | same
      · exact runner.own i old
      · exact absurd same new

end Procs

section Runs
variable {m m' : Machine} {v : Procs} {e : Event}

-- Another process can go on.
def Relieved (v : Procs) : Prop := ∃ j,j ≠ v.current ∧ v.canRun j = true

-- A process stops, by an exit or by a wait that is not granted, only while another
-- one can go on; it kills itself only if nobody else is left, and the kernel halts;
-- and a fork finds the table full or gets memory.
def Steady (m : Machine) : Event → Prop
  | .irq _ => True
  | .svc id =>
      (id.toNat = 0x03 → m.procs.firstFree ≠ none → m.heap.offers = true) ∧
      (id.toNat = 0x04 → (∃ i,i ≠ m.current ∧ m.procs.Alive i) → Relieved m.procs) ∧
      (id.toNat = 0x06 → toInt (m.ctx.gpr 0) = m.current.val → ∀ i,m.procs.Alive i → i = m.current) ∧
      (id.toNat = 0x0A → (∃ k : Fin pcbSize,(m.ctx.gpr 0).toNat = k.val ∧ m.sem k < m.ctx.gpr 1) → Relieved m.procs)

theorem exit_relieved (here : v.Alive v.current) (left : v.exit.alloc ≠ 0) : ∃ i,i ≠ v.current ∧ v.Alive i := by
  by_contra nobody
  refine left ((alloc_zero_iff _).mpr fun i => Bool.eq_false_iff.mpr fun live => ?_)
  obtain ⟨was,other⟩ := (exit_live here i).mp live
  exact nobody ⟨i,other,was⟩

theorem ProcsAfter.runner (runner : m.procs.Runner) (steady : Steady m e) (did : ProcsAfter m v e) : v.Runner := by
  have same : ∀ {w : Procs},w.current = m.procs.current → w.alloc = m.procs.alloc → w.pcb = m.procs.pcb → w.Runner := by
    intro w current alloc pcb
    have alive : ∀ i,w.Alive i ↔ m.procs.Alive i := by
      intro i
      unfold Procs.Alive
      rw [alloc]
    refine runner.keep current ((alive _).mpr runner.live) (fun i => (alive i).mp) (fun i => ?_) ?_ fun i _ => ?_ <;>
      rw [pcb]
    exact id
  cases did with
  | stays view =>
      rw [view]
      exact runner
  | ticks view =>
      rw [view]
      exact runner.next (by decide)
  | yields _ view =>
      rw [view]
      exact runner.next (by decide)
  | forks call did =>
      cases did with
      | full _ view =>
          rw [view]
          have status := Procs.saveRegs_same Proc.status (fun _ _ => rfl) m.procs
          refine runner.keep rfl runner.live (fun _ live => live) (Procs.saveRegs_same Proc.pid (fun _ _ => rfl) _)
            (status _) fun i _ => ?_
          exact (status i).symm.trans
      | poor free fails _ =>
          rw [steady.1 call (by rw [free]; exact Option.some_ne_none _)] at fails
          cases fails
      | born free _ _ view =>
          rw [view]
          exact runner.born free _
  | exits call _ left view =>
      rw [view]
      obtain ⟨j,other,can⟩ := steady.2.1 call (exit_relieved runner.live left)
      refine runner.exit.next ⟨j,other,?_⟩ (by decide)
      obtain ⟨live,ready⟩ := Procs.canRun_iff.mp can
      refine Procs.canRun_iff.mpr ⟨(exit_live runner.live j).mpr ⟨live,other⟩,?_⟩
      rw [Procs.exit_other _ other]
      exact ready
  | execs _ view =>
      rw [view]
      exact same rfl rfl rfl
  | kills call did =>
      cases did with
      | none => exact runner
      | one i index _ left =>
          have other : i ≠ m.procs.current := by
            rintro rfl
            have only := steady.2.2.1 call index
            refine left ((alloc_zero_iff _).mpr fun j => Bool.eq_false_iff.mpr fun live => ?_)
            obtain ⟨was,away⟩ := (kill_live _ j).mp live
            exact away (only j was)
          refine runner.keep (Procs.kill_rest ..).1 ((kill_live ..).mpr ⟨runner.live,Ne.symm other⟩)
            (fun j live => ((kill_live ..).mp live).1) (fun j => ?_) ?_ fun j _ => ?_ <;> rw [Procs.kill_pcb]
          exact id
  | inits _ did =>
      cases did with
      | refused => exact same rfl rfl rfl
      | posted i =>
          have posted := runner.doSemPost (m.ctx.gpr 0) (m.ctx.gpr 1 - m.procs.sem i)
          exact ⟨posted.live,posted.runs,posted.alone,posted.own⟩
  | posts _ view =>
      rw [view]
      exact runner.doSemPost ..
  | waits call did =>
      cases did with
      | granted i => exact same rfl rfl rfl
      | blocked i index short =>
          obtain ⟨j,other,can⟩ := steady.2.2.2 call ⟨i,index,UInt32.not_le.mp short⟩
          refine (runner.block ..).next ⟨j,other,?_⟩ (by decide)
          unfold Procs.canRun
          rw [Procs.block_other _ _ _ other]
          exact can
  | execxs _ view =>
      rw [view]
      exact same rfl rfl rfl
  | other _ view => rcases view with rfl | ⟨r,rfl⟩ <;> exact same rfl rfl rfl

theorem Reached.runner (reached : Reached Steady m) : m.procs.Runner := by
  induction reached with
  | boot z run => exact Procs.Booted.runner (boot_booted z run)
  | @call m m' e ctx ram _ steady run ih =>
      have entered : (m.enter ctx ram).procs.Runner := ⟨ih.live,ih.runs,ih.alone,ih.own⟩
      exact (handle_did run).runner entered steady

-- The process that goes on in user mode.
structure OneRuns (m : Machine) : Prop where
  live : m.current ∈ m.live
  runs : (m.pcb m.current).status = .executing
  alone : ∀ i ∈ m.live,i ≠ m.current → (m.pcb i).status ≠ .executing

theorem one_runs (reached : Reached Steady m) : OneRuns m :=
  ⟨reached.runner.live,reached.runner.runs,reached.runner.alone⟩

end Runs

theorem one_runs_fork : OneRuns ((Machine.started (few 5)).call 3 0 0) := by
  have started : Reached Steady (Machine.started (few 5)) := started_reached (by decide) (by decide +kernel)
  refine one_runs (started.calls ⟨?_,?_,?_,?_⟩ (by decide +kernel))
  · exact fun _ _ => by decide +kernel
  all_goals exact fun wrong => absurd wrong (by decide)

-- The only process waits for a unit that is not there, and goes on.
theorem waits_and_runs : ¬ ∀ m,Reached Any m → OneRuns m := by
  intro all
  have alone : Reached Any Machine.alone := started_reached (by decide) (by decide +kernel)
  have one := all Machine.goesOn (alone.calls trivial (by decide +kernel))
  exact absurd one.runs (by decide +kernel)

end ArchiveOs.Kernel
