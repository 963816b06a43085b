import ArchiveOs.Rosters

-- Whose registers are kept where.
namespace ArchiveOs.Kernel
open Fs2
open Prog

namespace Procs
variable {v : Procs}

-- The running process stands at its own index, and so does every live process that
-- can come to run.
structure Owned (v : Procs) : Prop where
  here : (v.pcb v.current).pid = v.current
  own : ∀ i,v.Alive i → (v.pcb i).pid = i ∨ (v.pcb i).status = .executing ∨ (v.pcb i).status = .terminated

theorem Booted.owned (b : Booted v) : v.Owned := by
  constructor
  · rw [b.current]
    exact b.pid
  · intro i live
    rw [b.only live]
    exact .inl b.pid

theorem Owned.runs (owned : v.Owned) {i : Fin pcbSize} (can : v.canRun i = true) : (v.pcb i).pid = i := by
  obtain ⟨live,ready⟩ := canRun_iff.mp can
  rcases owned.own i live with own | stopped
  · exact own
  · rcases ready with status | status <;> rw [status] at stopped <;> rcases stopped with wrong | wrong <;> cases wrong

theorem Owned.next (owned : v.Owned) (st : Status) : (v.next st).Owned := by
  rcases v.next_cases st with ⟨stays,_⟩ | ⟨i,other,can,moves⟩
  · rw [stays]
    exact owned
  · rw [moves]
    have pids := fun j => switchTo_same Proc.pid (fun _ _ _ => rfl) v i j st
    have current : (v.switchTo i st).current = i := (switchTo_current other).trans (owned.runs can)
    constructor
    · rw [current,pids]
      exact owned.runs can
    · intro j live
      by_cases old : j = v.current
      · rw [pids,old]
        exact .inl owned.here
      · by_cases new : j = i
        · rw [pids,new]
          exact .inl (owned.runs can)
        · rw [switchTo_other old new]
          exact owned.own j live

theorem Owned.doSemPost (owned : v.Owned) (semId x : UInt32) : (v.doSemPost semId x).Owned := by
  obtain ⟨alloc,current,_⟩ := v.doSemPost_rest semId x
  have pids := fun j => doSemPost_same Proc.pid (fun _ _ => rfl) v semId x j
  constructor
  · rw [current,pids]
    exact owned.here
  · intro j live
    unfold Alive at live
    rw [alloc] at live
    rcases v.doSemPost_pcb semId x j with stays | ⟨_,eligible,_⟩
    · rw [stays]
      exact owned.own j live
    · rw [pids]
      rcases owned.own j live with own | stopped
      · exact .inl own
      · rw [(eligible_iff.mp eligible).2.1] at stopped
        rcases stopped with wrong | wrong <;> cases wrong

-- An operation that takes nobody in and only writes the status of the running process.
theorem Owned.shrink (owned : v.Owned) {w : Procs} (current : w.current = v.current) (alive : ∀ i,w.Alive i → v.Alive i)
    (pids : ∀ i,(w.pcb i).pid = (v.pcb i).pid) (status : ∀ i,i ≠ v.current → (w.pcb i).status = (v.pcb i).status) :
    w.Owned := by
  constructor
  · rw [current,pids]
    exact owned.here
  · intro i live
    rw [pids]
    by_cases here : i = v.current
    · rw [here]
      exact .inl owned.here
    · rw [status i here]
      exact owned.own i (alive i live)

theorem Owned.born (owned : v.Owned) (child : Fin pcbSize) (stack : UInt32) : (v.born child stack).Owned := by
  have pids : ∀ j,j ≠ child → ((v.born child stack).pcb j).pid = (v.pcb j).pid := fun j other =>
    (congrArg Proc.pid (born_other v stack other)).trans (saveRegs_same Proc.pid (fun _ _ => rfl) v j)
  constructor
  · show ((v.born child stack).pcb v.current).pid = v.current
    by_cases same : v.current = child
    · rw [same]
      exact (born_self v child stack).1
    · rw [pids _ same]
      exact owned.here
  · intro j live
    by_cases new : j = child
    · rw [new]
      exact .inl (born_self v child stack).1
    · rw [pids j new,born_other v stack new,saveRegs_same Proc.status (fun _ _ => rfl)]
      rcases (born_live child stack j).mp live with live | same
      · exact owned.own j live
      · exact absurd same new

theorem Owned.unborn (owned : v.Owned) (child : Fin pcbSize)
    (stopped : (v.pcb v.current).status = .executing ∨ (v.pcb v.current).status = .terminated) : (v.unborn child).Owned := by
  have pids : ∀ j,j ≠ child → ((v.unborn child).pcb j).pid = (v.pcb j).pid := fun j other =>
    (congrArg Proc.pid (unborn_other v other)).trans (saveRegs_same Proc.pid (fun _ _ => rfl) v j)
  constructor
  · show ((v.unborn child).pcb v.current).pid = v.current
    by_cases same : v.current = child
    · rw [same,unborn_self,← same]
      exact owned.here
    · rw [pids _ same]
      exact owned.here
  · intro j live
    by_cases new : j = child
    · rw [new,unborn_self]
      exact .inr stopped
    · rw [pids j new,unborn_other v new,saveRegs_same Proc.status (fun _ _ => rfl)]
      have was : alive (v.alloc ||| bit child) j = true := live
      rw [alive_or,decide_eq_false new,Bool.or_false] at was
      exact owned.own j was

theorem Owned.block (owned : v.Owned) (semId x : UInt32) : (v.block semId x).Owned := by
  refine owned.shrink rfl (fun _ live => live) (block_same Proc.pid (fun _ _ _ => rfl) v semId x) fun i other => ?_
  rw [block_other v semId x other]

theorem Owned.exit (owned : v.Owned) (here : v.Alive v.current) : v.exit.Owned := by
  refine owned.shrink rfl (fun i live => ((exit_live here i).mp live).1) (exit_same Proc.pid (fun _ _ => rfl) v)
    fun i other => ?_
  rw [exit_other v other]

end Procs

section Runs
variable {m m' : Machine} {v : Procs} {e : Event}

-- A fork that gets no memory is made by a process that nobody can wake or switch to,
-- and only a live process exits.
def Sound (m : Machine) : Event → Prop
  | .irq _ => True
  | .svc id => (id.toNat = 0x03 → m.procs.firstFree ≠ none → m.heap.offers = false →
        (m.pcb m.current).status = .executing ∨ (m.pcb m.current).status = .terminated) ∧
      (id.toNat = 0x04 → m.procs.Alive m.current)

theorem ProcsAfter.owned (owned : m.procs.Owned) (sound : Sound m e) (did : ProcsAfter m v e) : v.Owned := by
  have same : ∀ {w : Procs},w.current = m.procs.current → w.alloc = m.procs.alloc → w.pcb = m.procs.pcb → w.Owned := by
    intro w current alloc pcb
    refine owned.shrink current (fun i => ?_) (fun i => ?_) fun i _ => ?_
    · unfold Procs.Alive
      rw [alloc]
      exact id
    · rw [pcb]
    · rw [pcb]
  cases did with
  | stays view =>
      rw [view]
      exact owned
  | ticks view =>
      rw [view]
      exact owned.next _
  | yields _ view =>
      rw [view]
      exact owned.next _
  | forks call did =>
      cases did with
      | full _ view =>
          rw [view]
          exact owned.shrink rfl (fun _ live => live) (Procs.saveRegs_same Proc.pid (fun _ _ => rfl) _)
            fun i _ => Procs.saveRegs_same Proc.status (fun _ _ => rfl) _ i
      | poor free fails view =>
          rw [view]
          exact owned.unborn _ (sound.1 call (by rw [free]; exact Option.some_ne_none _) fails)
      | born free _ _ view =>
          rw [view]
          exact owned.born ..
  | exits call _ _ view =>
      rw [view]
      exact (owned.exit (sound.2 call)).next _
  | execs _ view =>
      rw [view]
      exact same rfl rfl rfl
  | kills _ did =>
      cases did with
      | none => exact owned
      | one i =>
          refine owned.shrink (Procs.kill_rest ..).1 (fun j live => ((kill_live i j).mp live).1) (fun j => ?_) fun j _ => ?_
          · rw [Procs.kill_pcb]
          · rw [Procs.kill_pcb]
  | inits _ did =>
      cases did with
      | refused => exact same rfl rfl rfl
      | posted i => exact (owned.doSemPost ..).shrink rfl (fun _ live => live) (fun _ => rfl) fun _ _ => rfl
  | posts _ view =>
      rw [view]
      exact owned.doSemPost ..
  | waits _ did =>
      cases did with
      | granted i => exact same rfl rfl rfl
      | blocked i => exact (owned.block ..).next _
  | execxs _ view =>
      rw [view]
      exact same rfl rfl rfl
  | other _ view => rcases view with rfl | ⟨r,rfl⟩ <;> exact same rfl rfl rfl

theorem Reached.owned (reached : Reached Sound m) : m.procs.Owned := by
  induction reached with
  | boot z run => exact Procs.Booted.owned (boot_booted z run)
  | @call m m' e ctx ram _ sound run ih =>
      have entered : (m.enter ctx ram).procs.Owned := ⟨ih.here,ih.own⟩
      exact (handle_did run).owned entered sound

def Event.execs : Event → Prop
  | .irq _ => False
  | .svc id => id.toNat = 0x05 ∨ id.toNat = 0x0F

-- The registers that a call hands back to the process that has made it.
structure Untouched (e : Event) (old new : Ctx) : Prop where
  gpr : ∀ n,n ≠ 0 → new.gpr n = old.gpr n
  lr : new.lr = old.lr
  rest : ¬ e.execs → new.pc = old.pc ∧ new.sp = old.sp ∧ new.cpsr = old.cpsr

-- What a call does to the registers of the processes.
structure Private (m m' : Machine) (e : Event) : Prop where
  others : ∀ i ∈ m.live,i ≠ m.current → (m'.pcb i).ctx = (m.pcb i).ctx
  switched : m'.current ≠ m.current → m'.ctx = (m'.pcb m'.current).ctx ∧ (m'.pcb m.current).ctx = m.ctx
  stayed : m'.current = m.current → Untouched e m.ctx m'.ctx

theorem untouched_refl (e : Event) (c : Ctx) : Untouched e c c := ⟨fun _ _ => rfl,rfl,fun _ => ⟨rfl,rfl,rfl⟩⟩

theorem untouched_answer (e : Event) (v : Procs) (r : UInt32) : Untouched e v.regs (v.setRegs 0 r).regs :=
  ⟨fun _ other => put_other _ _ other,rfl,fun _ => ⟨rfl,rfl,rfl⟩⟩

-- The same, seen through the processes.
structure Procs.Private (v w : Procs) (e : Event) : Prop where
  others : ∀ i,v.Alive i → i ≠ v.current → (w.pcb i).saved = (v.pcb i).saved
  switched : w.current ≠ v.current → w.regs = (w.pcb w.current).saved ∧ (w.pcb v.current).saved = v.regs
  stayed : w.current = v.current → Untouched e v.regs w.regs

theorem Procs.Private.stay {w : Procs} (others : ∀ i,v.Alive i → i ≠ v.current → (w.pcb i).saved = (v.pcb i).saved)
    (current : w.current = v.current) (regs : Untouched e v.regs w.regs) : v.Private w e :=
  ⟨others,fun moved => absurd current moved,fun _ => regs⟩

theorem Procs.Owned.private_next (owned : v.Owned) (st : Status) : v.Private (v.next st) e := by
  rcases v.next_cases st with ⟨stays,_⟩ | ⟨i,other,can,moves⟩
  · rw [stays]
    exact .stay (fun _ _ _ => rfl) rfl (untouched_refl ..)
  · rw [moves]
    have current : (v.switchTo i st).current = i := (switchTo_current other).trans (owned.runs can)
    refine ⟨fun j _ old => ?_,fun _ => ⟨?_,?_⟩,fun stayed => absurd (current.symm.trans stayed) other⟩
    · by_cases new : j = i
      · rw [new,switchTo_new other]
      · rw [switchTo_other old new]
    · rw [current,switchTo_regs other,switchTo_new other]
    · rw [switchTo_old other]

theorem Procs.Private.before {u w : Procs} (after : u.Private w e) (current : u.current = v.current) (regs : u.regs = v.regs)
    (alive : ∀ i,i ≠ v.current → v.Alive i → u.Alive i) (saved : ∀ i,i ≠ v.current → (u.pcb i).saved = (v.pcb i).saved) :
    v.Private w e := by
  obtain ⟨others,switched,stayed⟩ := after
  rw [current] at others switched stayed
  rw [regs] at switched stayed
  exact ⟨fun i live other => (others i (alive i other live) other).trans (saved i other),switched,stayed⟩

theorem ProcsAfter.private (owned : m.procs.Owned) (sound : Sound m e) (did : ProcsAfter m v e) : m.procs.Private v e := by
  have answer : ∀ r,m.procs.Private (m.procs.setRegs 0 r) e := fun r =>
    .stay (fun _ _ _ => rfl) rfl (untouched_answer e m.procs r)
  have post : ∀ semId x,m.procs.Private (m.procs.doSemPost semId x) e := by
    intro semId x
    obtain ⟨_,current,regs⟩ := m.procs.doSemPost_rest semId x
    refine .stay (fun i _ _ => Procs.doSemPost_same Proc.saved (fun _ _ => rfl) _ semId x i) current ?_
    rw [regs]
    exact untouched_refl ..
  have fork : ∀ {w : Procs} {child : Fin pcbSize},m.procs.firstFree = some child → w.current = m.procs.current →
      Untouched e m.procs.regs w.regs → (∀ j,j ≠ child → w.pcb j = m.procs.saveRegs.pcb j) → m.procs.Private w e := by
    intro w child free current regs pcb
    refine .stay (fun i live other => ?_) current regs
    have old : i ≠ child := by
      rintro rfl
      exact absurd live (Bool.eq_false_iff.mp (Procs.firstFree_dead free))
    rw [pcb i old,Procs.saveRegs_other _ other]
  cases did with
  | stays view =>
      rw [view]
      exact .stay (fun _ _ _ => rfl) rfl (untouched_refl ..)
  | ticks view =>
      rw [view]
      exact owned.private_next _
  | yields _ view =>
      rw [view]
      exact owned.private_next _
  | forks call did =>
      cases did with
      | full _ view =>
          rw [view]
          exact .stay (fun i _ other => congrArg Proc.saved (Procs.saveRegs_other _ other)) rfl
            (untouched_answer _ m.procs.saveRegs _)
      | poor free _ view =>
          rw [view]
          exact fork free rfl (untouched_answer _ m.procs _) fun j other => Procs.unborn_other _ other
      | born free _ _ view =>
          rw [view]
          exact fork free rfl (untouched_answer _ m.procs _) fun j other => Procs.born_other _ _ other
  | exits call _ _ view =>
      rw [view]
      have ended := owned.exit (sound.2 call)
      refine (ended.private_next _).before rfl rfl (fun i other live => ?_) fun i other => ?_
      · exact (exit_live (sound.2 call) i).mpr ⟨live,other⟩
      · rw [Procs.exit_other _ other]
  | @execs id call view =>
      rw [view]
      exact .stay (fun _ _ _ => rfl) rfl ⟨fun _ _ => rfl,rfl,fun other => absurd (.inl call) other⟩
  | kills _ did =>
      cases did with
      | none => exact .stay (fun _ _ _ => rfl) rfl (untouched_refl ..)
      | one i =>
          refine .stay (fun j _ _ => ?_) (Procs.kill_rest ..).1 ?_
          · rw [Procs.kill_pcb]
          · rw [(Procs.kill_rest ..).2.1]
            exact untouched_refl ..
  | inits _ did =>
      cases did with
      | refused => exact answer _
      | posted i =>
          obtain ⟨others,_,_⟩ := post (m.ctx.gpr 0) (m.ctx.gpr 1 - m.procs.sem i)
          obtain ⟨_,current,regs⟩ := m.procs.doSemPost_rest (m.ctx.gpr 0) (m.ctx.gpr 1 - m.procs.sem i)
          refine .stay (fun j _ _ => Procs.doSemPost_same Proc.saved (fun _ _ => rfl) _ _ _ j) current ?_
          rw [← regs]
          exact untouched_answer ..
  | posts _ view =>
      rw [view]
      exact post ..
  | waits _ did =>
      cases did with
      | granted i => exact .stay (fun _ _ _ => rfl) rfl (untouched_refl ..)
      | blocked i =>
          have blocked := owned.block (m.ctx.gpr 0) (m.ctx.gpr 1)
          refine (blocked.private_next _).before rfl rfl (fun _ _ live => live) fun i other => ?_
          exact congrArg Proc.saved (Procs.block_other _ _ _ other)
  | @execxs id call view =>
      rw [view]
      exact .stay (fun _ _ _ => rfl) rfl ⟨fun _ other => put_other _ _ other,rfl,fun other => absurd (.inr call) other⟩
  | other _ view =>
      rcases view with rfl | ⟨r,rfl⟩
      · exact .stay (fun _ _ _ => rfl) rfl (untouched_refl ..)
      · exact answer r

theorem private_machine (same : m.procs.Private m'.procs e) : Private m m' e :=
  ⟨same.others,same.switched,same.stayed⟩

-- A stretch of a run in which process p lives and does not run until its end.
inductive Away (admits : Machine → Event → Prop) (p : Fin pcbSize) (start : Machine) : Machine → Prop where
  | start : Away admits p start start
  | call {m m' : Machine} {e : Event} {ctx : Ctx} {ram : UInt32 → UInt8} : Away admits p start m → m.current ≠ p → p ∈ m.live →
      admits (m.enter ctx ram) e → (handle e).Ends (m.enter ctx ram) () m' → Away admits p start m'

theorem reached_private {ctx : Ctx} {ram : UInt32 → UInt8} (reached : Reached Sound m)
    (sound : Sound (m.enter ctx ram) e) (run : (handle e).Ends (m.enter ctx ram) () m') :
    Private (m.enter ctx ram) m' e := by
  have owned : (m.enter ctx ram).procs.Owned := ⟨reached.owned.here,reached.owned.own⟩
  exact private_machine ((handle_did run).private owned sound)

theorem Away.saved {p : Fin pcbSize} {start : Machine} (reached : Reached Sound start) (left : start.current ≠ p)
    (away : Away Sound p start m) : Reached Sound m ∧ (m.pcb p).ctx = (start.pcb p).ctx ∧
      (m.current = p → m.ctx = (start.pcb p).ctx) := by
  induction away with
  | start => exact ⟨reached,rfl,fun here => absurd here left⟩
  | @call m m' e ctx ram _ other live sound run ih =>
      obtain ⟨before,saved,_⟩ := ih
      have step := reached_private before sound run
      have kept : (m'.pcb p).ctx = (start.pcb p).ctx := (step.others p live (Ne.symm other)).trans saved
      refine ⟨.call before sound run,kept,fun here => ?_⟩
      have moved : m'.current ≠ (m.enter ctx ram).current := by
        rw [here]
        exact Ne.symm other
      exact (step.switched moved).1.trans (here ▸ kept)

-- Every call treats the registers so, and whoever is switched out finds them again.
theorem contexts_private {ctx : Ctx} {ram : UInt32 → UInt8} (reached : Reached Sound m)
    (sound : Sound (m.enter ctx ram) e) (run : (handle e).Ends (m.enter ctx ram) () m') :
    Private (m.enter ctx ram) m' e ∧ ∀ later,m'.current ≠ m.current → Away Sound m.current m' later →
      later.current = m.current → later.ctx = ctx := by
  have step := reached_private reached sound run
  refine ⟨step,fun later left away back => ?_⟩
  obtain ⟨_,_,found⟩ := away.saved (.call reached sound run) left
  exact (found back).trans (step.switched left).2

end Runs

-- The first of two processes yields, and then the second.
def Machine.paired : Machine := (Machine.started (few 6)).call 0x03 0 0
def Machine.handed : Machine := Machine.paired.call 0x00 7 7
def Machine.returned : Machine := Machine.handed.call 0x00 1 2

theorem paired_reached : Reached Sound Machine.paired := by
  have offers : ((Machine.started (few 6)).asks 0 0).heap.offers = true := by decide +kernel
  have started : Reached Sound (Machine.started (few 6)) := started_reached (by decide) (by decide +kernel)
  refine started.calls ⟨fun _ _ none => ?_,fun exit => absurd exit (by decide)⟩ (by decide +kernel)
  rw [offers] at none
  cases none

theorem yields_sound (m : Machine) : Sound m (.svc 0x00) :=
  ⟨fun fork => absurd fork (by decide),fun exit => absurd exit (by decide)⟩

-- A process comes back with the registers that it has left with.
theorem contexts_private_yield : Private (Machine.paired.asks 7 7) Machine.handed (.svc 0x00) ∧
    Machine.handed.current ≠ Machine.paired.current ∧ Machine.returned.current = Machine.paired.current ∧
    Machine.returned.ctx = (Machine.paired.asks 7 7).ctx := by
  have left : Machine.handed.current ≠ Machine.paired.current := by decide +kernel
  have lives : Machine.paired.current ∈ Machine.handed.live := by
    unfold Machine.live
    decide +kernel
  have back : Machine.returned.current = Machine.paired.current := by decide +kernel
  obtain ⟨step,found⟩ := contexts_private paired_reached (yields_sound _)
    (ends_after (s := Machine.paired.asks 7 7) (by decide +kernel))
  have away : Away Sound Machine.paired.current Machine.handed Machine.returned :=
    .call .start left lives (yields_sound _) (ends_after (s := Machine.handed.asks 1 2) (by decide +kernel))
  exact ⟨step,left,back,found _ left away back⟩

-- A process that is alone waits and goes on, forks without memory, posts what it has
-- waited for, and yields: it comes back with the registers that the fork has saved.
def Machine.alone : Machine := Machine.started (few 5)
def Machine.goesOn : Machine := Machine.alone.call 0x0A 0 1
def Machine.halfForked : Machine := Machine.goesOn.call 0x03 0 0
def Machine.woken : Machine := Machine.halfForked.call 0x09 0 1

theorem woken_reached : Reached Any Machine.woken := by
  have alone : Reached Any Machine.alone := started_reached (by decide) (by decide +kernel)
  have goesOn : Reached Any Machine.goesOn := alone.calls trivial (by decide +kernel)
  have forked : Reached Any Machine.halfForked := goesOn.calls trivial (by decide +kernel)
  exact forked.calls trivial (by decide +kernel)

theorem contexts_not_private : ¬ ∀ (m m' : Machine) (e : Event) (ctx : Ctx) (ram : UInt32 → UInt8),
    Reached Any m → (handle e).Ends (m.enter ctx ram) () m' → Private (m.enter ctx ram) m' e := by
  intro all
  have step := all _ _ (.svc 0) _ _ woken_reached (ends_after (s := Machine.woken.asks 0 7) (by decide +kernel))
  have stayed := step.stayed (by decide +kernel)
  exact absurd (stayed.gpr 1 (by decide)) (by decide +kernel)

end ArchiveOs.Kernel
