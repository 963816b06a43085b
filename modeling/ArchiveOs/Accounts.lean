import ArchiveOs.Wakeups

-- The units that processes ask for, are granted and post, counted along a run.
namespace ArchiveOs.Kernel
open Fs2
open Prog

-- By process and by semaphore.
structure Account where
  asked : Fin pcbSize → Fin pcbSize → Nat
  granted : Fin pcbSize → Fin pcbSize → Nat
  posted : Fin pcbSize → Fin pcbSize → Nat

namespace Procs

-- What a waiting process has asked for and not got.
def owed (v : Procs) (i k : Fin pcbSize) : Nat :=
  if (v.pcb i).status = .waiting ∧ (v.pcb i).waiting.semId.toNat = k.val then (v.pcb i).waiting.x.toNat else 0

end Procs

namespace Account

def opened (v : Procs) : Account := ⟨v.owed,fun _ _ => 0,fun _ _ => 0⟩

-- A new process starts with nothing.
def fresh (a : Account) (child : Fin pcbSize) : Account where
  asked i k := if i = child then 0 else a.asked i k
  granted i k := if i = child then 0 else a.granted i k
  posted i k := if i = child then 0 else a.posted i k

-- SEM_WAIT of x units; they are granted at once when there are that many.
def waits (a : Account) (v w : Procs) (semId x : UInt32) : Account where
  asked i k := a.asked i k + if i = v.current ∧ semId.toNat = k.val then x.toNat else 0
  granted i k := a.granted i k +
    if i = v.current ∧ semId.toNat = k.val ∧ x ≤ v.sem k then (v.sem k - w.sem k).toNat else 0
  posted := a.posted

-- do_sem_post of x units: what does not get to the semaphore goes to the process that
-- is woken.
def wakes (a : Account) (v w : Procs) (semId : UInt32) (x : Fin pcbSize → UInt32) : Account where
  asked := a.asked
  granted i k := a.granted i k +
    if semId.toNat = k.val ∧ (v.pcb i).status = .waiting ∧ (w.pcb i).status = .ready then
      (v.sem k + x k - w.sem k).toNat
    else 0
  posted := a.posted

def posts (a : Account) (v : Procs) (semId x : UInt32) : Account where
  asked := a.asked
  granted := a.granted
  posted i k := a.posted i k + if i = v.current ∧ semId.toNat = k.val then x.toNat else 0

-- The entries for a call that has led from v to w.
def svc (a : Account) (v w : Procs) : Nat → Account
  | 0x03 => match v.firstFree with
    | some child => a.fresh child
    | none => a
  | 0x08 =>
    if (v.regs.gpr 1).toNat < pcbSize then a.wakes v w (v.regs.gpr 0) fun k => v.regs.gpr 1 - v.sem k else a
  | 0x09 => (a.wakes v w (v.regs.gpr 0) fun _ => v.regs.gpr 1).posts v (v.regs.gpr 0) (v.regs.gpr 1)
  | 0x0A => a.waits v w (v.regs.gpr 0) (v.regs.gpr 1)
  | _ => a

def record (a : Account) (v w : Procs) : Event → Account
  | .irq _ => a
  | .svc id => a.svc v w id.toNat

end Account

namespace Procs
variable {v w : Procs} {a : Account} {i : Fin pcbSize}

-- A process that has not been granted what it has asked for does not run.
structure Audit (v : Procs) (a : Account) : Prop where
  owned : v.Owned
  awake : (v.pcb v.current).status ≠ .waiting
  paid : ∀ i,v.Alive i ∨ i = v.current → ∀ k,a.asked i k = a.granted i k + v.owed i k

theorem owed_none {i : Fin pcbSize} (goes : (v.pcb i).status ≠ .waiting) (k : Fin pcbSize) : v.owed i k = 0 :=
  if_neg fun waits => goes waits.1

theorem owed_same (status : (w.pcb i).status = .waiting ↔ (v.pcb i).status = .waiting)
    (waiting : (w.pcb i).waiting = (v.pcb i).waiting) (k : Fin pcbSize) : w.owed i k = v.owed i k := by
  unfold owed
  simp only [waiting,status]

theorem Audit.keep (audit : v.Audit a) (owned : w.Owned) (awake : (w.pcb w.current).status ≠ .waiting)
    (known : ∀ i,w.Alive i ∨ i = w.current → (v.Alive i ∨ i = v.current) ∧
      ((w.pcb i).status = .waiting ↔ (v.pcb i).status = .waiting) ∧ (w.pcb i).waiting = (v.pcb i).waiting) :
    w.Audit a := by
  refine ⟨owned,awake,fun i here k => ?_⟩
  obtain ⟨was,status,waiting⟩ := known i here
  rw [owed_same status waiting]
  exact audit.paid i was k

theorem Audit.regs (audit : v.Audit a) (c : Ctx) : ({v with regs := c} : Procs).Audit a :=
  ⟨⟨audit.owned.here,audit.owned.own⟩,audit.awake,audit.paid⟩

-- The books of a table whose running process may have stopped.
structure Books (v : Procs) (a : Account) : Prop where
  owned : v.Owned
  paid : ∀ i,v.Alive i ∨ i = v.current → ∀ k,a.asked i k = a.granted i k + v.owed i k

theorem Audit.books (audit : v.Audit a) : v.Books a := ⟨audit.owned,audit.paid⟩

theorem Books.switch (books : v.Books a) (other : i ≠ v.current) (can : v.canRun i = true) {st : Status}
    (stops : st = .waiting ↔ (v.pcb v.current).status = .waiting) (owned : (v.switchTo i st).Owned) :
    (v.switchTo i st).Audit a := by
  have current : (v.switchTo i st).current = i := (switchTo_current other).trans (books.owned.runs can)
  have starts : ((v.switchTo i st).pcb i).status = .executing := by
    rw [switchTo_new other]
  have goes : (v.pcb i).status ≠ .waiting := by
    rcases (canRun_iff.mp can).2 with status | status <;> rw [status] <;> decide
  refine ⟨owned,?_,fun j here k => ?_⟩
  · rw [current,starts]
    decide
  · have was : v.Alive j ∨ j = v.current := by
      rcases here with live | same
      · exact .inl live
      · rw [same,current]
        exact .inl (canRun_iff.mp can).1
    rw [books.paid j was k]
    congr 1
    refine (owed_same ?_ (switchTo_same Proc.waiting (fun _ _ _ => rfl) v i j st) k).symm
    by_cases old : j = v.current
    · rw [old,switchTo_old other]
      exact stops
    · by_cases new : j = i
      · rw [new,starts]
        exact ⟨fun wrong => (nomatch wrong),fun wrong => absurd wrong goes⟩
      · rw [switchTo_other old new]

theorem Audit.next (audit : v.Audit a) {st : Status} (stops : st ≠ .waiting) : (v.next st).Audit a := by
  rcases v.next_cases st with ⟨stays,_⟩ | ⟨i,other,can,moves⟩
  · rw [stays]
    exact audit
  · have owned := audit.owned.next st
    rw [moves] at owned ⊢
    refine audit.books.switch other can ⟨fun wrong => absurd wrong stops,fun wrong => absurd wrong audit.awake⟩ owned

theorem Books.next (books : v.Books a) (waits : (v.pcb v.current).status = .waiting)
    (relieved : ∃ j,j ≠ v.current ∧ v.canRun j = true) : (v.next .waiting).Audit a := by
  rcases v.next_cases .waiting with ⟨_,nobody⟩ | ⟨i,other,can,moves⟩
  · obtain ⟨j,other,can⟩ := relieved
    rw [nobody j other] at can
    cases can
  · have owned := books.owned.next .waiting
    rw [moves] at owned ⊢
    exact books.switch other can ⟨fun _ => waits,fun _ => rfl⟩ owned

theorem Audit.exit (audit : v.Audit a) (here : v.Alive v.current) : v.exit.Audit a := by
  refine audit.keep (audit.owned.exit here) ?_ fun i known => ⟨?_,?_,?_⟩
  · show (v.exit.pcb v.current).status ≠ .waiting
    rw [exit_self]
    exact fun wrong => nomatch wrong
  · rcases known with live | same
    · exact .inl ((exit_live here i).mp live).1
    · exact .inr same
  · by_cases same : i = v.current
    · rw [same,exit_self]
      exact ⟨fun wrong => (nomatch wrong),fun wrong => absurd wrong audit.awake⟩
    · rw [exit_other v same]
  · exact exit_same Proc.waiting (fun _ _ => rfl) v i

theorem Audit.kill (audit : v.Audit a) (i : Fin pcbSize) (owned : (v.kill i).Owned) : (v.kill i).Audit a := by
  have current := (v.kill_rest i).1
  refine audit.keep owned ?_ fun j known => ⟨?_,?_,?_⟩
  · rw [current,kill_pcb]
    exact audit.awake
  · rw [current] at known
    exact known.imp (fun live => ((kill_live i j).mp live).1) id
  · rw [kill_pcb]
  · rw [kill_pcb]

theorem Audit.fork (audit : v.Audit a) {child : Fin pcbSize} (owned : w.Owned) (current : w.current = v.current)
    (alive : ∀ i,w.Alive i → v.Alive i ∨ i = child) (goes : (w.pcb child).status ≠ .waiting)
    (others : ∀ i,i ≠ child → w.pcb i = v.saveRegs.pcb i) : w.Audit (a.fresh child) := by
  have status : ∀ i,i ≠ child → (w.pcb i).status = (v.pcb i).status := fun i other => by
    rw [others i other,saveRegs_same Proc.status fun _ _ => rfl]
  have waiting : ∀ i,i ≠ child → (w.pcb i).waiting = (v.pcb i).waiting := fun i other => by
    rw [others i other,saveRegs_same Proc.waiting fun _ _ => rfl]
  refine ⟨owned,?_,fun i here k => ?_⟩
  · rw [current]
    by_cases same : v.current = child
    · rw [same]
      exact goes
    · rw [status _ same]
      exact audit.awake
  · unfold Account.fresh
    by_cases new : i = child
    · subst new
      dsimp only
      rw [if_pos rfl,if_pos rfl,owed_none goes]
    · dsimp only
      rw [if_neg new,if_neg new,owed_same (by rw [status i new]) (waiting i new)]
      refine audit.paid i ?_ k
      rw [current] at here
      rcases here with live | same
      · exact .inl ((alive i live).resolve_right new)
      · exact .inr same

theorem Audit.take (audit : v.Audit a) {semId x : UInt32} {k : Fin pcbSize} (index : semId.toNat = k.val)
    (enough : v.sem k ≥ x) : (v.take k x).Audit (a.waits v (v.take k x) semId x) := by
  have here : (v.sem k - (v.take k x).sem k).toNat = x.toNat := by
    show (v.sem k - put v.sem k (v.sem k - x) k).toNat = x.toNat
    rw [put_self,sub_sub_cancel]
  have rest : (v.take k x).Audit a :=
    audit.keep ⟨audit.owned.here,audit.owned.own⟩ audit.awake fun i known => ⟨known,Iff.rfl,rfl⟩
  refine ⟨rest.owned,rest.awake,fun i known l => ?_⟩
  have paid := rest.paid i known l
  unfold Account.waits
  dsimp only
  by_cases mine : i = v.current ∧ semId.toNat = l.val
  · have same : l = k := Fin.ext (mine.2.symm.trans index)
    subst same
    rw [if_pos mine,if_pos ⟨mine.1,mine.2,enough⟩,here]
    omega
  · rw [if_neg mine,if_neg fun all => mine ⟨all.1,all.2.1⟩]
    exact paid

theorem Audit.block (audit : v.Audit a) {semId x : UInt32} {k : Fin pcbSize} (index : semId.toNat = k.val)
    (short : ¬ v.sem k ≥ x) {w : Procs} (sem : w.sem = v.sem) : (v.block semId x).Books (a.waits v w semId x) := by
  refine ⟨audit.owned.block semId x,fun i known l => ?_⟩
  have paid := audit.paid i known l
  unfold Account.waits
  dsimp only
  rw [sem]
  by_cases mine : i = v.current
  · subst mine
    have none : v.owed v.current l = 0 := owed_none audit.awake l
    by_cases same : semId.toNat = l.val
    · have equal : l = k := Fin.ext (same.symm.trans index)
      subst equal
      have owed : (v.block semId x).owed v.current l = x.toNat := by
        unfold owed
        rw [block_self]
        exact if_pos ⟨rfl,same⟩
      rw [if_pos ⟨rfl,same⟩,if_neg fun all => short all.2.2,owed]
      omega
    · have owed : (v.block semId x).owed v.current l = 0 := by
        unfold owed
        rw [block_self]
        exact if_neg fun all => same all.2
      rw [if_neg fun all => same all.2,if_neg fun all => same all.2.1,owed]
      omega
  · have owed : (v.block semId x).owed i l = v.owed i l := by
      unfold owed
      rw [block_other v semId x mine]
    rw [if_neg fun all => mine all.1,if_neg fun all => mine all.1,owed]
    exact paid

theorem Audit.doSemPost (audit : v.Audit a) (semId : UInt32) (x : UInt32) (y : Fin pcbSize → UInt32)
    (same : ∀ k : Fin pcbSize,semId.toNat = k.val → y k = x) :
    (v.doSemPost semId x).Audit (a.wakes v (v.doSemPost semId x) semId y) := by
  have owned := audit.owned.doSemPost semId x
  generalize after : v.doSemPost semId x = w at owned
  have did := v.doSemPost_posts semId x
  rw [after] at did
  have silent : w.Audit a → (∀ i,(v.pcb i).status = .waiting → (w.pcb i).status ≠ .ready) → w.Audit (a.wakes v w semId y) := by
    intro rest asleep
    refine ⟨owned,rest.awake,fun i known k => ?_⟩
    unfold Account.wakes
    dsimp only
    rw [if_neg fun all => asleep i all.2.1 all.2.2]
    exact rest.paid i known k
  cases did with
  | nothing =>
      refine silent audit fun i waits ready => ?_
      rw [waits] at ready
      cases ready
  | some k index more did =>
      cases did with
      | kept found =>
          refine silent (audit.keep owned audit.awake fun i known => ⟨known,Iff.rfl,rfl⟩) fun i waits ready => ?_
          have still : (v.pcb i).status = .ready := ready
          rw [waits] at still
          cases still
      | woke i found =>
          obtain ⟨other,eligible⟩ := chosen_some found
          obtain ⟨live,waits,named,less⟩ := eligible_iff.mp eligible
          have woken := setPcb_self {v with sem := put v.sem k (v.sem k + (x - (v.pcb i).waiting.x))} i fun p =>
            {p with status := .ready}
          have rest := fun j (away : j ≠ i) => setPcb_other
            {v with sem := put v.sem k (v.sem k + (x - (v.pcb i).waiting.x))} (fun p => {p with status := .ready}) away
          refine ⟨owned,?_,fun j known l => ?_⟩
          · exact fun wrong => audit.awake ((congrArg Proc.status (rest _ (Ne.symm other))).symm.trans wrong)
          have paid := audit.paid j known l
          unfold Account.wakes
          dsimp only
          by_cases here : j = i
          · subst here
            have none : Procs.owed _ j l = 0 := owed_none (v := ({v with sem := _} : Procs).setPcb j _)
              (by rw [woken]; exact fun wrong => nomatch wrong) l
            rw [none]
            by_cases mine : semId.toNat = l.val
            · have equal : l = k := Fin.ext (mine.symm.trans index)
              subst equal
              have owed : v.owed j l = (v.pcb j).waiting.x.toNat := if_pos ⟨waits,named ▸ mine⟩
              have given : v.sem l + y l - put v.sem l (v.sem l + (x - (v.pcb j).waiting.x)) l = (v.pcb j).waiting.x := by
                rw [put_self,same l mine,add_sub_add_left_eq_sub,sub_sub_cancel]
              rw [if_pos ⟨mine,waits,congrArg Proc.status woken⟩]
              show _ = a.granted j l + (v.sem l + y l - put v.sem l _ l).toNat + 0
              rw [given,paid,owed]
              rfl
            · have owed : v.owed j l = 0 := if_neg fun all => mine (named ▸ all.2)
              rw [if_neg fun all => mine all.1]
              omega
          · have status : (v.pcb j).status = .waiting → ¬ Proc.status (Procs.pcb _ j) = .ready := fun asleep ready => by
              have still := (congrArg Proc.status (rest j here)).symm.trans ready
              rw [show (v.pcb j).status = .ready from still] at asleep
              cases asleep
            rw [if_neg fun all => status all.2.1 all.2.2]
            have owed := owed_same (v := v) (i := j) (w := ({v with sem := _} : Procs).setPcb i _)
              (by rw [rest j here]) (by rw [rest j here]) l
            rw [owed]
            exact paid

end Procs

section Runs
variable {m m' : Machine} {v : Procs} {a : Account} {e : Event}

-- A wait that is not granted is made only while another process can go on. A fork
-- that gets no memory is made by a process that nobody can wake or switch to, and
-- only a live process exits.
def Honoured (m : Machine) (e : Event) : Prop :=
  Sound m e ∧ ∀ id,e = .svc id → id.toNat = 0x0A →
    (∃ k : Fin pcbSize,(m.ctx.gpr 0).toNat = k.val ∧ m.sem k < m.ctx.gpr 1) → Relieved m.procs

theorem svc_other {n : Nat} (v w : Procs) (other : n ∉ [0x03,0x08,0x09,0x0A]) : a.svc v w n = a := by
  unfold Account.svc
  split <;> first | exact absurd (by decide) other | rfl

theorem ProcsAfter.audit (audit : m.procs.Audit a) (honoured : Honoured m e) (did : ProcsAfter m v e) :
    v.Audit (a.record m.procs v e) := by
  have owned := did.owned audit.owned honoured.1
  have quiet : ∀ {n},n ∉ [0x03,0x08,0x09,0x0A] → v.Audit a → v.Audit (a.svc m.procs v n) := by
    intro n other rest
    rw [svc_other _ _ other]
    exact rest
  cases did with
  | stays view =>
      rw [view]
      exact audit
  | ticks view =>
      rw [view]
      exact audit.next (by decide)
  | @yields id call view =>
      show v.Audit (a.svc m.procs v id.toNat)
      rw [call]
      refine quiet (by decide) ?_
      rw [view]
      exact audit.next (by decide)
  | @forks id call did =>
      show v.Audit (a.svc m.procs v id.toNat)
      rw [call]
      cases did with
      | full free view =>
          have rest : v.Audit a := by
            refine audit.keep owned ?_ fun i known => ?_
            · rw [view]
              show (m.procs.saveRegs.pcb m.procs.current).status ≠ .waiting
              rw [Procs.saveRegs_same Proc.status fun _ _ => rfl]
              exact audit.awake
            · rw [view] at known ⊢
              refine ⟨known,?_,Procs.saveRegs_same Proc.waiting (fun _ _ => rfl) m.procs i⟩
              exact iff_of_eq (congrArg (· = Status.waiting) (Procs.saveRegs_same Proc.status (fun _ _ => rfl) m.procs i))
          unfold Account.svc
          rw [free]
          exact rest
      | @poor child free fails view =>
          have stopped := honoured.1.1 call (by rw [free]; exact Option.some_ne_none _) fails
          unfold Account.svc
          rw [free]
          refine audit.fork owned (by rw [view]; rfl) (fun i live => ?_) ?_ fun i other => ?_
          · rw [view] at live
            have was : alive (m.procs.alloc ||| bit child) i = true := live
            rw [alive_or,Bool.or_eq_true,decide_eq_true_iff] at was
            exact was
          · rw [view]
            show ((m.procs.unborn child).pcb child).status ≠ .waiting
            rw [Procs.unborn_self]
            exact audit.awake
          · rw [view]
            exact Procs.unborn_other _ other
      | @born child stack free _ _ view =>
          unfold Account.svc
          rw [free]
          refine audit.fork owned (by rw [view]; rfl) (fun i live => ?_) ?_ fun i other => ?_
          · rw [view] at live
            exact (born_live child stack i).mp live
          · rw [view]
            show ((m.procs.born child stack).pcb child).status ≠ .waiting
            rw [(Procs.born_self ..).2.2]
            decide
          · rw [view]
            exact Procs.born_other _ stack other
  | @exits id call _ _ view =>
      show v.Audit (a.svc m.procs v id.toNat)
      rw [call]
      refine quiet (by decide) ?_
      rw [view]
      exact (audit.exit (honoured.1.2 call)).next (by decide)
  | @execs id call view =>
      show v.Audit (a.svc m.procs v id.toNat)
      rw [call]
      refine quiet (by decide) ?_
      rw [view]
      exact audit.regs _
  | @kills id call did =>
      show v.Audit (a.svc m.procs v id.toNat)
      rw [call]
      refine quiet (by decide) ?_
      cases did with
      | none => exact audit
      | one i => exact audit.kill i owned
  | @inits id call did =>
      show v.Audit (a.svc m.procs v id.toNat)
      rw [call]
      unfold Account.svc
      cases did with
      | refused big =>
          rw [if_neg (show ¬ (m.procs.regs.gpr 1).toNat < pcbSize from Nat.not_lt.mpr big)]
          exact audit.regs _
      | posted k small index =>
          rw [if_pos (show (m.procs.regs.gpr 1).toNat < pcbSize from small)]
          have paid := audit.doSemPost (m.ctx.gpr 0) (m.ctx.gpr 1 - m.procs.sem k) (fun k => m.ctx.gpr 1 - m.procs.sem k)
            fun l named => by rw [show l = k from Fin.ext (named.symm.trans index)]
          exact paid.regs _
  | @posts id call view =>
      show v.Audit (a.svc m.procs v id.toNat)
      rw [call,view]
      have paid := audit.doSemPost (m.ctx.gpr 0) (m.ctx.gpr 1) (fun _ => m.ctx.gpr 1) fun _ _ => rfl
      exact ⟨paid.owned,paid.awake,paid.paid⟩
  | @waits id call did =>
      show v.Audit (a.svc m.procs v id.toNat)
      rw [call]
      cases did with
      | granted k index enough => exact audit.take index enough
      | blocked k index short =>
          have relieved := honoured.2 id rfl call ⟨k,index,UInt32.not_le.mp short⟩
          obtain ⟨j,other,can⟩ := relieved
          have sem := (m.procs.block (m.ctx.gpr 0) (m.ctx.gpr 1)).next_sem .waiting
          refine (audit.block index short sem).next ?_ ⟨j,other,?_⟩
          · show ((m.procs.block _ _).pcb m.procs.current).status = _
            rw [Procs.block_self]
          · unfold Procs.canRun
            rw [Procs.block_other _ _ _ other]
            exact can
  | @execxs id call view =>
      show v.Audit (a.svc m.procs v id.toNat)
      rw [call]
      refine quiet (by decide) ?_
      rw [view]
      exact audit.regs _
  | @other id call view =>
      show v.Audit (a.svc m.procs v id.toNat)
      refine quiet (fun member => call ?_) ?_
      · simp only [List.mem_cons,List.not_mem_nil,or_false] at member ⊢
        omega
      · rcases view with rfl | ⟨r,rfl⟩
        · exact audit
        · exact audit.regs _

-- A run from a machine on, with its account.
inductive Course (admits : Machine → Account → Event → Prop) (start : Machine) : Machine → Account → Prop where
  | start : Course admits start start (.opened start.procs)
  | call {m m' : Machine} {a : Account} {e : Event} {ctx : Ctx} {ram : UInt32 → UInt8} : Course admits start m a →
      admits (m.enter ctx ram) a e → (handle e).Ends (m.enter ctx ram) () m' →
      Course admits start m' (a.record (m.enter ctx ram).procs m'.procs e)

theorem Procs.Audit.start (owned : v.Owned) (awake : (v.pcb v.current).status ≠ .waiting) : v.Audit (.opened v) :=
  ⟨owned,awake,fun _ _ _ => (Nat.zero_add _).symm⟩

theorem Reached.awake (reached : Reached Honoured m) : ∃ a,m.procs.Audit a := by
  induction reached with
  | @boot zero m entry z run =>
      have booted := boot_booted z run
      refine ⟨_,Procs.Audit.start (Procs.Booted.owned booted) ?_⟩
      rw [booted.current,booted.status]
      decide
  | @call m m' e ctx ram _ honoured run ih =>
      obtain ⟨a,audit⟩ := ih
      have entered : (m.enter ctx ram).procs.Audit a := audit.regs ctx
      exact ⟨_,(handle_did run).audit entered honoured⟩

theorem Course.audit {start : Machine} {admits : Machine → Account → Event → Prop}
    (honoured : ∀ m a e,admits m a e → Honoured m e) (reached : Reached Honoured start) (course : Course admits start m a) :
    m.procs.Audit a := by
  induction course with
  | start =>
      obtain ⟨_,audit⟩ := reached.awake
      exact .start audit.owned audit.awake
  | @call m m' a e ctx ram _ admitted run ih =>
      have entered : (m.enter ctx ram).procs.Audit a := ih.regs ctx
      exact (handle_did run).audit entered (honoured _ _ _ admitted)

end Runs
end ArchiveOs.Kernel
