import ArchiveOs.Accounts

-- Sections that are bracketed by a wait and a post on one semaphore.
namespace ArchiveOs.Kernel
open Fs2
open Prog

-- The process has been granted a unit of semaphore s that it has not posted.
def Inside (a : Account) (s i : Fin pcbSize) : Prop := a.posted i s < a.granted i s

namespace Procs
variable {v w : Procs} {a : Account} {s : Fin pcbSize}

-- There is one unit: the semaphore has it, or at most one process.
structure Guard (v : Procs) (a : Account) (s : Fin pcbSize) : Prop where
  held : ∀ i,a.posted i s ≤ a.granted i s ∧ a.granted i s ≤ a.posted i s + 1
  one : ∀ i j,Inside a s i → Inside a s j → i = j
  units : v.sem s = 0 ∨ v.sem s = 1 ∧ ∀ i,¬ Inside a s i
  asks : ∀ i d,v.Alive i → v.Waiting i s d → d = 1

theorem Guard.start (sem : v.sem s = 1) (nobody : ∀ i,v.Alive i → ∀ d,¬ v.Waiting i s d) : v.Guard (.opened v) s :=
  ⟨fun _ => ⟨Nat.le_refl 0,Nat.zero_le 1⟩,fun _ _ inside => absurd inside (Nat.lt_irrefl 0),
    .inr ⟨sem,fun _ inside => absurd inside (Nat.lt_irrefl 0)⟩,fun i d live waits => absurd waits (nobody i live d)⟩

theorem Guard.keep (guard : v.Guard a s) {b : Account} (granted : ∀ i,b.granted i s = a.granted i s)
    (posted : ∀ i,b.posted i s = a.posted i s) (sem : w.sem s = v.sem s)
    (asks : ∀ i d,w.Alive i → w.Waiting i s d → v.Alive i ∧ v.Waiting i s d ∨ d = 1) : w.Guard b s := by
  have inside : ∀ i,Inside b s i ↔ Inside a s i := by
    intro i
    unfold Inside
    rw [granted,posted]
  refine ⟨fun i => ?_,fun i j one two => ?_,?_,fun i d live waits => ?_⟩
  · rw [granted,posted]
    exact guard.held i
  · exact guard.one i j ((inside i).mp one) ((inside j).mp two)
  · rw [sem]
    exact guard.units.imp id fun free => ⟨free.1,fun i within => free.2 i ((inside i).mp within)⟩
  · rcases asks i d live waits with ⟨was,waited⟩ | unit
    · exact guard.asks i d was waited
    · exact unit

theorem Guard.less (guard : v.Guard a s) (sem : w.sem = v.sem) (alive : ∀ i,w.Alive i → (w.pcb i).status = .waiting →
    v.Alive i ∧ (v.pcb i).status = .waiting ∧ (v.pcb i).waiting = (w.pcb i).waiting) : w.Guard a s := by
  refine guard.keep (fun _ => rfl) (fun _ => rfl) (by rw [sem]) fun i d live ⟨status,index,demand⟩ => ?_
  obtain ⟨was,waited,same⟩ := alive i live status
  rw [← same] at index demand
  exact .inl ⟨was,waited,index,demand⟩

theorem Guard.next (guard : v.Guard a s) {st : Status} (stops : st = .waiting → (v.pcb v.current).status = .waiting) :
    (v.next st).Guard a s := by
  refine guard.less (next_sem ..) fun j live status => ⟨?_,next_waits stops status,?_⟩
  · unfold Alive at live
    rw [next_alloc] at live
    exact live
  · exact (next_same Proc.waiting (fun _ _ _ => rfl) v j st).symm

theorem Guard.exit (guard : v.Guard a s) (here : v.Alive v.current) : v.exit.Guard a s := by
  refine guard.less rfl fun i live status => ?_
  obtain ⟨was,other⟩ := (exit_live here i).mp live
  rw [exit_other _ other] at status ⊢
  exact ⟨was,status,rfl⟩

theorem Guard.kill (guard : v.Guard a s) (i : Fin pcbSize) : (v.kill i).Guard a s := by
  refine guard.less (v.kill_rest i).2.2 fun j live status => ?_
  rw [kill_pcb] at status ⊢
  exact ⟨((kill_live i j).mp live).1,status,rfl⟩

theorem Guard.fork (guard : v.Guard a s) {child : Fin pcbSize} (sem : w.sem = v.sem)
    (alive : ∀ i,w.Alive i → v.Alive i ∨ i = child) (goes : (w.pcb child).status ≠ .waiting)
    (others : ∀ i,i ≠ child → w.pcb i = v.saveRegs.pcb i) : w.Guard (a.fresh child) s := by
  have inside : ∀ i,Inside (a.fresh child) s i → Inside a s i := by
    intro i within
    unfold Inside Account.fresh at within
    by_cases new : i = child
    · dsimp only at within
      rw [if_pos new,if_pos new] at within
      exact absurd within (Nat.lt_irrefl 0)
    · dsimp only at within
      rw [if_neg new,if_neg new] at within
      exact within
  refine ⟨fun i => ?_,fun i j one two => guard.one i j (inside i one) (inside j two),?_,fun i d live waits => ?_⟩
  · unfold Account.fresh
    dsimp only
    split
    · exact ⟨Nat.le_refl 0,Nat.zero_le 1⟩
    · exact guard.held i
  · rw [sem]
    exact guard.units.imp id fun free => ⟨free.1,fun i within => free.2 i (inside i within)⟩
  · have old : i ≠ child := by
      rintro rfl
      exact goes waits.1
    obtain ⟨status,index,demand⟩ := waits
    rw [others i old,saveRegs_same Proc.status fun _ _ => rfl] at status
    rw [others i old,saveRegs_same Proc.waiting fun _ _ => rfl] at index demand
    exact guard.asks i d ((alive i live).resolve_right old) ⟨status,index,demand⟩

theorem Guard.take (guard : v.Guard a s) {semId x : UInt32} {k : Fin pcbSize} (index : semId.toNat = k.val)
    (enough : v.sem k ≥ x) (bracket : semId.toNat = s.val → x = 1 ∧ ¬ Inside a s v.current) :
    (v.take k x).Guard (a.waits v (v.take k x) semId x) s := by
  by_cases here : semId.toNat = s.val
  · obtain ⟨rfl,outside⟩ := bracket here
    have same : s = k := Fin.ext (here.symm.trans index)
    subst same
    have free : v.sem s = 1 ∧ ∀ i,¬ Inside a s i := by
      rcases guard.units with zero | free
      · rw [zero] at enough
        exact absurd enough (by decide)
      · exact free
    have sem : (v.take s 1).sem s = 0 := by
      show put v.sem s (v.sem s - 1) s = 0
      rw [put_self,free.1]
      rfl
    have granted : ∀ i,(a.waits v (v.take s 1) semId 1).granted i s = a.granted i s + if i = v.current then 1 else 0 := by
      intro i
      show a.granted i s + (if i = v.current ∧ semId.toNat = s.val ∧ 1 ≤ v.sem s then
        (v.sem s - (v.take s 1).sem s).toNat else 0) = _
      rw [sem,free.1]
      congr 1
      exact if_congr ⟨fun all => all.1,fun mine => ⟨mine,here,by decide⟩⟩ rfl rfl
    have inside : ∀ i,Inside (a.waits v (v.take s 1) semId 1) s i → i = v.current := by
      intro i within
      by_contra other
      unfold Inside at within
      rw [granted,if_neg other] at within
      exact free.2 i within
    refine ⟨fun i => ?_,fun i j one two => (inside i one).trans (inside j two).symm,.inl sem,guard.asks⟩
    have held := guard.held i
    have out := free.2 i
    unfold Inside at out
    rw [granted]
    show a.posted i s ≤ _ ∧ _ ≤ a.posted i s + 1
    split <;> omega
  · have other : s ≠ k := fun same => here (same ▸ index)
    refine guard.keep (fun i => ?_) (fun _ => rfl) (put_other _ _ other) fun i d live waits => .inl ⟨live,waits⟩
    show a.granted i s + (if i = v.current ∧ semId.toNat = s.val ∧ _ then _ else 0) = _
    rw [if_neg fun all => here all.2.1]
    rfl

theorem Guard.block (guard : v.Guard a s) {semId x : UInt32} {k : Fin pcbSize} (index : semId.toNat = k.val)
    (short : ¬ v.sem k ≥ x) (bracket : semId.toNat = s.val → x = 1 ∧ ¬ Inside a s v.current) {w : Procs} :
    (v.block semId x).Guard (a.waits v w semId x) s := by
  refine guard.keep (fun i => ?_) (fun _ => rfl) rfl fun i d live ⟨status,named,demand⟩ => ?_
  · show a.granted i s + (if i = v.current ∧ semId.toNat = s.val ∧ x ≤ v.sem s then _ else 0) = _
    rw [if_neg fun all => short (by rw [← show s = k from Fin.ext (all.2.1.symm.trans index)]; exact all.2.2)]
    rfl
  · by_cases mine : i = v.current
    · rw [mine,block_self] at named demand
      exact .inr (demand.symm.trans (bracket named).1)
    · rw [block_other v semId x mine] at status named demand
      exact .inl ⟨live,status,named,demand⟩

theorem Guard.elsewhere (guard : v.Guard a s) {semId : UInt32} (x : UInt32) (y : Fin pcbSize → UInt32)
    (other : semId.toNat ≠ s.val) : (v.doSemPost semId x).Guard (a.wakes v (v.doSemPost semId x) semId y) s := by
  obtain ⟨alloc,_,_⟩ := v.doSemPost_rest semId x
  refine guard.keep (fun i => ?_) (fun _ => rfl) (doSemPost_sem _ _ _ other) fun i d live waits => .inl ?_
  · show a.granted i s + (if semId.toNat = s.val ∧ _ then _ else 0) = _
    rw [if_neg fun all => other all.1]
    rfl
  · unfold Alive at live ⊢
    rw [alloc] at live
    unfold Waiting at waits
    rw [doSemPost_waits waits.1] at waits
    exact ⟨live,waits⟩

-- The process inside leaves, and the unit goes to the semaphore or to the next one.
theorem Guard.post (guard : v.Guard a s) {semId : UInt32} (index : semId.toNat = s.val)
    (inside : Inside a s v.current) :
    (v.doSemPost semId 1).Guard ((a.wakes v (v.doSemPost semId 1) semId fun _ => 1).posts v semId 1) s := by
  have zero : v.sem s = 0 := guard.units.resolve_right fun free => free.2 _ inside
  have alone : ∀ i,i ≠ v.current → a.granted i s = a.posted i s := by
    intro i other
    have held := guard.held i
    have out : ¬ Inside a s i := fun within => other (guard.one i _ within inside)
    unfold Inside at out
    omega
  have mine : a.granted v.current s = a.posted v.current s + 1 := by
    have held := guard.held v.current
    unfold Inside at inside
    omega
  generalize after : v.doSemPost semId 1 = w
  have posted : ∀ i,((a.wakes v w semId fun _ => 1).posts v semId 1).posted i s =
      a.posted i s + if i = v.current then 1 else 0 := by
    intro i
    show a.posted i s + (if i = v.current ∧ semId.toNat = s.val then 1 else 0) = _
    congr 1
    exact if_congr ⟨fun all => all.1,fun mine => ⟨mine,index⟩⟩ rfl rfl
  have asks : ∀ i d,w.Alive i → w.Waiting i s d → d = 1 := by
    intro i d live waits
    have alloc := (v.doSemPost_rest semId 1).1
    rw [after] at alloc
    unfold Alive at live
    rw [alloc] at live
    have same : (v.doSemPost semId 1).pcb i = v.pcb i := doSemPost_waits (by rw [after]; exact waits.1)
    rw [after] at same
    unfold Waiting at waits
    rw [same] at waits
    exact guard.asks i d live waits
  have did := v.doSemPost_posts semId 1
  rw [after] at did
  cases did with
  | nothing no =>
      have bound := s.isLt
      rcases no with outside | none
      · rw [index] at outside
        exact absurd outside (Nat.not_le.mpr bound)
      · cases none
  | some k named _ did =>
      have same : k = s := Fin.ext (named.symm.trans index)
      subst same
      cases did with
      | kept found =>
          have granted : ∀ i,((a.wakes v {v with sem := put v.sem k (v.sem k + 1)} semId fun _ => 1).posts v semId 1).granted i k =
              a.granted i k := by
            intro i
            show a.granted i k + (if _ ∧ _ ∧ _ then _ else 0) = _
            rw [if_neg fun all => by
              have ready : (v.pcb i).status = .ready := all.2.2
              rw [all.2.1] at ready
              cases ready]
            rfl
          have out : ∀ i,¬ Inside ((a.wakes v {v with sem := put v.sem k (v.sem k + 1)} semId fun _ => 1).posts v semId 1)
              k i := by
            intro i within
            unfold Inside at within
            rw [granted,posted] at within
            by_cases here : i = v.current
            · rw [if_pos here,here,mine] at within
              exact absurd within (Nat.lt_irrefl _)
            · rw [if_neg here,alone i here] at within
              exact absurd within (Nat.lt_irrefl _)
          refine ⟨fun i => ?_,fun i _ within => absurd within (out i),.inr ⟨?_,out⟩,asks⟩
          · rw [granted,posted]
            by_cases here : i = v.current
            · rw [if_pos here,here,mine]
              omega
            · rw [if_neg here,alone i here]
              omega
          · show put v.sem k (v.sem k + 1) k = 1
            rw [put_self,zero]
            rfl
      | woke i found =>
          obtain ⟨other,eligible⟩ := chosen_some found
          obtain ⟨live,waits,named,_⟩ := eligible_iff.mp eligible
          have demand : (v.pcb i).waiting.x = 1 := guard.asks i _ live ⟨waits,named ▸ index,rfl⟩
          have sem : put v.sem k (v.sem k + (1 - (v.pcb i).waiting.x)) k = 0 := by
            rw [put_self,zero,demand]
            rfl
          have woken := setPcb_self {v with sem := put v.sem k (v.sem k + (1 - (v.pcb i).waiting.x))} i fun p =>
            {p with status := .ready}
          have rest := fun j (away : j ≠ i) => setPcb_other
            {v with sem := put v.sem k (v.sem k + (1 - (v.pcb i).waiting.x))} (fun p => {p with status := .ready}) away
          generalize next : ({v with sem := put v.sem k (v.sem k + (1 - (v.pcb i).waiting.x))} : Procs).setPcb i (fun p =>
            {p with status := .ready}) = u at woken rest posted asks
          have units : u.sem k = 0 := by
            rw [← next]
            exact sem
          have granted : ∀ j,((a.wakes v u semId fun _ => 1).posts v semId 1).granted j k =
              a.granted j k + if j = i then 1 else 0 := by
            intro j
            show a.granted j k + (if semId.toNat = k.val ∧ (v.pcb j).status = .waiting ∧ (u.pcb j).status = .ready then
              (v.sem k + 1 - u.sem k).toNat else 0) = _
            rw [units,zero]
            congr 1
            refine if_congr ⟨fun all => ?_,fun here => ⟨index,here ▸ waits,?_⟩⟩ rfl rfl
            · by_contra away
              have ready := all.2.2
              rw [rest j away] at ready
              have still : (v.pcb j).status = .ready := ready
              rw [all.2.1] at still
              cases still
            · rw [here,woken]
          have only : ∀ j,Inside ((a.wakes v u semId fun _ => 1).posts v semId 1) k j → j = i := by
            intro j within
            by_contra away
            unfold Inside at within
            rw [granted,posted,if_neg away] at within
            by_cases here : j = v.current
            · rw [if_pos here,here,mine] at within
              exact absurd within (Nat.lt_irrefl _)
            · rw [if_neg here,alone j here] at within
              exact absurd within (Nat.lt_irrefl _)
          refine ⟨fun j => ?_,fun j l one two => (only j one).trans (only l two).symm,.inl units,asks⟩
          rw [granted,posted]
          by_cases here : j = v.current
          · rw [if_pos here,if_neg (here ▸ Ne.symm other),here,mine]
            omega
          · rw [if_neg here,alone j here]
            split <;> omega

end Procs
section Runs
variable {m m' : Machine} {v : Procs} {a : Account} {e : Event} {s : Fin pcbSize}

-- Every process brackets its section with a wait for one unit of s and a post of it;
-- nobody forks inside, and the semaphore is not set again.
def Bracketed (s : Fin pcbSize) (m : Machine) (a : Account) : Event → Prop
  | .irq _ => True
  | .svc id =>
      (id.toNat = 0x03 → ¬ Inside a s m.current) ∧
      (id.toNat = 0x08 → (m.ctx.gpr 1).toNat < pcbSize → (m.ctx.gpr 0).toNat ≠ s.val) ∧
      (id.toNat = 0x09 → (m.ctx.gpr 0).toNat = s.val → m.ctx.gpr 1 = 1 ∧ Inside a s m.current) ∧
      (id.toNat = 0x0A → (m.ctx.gpr 0).toNat = s.val → m.ctx.gpr 1 = 1 ∧ ¬ Inside a s m.current)

theorem ProcsAfter.guard (audit : m.procs.Audit a) (guard : m.procs.Guard a s) (honoured : Honoured m e)
    (bracketed : Bracketed s m a e) (did : ProcsAfter m v e) : v.Guard (a.record m.procs v e) s := by
  have quiet : ∀ {n},n ∉ [0x03,0x08,0x09,0x0A] → v.Guard a s → v.Guard (a.svc m.procs v n) s := by
    intro n other rest
    rw [svc_other _ _ other]
    exact rest
  have regs : ∀ {u : Procs} {b : Account} (r : Ctx),u.Guard b s → ({u with regs := r} : Procs).Guard b s :=
    fun _ rest => ⟨rest.held,rest.one,rest.units,rest.asks⟩
  cases did with
  | stays view =>
      rw [view]
      exact guard
  | ticks view =>
      rw [view]
      exact guard.next fun wrong => nomatch wrong
  | @yields id call view =>
      show v.Guard (a.svc m.procs v id.toNat) s
      rw [call]
      refine quiet (by decide) ?_
      rw [view]
      exact guard.next fun wrong => nomatch wrong
  | @forks id call did =>
      show v.Guard (a.svc m.procs v id.toNat) s
      rw [call]
      unfold Account.svc
      cases did with
      | full free view =>
          rw [free,view]
          refine guard.less rfl fun i live status => ⟨live,?_,?_⟩
          · exact (Procs.saveRegs_same Proc.status (fun _ _ => rfl) m.procs i).symm.trans status
          · exact (Procs.saveRegs_same Proc.waiting (fun _ _ => rfl) m.procs i).symm
      | @poor child free fails view =>
          have sem : v.sem = m.procs.sem := by
            rw [view]
            rfl
          rw [free]
          refine guard.fork sem (fun i live => ?_) ?_ fun i other => ?_
          · rw [view] at live
            have was : alive (m.procs.alloc ||| bit child) i = true := live
            rw [alive_or,Bool.or_eq_true,decide_eq_true_iff] at was
            exact was
          · rw [view]
            show ((m.procs.unborn child).pcb child).status ≠ .waiting
            rw [Procs.unborn_self]
            exact audit.awake
          · rw [view]
            exact Procs.unborn_other _ other
      | @born child stack free _ _ view =>
          have sem : v.sem = m.procs.sem := by
            rw [view]
            rfl
          rw [free]
          refine guard.fork sem (fun i live => ?_) ?_ fun i other => ?_
          · rw [view] at live
            exact (born_live child stack i).mp live
          · rw [view]
            show ((m.procs.born child stack).pcb child).status ≠ .waiting
            rw [(Procs.born_self ..).2.2]
            decide
          · rw [view]
            exact Procs.born_other _ stack other
  | @exits id call _ _ view =>
      show v.Guard (a.svc m.procs v id.toNat) s
      rw [call]
      refine quiet (by decide) ?_
      rw [view]
      exact (guard.exit (honoured.1.2 call)).next fun wrong => nomatch wrong
  | @execs id call view =>
      show v.Guard (a.svc m.procs v id.toNat) s
      rw [call]
      refine quiet (by decide) ?_
      rw [view]
      exact regs _ guard
  | @kills id call did =>
      show v.Guard (a.svc m.procs v id.toNat) s
      rw [call]
      refine quiet (by decide) ?_
      cases did with
      | none => exact guard
      | one i => exact guard.kill i
  | @inits id call did =>
      show v.Guard (a.svc m.procs v id.toNat) s
      rw [call]
      unfold Account.svc
      cases did with
      | refused big =>
          rw [if_neg (show ¬ (m.procs.regs.gpr 1).toNat < pcbSize from Nat.not_lt.mpr big)]
          exact regs _ guard
      | posted k small index =>
          rw [if_pos (show (m.procs.regs.gpr 1).toNat < pcbSize from small)]
          exact regs _ (guard.elsewhere (m.ctx.gpr 1 - m.procs.sem k) _ (bracketed.2.1 call small))
  | @posts id call view =>
      show v.Guard (a.svc m.procs v id.toNat) s
      rw [call,view]
      by_cases index : (m.ctx.gpr 0).toNat = s.val
      · obtain ⟨unit,inside⟩ := bracketed.2.2.1 call index
        show (m.procs.doSemPost (m.ctx.gpr 0) (m.ctx.gpr 1)).Guard ((a.wakes m.procs
          (m.procs.doSemPost (m.ctx.gpr 0) (m.ctx.gpr 1)) (m.ctx.gpr 0) fun _ => m.ctx.gpr 1).posts m.procs
            (m.ctx.gpr 0) (m.ctx.gpr 1)) s
        rw [unit]
        exact guard.post index inside
      · have rest := guard.elsewhere (m.ctx.gpr 1) (fun _ => m.ctx.gpr 1) index
        refine rest.keep (fun _ => rfl) (fun i => ?_) rfl fun i d live waits => .inl ⟨live,waits⟩
        show a.posted i s + (if i = m.current ∧ (m.ctx.gpr 0).toNat = s.val then _ else 0) = _
        rw [if_neg fun all => index all.2]
        rfl
  | @waits id call did =>
      show v.Guard (a.svc m.procs v id.toNat) s
      rw [call]
      cases did with
      | granted k index enough => exact guard.take index enough (bracketed.2.2.2 call)
      | blocked k index short =>
          refine (guard.block index short (bracketed.2.2.2 call)).next fun _ => ?_
          show ((m.procs.block _ _).pcb m.procs.current).status = _
          rw [Procs.block_self]
  | @execxs id call view =>
      show v.Guard (a.svc m.procs v id.toNat) s
      rw [call]
      refine quiet (by decide) ?_
      rw [view]
      exact ⟨guard.held,guard.one,guard.units,guard.asks⟩
  | @other id call view =>
      show v.Guard (a.svc m.procs v id.toNat) s
      refine quiet (fun member => call ?_) ?_
      · simp only [List.mem_cons,List.not_mem_nil,or_false] at member ⊢
        omega
      · rcases view with rfl | ⟨r,rfl⟩
        · exact guard
        · exact regs _ guard

theorem Course.guard {start : Machine} (reached : Reached Honoured start) (sem : start.sem s = 1)
    (nobody : ∀ i ∈ start.live,∀ d,¬ start.procs.Waiting i s d)
    (course : Course (fun m a e => Honoured m e ∧ Bracketed s m a e) start m a) : m.procs.Guard a s := by
  induction course with
  | start => exact .start sem nobody
  | @call m m' a e ctx ram before admitted run ih =>
      have audit : (m.enter ctx ram).procs.Audit a := (before.audit (fun _ _ _ both => both.1) reached).regs ctx
      have guard : (m.enter ctx ram).procs.Guard a s := ⟨ih.held,ih.one,ih.units,ih.asks⟩
      exact (handle_did run).guard audit guard admitted.1 admitted.2

-- Whoever runs has been granted exactly what it has waited for, and a bracketed section
-- is never entered by two processes.
theorem waits_honoured {start : Machine} (reached : Reached Honoured start) :
    (∀ m a,Course (fun m _ e => Honoured m e) start m a → ∀ k,a.asked m.current k = a.granted m.current k) ∧
    ∀ s,start.sem s = 1 → (∀ i ∈ start.live,∀ d,¬ start.procs.Waiting i s d) →
      ∀ m a,Course (fun m a e => Honoured m e ∧ Bracketed s m a e) start m a →
        ∀ i j,Inside a s i → Inside a s j → i = j := by
  refine ⟨fun m a course k => ?_,fun s sem nobody m a course => ?_⟩
  · have audit := course.audit (fun _ _ _ honoured => honoured) reached
    have paid := audit.paid m.current (.inr rfl) k
    have none : m.procs.owed m.current k = 0 := Procs.owed_none audit.awake k
    rw [none] at paid
    exact paid
  · exact (course.guard reached sem nobody).one

end Runs

theorem Course.less {admits admits' : Machine → Account → Event → Prop} {start m : Machine} {a : Account}
    (course : Course admits start m a) (less : ∀ m a e,admits m a e → admits' m a e) : Course admits' start m a := by
  induction course with
  | start => exact .start
  | call _ admitted run ih => exact .call ih (less _ _ _ admitted) run

theorem Course.calls {admits : Machine → Account → Event → Prop} {start m : Machine} {a : Account} {id r0 r1 : UInt32}
    (course : Course admits start m a) (ok : admits (m.asks r0 r1) a (.svc id))
    (ends : (handle (.svc id)).done (m.asks r0 r1) = true) :
    Course admits start (m.call id r0 r1) (a.record (m.asks r0 r1).procs (m.call id r0 r1).procs (.svc id)) :=
  .call course ok (ends_after ends)

-- Two processes and a semaphore with one unit: the first takes it, and the second waits.
def Machine.shared : Machine := ((Machine.started (few 6)).call 0x08 0 1).call 0x03 0 0
def Machine.entered : Machine := Machine.shared.call 0x0A 0 1
def Machine.handsOn : Machine := Machine.entered.call 0x00 0 0
def Machine.contended : Machine := Machine.handsOn.call 0x0A 0 1

theorem plain_honoured (m : Machine) {id : UInt32} (other : id.toNat ∉ [0x03,0x04,0x0A]) : Honoured m (.svc id) := by
  simp only [List.mem_cons,List.not_mem_nil,or_false,not_or] at other
  refine ⟨⟨fun fork => absurd fork other.1,fun exit => absurd exit other.2.1⟩,fun id' same wait => ?_⟩
  cases same
  exact absurd wait other.2.2

theorem shared_reached : Reached Honoured Machine.shared := by
  have started : Reached Honoured (Machine.started (few 6)) := started_reached (by decide) (by decide +kernel)
  have set : Reached Honoured ((Machine.started (few 6)).call 0x08 0 1) :=
    started.calls (plain_honoured _ (by decide)) (by decide +kernel)
  have offers : (((Machine.started (few 6)).call 0x08 0 1).asks 0 0).heap.offers = true := by decide +kernel
  refine set.calls ⟨⟨fun _ _ none => ?_,fun exit => absurd exit (by decide)⟩,fun id same wait => ?_⟩ (by decide +kernel)
  · rw [offers] at none
    cases none
  · cases same
    exact absurd wait (by decide)

theorem waits_bracketed {m : Machine} {a : Account} {i : Fin pcbSize} (current : m.current = i) (outside : ¬ Inside a 0 i)
    (relieved : Relieved (m.asks 0 1).procs) :
    Honoured (m.asks 0 1) (.svc 0x0A) ∧ Bracketed 0 (m.asks 0 1) a (.svc 0x0A) := by
  refine ⟨⟨⟨fun fork => absurd fork (by decide),fun exit => absurd exit (by decide)⟩,fun _ _ _ _ => relieved⟩,
    fun fork => absurd fork (by decide),fun set => absurd set (by decide),fun post => absurd post (by decide),fun _ _ => ⟨rfl,?_⟩⟩
  show ¬ Inside a 0 m.current
  rw [current]
  exact outside

theorem yields_bracketed (m : Machine) (a : Account) : Honoured m (.svc 0x00) ∧ Bracketed 0 m a (.svc 0x00) :=
  ⟨plain_honoured m (by decide),fun fork => absurd fork (by decide),fun set => absurd set (by decide),
    fun post => absurd post (by decide),fun wait => absurd wait (by decide)⟩

theorem contended_course : ∃ a,Course (fun m a e => Honoured m e ∧ Bracketed 0 m a e) Machine.shared Machine.contended a ∧
    Inside a 0 0 := by
  have first : Relieved (Machine.shared.asks 0 1).procs := ⟨1,by decide +kernel,by decide +kernel⟩
  have second : Relieved (Machine.handsOn.asks 0 1).procs := ⟨0,by decide +kernel,by decide +kernel⟩
  have opened : Course (fun m a e => Honoured m e ∧ Bracketed 0 m a e) Machine.shared Machine.shared (.opened Machine.shared.procs) :=
    .start
  have entered := opened.calls
    (waits_bracketed (i := 0) (by decide +kernel) (by unfold Inside; decide +kernel) first) (by decide +kernel)
  have turned := entered.calls (yields_bracketed (Machine.entered.asks 0 0) _) (by decide +kernel)
  refine ⟨_,turned.calls (waits_bracketed (i := 1) (by decide +kernel) (by unfold Inside; decide +kernel) second) (by decide +kernel),?_⟩
  unfold Inside
  decide +kernel

-- One process is in its section, another one waits to enter it.
theorem waits_honoured_contended : ∃ a,Course (fun m a e => Honoured m e ∧ Bracketed 0 m a e) Machine.shared Machine.contended a ∧
    Inside a 0 0 ∧ (alive Machine.contended.pcballoc 1 = true ∧ (Machine.contended.pcb 1).status = .waiting) ∧
    (∀ k,a.asked Machine.contended.current k = a.granted Machine.contended.current k) ∧ ∀ j,Inside a 0 j → j = 0 := by
  have nobody : ∀ i,(Machine.shared.pcb i).status ≠ .waiting := by decide +kernel
  obtain ⟨a,course,inside⟩ := contended_course
  obtain ⟨paid,alone⟩ := waits_honoured shared_reached
  refine ⟨a,course,inside,⟨?_,?_⟩,paid _ a (course.less fun _ _ _ both => both.1),fun j there => ?_⟩
  · decide +kernel
  · decide +kernel
  · refine alone 0 ?_ (fun i _ d waits => nobody i waits.1) _ a course j 0 there inside
    decide +kernel

-- The only process waits for a unit that is not there, and goes on without it.
theorem wait_not_honoured : ¬ ∀ (start m : Machine) (a : Account),Reached Any start →
    Course (fun _ _ _ => True) start m a → ∀ k,a.asked m.current k = a.granted m.current k := by
  intro all
  have alone : Reached Any Machine.alone := started_reached (by decide) (by decide +kernel)
  have paid := all Machine.alone Machine.goesOn _ alone
    (.call (e := .svc 0x0A) .start trivial (ends_after (s := Machine.alone.asks 0 1) (by decide +kernel))) 0
  exact absurd paid (by decide +kernel)

end ArchiveOs.Kernel
