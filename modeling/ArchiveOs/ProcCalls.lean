import ArchiveOs.Frames

-- What each call of the kernel does to the processes.
namespace ArchiveOs.Kernel
open Fs2
open Prog

-- The answer that the allocator will give to a request for a stack.
def Heap.offers (h : Heap) : Bool :=
  h.answer h.asked ≠ 0 ∧ (h.answer h.asked).toNat + stackBytes ≤ 0x100000000 ∧ h.areas.all (apart (h.answer h.asked))

section Calls
variable {m m' : Machine}

theorem haltIfNone_ends : haltIfNone.Ends m () m' ↔ m.pcballoc ≠ 0 ∧ m = m' := by
  unfold haltIfNone
  simp [and_comm]

theorem dropBit_procs {pid : Fin pcbSize} (run : (dropBit pid).Ends m () m') : m'.procs = m.procs.dropBit pid := by
  obtain ⟨_,rfl⟩ := ends_of_ok rfl run
  rfl

theorem freeStack_procs {p : UInt32} (run : (freeStack p).Ends m () m') :
    (p = 0 ∨ p ∈ m.heap.areas) ∧ m'.procs = m.procs.freeStack p := by
  unfold freeStack at run
  simp only [ends_bind,ends_read,ends_ite,ends_pure] at run
  obtain ⟨_,_,⟨rfl,rfl⟩,⟨zero,_,rfl⟩ | ⟨some,run⟩⟩ := run
  · refine ⟨.inl zero,?_⟩
    unfold Procs.freeStack
    rw [if_pos zero]
  · rcases run with ⟨member,run⟩ | ⟨_,run⟩
    · refine ⟨.inr member,?_⟩
      obtain ⟨_,rfl⟩ := ends_of_ok rfl run
      unfold Procs.freeStack
      rw [if_neg some]
      rfl
    · exact absurd run ends_stop

theorem mallocStack_procs {a : UInt32} (run : mallocStack.Ends m a m') :
    m.heap.offers = true ∧ a = m.heap.answer m.heap.asked ∧ m'.procs = m.procs.grant a ∨
      m.heap.offers = false ∧ a = 0 ∧ m'.procs = m.procs := by
  unfold mallocStack ask setHeap at run
  simp only [ends_bind,ends_read,ends_update,ends_pure,ends_ite] at run
  obtain ⟨_,_,⟨_,_,⟨rfl,rfl⟩,_,_,rfl,rfl,rfl⟩,_,_,⟨rfl,rfl⟩,⟨fits,_,_,rfl,rfl,rfl⟩ | ⟨fails,rfl,rfl⟩⟩ := run
  · exact .inl ⟨decide_eq_true fits,rfl,rfl⟩
  · exact .inr ⟨decide_eq_false fails,rfl,rfl⟩

theorem freeEntry_ends {is : List (Fin pcbSize)} {r : Option (Fin pcbSize)} :
    (freeEntry is).Ends m r m' ↔ (is.find? fun i => !alive m.pcballoc i) = r ∧ m = m' := by
  induction is with
  | nil =>
      unfold freeEntry
      simp
  | cons i rest ih =>
      unfold freeEntry
      simp only [ends_bind,ends_processExists,ends_ite,ends_pure,List.find?_cons]
      cases here : alive m.pcballoc i
      · simp
      · simpa using ih

theorem newPcbEntry_procs {r : Option (Fin pcbSize)} (run : newPcbEntry.Ends m r m') :
    m.procs.firstFree = r ∧ m'.heap = m.heap ∧
      match r with
      | none => m'.procs = m.procs
      | some i => m'.procs = m.procs.addBit i := by
  unfold newPcbEntry at run
  simp only [ends_bind,freeEntry_ends] at run
  obtain ⟨found,_,⟨first,rfl⟩,run⟩ := run
  cases found with
  | none =>
      obtain ⟨rfl,rfl⟩ := ends_pure.mp run
      exact ⟨first,rfl,rfl⟩
  | some i =>
      simp only [ends_bind,ends_update,ends_pure] at run
      obtain ⟨_,_,rfl,rfl,rfl⟩ := run
      exact ⟨first,rfl,rfl⟩

theorem setRunning_procs {f : Pcb → Pcb} {g : Proc → Proc} (same : ∀ p,(f p).proc = g p.proc)
    (run : (setRunning f).Ends m () m') : m'.procs = m.procs.setPcb m.current g := by
  obtain ⟨_,rfl⟩ := ends_of_ok rfl run
  exact procs_setPcb m m.current same

theorem setGpr_procs {n : Fin 13} {w : UInt32} (run : (setGpr n w).Ends m () m') : m'.procs = m.procs.setRegs n w := by
  obtain ⟨_,rfl⟩ := ends_of_ok rfl run
  rfl

-- The parent's registers are saved; then the fork finds no entry, no stack, or both.
inductive Forked (m : Machine) (v : Procs) : Prop where
  | full : m.procs.firstFree = none → v = m.procs.saveRegs.setRegs 0 (UInt32.ofInt (-1)) → Forked m v
  | poor {child : Fin pcbSize} : m.procs.firstFree = some child → m.heap.offers = false →
      v = ((m.procs.saveRegs.addBit child).copyTo child).setRegs 0 (UInt32.ofInt (-2)) → Forked m v
  | born {child : Fin pcbSize} {stack : UInt32} : m.procs.firstFree = some child → m.heap.offers = true →
      stack = m.heap.answer m.heap.asked →
      v = ((((m.procs.saveRegs.addBit child).copyTo child).grant stack).birth child stack).setRegs 0 (UInt32.ofNat child) →
      Forked m v

theorem setPcb_procs {i : Fin pcbSize} {f : Pcb → Pcb} {g : Proc → Proc} (same : ∀ p,(f p).proc = g p.proc)
    (run : (setPcb i f).Ends m () m') : m'.procs = m.procs.setPcb i g := by
  obtain ⟨_,rfl⟩ := ends_of_ok rfl run
  exact procs_setPcb m i same

theorem setPcb_heap {i : Fin pcbSize} {f : Pcb → Pcb} (run : (setPcb i f).Ends m () m') : m'.heap = m.heap := by
  obtain ⟨_,rfl⟩ := ends_of_ok rfl run
  rfl

theorem running_ends {p : Pcb} : running.Ends m p m' ↔ m.pcb m.current = p ∧ m = m' := ends_read

theorem copyStack_procs {child parent : UInt32} (run : (copyStack child parent).Ends m () m') : m'.procs = m.procs := by
  obtain ⟨_,rfl⟩ := ends_of_ok rfl run
  rfl

theorem bear_procs {child : Fin pcbSize} {stack : UInt32} (run : (bear child stack).Ends m () m') :
    m'.procs = (m.procs.birth child stack).setRegs 0 (UInt32.ofNat child) := by
  unfold bear at run
  simp only [ends_bind,running_ends] at run
  obtain ⟨_,_,⟨rfl,rfl⟩,_,t1,copied,_,t2,named,_,_,⟨rfl,rfl⟩,_,t3,moved,_,t4,answered,shared⟩ := run
  have view1 := copyStack_procs copied
  have view2 := setPcb_procs (g := fun p => {p with pid := child,status := .created}) (fun _ => rfl) named
  have view3 := setPcb_procs (g := fun p => {p with
    saved := {p.saved with
      sp := p.saved.sp + (stack - (t2.procs.pcb t2.procs.current).stack),gpr := put p.saved.gpr 0 0}
    stack := stack}) (fun _ => rfl) moved
  rw [(calmFrame.shareAll _).same shared,setGpr_procs answered,view3,view2,view1]
  rfl

theorem doFork_procs (run : doFork.Ends m () m') : Forked m m'.procs := by
  unfold doFork at run
  simp only [ends_bind,ends_read] at run
  obtain ⟨_,_,⟨rfl,rfl⟩,_,t1,saved,r,t2,entry,run⟩ := run
  have heap1 : t1.heap = m.heap := setPcb_heap saved
  have view1 : t1.procs = m.procs.saveRegs :=
    setRunning_procs (g := fun p => {p with saved := m.ctx}) (fun _ => rfl) saved
  obtain ⟨first,heap2,view2⟩ := newPcbEntry_procs entry
  rw [view1] at first view2
  change m.procs.firstFree = r at first
  cases r with
  | none =>
      have view3 := setGpr_procs run
      rw [view2] at view3
      exact .full first view3
  | some child =>
      simp only [ends_bind,running_ends,ends_ite] at run
      obtain ⟨_,_,⟨rfl,rfl⟩,_,t3,copied,stack,t4,asked,run⟩ := run
      have heap3 : t3.heap = m.heap := (setPcb_heap copied).trans (heap2.trans heap1)
      have view3 := setPcb_procs (g := fun _ => t2.procs.pcb t2.procs.current) (fun _ => rfl) copied
      dsimp only at view2
      rw [view2] at view3
      have none : m.heap.answer m.heap.asked = 0 → m.heap.offers = false := fun zero => by
        simp [Heap.offers,zero]
      rcases mallocStack_procs asked with ⟨offers,given,view4⟩ | ⟨offers,given,view4⟩
      · rw [heap3] at offers given
        rcases run with ⟨zero,_⟩ | ⟨_,run⟩
        · rw [none (given ▸ zero)] at offers
          cases offers
        · have view5 := bear_procs run
          rw [view4,view3] at view5
          exact .born first offers given view5
      · rw [heap3] at offers
        rcases run with ⟨_,run⟩ | ⟨some,_⟩
        · have view5 := setGpr_procs run
          rw [view4,view3] at view5
          exact .poor first offers view5
        · exact absurd given some

-- The stack goes back to the allocator, which must have given it out.
def Procs.Owns (v : Procs) (pid : Fin pcbSize) : Prop := (v.pcb pid).stack = 0 ∨ (v.pcb pid).stack ∈ v.areas

theorem doExit_procs (run : doExit.Ends m () m') :
    m.procs.Owns m.current ∧ m'.procs = m.procs.exit ∧ m'.procs.alloc ≠ 0 := by
  unfold doExit at run
  simp only [ends_bind,running_ends,ends_read,haltIfNone_ends] at run
  obtain ⟨_,t1,ended,_,_,⟨rfl,rfl⟩,_,t2,freed,_,t3,closed,_,_,⟨rfl,rfl⟩,_,t4,dropped,some,rfl⟩ := run
  have view1 := setRunning_procs (g := fun p => {p with status := .terminated}) (fun _ => rfl) ended
  obtain ⟨owned,view2⟩ := freeStack_procs freed
  have view3 := (calmFrame.closeAll _).same closed
  have view4 := dropBit_procs dropped
  have stack : (t1.pcb t1.current).stack = (m.pcb m.current).stack := by
    show (t1.procs.pcb t1.procs.current).stack = _
    rw [view1]
    exact congrArg Proc.stack (Procs.setPcb_self ..)
  have areas : t1.heap.areas = m.procs.areas := by
    show t1.procs.areas = _
    rw [view1]
    rfl
  rw [stack] at owned view2
  rw [areas] at owned
  have current : t3.current = m.current := by
    show t3.procs.current = m.procs.current
    rw [view3,view2,view1]
    rfl
  rw [current,view3,view2,view1] at view4
  exact ⟨owned,view4,some⟩

theorem killProcess_procs {pid : Fin pcbSize} (run : (killProcess pid).Ends m () m') :
    (m.procs.Alive pid → m.procs.Owns pid) ∧ m'.procs = m.procs.kill pid ∧ m'.procs.alloc ≠ 0 := by
  unfold killProcess at run
  simp only [ends_bind,ends_processExists,ends_ite,haltIfNone_ends] at run
  obtain ⟨_,_,⟨rfl,rfl⟩,⟨here,_,t1,dropped,_,_,stack,_,t2,freed,some,rfl⟩ | ⟨gone,some,rfl⟩⟩ := run
  · obtain ⟨rfl,rfl⟩ := ends_read.mp stack
    have view1 := dropBit_procs dropped
    obtain ⟨owned,view2⟩ := freeStack_procs freed
    have same : (t1.pcb pid).stack = (m.procs.pcb pid).stack := by
      show (t1.procs.pcb pid).stack = _
      rw [view1]
      rfl
    have areas : t1.heap.areas = m.procs.areas := by
      show t1.procs.areas = _
      rw [view1]
      rfl
    rw [same] at owned view2
    rw [areas] at owned
    refine ⟨fun _ => owned,?_,some⟩
    unfold Procs.kill
    rw [if_pos (show m.procs.Alive pid from here),view2,view1]
  · refine ⟨fun here => absurd here gone,?_,some⟩
    unfold Procs.kill
    rw [if_neg (show ¬ m.procs.Alive pid from gone)]

theorem doExec_procs (run : doExec.Ends m () m') : m'.procs = m.procs.exec := by
  obtain ⟨_,rfl⟩ := ends_of_ok rfl run
  rfl

theorem slot_ends {table : Table} {n : Nat} {index : Int} {i : Fin n} :
    (slot table n index).Ends m i m' ↔ index = i.val ∧ m = m' := by
  unfold slot
  simp only [ends_bind,ends_note]
  constructor
  · rintro ⟨_,_,rfl,run⟩
    split at run
    · rcases ends_ite.mp run with ⟨pos,run⟩ | ⟨_,run⟩
      · obtain ⟨rfl,rfl⟩ := ends_pure.mp run
        exact ⟨(Int.toNat_of_nonneg pos).symm,rfl⟩
      · exact absurd run ends_stop
    · exact absurd run ends_stop
  · rintro ⟨rfl,rfl⟩
    refine ⟨(),_,rfl,?_⟩
    rw [dif_pos (show ((i.val : Int)).toNat < n from i.isLt),ends_ite]
    exact .inl ⟨Int.natCast_nonneg _,ends_pure.mpr ⟨rfl,rfl⟩⟩

-- A wait that comes back names a semaphore of the table; it is granted or blocks.
inductive Waited (v : Procs) (semId x : UInt32) : Bool → Procs → Prop where
  | granted (i : Fin pcbSize) : semId.toNat = i.val → v.sem i ≥ x → Waited v semId x true (v.take i x)
  | blocked (i : Fin pcbSize) : semId.toNat = i.val → ¬ v.sem i ≥ x → Waited v semId x false (v.block semId x)

theorem doSemWait_procs {semId x : UInt32} {granted : Bool} (run : (doSemWait semId x).Ends m granted m') :
    Waited m.procs semId x granted m'.procs := by
  unfold doSemWait at run
  simp only [ends_bind,ends_ite,slot_ends,ends_read] at run
  have inside : ∃ i : Fin pcbSize,semId.toNat = i.val ∧
      ((m.sem i ≥ x ∧ ∃ a t,(setSem i (m.sem i - x)).Ends m a t ∧ (pure true : Sys Bool).Ends t granted m') ∨
        ¬ m.sem i ≥ x ∧ ∃ a t,(setRunning fun p => {p with status := .waiting}).Ends m a t ∧
          ∃ b u,malloc.Ends t b u ∧ (b = true ∧ (∃ a w,(setRunning fun p => {p with waiting := ⟨semId,x⟩}).Ends u a w ∧
            (pure false : Sys Bool).Ends w granted m') ∨ ¬ b = true ∧ (Prog.stop .null : Sys Bool).Ends u granted m')) := by
    rcases run with ⟨outside,_,_,_,i,_,⟨index,_⟩,_⟩ | ⟨_,i,_,⟨index,rfl⟩,_,_,⟨rfl,rfl⟩,run⟩
    · have bound := i.isLt
      omega
    · exact ⟨i,by omega,run⟩
  obtain ⟨i,index,⟨enough,_,t1,taken,done⟩ | ⟨short,_,t1,waits,b,t2,asked,⟨_,_,t3,noted,done⟩ | ⟨_,run⟩⟩⟩ := inside
  · obtain ⟨_,rfl⟩ := ends_of_ok rfl taken
    obtain ⟨rfl,rfl⟩ := ends_pure.mp done
    exact .granted i index enough
  · obtain ⟨rfl,rfl⟩ := ends_pure.mp done
    have view1 := setRunning_procs (g := fun p => {p with status := .waiting}) (fun _ => rfl) waits
    have view2 := calmFrame.malloc.same asked
    have view3 := setRunning_procs (g := fun p => {p with waiting := ⟨semId,x⟩}) (fun _ => rfl) noted
    have current : t2.current = m.current := by
      show t2.procs.current = _
      rw [view2,view1]
      rfl
    have all : t3.procs = m.procs.block semId x := by
      rw [view3,current,view2,view1]
      exact Procs.setPcb_setPcb ..
    rw [all]
    exact .blocked i index short
  · exact absurd run ends_stop

inductive Waits (v : Procs) (semId x : UInt32) : Procs → Prop where
  | granted (i : Fin pcbSize) : semId.toNat = i.val → v.sem i ≥ x → Waits v semId x (v.take i x)
  | blocked (i : Fin pcbSize) : semId.toNat = i.val → ¬ v.sem i ≥ x →
      Waits v semId x ((v.block semId x).next .waiting)

inductive Inits (v : Procs) (semId init : UInt32) : Procs → Prop where
  | refused : init.toNat ≥ pcbSize → Inits v semId init (v.setRegs 0 (ofBool false))
  | posted (i : Fin pcbSize) : init.toNat < pcbSize → semId.toNat = i.val →
      Inits v semId init ((v.doSemPost semId (init - v.sem i)).setRegs 0 (ofBool true))

inductive Kills (v : Procs) (pid : Int) : Procs → Prop where
  | none : ¬ (0 ≤ pid ∧ pid < pcbSize) → Kills v pid v
  | one (i : Fin pcbSize) : pid = i.val → (v.Alive i → v.Owns i) → (v.kill i).alloc ≠ 0 → Kills v pid (v.kill i)

-- What a call that returns has done to the processes.
inductive ProcsAfter (m : Machine) (v : Procs) : Event → Prop where
  | stays {id : UInt32} : v = m.procs → ProcsAfter m v (.irq id)
  | ticks {id : UInt32} : v = m.procs.next .ready → ProcsAfter m v (.irq id)
  | yields {id : UInt32} : id.toNat = 0x00 → v = m.procs.next .ready → ProcsAfter m v (.svc id)
  | forks {id : UInt32} : id.toNat = 0x03 → Forked m v → ProcsAfter m v (.svc id)
  | exits {id : UInt32} : id.toNat = 0x04 → m.procs.Owns m.current → m.procs.exit.alloc ≠ 0 →
      v = m.procs.exit.next .terminated → ProcsAfter m v (.svc id)
  | execs {id : UInt32} : id.toNat = 0x05 → v = m.procs.exec → ProcsAfter m v (.svc id)
  | kills {id : UInt32} : id.toNat = 0x06 → Kills m.procs (toInt (m.ctx.gpr 0)) v → ProcsAfter m v (.svc id)
  | inits {id : UInt32} : id.toNat = 0x08 → Inits m.procs (m.ctx.gpr 0) (m.ctx.gpr 1) v → ProcsAfter m v (.svc id)
  | posts {id : UInt32} : id.toNat = 0x09 → v = m.procs.doSemPost (m.ctx.gpr 0) (m.ctx.gpr 1) → ProcsAfter m v (.svc id)
  | waits {id : UInt32} : id.toNat = 0x0A → Waits m.procs (m.ctx.gpr 0) (m.ctx.gpr 1) v → ProcsAfter m v (.svc id)
  | execxs {id : UInt32} : id.toNat = 0x0F → v = m.procs.exec.setRegs 0 (m.ctx.gpr 1) → ProcsAfter m v (.svc id)
  | other {id : UInt32} : id.toNat ∉ [0x00,0x03,0x04,0x05,0x06,0x08,0x09,0x0A,0x0F] →
      (v = m.procs ∨ ∃ r,v = m.procs.setRegs 0 r) → ProcsAfter m v (.svc id)

theorem gpr_ends {n : Fin 13} {w : UInt32} : (gpr n).Ends m w m' ↔ m.ctx.gpr n = w ∧ m = m' := ends_read

theorem svcExit_did (run : svcExit.Ends m () m') :
    m.procs.Owns m.current ∧ m.procs.exit.alloc ≠ 0 ∧ m'.procs = m.procs.exit.next .terminated := by
  obtain ⟨_,t,ended,switched⟩ := ends_bind.mp run
  obtain ⟨owned,view,some⟩ := doExit_procs ended
  have after := next_procs switched
  rw [view] at some after
  exact ⟨owned,some,after⟩

theorem svcKill_did (run : svcKill.Ends m () m') : Kills m.procs (toInt (m.ctx.gpr 0)) m'.procs := by
  unfold svcKill at run
  simp only [ends_bind,gpr_ends] at run
  obtain ⟨_,_,⟨rfl,rfl⟩,run⟩ := run
  unfold doKill at run
  split at run
  · rename_i bound
    rcases ends_ite.mp run with ⟨pos,run⟩ | ⟨neg,run⟩
    · obtain ⟨owned,view,some⟩ := killProcess_procs run
      rw [view] at some ⊢
      exact .one _ (Int.toNat_of_nonneg pos).symm owned some
    · obtain ⟨_,rfl⟩ := ends_pure.mp run
      exact .none fun inside => neg inside.1
  · rename_i outside
    obtain ⟨_,rfl⟩ := ends_pure.mp run
    refine .none fun inside => outside ?_
    have top := inside.2
    have cast : ((toInt (m.ctx.gpr 0)).toNat : Int) = toInt (m.ctx.gpr 0) := Int.toNat_of_nonneg inside.1
    omega

theorem svcNice_did (run : svcNice.Ends m () m') : m'.procs = m.procs := by
  have calm : Calm svcNice := by
    refine keeps_bind keeps_read fun _ => keeps_bind keeps_read fun _ => ?_
    refine keeps_ite (fun _ => keeps_pure) fun _ => keeps_bind (calmFrame.slot ..) fun pid => ?_
    exact setPcb_calm fun _ => rfl
  exact calm.same run

theorem svcSemInit_did (run : svcSemInit.Ends m () m') :
    Inits m.procs (m.ctx.gpr 0) (m.ctx.gpr 1) m'.procs := by
  unfold svcSemInit at run
  simp only [ends_bind,gpr_ends,ends_ite,slot_ends,ends_read] at run
  obtain ⟨_,_,⟨rfl,rfl⟩,_,_,⟨rfl,rfl⟩,⟨big,run⟩ | ⟨small,i,_,⟨index,rfl⟩,_,_,⟨rfl,rfl⟩,_,t,posted,run⟩⟩ := run
  · rw [setGpr_procs run]
    exact .refused big
  · rw [setGpr_procs run,doSemPost_procs posted]
    exact .posted i (by omega) (by omega)

theorem svcSemPost_did (run : svcSemPost.Ends m () m') :
    m'.procs = m.procs.doSemPost (m.ctx.gpr 0) (m.ctx.gpr 1) := by
  unfold svcSemPost at run
  simp only [ends_bind,gpr_ends] at run
  obtain ⟨_,_,⟨rfl,rfl⟩,_,_,⟨rfl,rfl⟩,run⟩ := run
  exact doSemPost_procs run

theorem svcSemWait_did (run : svcSemWait.Ends m () m') :
    Waits m.procs (m.ctx.gpr 0) (m.ctx.gpr 1) m'.procs := by
  unfold svcSemWait at run
  simp only [ends_bind,gpr_ends,ends_ite] at run
  obtain ⟨_,_,⟨rfl,rfl⟩,_,_,⟨rfl,rfl⟩,granted,t,waited,run⟩ := run
  have view := doSemWait_procs waited
  generalize after : t.procs = v at view
  cases view with
  | granted i index enough =>
      rcases run with ⟨_,run⟩ | ⟨no,_⟩
      · obtain ⟨_,rfl⟩ := ends_pure.mp run
        rw [after]
        exact .granted i index enough
      · exact absurd rfl no
  | blocked i index short =>
      rcases run with ⟨yes,_⟩ | ⟨_,run⟩
      · cases yes
      · rw [next_procs run,after]
        exact .blocked i index short

theorem svcExecx_did (run : svcExecx.Ends m () m') : m'.procs = m.procs.exec.setRegs 0 (m.ctx.gpr 1) := by
  unfold svcExecx at run
  simp only [ends_bind,gpr_ends] at run
  obtain ⟨_,t,moved,_,_,⟨rfl,rfl⟩,run⟩ := run
  rw [setGpr_procs run,doExec_procs moved]
  obtain ⟨_,rfl⟩ := ends_of_ok rfl moved
  rfl

theorem answered {t : Machine} {w : UInt32} (same : t.procs = m.procs) (run : (setGpr 0 w).Ends t () m') :
    ∃ r,m'.procs = m.procs.setRegs 0 r := ⟨w,by rw [setGpr_procs run,same]⟩

theorem answers {α : Type} {p : Sys α} {f : α → UInt32} (calm : Calm p)
    (run : (p >>= fun a => setGpr 0 (f a)).Ends m () m') : ∃ r,m'.procs = m.procs.setRegs 0 r := by
  obtain ⟨a,t,first,last⟩ := ends_bind.mp run
  refine ⟨f a,?_⟩
  rw [setGpr_procs last,calm.same first]

theorem svcWrite_did (run : svcWrite.Ends m () m') : ∃ r,m'.procs = m.procs.setRegs 0 r := by
  unfold svcWrite at run
  simp only [ends_bind,gpr_ends] at run
  obtain ⟨_,_,⟨rfl,rfl⟩,_,_,⟨rfl,rfl⟩,_,_,⟨rfl,rfl⟩,n,t,wrote,run⟩ := run
  exact answers (calmFrame.doWrite ..) (ends_bind.mpr ⟨n,t,wrote,run⟩)

theorem svcRead_did (run : svcRead.Ends m () m') : ∃ r,m'.procs = m.procs.setRegs 0 r := by
  unfold svcRead at run
  simp only [ends_bind,gpr_ends] at run
  obtain ⟨_,_,⟨rfl,rfl⟩,_,_,⟨rfl,rfl⟩,_,_,⟨rfl,rfl⟩,n,t,done,run⟩ := run
  exact answers (calmFrame.doRead ..) (ends_bind.mpr ⟨n,t,done,run⟩)

theorem svcClose_did (run : svcClose.Ends m () m') : ∃ r,m'.procs = m.procs.setRegs 0 r := by
  unfold svcClose at run
  simp only [ends_bind,gpr_ends] at run
  obtain ⟨_,_,⟨rfl,rfl⟩,done,t,closed,run⟩ := run
  exact answers (calmFrame.doClose _) (ends_bind.mpr ⟨done,t,closed,run⟩)

theorem svcCd_did (run : svcCd.Ends m () m') : ∃ r,m'.procs = m.procs.setRegs 0 r := by
  unfold svcCd at run
  simp only [ends_bind,gpr_ends] at run
  obtain ⟨_,_,⟨rfl,rfl⟩,done,t,moved,run⟩ := run
  exact answers (calmFrame.doCd (fun _ => setRunning_calm fun _ => rfl) _) (ends_bind.mpr ⟨done,t,moved,run⟩)

theorem svcOpen_did (run : svcOpen.Ends m () m') : ∃ r,m'.procs = m.procs.setRegs 0 r := by
  unfold svcOpen at run
  obtain ⟨p,_,here,run⟩ := ends_bind.mp run
  obtain ⟨rfl,rfl⟩ := running_ends.mp here
  dsimp only at run
  split at run
  · exact answered rfl run
  · simp only [ends_bind,gpr_ends,ends_ite] at run
    obtain ⟨_,_,⟨rfl,rfl⟩,_,_,⟨rfl,rfl⟩,f,t,opened,⟨_,_,u,set,run⟩ | ⟨_,run⟩⟩ := run
    · exact answered (((calmFrame.onFdt ..).same set).trans ((calmFrame.doOpen ..).same opened)) run
    · exact answered ((calmFrame.doOpen ..).same opened) run

theorem svcFdSwap_did (run : svcFdSwap.Ends m () m') : ∃ r,m'.procs = m.procs.setRegs 0 r := by
  unfold svcFdSwap at run
  simp only [ends_bind,gpr_ends,ends_ite] at run
  obtain ⟨_,_,⟨rfl,rfl⟩,_,_,⟨rfl,rfl⟩,⟨_,run⟩ |
    ⟨_,_,t1,one,_,t2,two,_,t3,at1,_,t4,set1,_,t5,at2,_,t6,set2,run⟩⟩ := run
  · exact answered rfl run
  · refine answered ?_ run
    rw [(calmFrame.onFdt ..).same set2,(calmFrame.slot ..).same at2,(calmFrame.onFdt ..).same set1,
      (calmFrame.slot ..).same at1,(calmFrame.fdtAt _).same two,(calmFrame.fdtAt _).same one]

theorem svcPipe_did (run : svcPipe.Ends m () m') : m'.procs = m.procs := by
  have calm : Calm svcPipe := keeps_bind keeps_read fun _ => keeps_bind (calmFrame.doPipe _) fun _ => keeps_pure
  exact calm.same run

theorem path_did {f : Path → Mount → Option (Mount × Bool)}
    (run : (do let path ← absPath (← gpr 0); let yes ← fs (f path); setGpr 0 (ofBool yes) : Sys Unit).Ends m () m') :
    ∃ r,m'.procs = m.procs.setRegs 0 r := by
  simp only [ends_bind,gpr_ends] at run
  obtain ⟨_,_,⟨rfl,rfl⟩,path,t1,named,yes,t2,done,run⟩ := run
  refine answered ?_ run
  rw [(calmFrame.onFs _).same done,(calmFrame.absPath _).same named]

theorem svcLs_did (run : svcLs.Ends m () m') : ∃ r,m'.procs = m.procs.setRegs 0 r := by
  unfold svcLs at run
  simp only [ends_bind,gpr_ends] at run
  obtain ⟨_,_,⟨rfl,rfl⟩,path,t1,named,_,_,⟨rfl,rfl⟩,⟨done,out⟩,t2,listed,_,_,⟨rfl,rfl⟩,_,t3,poked,run⟩ := run
  refine answered ?_ run
  rw [(calmFrame.onRam ..).same poked,(calmFrame.onFs _).same listed,(calmFrame.absPath _).same named]

theorem svcGetwd_did (run : svcGetwd.Ends m () m') : ∃ r,m'.procs = m.procs.setRegs 0 r := by
  obtain ⟨_,rfl⟩ := ends_of_ok rfl run
  exact ⟨_,rfl⟩

theorem handle_did {e : Event} (run : (handle e).Ends m () m') : ProcsAfter m m'.procs e := by
  cases e with
  | irq id =>
      change (irq id).Ends m () m' at run
      unfold irq at run
      rcases ends_ite.mp run with ⟨_,run⟩ | ⟨_,run⟩
      · rcases schedule_procs run with same | switched
        · exact .stays same
        · exact .ticks switched
      · obtain ⟨_,rfl⟩ := ends_pure.mp run
        exact .stays rfl
  | svc id =>
      change (svc id).Ends m () m' at run
      unfold svc at run
      have other : ∀ {n},id.toNat = n → n ∉ [0x00,0x03,0x04,0x05,0x06,0x08,0x09,0x0A,0x0F] →
          (m'.procs = m.procs ∨ ∃ r,m'.procs = m.procs.setRegs 0 r) → ProcsAfter m m'.procs (.svc id) := by
        rintro _ rfl
        exact .other
      generalize call : id.toNat = n at run
      split at run
      · exact .yields call (next_procs run)
      · exact other call (by decide) (.inr (svcWrite_did run))
      · exact other call (by decide) (.inr (svcRead_did run))
      · exact .forks call (doFork_procs run)
      · obtain ⟨owned,some,view⟩ := svcExit_did run
        exact .exits call owned some view
      · exact .execs call (doExec_procs run)
      · exact .kills call (svcKill_did run)
      · exact other call (by decide) (.inl (svcNice_did run))
      · exact .inits call (svcSemInit_did run)
      · exact .posts call (svcSemPost_did run)
      · exact .waits call (svcSemWait_did run)
      · exact other call (by decide) (.inr (svcOpen_did run))
      · exact other call (by decide) (.inr (svcClose_did run))
      · exact other call (by decide) (.inr (svcFdSwap_did run))
      · exact other call (by decide) (.inl (svcPipe_did run))
      · exact .execxs call (svcExecx_did run)
      · exact other call (by decide) (.inr (path_did run))
      · exact other call (by decide) (.inr (path_did run))
      · exact other call (by decide) (.inr (svcCd_did run))
      · exact other call (by decide) (.inr (svcLs_did run))
      · exact other call (by decide) (.inr (path_did run))
      · exact other call (by decide) (.inr (path_did run))
      · exact other call (by decide) (.inr (path_did run))
      · exact other call (by decide) (.inr (svcGetwd_did run))
      · obtain ⟨_,rfl⟩ := ends_pure.mp run
        refine other call (fun member => ?_) (.inl rfl)
        simp only [List.mem_cons,List.not_mem_nil,or_false] at member
        rcases member with same | same | same | same | same | same | same | same | same <;> contradiction

end Calls
end ArchiveOs.Kernel
