import ArchiveOs.Bitmaps
import ArchiveOs.ProcCalls

-- The kernel as the reset handler leaves it.
namespace ArchiveOs.Kernel
open Fs2
open Prog

section Boot
variable {m m' : Machine}

-- What the allocator has been asked for, and what it will answer.
def Machine.requests (m : Machine) : Nat × (Nat → UInt32) := (m.heap.asked,m.heap.answer)

theorem initFs_keeps {View : Type} {view : Machine → View} (same : ∀ m s,view {m with fs := s} = view m) :
    Keeps view initFs := by
  unfold initFs
  refine keeps_bind keeps_read fun s => ?_
  exact keeps_ite (fun _ => keeps_lift same) fun _ => keeps_lift same

theorem ask_ends {r : Nat × UInt32} : ask.Ends m r m' ↔
    (m.heap.asked,m.heap.answer m.heap.asked) = r ∧ {m with heap := {m.heap with asked := m.heap.asked + 1}} = m' := by
  unfold ask setHeap
  simp only [ends_bind,ends_read,ends_update,ends_pure]
  constructor
  · rintro ⟨_,_,⟨rfl,rfl⟩,_,_,rfl,rfl,rfl⟩
    exact ⟨rfl,rfl⟩
  · rintro ⟨rfl,rfl⟩
    exact ⟨_,_,⟨rfl,rfl⟩,(),_,rfl,rfl,rfl⟩

theorem mallocFdte_requests {p : Option UInt32} (run : mallocFdte.Ends m p m') :
    m'.requests = (m.heap.asked + 1,m.heap.answer) := by
  unfold mallocFdte setFdte setHeap at run
  simp only [ends_bind,ask_ends,ends_read,ends_ite,ends_pure,ends_update] at run
  obtain ⟨_,_,⟨rfl,rfl⟩,_,_,⟨rfl,rfl⟩,⟨_,_,rfl⟩ | ⟨_,_,_,rfl,_,rfl⟩⟩ := run <;> rfl

theorem deref_ends {p : Option UInt32} {r : UInt32 × Fdte} :
    (deref p).Ends m r m' ↔ p = some r.1 ∧ m.heap.fdtes r.1 = some r.2 ∧ m = m' := by
  cases p with
  | none =>
      unfold deref
      simp
  | some p =>
      unfold deref
      simp only [ends_bind,ends_read,Option.some.injEq]
      constructor
      · rintro ⟨e,_,⟨here,rfl⟩,run⟩
        cases e with
        | none => exact absurd run ends_stop
        | some e =>
            obtain ⟨rfl,rfl⟩ := ends_pure.mp run
            exact ⟨rfl,here,rfl⟩
      · rintro ⟨rfl,here,rfl⟩
        exact ⟨_,_,⟨here,rfl⟩,ends_pure.mpr ⟨rfl,rfl⟩⟩

theorem openUart_requests {i : Fin openSize} {mode : Fmode} (run : (openUart i mode).Ends m () m') :
    m'.requests = (m.heap.asked + 1,m.heap.answer) := by
  unfold openUart at run
  simp only [ends_bind,deref_ends] at run
  obtain ⟨p,t1,given,_,_,⟨_,_,rfl⟩,_,t2,filled,opened⟩ := run
  have first := mallocFdte_requests given
  obtain ⟨_,rfl⟩ := ends_of_ok rfl filled
  obtain ⟨_,rfl⟩ := ends_of_ok rfl opened
  exact first

theorem openUart_calm (i : Fin openSize) (mode : Fmode) : Calm (openUart i mode) := by
  refine keeps_bind calmFrame.mallocFdte fun p => keeps_bind (calmFrame.deref _) fun ⟨_,_⟩ => ?_
  exact keeps_bind (calmFrame.onObject ..) fun _ => calmFrame.onOpenft ..

-- The first process alone, and nothing asked of the semaphores.
structure Booted (v : Procs) : Prop where
  alloc : v.alloc = bit 0
  current : v.current = 0
  status : (v.pcb 0).status = .executing
  pid : (v.pcb 0).pid = 0
  stack : (v.pcb 0).stack ≠ 0
  areas : v.areas = [(v.pcb 0).stack]
  sem : ∀ i,v.sem i = 0
  rest : ∀ i,i ≠ 0 → (v.pcb i).status = .created

theorem Booted.only {v : Procs} (b : Booted v) {i : Fin pcbSize} (live : v.Alive i) : i = 0 := by
  have one : ∀ i : Fin pcbSize,alive (bit 0) i = true → i = 0 := by decide
  unfold Procs.Alive at live
  rw [b.alloc] at live
  exact one i live

theorem firstFree_zero {v : Procs} (none : v.alloc = 0) : v.firstFree = some 0 := by
  unfold Procs.firstFree
  rw [none]
  decide

theorem newUserProc_procs {entry : UInt32} {priority : Int} {r : Option (Fin pcbSize)} (empty : m.pcballoc = 0)
    (offers : m.heap.offers = true) (run : (newUserProc entry priority).Ends m r m') :
    r = some 0 ∧ ∃ fresh : Proc,fresh.pid = 0 ∧ fresh.status = .created ∧ fresh.stack = m.heap.answer m.heap.asked ∧
      m'.procs = ((m.procs.addBit 0).grant fresh.stack).setPcb 0 fun _ => fresh := by
  unfold newUserProc at run
  simp only [ends_bind] at run
  obtain ⟨first,t1,entered,run⟩ := run
  obtain ⟨free,heap,view1⟩ := newPcbEntry_procs entered
  rw [firstFree_zero empty] at free
  subst free
  simp only [ends_bind,ends_pure] at run view1
  obtain ⟨stack,t2,asked,_,t3,filled,rfl,rfl⟩ := run
  refine ⟨rfl,?_⟩
  have view3 := setPcb_procs (g := fun _ => ⟨0,.created,⟨0,0⟩,stack,⟨0x50,entry,fun _ => 0,stack + 0x1000,0⟩⟩)
    (fun _ => rfl) filled
  rcases mallocStack_procs asked with ⟨_,given,view2⟩ | ⟨fails,_⟩
  · rw [heap] at given
    rw [view2,view1] at view3
    exact ⟨_,rfl,rfl,given,view3⟩
  · rw [heap,offers] at fails
    cases fails

theorem boot_booted {zero : Machine} {entry : UInt32} (z : zero.Zero) (run : (boot entry).Ends zero () m) :
    Booted m.procs := by
  unfold boot startInit at run
  simp only [ends_bind] at run
  obtain ⟨_,t1,loaded,_,t2,uart1,_,t3,uart2,_,t4,uart3,r,t5,entered,switch⟩ := run
  have ask1 : t1.requests = zero.requests := (initFs_keeps fun _ _ => rfl).same loaded
  have ask2 : t2.requests = (t1.requests.1 + 1,t1.requests.2) := openUart_requests uart1
  have ask3 : t3.requests = (t2.requests.1 + 1,t2.requests.2) := openUart_requests uart2
  have ask4 : t4.requests = (t3.requests.1 + 1,t3.requests.2) := openUart_requests uart3
  rw [ask3,ask2,ask1] at ask4
  have asked : t4.heap.asked = 3 := (congrArg Prod.fst ask4).trans (congrArg (· + 1 + 1 + 1) z.asked)
  have answer : t4.heap.answer = zero.heap.answer := congrArg Prod.snd ask4
  have view : t4.procs = zero.procs := by
    rw [(openUart_calm ..).same uart3,(openUart_calm ..).same uart2,(openUart_calm ..).same uart1]
    exact (initFs_keeps fun _ _ => rfl).same loaded
  have empty : t4.pcballoc = 0 := (congrArg Procs.alloc view).trans z.pcballoc
  have areas : t4.heap.areas = [] := (congrArg Procs.areas view).trans z.areas
  have offers : t4.heap.offers = true := by
    unfold Heap.offers
    rw [asked,answer,areas]
    exact decide_eq_true ⟨z.room.1,z.room.2,rfl⟩
  obtain ⟨rfl,fresh,pid,created,stack,view5⟩ := newUserProc_procs empty offers entered
  rw [asked,answer] at stack
  rw [view] at view5
  have switched : m.procs = {({t5.procs with regs := (t5.procs.pcb 0).saved} : Procs).setPcb 0 fun p =>
      {p with status := .executing} with current := (t5.procs.pcb 0).pid} := by
    obtain ⟨_,rfl⟩ := ends_of_ok rfl switch
    have starts := procs_setPcb {t5 with ctx := (t5.pcb 0).ctx} 0 (f := fun p => {p with status := .executing})
      (g := fun p => {p with status := .executing}) fun _ => rfl
    exact congrArg (fun v : Procs => {v with current := (t5.pcb 0).pid}) starts
  have here : t5.procs.pcb 0 = fresh := by
    rw [view5]
    exact Procs.setPcb_self ..
  have there : m.procs.pcb 0 = {fresh with status := .executing} := by
    rw [switched]
    show put t5.procs.pcb 0 {t5.procs.pcb 0 with status := .executing} 0 = _
    rw [put_self,here]
  refine ⟨?_,?_,?_,?_,?_,?_,?_,?_⟩
  · rw [switched,view5]
    show zero.pcballoc ||| bit 0 = bit 0
    rw [z.pcballoc]
    rfl
  · rw [switched]
    show (t5.procs.pcb 0).pid = 0
    rw [here,pid]
  · rw [there]
  · rw [there]
    exact pid
  · rw [there]
    show fresh.stack ≠ 0
    rw [stack]
    exact z.room.1
  · rw [there,switched,view5]
    show fresh.stack :: zero.heap.areas = [fresh.stack]
    rw [z.areas]
  · intro i
    rw [switched,view5]
    exact z.sem i
  · intro i other
    rw [switched]
    refine (congrArg Proc.status (put_other _ _ other)).trans ?_
    rw [view5]
    refine (congrArg Proc.status (put_other _ _ other)).trans ?_
    exact z.status i

end Boot

-- A boot on a volume that the kernel finds in its place, from an allocator that
-- gives these answers.
def knownDisk : Disk := {zeroDisk with blk := fun _ => headerLayout {zeroHeader with ident := cwfsIdent}}

theorem loadVolume_known : (loadVolume ⟨{zeroVolume with blk0 := 0,outcome := .success},knownDisk⟩).vol.outcome = .success := by
  have layout : headerLayout.symm (headerLayout {zeroHeader with ident := cwfsIdent}) = {zeroHeader with ident := cwfsIdent} :=
    Equiv.symm_apply_apply ..
  unfold loadVolume
  simp only [rblk,Disk.rd,knownDisk,zeroDisk,Bool.false_eq_true,if_false,layout,Mount.withHblock,Mount.out]
  rfl

theorem blockDump_known : blockDump (loadVolume ⟨{zeroVolume with blk0 := 0,outcome := .success},knownDisk⟩) =
    some (loadVolume ⟨{zeroVolume with blk0 := 0,outcome := .success},knownDisk⟩) := by
  have layout : headerLayout.symm (headerLayout {zeroHeader with ident := cwfsIdent}) = {zeroHeader with ident := cwfsIdent} :=
    Equiv.symm_apply_apply ..
  have none : (loadVolume ⟨{zeroVolume with blk0 := 0,outcome := .success},knownDisk⟩).vol.hblock.nextInode = 0 := by
    unfold loadVolume
    simp only [rblk,Disk.rd,knownDisk,zeroDisk,Bool.false_eq_true,if_false,layout,Mount.withHblock,Mount.out]
    rfl
  unfold blockDump
  rw [none]
  rfl

def zeroPcb : Pcb where
  pid := 0
  status := .created
  basePriority := 0
  waiting := ⟨0,0⟩
  stack := 0
  fdt := fun _ => 0
  wd := emptyPath
  ctx := ⟨0,0,fun _ => 0,0,0⟩

def zeroFdte : Fdte := ⟨0,.uart,.null,0,emptyPath,0⟩
def zeroPipe : Pipe where
  buffer := Vector.replicate pipeSize 0
  reader := 0
  writer := 0
  full := false
  readerPid := 0
  writerPid := 0

def Machine.zero (answer : Nat → UInt32) : Machine where
  pcb _ := zeroPcb
  pcballoc := 0
  current := 0
  currentRuntime := 0
  sem _ := 0
  pipes _ := none
  openft _ := none
  heap := ⟨answer,0,fun _ => zeroFdte,fun _ => zeroPipe,fun _ => none,[]⟩
  fs := ⟨zeroVolume,knownDisk⟩
  ram _ := 0
  ctx := ⟨0,0,fun _ => 0,0,0⟩

def Machine.loaded (answer : Nat → UInt32) : Machine :=
  {Machine.zero answer with fs := loadVolume ⟨{zeroVolume with blk0 := 0,outcome := .success},knownDisk⟩}

theorem initFs_known (answer : Nat → UInt32) : initFs.Ends (Machine.zero answer) () (Machine.loaded answer) := by
  unfold initFs
  refine ends_bind.mpr ⟨_,_,ends_read.mpr ⟨rfl,rfl⟩,?_⟩
  exact ends_ite.mpr (.inl ⟨loadVolume_known,ends_lift.mpr ⟨_,congrArg (Option.map _) blockDump_known,rfl⟩⟩)

theorem zero_zero {answer : Nat → UInt32} (room : answer 3 ≠ 0 ∧ (answer 3).toNat + stackBytes ≤ 0x100000000) :
    (Machine.zero answer).Zero := by
  exact ⟨rfl,rfl,fun _ => rfl,fun _ => rfl,fun _ _ => rfl,fun _ => rfl,fun _ => rfl,fun _ => rfl,fun _ => rfl,fun _ => rfl,rfl,rfl,room⟩

abbrev initProgram : UInt32 := 0x70000000

def Machine.started (answer : Nat → UInt32) : Machine := (startInit initProgram).after (Machine.loaded answer)

theorem started_reached {admits : Machine → Event → Prop} {answer : Nat → UInt32}
    (room : answer 3 ≠ 0 ∧ (answer 3).toNat + stackBytes ≤ 0x100000000)
    (ok : (startInit initProgram).done (Machine.loaded answer) = true) : Reached admits (Machine.started answer) :=
  .boot (zero_zero room) (ends_bind.mpr ⟨(),_,initFs_known answer,ends_after ok⟩)

-- An allocator that is empty after the first `n` answers.
def few (n k : Nat) : UInt32 := if k < n then UInt32.ofNat (0x1000 * (k + 1)) else 0

def Machine.asks (m : Machine) (r0 r1 : UInt32) : Machine :=
  m.enter {m.ctx with gpr := put (put m.ctx.gpr 0 r0) 1 r1} m.ram

-- Where the machine stands after a call with these arguments.
def Machine.call (m : Machine) (id r0 r1 : UInt32) : Machine := (handle (.svc id)).after (m.asks r0 r1)

theorem Reached.calls {admits : Machine → Event → Prop} {m : Machine} {id r0 r1 : UInt32} (reached : Reached admits m)
    (ok : admits (m.asks r0 r1) (.svc id)) (ends : (handle (.svc id)).done (m.asks r0 r1) = true) :
    Reached admits (m.call id r0 r1) :=
  .call reached ok (ends_after ends)

-- What the source may do, without any condition on the calls.
abbrev Any : Machine → Event → Prop := fun _ _ => True

end ArchiveOs.Kernel
