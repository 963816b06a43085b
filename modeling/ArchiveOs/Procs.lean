import ArchiveOs.KernelCalls

-- The kernel seen through its processes: who is alive, who runs, who waits for
-- what, and which registers are kept for whom. Files and pipes are left out.
namespace ArchiveOs.Kernel
open Fs2
open Prog

structure Proc where
  pid : Fin pcbSize
  status : Status
  waiting : Semwait
  stack : UInt32
  saved : Ctx
  deriving DecidableEq

@[ext] structure Procs where
  pcb : Fin pcbSize → Proc
  alloc : UInt32
  current : Fin pcbSize
  sem : Fin pcbSize → UInt32
  areas : List UInt32
  regs : Ctx

def Pcb.proc (p : Pcb) : Proc := ⟨p.pid,p.status,p.waiting,p.stack,p.ctx⟩

def Machine.procs (m : Machine) : Procs where
  pcb i := (m.pcb i).proc
  alloc := m.pcballoc
  current := m.current
  sem := m.sem
  areas := m.heap.areas
  regs := m.ctx

namespace Procs

def Alive (v : Procs) (i : Fin pcbSize) : Prop := alive v.alloc i = true

instance (v : Procs) (i : Fin pcbSize) : Decidable (v.Alive i) := inferInstanceAs (Decidable (_ = true))

def canRun (v : Procs) (i : Fin pcbSize) : Bool := alive v.alloc i && (v.pcb i).status.canRun

def setRegs (v : Procs) (n : Fin 13) (w : UInt32) : Procs := {v with regs := {v.regs with gpr := put v.regs.gpr n w}}

def setPcb (v : Procs) (i : Fin pcbSize) (f : Proc → Proc) : Procs := {v with pcb := put v.pcb i (f (v.pcb i))}

@[simp] theorem setPcb_self (v : Procs) (i : Fin pcbSize) (f : Proc → Proc) : (v.setPcb i f).pcb i = f (v.pcb i) :=
  put_self ..

theorem setPcb_other (v : Procs) {i j : Fin pcbSize} (f : Proc → Proc) (other : j ≠ i) :
    (v.setPcb i f).pcb j = v.pcb j := put_other _ _ other

@[simp] theorem setPcb_setPcb (v : Procs) (i : Fin pcbSize) (f g : Proc → Proc) :
    (v.setPcb i f).setPcb i g = v.setPcb i fun p => g (f p) := by
  refine Procs.ext (funext fun j => ?_) rfl rfl rfl rfl rfl
  by_cases here : j = i
  · subst here
    rw [setPcb_self,setPcb_self,setPcb_self]
  · rw [setPcb_other _ _ here,setPcb_other _ _ here,setPcb_other _ _ here]

theorem setPcb_id (v : Procs) (i : Fin pcbSize) : v.setPcb i id = v := by
  refine Procs.ext (funext fun j => ?_) rfl rfl rfl rfl rfl
  by_cases here : j = i
  · rw [here,setPcb_self]
    rfl
  · exact setPcb_other v id here

def switchTo (v : Procs) (i : Fin pcbSize) (curStat : Status) : Procs :=
  let v := v.setPcb v.current fun p => {p with saved := v.regs,status := curStat}
  let p := v.pcb i
  {({v with regs := p.saved} : Procs).setPcb i fun p => {p with status := .executing} with current := p.pid}

def next (v : Procs) (curStat : Status) : Procs :=
  match Cycle.around v.canRun v.current with
  | none => v
  | some i => v.switchTo i curStat

def eligible (v : Procs) (semId x : UInt32) (i : Fin pcbSize) : Bool :=
  alive v.alloc i && ((v.pcb i).status = .waiting && ((v.pcb i).waiting.semId == semId && (v.pcb i).waiting.x ≤ x))

-- The process that a post wakes.
def chosen (v : Procs) (semId x : UInt32) : Option (Fin pcbSize) := Cycle.around (v.eligible semId x) v.current

def post (v : Procs) (sem : Fin pcbSize) (semId x : UInt32) : Procs :=
  match v.chosen semId x with
  | some i => ({v with sem := put v.sem sem (v.sem sem + (x - (v.pcb i).waiting.x))} : Procs).setPcb i fun p =>
      {p with status := .ready}
  | none => {v with sem := put v.sem sem (v.sem sem + x)}

def doSemPost (v : Procs) (semId x : UInt32) : Procs :=
  if bound : semId.toNat < pcbSize then
    if x = 0 then v else v.post ⟨semId.toNat,bound⟩ semId x
  else v

-- A wait that is not granted.
def block (v : Procs) (semId x : UInt32) : Procs :=
  v.setPcb v.current fun p => {p with status := .waiting,waiting := ⟨semId,x⟩}

def take (v : Procs) (sem : Fin pcbSize) (x : UInt32) : Procs := {v with sem := put v.sem sem (v.sem sem - x)}

def freeStack (v : Procs) (stack : UInt32) : Procs :=
  {v with areas := if stack = 0 then v.areas else v.areas.erase stack}

def dropBit (v : Procs) (pid : Fin pcbSize) : Procs := {v with alloc := v.alloc - bit pid}

def exit (v : Procs) : Procs :=
  ((v.setPcb v.current fun p => {p with status := .terminated}).freeStack (v.pcb v.current).stack).dropBit v.current

def kill (v : Procs) (pid : Fin pcbSize) : Procs :=
  if v.Alive pid then (v.dropBit pid).freeStack (v.pcb pid).stack else v

-- The registers are saved for the parent whatever becomes of the child.
def saveRegs (v : Procs) : Procs := v.setPcb v.current fun p => {p with saved := v.regs}

def addBit (v : Procs) (i : Fin pcbSize) : Procs := {v with alloc := v.alloc ||| bit i}

-- The entry of the child is a copy of its parent's at first.
def copyTo (v : Procs) (child : Fin pcbSize) : Procs := v.setPcb child fun _ => v.pcb v.current

def grant (v : Procs) (stack : UInt32) : Procs := {v with areas := stack :: v.areas}

-- The child gets its own pid and stack.
def birth (v : Procs) (child : Fin pcbSize) (stack : UInt32) : Procs :=
  let v := v.setPcb child fun p => {p with pid := child,status := .created}
  let sCur := (v.pcb v.current).stack
  v.setPcb child fun p => {p with
    saved := {p.saved with sp := p.saved.sp + (stack - sCur),gpr := put p.saved.gpr 0 0}
    stack := stack}

def exec (v : Procs) : Procs := {v with
  regs := {v.regs with pc := v.regs.gpr 0,sp := (v.pcb v.current).stack + 0x1000,cpsr := 0x50}}

def firstFree (v : Procs) : Option (Fin pcbSize) := (List.finRange pcbSize).find? fun i => !alive v.alloc i

end Procs

section Reads
variable {m m' : Machine}

theorem ends_processExists {i : Fin pcbSize} {a : Bool} :
    (processExists i).Ends m a m' ↔ alive m.pcballoc i = a ∧ m = m' := by
  unfold processExists
  simp

theorem ends_processCanRun {i : Fin pcbSize} {a : Bool} :
    (processCanRun i).Ends m a m' ↔ m.procs.canRun i = a ∧ m = m' := by
  unfold processCanRun
  simp only [ends_bind,ends_processExists,ends_ite,ends_read,ends_pure,Procs.canRun]
  show (∃ b t,(alive m.pcballoc i = b ∧ m = t) ∧ _) ↔ (alive m.pcballoc i && (m.pcb i).status.canRun) = a ∧ _
  cases alive m.pcballoc i <;> simp

theorem ends_eligible {semId x : UInt32} {i : Fin pcbSize} {a : Bool} :
    (eligible semId x i).Ends m a m' ↔ m.procs.eligible semId x i = a ∧ m = m' := by
  unfold eligible
  simp only [ends_bind,ends_processExists,ends_ite,ends_read,ends_pure]
  show (∃ b t,(alive m.pcballoc i = b ∧ m = t) ∧ _) ↔ (alive m.pcballoc i && (decide ((m.pcb i).status = .waiting) &&
    ((m.pcb i).waiting.semId == semId && decide ((m.pcb i).waiting.x ≤ x)))) = a ∧ _
  cases alive m.pcballoc i <;> simp

theorem put_map {n : Nat} {α β : Type} (f : α → β) (table : Fin n → α) (i : Fin n) (x : α) :
    (fun j => f (put table i x j)) = put (fun j => f (table j)) i (f x) := by
  funext j
  unfold put
  split <;> rfl

theorem ends_of_ok {α : Type} {p : Sys α} {notes : List Touch} {a b : α} {t : Machine} (ok : p m = (notes,.ok (a,t)))
    (run : p.Ends m b m') : a = b ∧ t = m' := by
  unfold Prog.Ends at run
  rw [ok] at run
  cases run
  exact ⟨rfl,rfl⟩

theorem procs_setPcb (m : Machine) (i : Fin pcbSize) {f : Pcb → Pcb} {g : Proc → Proc}
    (same : ∀ p,(f p).proc = g p.proc) : (m.setPcb i f).procs = m.procs.setPcb i g := by
  unfold Machine.setPcb Procs.setPcb Machine.procs
  rw [put_map Pcb.proc,same]

theorem contextSwitch_procs {i : Fin pcbSize} {st : Status}
    (run : (contextSwitch (some m.current) i st).Ends m () m') : m'.procs = m.procs.switchTo i st := by
  obtain ⟨_,rfl⟩ := ends_of_ok rfl run
  have old := procs_setPcb m m.current (f := fun p => {p with ctx := m.ctx,status := st})
    (g := fun p => {p with saved := m.ctx,status := st}) fun _ => rfl
  have new : ∀ t : Machine,
      Machine.procs {({t with ctx := (t.pcb i).ctx} : Machine).setPcb i fun p => {p with status := .executing} with
        current := (t.pcb i).pid} =
      {({t.procs with regs := (t.procs.pcb i).saved} : Procs).setPcb i fun p => {p with status := .executing} with
        current := (t.procs.pcb i).pid} := by
    intro t
    have starts := procs_setPcb {t with ctx := (t.pcb i).ctx} i (f := fun p => {p with status := .executing})
      (g := fun p => {p with status := .executing}) fun _ => rfl
    exact congrArg (fun v : Procs => {v with current := (t.pcb i).pid}) starts
  refine (new _).trans ?_
  rw [old]
  rfl

theorem next_procs {st : Status} (run : (next st).Ends m () m') : m'.procs = m.procs.next st := by
  unfold next at run
  simp only [ends_bind,ends_update,ends_read] at run
  obtain ⟨_,t,rfl,_,_,⟨rfl,rfl⟩,r,_,found,run⟩ := run
  obtain ⟨first,rfl⟩ := (ends_search m.procs.canRun fun i a t =>
    ends_processCanRun (m := {m with currentRuntime := 0})).mp found
  change Cycle.around m.procs.canRun m.procs.current = r at first
  unfold Procs.next
  rw [first]
  cases r with
  | none =>
      obtain ⟨_,rfl⟩ := ends_pure.mp run
      rfl
  | some i => exact contextSwitch_procs (m := {m with currentRuntime := 0}) run

theorem schedule_procs (run : schedule.Ends m () m') :
    m'.procs = m.procs ∨ m'.procs = m.procs.next .ready := by
  unfold schedule running at run
  simp only [ends_bind,ends_read,ends_ite,ends_update] at run
  obtain ⟨_,_,⟨rfl,rfl⟩,_,_,⟨rfl,rfl⟩,⟨_,_,t,switch,rfl⟩ | ⟨_,rfl⟩⟩ := run
  · exact .inr (show t.procs = _ from next_procs switch)
  · exact .inl rfl

theorem postSem_procs {i : Fin pcbSize} {semId x : UInt32} (run : (postSem i semId x).Ends m () m') :
    m'.procs = m.procs.post i semId x := by
  unfold postSem at run
  simp only [ends_bind,ends_read] at run
  obtain ⟨_,_,⟨rfl,rfl⟩,r,_,found,run⟩ := run
  obtain ⟨first,rfl⟩ := (ends_search (m.procs.eligible semId x) fun i a t => ends_eligible (m := m)).mp found
  change m.procs.chosen semId x = r at first
  unfold Procs.post
  rw [first]
  cases r with
  | none => rw [← ends_update.mp run]; rfl
  | some j =>
      simp only [ends_bind,ends_read,ends_update] at run
      obtain ⟨_,_,⟨rfl,rfl⟩,_,_,rfl,run⟩ := run
      rw [← ends_update.mp run,procs_setPcb _ _ (g := fun p => {p with status := .ready}) fun _ => rfl]
      rfl

theorem doSemPost_procs {semId x : UInt32} (run : (doSemPost semId x).Ends m () m') :
    m'.procs = m.procs.doSemPost semId x := by
  unfold doSemPost at run
  unfold Procs.doSemPost
  split at run
  · rename_i bound
    rw [dif_pos bound]
    split at run
    · rename_i zero
      rw [if_pos zero,← (ends_pure.mp run).2]
    · rename_i more
      rw [if_neg more]
      exact postSem_procs run
  · rename_i outside
    rw [dif_neg outside,← (ends_pure.mp run).2]

end Reads
end ArchiveOs.Kernel
