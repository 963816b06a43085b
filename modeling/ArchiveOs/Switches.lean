import ArchiveOs.ProcCalls

-- What the operations on the processes do to each entry of the table.
namespace ArchiveOs.Kernel
open Fs2

namespace Procs
variable {v : Procs} {i j : Fin pcbSize} {st : Status} {semId x : UInt32}

theorem canRun_iff : v.canRun i = true ↔ v.Alive i ∧ ((v.pcb i).status = .created ∨ (v.pcb i).status = .ready) := by
  unfold canRun Alive Status.canRun
  rw [Bool.and_eq_true,Bool.or_eq_true,decide_eq_true_iff,decide_eq_true_iff]

theorem eligible_iff : v.eligible semId x i = true ↔ v.Alive i ∧ (v.pcb i).status = .waiting ∧
    (v.pcb i).waiting.semId = semId ∧ (v.pcb i).waiting.x ≤ x := by
  unfold eligible Alive
  rw [Bool.and_eq_true,Bool.and_eq_true,Bool.and_eq_true,decide_eq_true_iff,beq_iff_eq,decide_eq_true_iff]

theorem setPcb_same {β : Type} (field : Proc → β) {f : Proc → Proc} (same : ∀ p,field (f p) = field p)
    (v : Procs) (i j : Fin pcbSize) : field ((v.setPcb i f).pcb j) = field (v.pcb j) := by
  by_cases here : j = i
  · subst here
    rw [setPcb_self]
    exact same _
  · rw [setPcb_other v f here]

section Switch

-- The first half of a switch.
def leave (v : Procs) (st : Status) : Procs := v.setPcb v.current fun p => {p with saved := v.regs,status := st}

theorem leave_other (old : j ≠ v.current) : (v.leave st).pcb j = v.pcb j :=
  setPcb_other v (fun p => {p with saved := v.regs,status := st}) old

theorem switchTo_same {β : Type} (field : Proc → β) (same : ∀ p c s,field {p with saved := c,status := s} = field p)
    (v : Procs) (i j : Fin pcbSize) (st : Status) : field ((v.switchTo i st).pcb j) = field (v.pcb j) := by
  have new : ∀ w : Procs,field ((w.setPcb i fun p => {p with status := .executing}).pcb j) = field (w.pcb j) :=
    fun w => setPcb_same field (fun p => same p p.saved .executing) w i j
  exact (new _).trans (setPcb_same field (fun p => same p v.regs st) v v.current j)

theorem switchTo_other (old : j ≠ v.current) (new : j ≠ i) : (v.switchTo i st).pcb j = v.pcb j := by
  have starts : (v.switchTo i st).pcb j = (v.leave st).pcb j :=
    setPcb_other {v.leave st with regs := ((v.leave st).pcb i).saved} (fun p => {p with status := .executing}) new
  exact starts.trans (leave_other old)

variable (other : i ≠ v.current)
include other

theorem switchTo_new : (v.switchTo i st).pcb i = {v.pcb i with status := .executing} := by
  have starts : (v.switchTo i st).pcb i = {(v.leave st).pcb i with status := .executing} :=
    setPcb_self {v.leave st with regs := ((v.leave st).pcb i).saved} i fun p => {p with status := .executing}
  rw [starts,leave_other other]

theorem switchTo_old : (v.switchTo i st).pcb v.current = {v.pcb v.current with saved := v.regs,status := st} := by
  have starts : (v.switchTo i st).pcb v.current = (v.leave st).pcb v.current :=
    setPcb_other {v.leave st with regs := ((v.leave st).pcb i).saved} (fun p => {p with status := .executing})
      (Ne.symm other)
  exact starts.trans (setPcb_self v v.current fun p => {p with saved := v.regs,status := st})

theorem switchTo_regs : (v.switchTo i st).regs = (v.pcb i).saved :=
  congrArg Proc.saved (leave_other other)

theorem switchTo_current : (v.switchTo i st).current = (v.pcb i).pid :=
  congrArg Proc.pid (leave_other other)

end Switch

theorem next_cases (v : Procs) (st : Status) : v.next st = v ∧ (∀ j,j ≠ v.current → v.canRun j = false) ∨
    ∃ i,i ≠ v.current ∧ v.canRun i = true ∧ v.next st = v.switchTo i st := by
  unfold next
  cases found : Cycle.around v.canRun v.current with
  | none => exact .inl ⟨rfl,Cycle.around_none found⟩
  | some i => exact .inr ⟨i,(Cycle.around_some found).1,(Cycle.around_some found).2,rfl⟩

theorem next_alloc (v : Procs) (st : Status) : (v.next st).alloc = v.alloc := by
  rcases v.next_cases st with ⟨same,_⟩ | ⟨i,_,_,same⟩
  · rw [same]
  · rw [same]
    rfl

theorem next_same {β : Type} (field : Proc → β) (same : ∀ p c s,field {p with saved := c,status := s} = field p)
    (v : Procs) (j : Fin pcbSize) (st : Status) : field ((v.next st).pcb j) = field (v.pcb j) := by
  rcases v.next_cases st with ⟨stays,_⟩ | ⟨i,_,_,moves⟩
  · rw [stays]
  · rw [moves]
    exact switchTo_same field same v i j st

theorem next_waits (stops : st = .waiting → (v.pcb v.current).status = .waiting)
    (waits : ((v.next st).pcb j).status = .waiting) : (v.pcb j).status = .waiting := by
  rcases v.next_cases st with ⟨stays,_⟩ | ⟨i,other,_,moves⟩
  · rw [stays] at waits
    exact waits
  · rw [moves] at waits
    by_cases old : j = v.current
    · rw [old,switchTo_old other] at waits
      rw [old]
      exact stops waits
    · by_cases new : j = i
      · rw [new,switchTo_new other] at waits
        cases waits
      · rw [switchTo_other old new] at waits
        exact waits

theorem next_sem (v : Procs) (st : Status) : (v.next st).sem = v.sem := by
  rcases v.next_cases st with ⟨same,_⟩ | ⟨i,_,_,same⟩
  · rw [same]
  · rw [same]
    rfl

-- A post gives the units to the first process in turn that they are enough for, and
-- otherwise to the semaphore.
inductive Posted (v : Procs) (k : Fin pcbSize) (semId x : UInt32) : Procs → Prop where
  | woke (i : Fin pcbSize) : v.chosen semId x = some i →
      Posted v k semId x (({v with sem := put v.sem k (v.sem k + (x - (v.pcb i).waiting.x))} : Procs).setPcb i fun p =>
        {p with status := .ready})
  | kept : v.chosen semId x = none → Posted v k semId x {v with sem := put v.sem k (v.sem k + x)}

inductive Posts (v : Procs) (semId x : UInt32) : Procs → Prop where
  | nothing : pcbSize ≤ semId.toNat ∨ x = 0 → Posts v semId x v
  | some {w : Procs} (k : Fin pcbSize) : semId.toNat = k.val → x ≠ 0 → Posted v k semId x w → Posts v semId x w

theorem post_posted (v : Procs) (k : Fin pcbSize) (semId x : UInt32) : Posted v k semId x (v.post k semId x) := by
  unfold post
  split
  · rename_i i found
    exact .woke i found
  · rename_i found
    exact .kept found

theorem doSemPost_posts (v : Procs) (semId x : UInt32) : Posts v semId x (v.doSemPost semId x) := by
  unfold doSemPost
  split
  · split
    · rename_i zero
      exact .nothing (.inr zero)
    · rename_i more
      exact .some _ rfl more (v.post_posted ..)
  · rename_i outside
    exact .nothing (.inl (Nat.le_of_not_lt outside))

theorem chosen_some (found : v.chosen semId x = some i) : i ≠ v.current ∧ v.eligible semId x i = true :=
  Cycle.around_some found

theorem doSemPost_pcb (v : Procs) (semId x : UInt32) (j : Fin pcbSize) :
    (v.doSemPost semId x).pcb j = v.pcb j ∨
      j ≠ v.current ∧ v.eligible semId x j = true ∧ (v.doSemPost semId x).pcb j = {v.pcb j with status := .ready} := by
  generalize after : v.doSemPost semId x = w
  have did := v.doSemPost_posts semId x
  rw [after] at did
  cases did with
  | nothing => exact .inl rfl
  | some k _ _ did =>
      cases did with
      | kept => exact .inl rfl
      | woke i found =>
          by_cases here : j = i
          · subst here
            exact .inr ⟨(chosen_some found).1,(chosen_some found).2,setPcb_self ..⟩
          · exact .inl (setPcb_other _ _ here)

theorem doSemPost_rest (v : Procs) (semId x : UInt32) : (v.doSemPost semId x).alloc = v.alloc ∧
    (v.doSemPost semId x).current = v.current ∧ (v.doSemPost semId x).regs = v.regs := by
  generalize after : v.doSemPost semId x = w
  have did := v.doSemPost_posts semId x
  rw [after] at did
  cases did with
  | nothing => exact ⟨rfl,rfl,rfl⟩
  | some k _ _ did => cases did <;> exact ⟨rfl,rfl,rfl⟩

theorem doSemPost_waits (waits : ((v.doSemPost semId x).pcb j).status = .waiting) :
    (v.doSemPost semId x).pcb j = v.pcb j := by
  rcases v.doSemPost_pcb semId x j with stays | ⟨_,_,woke⟩
  · exact stays
  · rw [woke] at waits
    cases waits

theorem doSemPost_sem (v : Procs) (semId x : UInt32) {k : Fin pcbSize} (other : semId.toNat ≠ k.val) :
    (v.doSemPost semId x).sem k = v.sem k := by
  generalize after : v.doSemPost semId x = w
  have did := v.doSemPost_posts semId x
  rw [after] at did
  cases did with
  | nothing => rfl
  | some l index _ did =>
      have away : k ≠ l := fun same => other (same ▸ index)
      cases did <;> exact put_other _ _ away

theorem doSemPost_same {β : Type} (field : Proc → β) (same : ∀ p s,field {p with status := s} = field p)
    (v : Procs) (semId x : UInt32) (j : Fin pcbSize) : field ((v.doSemPost semId x).pcb j) = field (v.pcb j) := by
  rcases v.doSemPost_pcb semId x j with stays | ⟨_,_,woke⟩
  · rw [stays]
  · rw [woke]
    exact same _ _

theorem block_self (v : Procs) (semId x : UInt32) : (v.block semId x).pcb v.current =
    {v.pcb v.current with status := .waiting,waiting := ⟨semId,x⟩} := setPcb_self ..

theorem block_other (v : Procs) (semId x : UInt32) (other : j ≠ v.current) : (v.block semId x).pcb j = v.pcb j :=
  setPcb_other v _ other

theorem block_same {β : Type} (field : Proc → β) (same : ∀ p s w,field {p with status := s,waiting := w} = field p)
    (v : Procs) (semId x : UInt32) (j : Fin pcbSize) : field ((v.block semId x).pcb j) = field (v.pcb j) :=
  setPcb_same field (fun p => same p .waiting ⟨semId,x⟩) v v.current j

theorem saveRegs_self (v : Procs) : v.saveRegs.pcb v.current = {v.pcb v.current with saved := v.regs} := setPcb_self ..

theorem saveRegs_other (v : Procs) (other : j ≠ v.current) : v.saveRegs.pcb j = v.pcb j := setPcb_other v _ other

theorem saveRegs_same {β : Type} (field : Proc → β) (same : ∀ p c,field {p with saved := c} = field p)
    (v : Procs) (j : Fin pcbSize) : field (v.saveRegs.pcb j) = field (v.pcb j) :=
  setPcb_same field (fun p => same p _) v v.current j

theorem exit_self (v : Procs) : v.exit.pcb v.current = {v.pcb v.current with status := .terminated} :=
  setPcb_self v v.current fun p => {p with status := .terminated}

theorem exit_other (v : Procs) (other : j ≠ v.current) : v.exit.pcb j = v.pcb j :=
  setPcb_other v (fun p => {p with status := .terminated}) other

theorem exit_same {β : Type} (field : Proc → β) (same : ∀ p s,field {p with status := s} = field p)
    (v : Procs) (j : Fin pcbSize) : field (v.exit.pcb j) = field (v.pcb j) :=
  setPcb_same field (fun p => same p _) v v.current j

theorem kill_pcb (v : Procs) (i j : Fin pcbSize) : (v.kill i).pcb j = v.pcb j := by
  unfold kill
  split <;> rfl

theorem kill_rest (v : Procs) (i : Fin pcbSize) : (v.kill i).current = v.current ∧ (v.kill i).regs = v.regs ∧
    (v.kill i).sem = v.sem := by
  unfold kill
  split <;> exact ⟨rfl,rfl,rfl⟩

-- The entry of a child that has got its stack, and the other entries.
def born (v : Procs) (child : Fin pcbSize) (stack : UInt32) : Procs :=
  ((((v.saveRegs.addBit child).copyTo child).grant stack).birth child stack).setRegs 0 (UInt32.ofNat child)

-- The entry of a child that has not got one is left as a copy of its parent's.
def unborn (v : Procs) (child : Fin pcbSize) : Procs :=
  ((v.saveRegs.addBit child).copyTo child).setRegs 0 (UInt32.ofInt (-2))

theorem birth_self (v : Procs) (child : Fin pcbSize) (stack : UInt32) :
    ((v.birth child stack).pcb child).pid = child ∧ ((v.birth child stack).pcb child).stack = stack ∧
      ((v.birth child stack).pcb child).status = .created := by
  unfold birth
  simp only [setPcb_self,and_self]

theorem birth_other (v : Procs) (stack : UInt32) (other : j ≠ i) : (v.birth i stack).pcb j = v.pcb j := by
  unfold birth
  dsimp only
  rw [setPcb_other _ _ other,setPcb_other _ _ other]

theorem born_self (v : Procs) (child : Fin pcbSize) (stack : UInt32) :
    ((v.born child stack).pcb child).pid = child ∧ ((v.born child stack).pcb child).stack = stack ∧
      ((v.born child stack).pcb child).status = .created := birth_self ..

theorem born_other (v : Procs) (stack : UInt32) (other : j ≠ i) : (v.born i stack).pcb j = v.saveRegs.pcb j :=
  (birth_other _ stack other).trans
    (setPcb_other (v.saveRegs.addBit i) (fun _ => (v.saveRegs.addBit i).pcb v.current) other)

theorem unborn_self (v : Procs) (child : Fin pcbSize) :
    (v.unborn child).pcb child = {v.pcb v.current with saved := v.regs} :=
  (setPcb_self (v.saveRegs.addBit child) child fun _ => v.saveRegs.pcb v.current).trans v.saveRegs_self

theorem unborn_other (v : Procs) (other : j ≠ i) : (v.unborn i).pcb j = v.saveRegs.pcb j :=
  setPcb_other (v.saveRegs.addBit i) (fun _ => (v.saveRegs.addBit i).pcb v.current) other

theorem firstFree_dead (free : v.firstFree = some i) : alive v.alloc i = false := by
  have test := List.find?_some free
  simpa using test

end Procs
end ArchiveOs.Kernel
