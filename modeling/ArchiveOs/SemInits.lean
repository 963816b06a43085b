import ArchiveOs.Boots
import ArchiveOs.Switches
import Mathlib.Algebra.BigOperators.Group.Finset.Basic
import Mathlib.Data.Fintype.Basic

-- SEM_INIT, which posts the difference to the value that the semaphore has.
namespace ArchiveOs.Kernel
open Fs2
open Prog

section Runs
variable {m m' : Machine} {k : Fin pcbSize} {init : UInt32}

-- The processes that a call has woken.
def Machine.wakes (m m' : Machine) : Finset (Fin pcbSize) :=
  Finset.univ.filter fun i => (m.pcb i).status = .waiting ∧ (m'.pcb i).status = .ready

-- The semaphore has the value that it is set to, but for what the woken processes
-- have got of it.
structure SetTo (m m' : Machine) (k : Fin pcbSize) (init : UInt32) : Prop where
  value : (m'.sem k).toNat + ∑ i ∈ m.wakes m',(m.pcb i).waiting.x.toNat = init.toNat
  others : ∀ l,l ≠ k → m'.sem l = m.sem l

-- Process i lives and waits for no more than x units of semaphore k.
structure Machine.WaitsFor (m : Machine) (k : Fin pcbSize) (x : UInt32) (i : Fin pcbSize) : Prop where
  live : alive m.pcballoc i = true
  waits : (m.pcb i).status = .waiting
  index : (m.pcb i).waiting.semId.toNat = k.val
  enough : (m.pcb i).waiting.x ≤ x

-- It is the first of those in turn behind the running process.
structure Machine.FirstWaits (m : Machine) (k : Fin pcbSize) (x : UInt32) (i : Fin pcbSize) : Prop
    extends m.WaitsFor k x i where
  other : i ≠ m.current
  first : ∀ j,j ≠ m.current → (j - m.current).val < (i - m.current).val → ¬ m.WaitsFor k x j

theorem eligible_waits {semId x : UInt32} (index : semId.toNat = k.val) (i : Fin pcbSize) :
    m.procs.eligible semId x i = true ↔ m.WaitsFor k x i := by
  rw [Procs.eligible_iff]
  constructor
  · rintro ⟨live,waits,same,enough⟩
    exact ⟨live,waits,(congrArg UInt32.toNat same).trans index,enough⟩
  · rintro ⟨live,waits,same,enough⟩
    exact ⟨live,waits,UInt32.toNat_inj.mp (same.trans index.symm),enough⟩

theorem chosen_iff {semId x : UInt32} (index : semId.toNat = k.val) {i : Fin pcbSize} :
    m.procs.chosen semId x = some i ↔ m.FirstWaits k x i := by
  unfold Procs.chosen
  rw [Cycle.around_iff,eligible_waits index]
  constructor
  · rintro ⟨other,waits,first⟩
    refine ⟨waits,other,fun j other' before passes => ?_⟩
    have fails := first j other' before
    rw [(eligible_waits index j).mpr passes] at fails
    cases fails
  · rintro ⟨waits,other,first⟩
    exact ⟨other,waits,fun j other' before =>
      Bool.eq_false_iff.mpr fun passes => first j other' before ((eligible_waits index j).mp passes)⟩

-- A post wakes the first waiter in turn with its share, or it wakes nobody.
inductive Posted (m m' : Machine) (k : Fin pcbSize) (x : UInt32) : Prop where
  | woke (i : Fin pcbSize) : m.FirstWaits k x i → m.wakes m' = {i} →
      (∀ j,j ≠ i → (m'.pcb j).status = (m.pcb j).status) →
      m'.sem = put m.sem k (m.sem k + (x - (m.pcb i).waiting.x)) → Posted m m' k x
  | kept : (∀ i,¬ m.FirstWaits k x i) → (∀ j,(m'.pcb j).status = (m.pcb j).status) →
      m'.sem = put m.sem k (m.sem k + x) → Posted m m' k x

theorem woken_none (same : ∀ i,(m'.pcb i).status = (m.pcb i).status) : m.wakes m' = ∅ := by
  unfold Machine.wakes
  rw [Finset.filter_eq_empty_iff]
  rintro i _ ⟨waits,ready⟩
  rw [same i,waits] at ready
  cases ready

theorem woken_one {i : Fin pcbSize} (waits : (m.pcb i).status = .waiting) (ready : (m'.pcb i).status = .ready)
    (same : ∀ j,j ≠ i → (m'.pcb j).status = (m.pcb j).status) : m.wakes m' = {i} := by
  unfold Machine.wakes
  ext j
  rw [Finset.mem_filter,Finset.mem_singleton]
  constructor
  · rintro ⟨_,waited,woken⟩
    by_contra other
    rw [same j other,waited] at woken
    cases woken
  · rintro rfl
    exact ⟨Finset.mem_univ j,waits,ready⟩

theorem posted {semId x : UInt32} (index : semId.toNat = k.val)
    (status : ∀ i,(m'.pcb i).status = ((m.procs.doSemPost semId x).pcb i).status)
    (sem : m'.sem = (m.procs.doSemPost semId x).sem) :
    (x = 0 ∧ (∀ i,(m'.pcb i).status = (m.pcb i).status) ∧ m'.sem = m.sem) ∨ Posted m m' k x := by
  have posts := m.procs.doSemPost_posts semId x
  generalize m.procs.doSemPost semId x = w at posts status sem
  cases posts with
  | nothing why =>
      rcases why with outside | zero
      · exact absurd k.isLt (by omega)
      · exact .inl ⟨zero,status,sem⟩
  | some l index' _ posted =>
      cases Fin.ext (index'.symm.trans index)
      right
      cases posted with
      | kept nobody =>
          refine .kept (fun i first => ?_) status sem
          rw [(chosen_iff index).mpr first] at nobody
          cases nobody
      | woke i chosen =>
          have first := (chosen_iff index).mp chosen
          have ready : (m'.pcb i).status = .ready := (status i).trans (congrArg Proc.status (put_self ..))
          have same : ∀ j,j ≠ i → (m'.pcb j).status = (m.pcb j).status := fun j other =>
            (status j).trans (congrArg Proc.status (put_other _ _ other))
          exact .woke i first (woken_one first.waits ready same) same sem

theorem add_sub_le {v x y : UInt32} : (v + (x - v - y)).toNat + y.toNat = x.toNat ↔ y ≤ x := by
  have collect : v + (x - v - y) = x - y := by grind
  rw [collect,UInt32.le_iff_toNat_le]
  constructor
  · omega
  · intro less
    rw [UInt32.toNat_sub_of_le _ _ (UInt32.le_iff_toNat_le.mpr less)]
    omega

-- The call sets the semaphore to `init` exactly when the first in turn that waits for
-- no more than the difference waits for no more than `init`.
theorem sem_init_iff (run : (handle (.svc 0x08)).Ends m () m') (index : (m.ctx.gpr 0).toNat = k.val)
    (accepted : (m.ctx.gpr 1).toNat < pcbSize) :
    m'.ctx.gpr 0 = 1 ∧ (SetTo m m' k (m.ctx.gpr 1) ↔
      ∀ i,m.FirstWaits k (m.ctx.gpr 1 - m.sem k) i → (m.pcb i).waiting.x ≤ m.ctx.gpr 1) := by
  have did : Inits m.procs (m.ctx.gpr 0) (m.ctx.gpr 1) m'.procs := svcSemInit_did run
  generalize after : m'.procs = w at did
  cases did with
  | refused wrong => omega
  | posted l _ index' =>
      cases Fin.ext (index'.symm.trans index)
      have answer : m'.ctx.gpr 0 = 1 := congrArg (fun v : Procs => v.regs.gpr 0) after
      refine ⟨answer,?_⟩
      change m'.procs = (m.procs.doSemPost (m.ctx.gpr 0) (m.ctx.gpr 1 - m.sem k)).setRegs 0 (ofBool true) at after
      have status : ∀ i,(m'.pcb i).status = ((m.procs.doSemPost (m.ctx.gpr 0) (m.ctx.gpr 1 - m.sem k)).pcb i).status :=
        fun i => congrArg (fun v : Procs => (v.pcb i).status) after
      rcases posted index status (congrArg Procs.sem after) with ⟨zero,still,sem⟩ | paid
      · have same : m.ctx.gpr 1 = m.sem k := sub_eq_zero.mp zero
        constructor
        · intro _ i first
          have none := first.enough
          rw [zero] at none
          exact UInt32.le_trans none (UInt32.le_iff_toNat_le.mpr (Nat.zero_le _))
        · intro _
          refine ⟨?_,fun l _ => congrFun sem l⟩
          rw [woken_none still,sem,same]
          rfl
      · cases paid with
        | kept none same sem =>
            constructor
            · exact fun _ i first => absurd first (none i)
            · intro _
              refine ⟨?_,fun l other => ?_⟩
              · rw [woken_none same,sem,put_self,Finset.sum_empty]
                exact congrArg UInt32.toNat (add_sub_cancel (m.sem k) (m.ctx.gpr 1))
              · rw [sem,put_other _ _ other]
        | woke i first woken _ sem =>
            have others : ∀ l,l ≠ k → m'.sem l = m.sem l := by
              intro l other
              rw [sem,put_other _ _ other]
            have value : SetTo m m' k (m.ctx.gpr 1) ↔ (m.pcb i).waiting.x ≤ m.ctx.gpr 1 := by
              rw [← add_sub_le (v := m.sem k)]
              constructor
              · intro set
                have value := set.value
                rwa [woken,sem,put_self,Finset.sum_singleton] at value
              · intro value
                refine ⟨?_,others⟩
                rwa [woken,sem,put_self,Finset.sum_singleton]
            rw [value]
            constructor
            · intro less j first'
              rw [Option.some.inj (((chosen_iff index).mpr first').symm.trans ((chosen_iff index).mpr first))]
              exact less
            · exact fun all => all i first

end Runs

-- One process posts five units and forks; the child waits for seven.
def Machine.sevenWait : Machine :=
  ((((Machine.started (few 6)).call 0x09 0 5).call 0x03 0 0).call 0x00 0 0).call 0x0A 0 7

theorem sevenWait_reached : Reached Any Machine.sevenWait := by
  have started : Reached Any (Machine.started (few 6)) := started_reached (by decide) (by decide +kernel)
  have posted : Reached Any ((Machine.started (few 6)).call 0x09 0 5) := started.calls trivial (by decide +kernel)
  have forked : Reached Any (((Machine.started (few 6)).call 0x09 0 5).call 0x03 0 0) :=
    posted.calls trivial (by decide +kernel)
  have yielded : Reached Any ((((Machine.started (few 6)).call 0x09 0 5).call 0x03 0 0).call 0x00 0 0) :=
    forked.calls trivial (by decide +kernel)
  exact yielded.calls trivial (by decide +kernel)

theorem sem_init_nine : (Machine.sevenWait.call 0x08 0 9).ctx.gpr 0 = 1 ∧
    (SetTo (Machine.sevenWait.asks 0 9) (Machine.sevenWait.call 0x08 0 9) 0 9 ↔
      ∀ i,(Machine.sevenWait.asks 0 9).FirstWaits 0 (9 - Machine.sevenWait.sem 0) i →
        (Machine.sevenWait.pcb i).waiting.x ≤ 9) :=
  sem_init_iff (k := 0) (ends_after (s := Machine.sevenWait.asks 0 9) (by decide +kernel)) (by decide) (by decide)

-- The semaphore has five units and is set to two: the difference wraps, and the
-- process that waits for seven goes on.
theorem init_wakes_early : ¬ ∀ (m m' : Machine) (ctx : Ctx) (ram : UInt32 → UInt8) (k : Fin pcbSize),Reached Any m →
    (handle (.svc 0x08)).Ends (m.enter ctx ram) () m' → (ctx.gpr 0).toNat = k.val → (ctx.gpr 1).toNat < pcbSize →
    m'.ctx.gpr 0 = 1 → SetTo (m.enter ctx ram) m' k (ctx.gpr 1) := by
  intro all
  have set := all _ _ _ _ 0 sevenWait_reached
    (ends_after (s := Machine.sevenWait.asks 0 2) (by decide +kernel)) (by decide) (by decide) (by decide +kernel)
  exact absurd set.value (by unfold Machine.wakes; decide +kernel)

end ArchiveOs.Kernel
