import ArchiveOs.Completions
import ArchiveOs.CountRuns
import ArchiveOs.FileRuns

-- Calls that return, whatever they find and on sound tables.
namespace ArchiveOs.Kernel
open Fs2 Fs2.Mount
open References
open Prog

section Totals

theorem setPcb_total (i : Fin pcbSize) (f : Pcb → Pcb) : Total (setPcb i f) := total_update
theorem setRunning_total (f : Pcb → Pcb) : Total (setRunning f) := total_bind total_read fun _ => setPcb_total ..
theorem setGpr_total (n : Fin 13) (w : UInt32) : Total (setGpr n w) := total_update
theorem setFdte_total (p : UInt32) (e : Option Fdte) : Total (setFdte p e) := total_update
theorem ask_total : Total ask := total_bind total_read fun _ => total_bind total_update fun _ => total_pure
theorem malloc_total : Total malloc := total_bind ask_total fun _ => total_pure
theorem mallocPipe_total : Total mallocPipe := total_bind ask_total fun _ => total_bind total_read fun _ => total_pure

theorem mallocFdte_total : Total mallocFdte := by
  refine total_bind ask_total fun _ => total_bind total_read fun _ => total_ite (fun _ => total_pure) fun _ => ?_
  exact total_bind (setFdte_total ..) fun _ => total_pure

theorem processExists_total (i : Fin pcbSize) : Total (processExists i) := total_bind total_note fun _ => total_read

theorem processCanRun_total (i : Fin pcbSize) : Total (processCanRun i) :=
  total_bind (processExists_total i) fun _ => total_ite (fun _ => total_read) fun _ => total_pure

theorem contextSwitch_total (old : Option (Fin pcbSize)) (new : Fin pcbSize) (st : Status) : Total (contextSwitch old new st) := by
  cases old with
  | none =>
      refine total_bind total_read fun _ => total_bind total_update fun _ => ?_
      exact total_bind (setPcb_total ..) fun _ => total_update
  | some old =>
      refine total_bind total_read fun _ => total_bind (setPcb_total ..) fun _ => total_bind total_read fun _ => ?_
      exact total_bind total_update fun _ => total_bind (setPcb_total ..) fun _ => total_update

theorem next_total (st : Status) : Total (next st) := by
  refine total_bind total_update fun _ => total_bind total_read fun _ => total_bind (search_total processCanRun_total ..) fun r => ?_
  cases r with
  | none => exact total_pure
  | some i => exact contextSwitch_total ..

theorem schedule_total : Total schedule := by
  refine total_bind total_read fun _ => total_bind total_read fun _ => total_ite (fun _ => ?_) fun _ => ?_
  · exact total_bind (next_total _) fun _ => total_update
  · exact total_update

theorem doExec_total : Total doExec := total_bind total_read fun _ => total_bind total_read fun _ => total_update

theorem dropBit_total (i : Fin pcbSize) : Total (dropBit i) := total_bind total_note fun _ => total_update

theorem eligible_total (semId x : UInt32) (i : Fin pcbSize) : Total (eligible semId x i) :=
  total_bind (processExists_total i) fun _ => total_ite (fun _ => total_read) fun _ => total_pure

theorem doSemPost_total (semId x : UInt32) : Total (doSemPost semId x) := by
  unfold doSemPost
  split
  · refine total_ite (fun _ => total_pure) fun _ => total_bind total_read fun _ => ?_
    refine total_bind (search_total (eligible_total semId x) ..) fun r => ?_
    cases r with
    | none => exact total_update
    | some i => exact total_bind total_read fun _ => total_bind total_update fun _ => setPcb_total ..
  · exact total_pure

end Totals

section Tables
variable {m m' : Machine}

theorem slot_completes {table : Table} {n : Nat} (i : Fin n) : (slot table n i.val).Completes m :=
  ⟨i,m,slot_ends.mpr ⟨rfl,rfl⟩⟩

theorem slot_within {table : Table} {n : Nat} {index : Int} (low : 0 ≤ index) (high : index < n) :
    (slot table n index).Completes m := by
  have here : index = ((⟨index.toNat,by omega⟩ : Fin n).val : Int) := (Int.toNat_of_nonneg low).symm
  rw [here]
  exact slot_completes _

theorem fdtAt_completes (fd : Fin fdtSize) : (fdtAt fd.val).Completes m :=
  completes_bind (slot_completes fd) fun _ _ _ => (total_bind total_read fun _ => total_pure).completes _

theorem openftAt_completes (k : Fin openSize) : (openftAt k.val).Completes m :=
  completes_bind (slot_completes k) fun _ _ _ => total_read.completes _

theorem deref_completes {p : UInt32} {e : Fdte} (object : m.heap.fdtes p = some e) : (deref (some p)).Completes m :=
  ⟨(p,e),m,deref_ends.mpr ⟨rfl,object,rfl⟩⟩

theorem svcSemInit_completes (valid : (m.ctx.gpr 0).toNat < pcbSize) : svcSemInit.Completes m := by
  refine completes_read (completes_read (completes_ite (fun _ => (setGpr_total ..).completes _) fun _ => ?_))
  refine completes_bind (slot_completes ⟨_,valid⟩) fun _ _ _ => ?_
  exact (total_bind total_read fun _ => total_bind (doSemPost_total ..) fun _ => setGpr_total ..).completes _

theorem svcSemWait_completes (valid : (m.ctx.gpr 0).toNat < pcbSize)
    (memory : ∀ k : Fin pcbSize,(m.ctx.gpr 0).toNat = k.val → m.sem k < m.ctx.gpr 1 → m.heap.answer m.heap.asked ≠ 0) :
    svcSemWait.Completes m := by
  have waits : (doSemWait (m.ctx.gpr 0) (m.ctx.gpr 1)).Completes m := by
    unfold doSemWait
    rw [if_neg (show ¬ (m.ctx.gpr 0).toNat ≥ pcbSize from Nat.not_le.mpr valid)]
    refine completes_bind (slot_completes ⟨_,valid⟩) fun i t found => ?_
    obtain ⟨index,rfl⟩ := slot_ends.mp found
    refine completes_read (completes_ite (fun _ => (total_bind total_update fun _ => total_pure).completes _) fun short => ?_)
    refine completes_bind ((setRunning_total _).completes _) fun _ t waiting => ?_
    have heap : t.heap = m.heap := (show Keeps Machine.heap (setRunning _) from
      keeps_bind keeps_read fun _ => keeps_update fun _ => rfl).same waiting
    refine completes_bind (malloc_total.completes _) fun given u asked => ?_
    obtain ⟨answer,_⟩ := malloc_ends.mp asked
    have real : given = true := by
      rw [← answer,heap]
      exact decide_eq_true (memory i (Int.ofNat.inj index) (UInt32.not_le.mp short))
    rw [if_pos real]
    exact (total_bind (setRunning_total _) fun _ => total_pure).completes _
  refine completes_read (completes_read (completes_bind waits fun _ _ _ => ?_))
  exact completes_ite (fun _ => total_pure.completes _) fun _ => (next_total _).completes _

theorem svcNice_total : Total svcNice := by
  refine total_bind total_read fun a => total_bind total_read fun b => ⟨fun t => completes_ite (fun _ => total_pure.completes _) fun fine => ?_⟩
  refine completes_bind (slot_within ?_ ?_) fun _ _ _ => (setPcb_total ..).completes _ <;> omega

theorem svcFdSwap_total : Total svcFdSwap := by
  refine total_bind total_read fun a => total_bind total_read fun b => ⟨fun t => completes_ite (fun _ => (setGpr_total ..).completes _) fun fine => ?_⟩
  have first : Total (slot .fdt fdtSize (toInt a)) := ⟨fun t => slot_within (by omega) (by omega)⟩
  have second : Total (slot .fdt fdtSize (toInt b)) := ⟨fun t => slot_within (by omega) (by omega)⟩
  refine total_bind (total_bind first fun _ => total_bind total_read fun _ => total_pure) (fun _ => ?_) |>.completes t
  refine total_bind (total_bind second fun _ => total_bind total_read fun _ => total_pure) fun _ => ?_
  refine total_bind first fun _ => total_bind (setRunning_total _) fun _ => total_bind second fun _ => ?_
  exact total_bind (setRunning_total _) fun _ => setGpr_total ..

end Tables

-- Descriptors that lead to objects which count them.
section Descriptors
variable {m m' : Machine} {f : Files}

theorem Descs.Counted.behind {d : Descs} (counted : d.Counted) {i : Fin pcbSize} (lives : d.live i = true) (fd : Fin fdtSize) :
    d.fdt i fd = -1 ∨ ∃ (k : Fin openSize) (p : UInt32) (e : Fdte),d.fdt i fd = k.val ∧ d.openft k = some p ∧
      d.fdtes p = some e ∧ d.Holds k e := by
  rcases counted.leads i fd lives with none | ⟨k,there,taken⟩
  · exact .inl none
  · obtain ⟨p,entry⟩ := Option.isSome_iff_exists.mp taken
    obtain ⟨e,object,holds⟩ := counted.object k p entry
    exact .inr ⟨k,p,e,there,entry,object,holds⟩

theorem closeSlot_completes (counted : m.descs.Counted) (lives : m.descs.live m.current = true) {fd : Fin fdtSize}
    (shared : ∀ k,m.descs.fdt m.current fd = (k.val : Int) → m.descs.PipeAt k → 1 < m.descs.refs k) :
    (closeSlot fd).Completes m := by
  refine completes_bind (fdtAt_completes fd) fun i t found => ?_
  obtain ⟨⟨fd',this,slot⟩,rfl⟩ := fdtAt_ends.mp found
  obtain rfl : fd = fd' := Fin.ext (Int.ofNat.inj this)
  rcases counted.behind lives fd with free | ⟨k,p,e,there,entry,object,holds⟩
  · exact completes_ite (fun _ => total_pure.completes _) fun used => absurd (slot.symm.trans free) used
  obtain rfl : i = k.val := slot.symm.trans there
  refine completes_ite (fun _ => total_pure.completes _) fun _ => ?_
  refine completes_bind ((setRunning_total _).completes _) fun _ t set => ?_
  cases setFdt_ends.mp set
  refine completes_bind (openftAt_completes k) fun o t looked => ?_
  obtain ⟨⟨l,same,entry'⟩,rfl⟩ := openftAt_ends.mp looked
  obtain rfl : k = l := Fin.ext (Int.ofNat.inj same)
  obtain rfl : some p = o := entry.symm.trans entry'
  refine completes_bind (deref_completes object) fun r t held => ?_
  obtain ⟨q,e'⟩ := r
  obtain ⟨same,object',rfl⟩ := deref_ends.mp held
  obtain rfl : p = q := Option.some.inj same
  obtain rfl : e = e' := Option.some.inj (object.symm.trans object')
  refine completes_bind ((setFdte_total ..).completes _) fun _ t less => ?_
  refine completes_ite (fun _ => total_pure.completes _) fun few => ?_
  unfold dropFdte
  dsimp only
  split
  case h_1 pipe =>
      have many := shared k there ⟨p,e,entry,object,pipe⟩
      have exact := holds.exact (by rw [pipe]; decide)
      change ¬ e.openCount - 1 > 0 at few
      omega
  case h_2 => exact total_pure.completes _
  case h_3 =>
      have here : t.heap.fdtes p = some {e with openCount := e.openCount - 1} := by
        cases ends_update.mp less
        exact if_pos rfl
      refine completes_bind (completes_bind (deref_completes here) fun _ _ _ => (setFdte_total ..).completes _) fun _ _ _ => ?_
      refine completes_bind (slot_completes k) fun _ _ _ => ?_
      exact (total_bind total_update fun _ => total_bind (setRunning_total _) fun _ => total_pure).completes _
  case h_4 => exact total_pure.completes _

theorem closeAll_completes {fds : List (Fin fdtSize)} (counted : m.descs.Counted) (lives : m.descs.live m.current = true)
    (shares : m.descs.Shares m.current) : (closeAll fds).Completes m := by
  induction fds generalizing m with
  | nil => exact total_pure.completes _
  | cons fd rest ih =>
      refine completes_read (completes_ite (fun _ => ?_) fun _ => ih counted lives shares)
      rw [doClose_slot]
      refine completes_bind (closeSlot_completes counted lives fun k => shares.slot) fun _ t run => ?_
      obtain ⟨closed,current,shares'⟩ := closeSlot_shares counted lives shares run
      exact ih closed.counted (by rw [current,closed.live]; exact lives) shares'

theorem svcClose_completes (counted : m.descs.Counted) (lives : m.descs.live m.current = true)
    (shared : ∀ fd : Fin fdtSize,toInt (m.ctx.gpr 0) = fd.val → ∀ k : Fin openSize,m.descs.fdt m.current fd = k.val →
      m.descs.PipeAt k → 1 < m.descs.refs k) : svcClose.Completes m := by
  refine completes_read (completes_bind ?_ fun _ _ _ => (setGpr_total ..).completes _)
  unfold doClose
  split
  · rename_i bound
    refine completes_ite (fun low => ?_) fun _ => total_pure.completes _
    exact closeSlot_completes counted lives (shared ⟨_,bound⟩ (Int.toNat_of_nonneg low).symm)
  · exact total_pure.completes _

theorem makePipe_total (pipefds : UInt32) (rindP windP : Fin fdtSize) (pindex : Fin pcbSize) (rindG windG : Fin openSize) :
    Total (makePipe pipefds rindP windP pindex rindG windG) := by
  refine total_bind mallocPipe_total fun pipe => total_bind total_update fun _ => ?_
  cases pipe with
  | none => exact total_pure
  | some pipe =>
      refine ⟨fun m => completes_bind (mallocFdte_total.completes m) fun rend t first => ?_⟩
      cases rend with
      | none => exact total_pure.completes _
      | some p =>
          obtain ⟨_,rfl,rfl⟩ := mallocFdte_allots.mp first
          refine completes_bind (mallocFdte_total.completes _) fun wend t second => ?_
          cases wend with
          | none => exact total_pure.completes _
          | some q =>
              obtain ⟨useful,rfl,rfl⟩ := mallocFdte_allots.mp second
              have one : ∃ e,m.allots.allots.heap.fdtes (m.heap.answer m.heap.asked) = some e := by
                by_cases same : m.heap.answer m.heap.asked = m.allots.heap.answer m.allots.heap.asked
                · exact ⟨_,if_pos same⟩
                · exact ⟨_,(if_neg same).trans (if_pos rfl)⟩
              have two : ∃ e,m.allots.allots.heap.fdtes (m.allots.heap.answer m.allots.heap.asked) = some e := ⟨_,if_pos rfl⟩
              obtain ⟨e,one⟩ := one
              obtain ⟨e',two⟩ := two
              refine completes_bind (total_update.completes _) fun _ t set => ?_
              cases ends_update.mp set
              refine completes_bind (deref_completes one) fun r t held => ?_
              obtain ⟨_,_,rfl⟩ := deref_ends.mp held
              refine completes_bind (deref_completes two) fun r t held => ?_
              refine (total_bind (setFdte_total ..) fun _ => total_bind (setFdte_total ..) fun _ => ?_).completes _
              refine total_bind total_update fun _ => total_bind total_update fun _ => total_bind (setRunning_total _) fun _ => ?_
              refine total_bind (setRunning_total _) fun _ => total_bind total_update fun _ => total_bind total_update fun _ => ?_
              exact total_pure

theorem svcPipe_total : Total svcPipe := by
  refine total_bind total_read fun _ => total_bind (total_bind total_read fun fdt => ?_) fun _ => total_pure
  dsimp only
  split
  · exact total_pure
  split
  · exact total_pure
  refine total_bind total_read fun _ => ?_
  split
  · exact total_pure
  refine total_bind total_read fun _ => ?_
  split
  · exact total_pure
  split
  · exact total_pure
  · exact makePipe_total ..

theorem doFork_completes (counted : m.descs.Counted) (lives : m.descs.live m.current = true)
    (memory : m.procs.firstFree ≠ none → m.heap.offers = true) : doFork.Completes m := by
  cases first : m.procs.firstFree with
  | none => exact ⟨_,_,doFork_ends.mpr (.full first rfl)⟩
  | some child =>
      have offers := memory (by rw [first]; exact Option.some_ne_none _)
      refine ⟨_,_,doFork_ends.mpr (.born child _ first offers rfl (fun fd _ used => ?_) rfl)⟩
      rcases counted.behind lives fd with free | ⟨k,p,e,there,entry,object,_⟩
      · exact absurd free used
      · exact ⟨p,e,leads_some.mpr ⟨k,there,entry⟩,object⟩

theorem freeStack_completes {p : UInt32} (owned : p = 0 ∨ p ∈ m.heap.areas) : (freeStack p).Completes m := by
  refine completes_read (completes_ite (fun _ => total_pure.completes _) fun some => ?_)
  exact completes_ite (fun _ => total_update.completes _) fun gone => absurd (owned.resolve_left some) gone

theorem haltIfNone_completes (some : m.pcballoc ≠ 0) : haltIfNone.Completes m := ⟨_,_,haltIfNone_ends.mpr ⟨some,rfl⟩⟩

theorem alloc_some {alloc : UInt32} {i : Fin pcbSize} (live : alive alloc i = true) : alloc ≠ 0 := by
  intro zero
  have gone := (alloc_zero_iff alloc).mp zero i
  rw [live] at gone
  cases gone

theorem svcExit_completes (counted : m.descs.Counted) (runner : m.procs.Runner) (kept : m.procs.Kept)
    (shares : m.descs.Shares m.current) {i : Fin pcbSize} (other : i ≠ m.current) (live : m.procs.Alive i) :
    svcExit.Completes m := by
  have lives : m.descs.live m.current = true := runner.live
  refine completes_bind ?_ fun _ t _ => (next_total _).completes t
  refine completes_bind ((setRunning_total _).completes _) fun _ t terminated => completes_read ?_
  obtain ⟨descs,current⟩ := Prod.mk.inj (terminate_still.same terminated)
  have view := setRunning_procs (g := fun p => {p with status := .terminated}) (fun _ => rfl) terminated
  have roster : t.procs.roster = m.procs.roster := by
    rw [view]
    exact Procs.roster_setPcb m.procs m.current (fun _ => rfl) fun _ => rfl
  have stack : (t.pcb t.current).stack = (m.pcb m.current).stack := by
    rw [current]
    exact stack_of_roster roster m.current
  have mine : (t.pcb t.current).stack ∈ t.heap.areas := by
    rw [stack,show t.heap.areas = m.heap.areas from congrArg Procs.Roster.areas roster]
    exact (kept.given _).mpr ⟨m.current,lives,rfl⟩
  refine completes_bind (freeStack_completes (.inr mine)) fun _ u freed => ?_
  obtain ⟨descs',current'⟩ := Prod.mk.inj ((freeStack_still _).same freed)
  have counted' : u.descs.Counted := by
    rw [descs',descs]
    exact counted
  have lives' : u.descs.live u.current = true := by
    rw [descs',current',descs,current]
    exact lives
  have shares' : u.descs.Shares u.current := by
    rw [descs',current',descs,current]
    exact shares
  refine completes_bind (closeAll_completes counted' lives' shares') fun _ v closed => completes_read ?_
  have emptied := closeAll_ends counted' lives' shares' closed
  refine completes_bind ((dropBit_total _).completes _) fun _ w dropped => haltIfNone_completes (alloc_some (i := i) ?_)
  have alloc : w.pcballoc = v.pcballoc - bit v.current := congrArg Procs.alloc (dropBit_procs dropped)
  have here : alive v.pcballoc v.current = true := by
    rw [emptied.current]
    exact (congrFun emptied.live u.current).trans lives'
  have there : alive v.pcballoc i = true := by
    refine (congrFun emptied.live i).trans ?_
    rw [descs',descs]
    exact live
  have away : i ≠ v.current := by
    rw [emptied.current,current',current]
    exact other
  rw [alloc,alive_sub here]
  simp [there,away]

theorem svcKill_completes (kept : m.procs.Kept) {i : Fin pcbSize} (live : m.procs.Alive i)
    (other : toInt (m.ctx.gpr 0) ≠ i.val) : svcKill.Completes m := by
  refine completes_read ?_
  unfold doKill
  split
  · rename_i bound
    refine completes_ite (fun low => ?_) fun _ => total_pure.completes _
    generalize index : (⟨(toInt (m.ctx.gpr 0)).toNat,bound⟩ : Fin pcbSize) = j
    have away : i ≠ j := by
      rintro rfl
      exact other ((Int.toNat_of_nonneg low).symm.trans (congrArg (fun k : Fin pcbSize => (k.val : Int)) index))
    refine completes_bind ((processExists_total j).completes m) fun here t asked => ?_
    obtain ⟨same,rfl⟩ := ends_processExists.mp asked
    refine completes_ite (fun yes => ?_) fun _ => haltIfNone_completes (alloc_some live)
    have victim : alive m.pcballoc j = true := same.trans yes
    refine completes_bind ((dropBit_total j).completes m) fun _ t dropped => ?_
    obtain ⟨_,_,noted,dropped⟩ := ends_bind.mp dropped
    cases ends_note.mp noted
    cases ends_update.mp dropped
    refine completes_read ?_
    have mine : (m.pcb j).stack ∈ m.heap.areas := (kept.given _).mpr ⟨j,victim,rfl⟩
    refine completes_bind (freeStack_completes (.inr mine)) fun _ u freed => haltIfNone_completes (alloc_some (i := i) ?_)
    have alloc : u.pcballoc = m.pcballoc - bit j := congrArg Procs.alloc (freeStack_procs freed).2
    have there : alive m.pcballoc i = true := live
    rw [alloc,alive_sub victim]
    simp [there,away]
  · exact total_pure.completes _

end Descriptors
end ArchiveOs.Kernel
