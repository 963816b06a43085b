import ArchiveOs.Frames
import ArchiveOs.Forks

-- The side of the kernel that has to do with files, and that scheduling, semaphores and
-- stacks leave it alone.
namespace ArchiveOs.Kernel
open Fs2
open Prog

structure FileSide where
  fs : Mount
  fdt : Fin pcbSize → Fin fdtSize → Int
  wd : Fin pcbSize → Path
  openft : Fin openSize → Option UInt32
  pipes : Fin pcbSize → Option Pipe
  fdtes : UInt32 → Option Fdte

def Machine.fileSide (m : Machine) : FileSide where
  fs := m.fs
  fdt i := (m.pcb i).fdt
  wd i := (m.pcb i).wd
  openft := m.openft
  pipes := m.pipes
  fdtes := m.heap.fdtes

-- Whatever is read off the file side.
abbrev KeepsFileSide {View : Type} (view : FileSide → View) {α : Type} (p : Sys α) : Prop := Keeps (fun m => view m.fileSide) p

section Processes
variable {View : Type} {view : FileSide → View}

theorem update_apart {g : Machine → Machine} (same : ∀ m,(g m).fileSide = m.fileSide) : KeepsFileSide view (update g) :=
  keeps_update fun m => by rw [same m]

theorem setPcb_apart {i : Fin pcbSize} {f : Pcb → Pcb} (fdt : ∀ p,(f p).fdt = p.fdt) (wd : ∀ p,(f p).wd = p.wd) :
    KeepsFileSide view (setPcb i f) := by
  refine update_apart fun m => ?_
  have kept : ∀ {α : Type} (field : Pcb → α),(∀ p,field (f p) = field p) →
      (fun j => field ((m.setPcb i f).pcb j)) = fun j => field (m.pcb j) := by
    intro α field same
    funext j
    by_cases here : j = i
    · rw [here]
      exact (congrArg field (put_self ..)).trans (same _)
    · exact congrArg field (put_other _ _ here)
  unfold Machine.fileSide
  rw [kept Pcb.fdt fdt,kept Pcb.wd wd]
  rfl

theorem setRunning_apart {f : Pcb → Pcb} (fdt : ∀ p,(f p).fdt = p.fdt) (wd : ∀ p,(f p).wd = p.wd) :
    KeepsFileSide view (setRunning f) := keeps_bind keeps_read fun _ => setPcb_apart fdt wd

theorem setCtx_apart (f : Ctx → Ctx) : KeepsFileSide view (setCtx f) := update_apart fun _ => rfl

theorem setGpr_apart (n : Fin 13) (w : UInt32) : KeepsFileSide view (setGpr n w) := setCtx_apart _

theorem poke_apart (start : UInt32) (bytes : List UInt8) : KeepsFileSide view (poke start bytes) := update_apart fun _ => rfl

theorem slot_apart (table : Table) (n : Nat) (index : Int) : KeepsFileSide view (slot table n index) := by
  refine keeps_bind keeps_note fun _ => ?_
  split
  · exact keeps_ite (fun _ => keeps_pure) fun _ => keeps_stop
  · exact keeps_stop

theorem fdtAt_apart (fd : Int) : KeepsFileSide view (fdtAt fd) :=
  keeps_bind (slot_apart ..) fun _ => keeps_bind keeps_read fun _ => keeps_pure

theorem processExists_apart (i : Fin pcbSize) : KeepsFileSide view (processExists i) := keeps_bind keeps_note fun _ => keeps_read

theorem search_apart {test : Fin pcbSize → Sys Bool} (each : ∀ i,KeepsFileSide view (test i)) {current : Fin pcbSize} (turns : Nat)
    (i : Fin pcbSize) : KeepsFileSide view (search test current turns i) := by
  induction turns generalizing i with
  | zero => exact keeps_pure
  | succ turns ih =>
      refine keeps_ite (fun _ => keeps_pure) fun _ => keeps_bind (each i) fun _ => ?_
      exact keeps_ite (fun _ => keeps_pure) fun _ => ih _

theorem contextSwitch_apart (old : Option (Fin pcbSize)) (new : Fin pcbSize) (st : Status) :
    KeepsFileSide view (contextSwitch old new st) := by
  have entered : KeepsFileSide view (do
      let p ← Prog.read fun m => m.pcb new
      setCtx fun _ => p.ctx
      setPcb new fun p => {p with status := .executing}
      update fun m => {m with current := p.pid}) := by
    refine keeps_bind keeps_read fun _ => keeps_bind (setCtx_apart _) fun _ => ?_
    exact keeps_bind (setPcb_apart (fun _ => rfl) fun _ => rfl) fun _ => update_apart fun _ => rfl
  cases old with
  | none => exact entered
  | some old =>
      exact keeps_bind keeps_read fun _ => keeps_bind (setPcb_apart (fun _ => rfl) fun _ => rfl) fun _ => entered

theorem next_apart (st : Status) : KeepsFileSide view (next st) := by
  refine keeps_bind (update_apart fun _ => rfl) fun _ => keeps_bind keeps_read fun current => ?_
  refine keeps_bind (search_apart (fun i => ?_) _ _) fun found => ?_
  · exact keeps_bind (processExists_apart i) fun _ => keeps_ite (fun _ => keeps_read) fun _ => keeps_pure
  · cases found with
    | none => exact keeps_pure
    | some i => exact contextSwitch_apart ..

theorem schedule_apart : KeepsFileSide view schedule := by
  have counted : KeepsFileSide view (update fun m => {m with currentRuntime := m.currentRuntime + 1}) := update_apart fun _ => rfl
  refine keeps_bind keeps_read fun _ => keeps_bind keeps_read fun _ => ?_
  exact keeps_ite (fun _ => keeps_bind (next_apart _) fun _ => counted) fun _ => counted

theorem freeEntry_apart (is : List (Fin pcbSize)) : KeepsFileSide view (freeEntry is) := by
  induction is with
  | nil => exact keeps_bind keeps_note fun _ => keeps_pure
  | cons i rest ih => exact keeps_bind (processExists_apart i) fun _ => keeps_ite (fun _ => ih) fun _ => keeps_pure

theorem newPcbEntry_apart : KeepsFileSide view newPcbEntry := by
  refine keeps_bind (freeEntry_apart _) fun free => ?_
  cases free with
  | none => exact keeps_pure
  | some i => exact keeps_bind (update_apart fun _ => rfl) fun _ => keeps_pure

theorem mallocStack_apart : KeepsFileSide view mallocStack := by
  refine keeps_bind (keeps_bind keeps_read fun _ => keeps_bind (update_apart fun _ => rfl) fun _ => keeps_pure) fun ⟨_,_⟩ => ?_
  refine keeps_bind keeps_read fun _ => ?_
  exact keeps_ite (fun _ => keeps_bind (update_apart fun _ => rfl) fun _ => keeps_pure) fun _ => keeps_pure

theorem freeStack_apart (p : UInt32) : KeepsFileSide view (freeStack p) := by
  refine keeps_bind keeps_read fun _ => keeps_ite (fun _ => keeps_pure) fun _ => ?_
  exact keeps_ite (fun _ => update_apart fun _ => rfl) fun _ => keeps_stop

theorem dropBit_apart (i : Fin pcbSize) : KeepsFileSide view (dropBit i) :=
  keeps_bind keeps_note fun _ => update_apart fun _ => rfl

theorem haltIfNone_apart : KeepsFileSide view haltIfNone :=
  keeps_bind keeps_read fun _ => keeps_ite (fun _ => keeps_stop) fun _ => keeps_pure

theorem doExec_apart : KeepsFileSide view doExec := keeps_bind keeps_read fun _ => keeps_bind keeps_read fun _ => setCtx_apart _

theorem killProcess_apart (i : Fin pcbSize) : KeepsFileSide view (killProcess i) := by
  refine keeps_bind (processExists_apart i) fun _ => keeps_ite (fun _ => ?_) fun _ => haltIfNone_apart
  refine keeps_bind (dropBit_apart i) fun _ => keeps_bind keeps_read fun _ => ?_
  exact keeps_bind (freeStack_apart _) fun _ => haltIfNone_apart

theorem doKill_apart (pid : Int) : KeepsFileSide view (doKill pid) := by
  unfold doKill
  split
  · exact keeps_ite (fun _ => killProcess_apart _) fun _ => keeps_pure
  · exact keeps_pure

theorem doSemPost_apart (semId x : UInt32) : KeepsFileSide view (doSemPost semId x) := by
  unfold doSemPost
  split
  · refine keeps_ite (fun _ => keeps_pure) fun _ => keeps_bind keeps_read fun _ => ?_
    refine keeps_bind (search_apart (fun i => ?_) _ _) fun found => ?_
    · exact keeps_bind (processExists_apart i) fun _ => keeps_ite (fun _ => keeps_read) fun _ => keeps_pure
    · cases found with
      | none => exact update_apart fun _ => rfl
      | some i =>
          refine keeps_bind keeps_read fun _ => keeps_bind (update_apart fun _ => rfl) fun _ => ?_
          exact setPcb_apart (fun _ => rfl) fun _ => rfl
  · exact keeps_pure

theorem waiting_apart (semId x : UInt32) : KeepsFileSide view (do
    let i ← slot .sem pcbSize semId.toNat
    let v ← Prog.read fun m => m.sem i
    if v ≥ x then do
      setSem i (v - x)
      pure true
    else do
      setRunning fun p => {p with status := .waiting}
      if ← malloc then do
        setRunning fun p => {p with waiting := ⟨semId,x⟩}
        pure false
      else stop .null) := by
  refine keeps_bind (slot_apart ..) fun _ => keeps_bind keeps_read fun _ => keeps_ite (fun _ => ?_) fun _ => ?_
  · exact keeps_bind (update_apart fun _ => rfl) fun _ => keeps_pure
  · refine keeps_bind (setRunning_apart (fun _ => rfl) fun _ => rfl) fun _ => keeps_bind ?_ fun _ => ?_
    · exact keeps_bind (keeps_bind keeps_read fun _ => keeps_bind (update_apart fun _ => rfl) fun _ => keeps_pure) fun ⟨_,_⟩ =>
        keeps_pure
    · refine keeps_ite (fun _ => ?_) fun _ => keeps_stop
      exact keeps_bind (setRunning_apart (fun _ => rfl) fun _ => rfl) fun _ => keeps_pure

theorem doSemWait_apart (semId x : UInt32) : KeepsFileSide view (doSemWait semId x) := by
  refine keeps_ite (fun invalid => ⟨fun run => ?_⟩) fun _ => waiting_apart semId x
  obtain ⟨_,t,_,run⟩ := ends_bind.mp run
  obtain ⟨i,_,found,_⟩ := ends_bind.mp run
  have index := Int.ofNat.inj (slot_ends.mp found).1
  exact absurd i.isLt (by omega)

theorem svc_apart {id : UInt32} (other : id.toNat ∉ [0x01,0x02,0x03,0x04,0x0B,0x0C,0x0D,0x0E,0x10,0x11,0x12,0x13,0x14,0x15,0x16]) :
    KeepsFileSide view (svc id) := by
  unfold svc
  generalize id.toNat = n at other
  split
  case h_1 => exact next_apart _
  case h_6 => exact doExec_apart
  case h_7 => exact keeps_bind keeps_read fun _ => doKill_apart _
  case h_8 =>
    refine keeps_bind keeps_read fun _ => keeps_bind keeps_read fun _ => ?_
    refine keeps_ite (fun _ => keeps_pure) fun _ => keeps_bind (slot_apart ..) fun _ => ?_
    exact setPcb_apart (fun _ => rfl) fun _ => rfl
  case h_9 =>
    refine keeps_bind keeps_read fun _ => keeps_bind keeps_read fun _ => keeps_ite (fun _ => setGpr_apart ..) fun _ => ?_
    refine keeps_bind (slot_apart ..) fun _ => keeps_bind keeps_read fun _ => ?_
    exact keeps_bind (doSemPost_apart ..) fun _ => setGpr_apart ..
  case h_10 => exact keeps_bind keeps_read fun _ => keeps_bind keeps_read fun _ => doSemPost_apart ..
  case h_11 =>
    refine keeps_bind keeps_read fun _ => keeps_bind keeps_read fun _ => keeps_bind (doSemWait_apart ..) fun _ => ?_
    exact keeps_ite (fun _ => keeps_pure) fun _ => next_apart _
  case h_16 => exact keeps_bind doExec_apart fun _ => keeps_bind keeps_read fun _ => setGpr_apart ..
  case h_24 =>
    refine keeps_bind keeps_read fun _ => keeps_bind keeps_read fun _ => keeps_bind keeps_read fun _ => ?_
    exact keeps_bind (update_apart fun _ => rfl) fun _ => setGpr_apart ..
  case h_25 => exact keeps_pure
  all_goals exact absurd (by decide) other

theorem irq_apart (id : UInt32) : KeepsFileSide view (irq id) := keeps_ite (fun _ => schedule_apart) fun _ => keeps_pure

end Processes

-- The volume is used by paths only: pipes, descriptors and processes leave it alone.
abbrev Dry {α : Type} (p : Sys α) : Prop := Keeps Machine.fs p

section Dryness

theorem slot_dry (table : Table) (n : Nat) (index : Int) : Dry (slot table n index) :=
  @slot_apart _ FileSide.fs table n index

theorem setRunning_dry (f : Pcb → Pcb) : Dry (setRunning f) :=
  keeps_bind keeps_read fun _ => keeps_update fun _ => rfl

theorem setFdt_dry (fd : Fin fdtSize) (i : Int) : Dry (setFdt fd i) := setRunning_dry _

theorem setOpenft_dry (i : Fin openSize) (p : Option UInt32) : Dry (setOpenft i p) := keeps_update fun _ => rfl

theorem setPipe_dry (i : Fin pcbSize) (p : Option Pipe) : Dry (setPipe i p) := keeps_update fun _ => rfl

theorem setFdte_dry (p : UInt32) (e : Option Fdte) : Dry (setFdte p e) := keeps_update fun _ => rfl

theorem poke_dry (start : UInt32) (bytes : List UInt8) : Dry (poke start bytes) := keeps_update fun _ => rfl

theorem setGpr_dry (n : Fin 13) (w : UInt32) : Dry (setGpr n w) := keeps_update fun _ => rfl

theorem fdtAt_dry (fd : Int) : Dry (fdtAt fd) := @fdtAt_apart _ FileSide.fs fd

theorem openftAt_dry (i : Int) : Dry (openftAt i) := keeps_bind (slot_dry ..) fun _ => keeps_read

theorem deref_dry (p : Option UInt32) : Dry (deref p) where
  same run := by rw [(deref_ends.mp run).2.2]

theorem ask_dry : Dry ask := keeps_bind keeps_read fun _ => keeps_bind (keeps_update fun _ => rfl) fun _ => keeps_pure

theorem mallocFdte_dry : Dry mallocFdte := by
  refine keeps_bind ask_dry fun ⟨_,_⟩ => keeps_bind keeps_read fun _ => ?_
  exact keeps_ite (fun _ => keeps_pure) fun _ => keeps_bind (setFdte_dry ..) fun _ => keeps_pure

theorem mallocPipe_dry : Dry mallocPipe := keeps_bind ask_dry fun ⟨_,_⟩ => keeps_bind keeps_read fun _ => keeps_pure

theorem freeFdte_dry (p : Option UInt32) : Dry (freeFdte p) := by
  cases p with
  | none => exact keeps_pure
  | some p => exact keeps_bind (deref_dry _) fun ⟨_,_⟩ => setFdte_dry ..

theorem makePipe_dry (pipefds : UInt32) (rindP windP : Fin fdtSize) (pindex : Fin pcbSize) (rindG windG : Fin openSize) :
    Dry (makePipe pipefds rindP windP pindex rindG windG) := by
  refine keeps_bind mallocPipe_dry fun pipe => keeps_bind (setPipe_dry ..) fun _ => ?_
  cases pipe with
  | none => exact keeps_pure
  | some pipe =>
      refine keeps_bind mallocFdte_dry fun rend => ?_
      cases rend with
      | none => exact keeps_pure
      | some rend =>
          refine keeps_bind mallocFdte_dry fun wend => ?_
          cases wend with
          | none => exact keeps_pure
          | some wend =>
              refine keeps_bind (setPipe_dry ..) fun _ => keeps_bind (deref_dry _) fun ⟨_,_⟩ => ?_
              refine keeps_bind (deref_dry _) fun ⟨_,_⟩ => keeps_bind (setFdte_dry ..) fun _ => ?_
              refine keeps_bind (setFdte_dry ..) fun _ => keeps_bind (setOpenft_dry ..) fun _ => ?_
              refine keeps_bind (setOpenft_dry ..) fun _ => keeps_bind (setFdt_dry ..) fun _ => ?_
              refine keeps_bind (setFdt_dry ..) fun _ => keeps_bind (poke_dry ..) fun _ => ?_
              exact keeps_bind (poke_dry ..) fun _ => keeps_pure

theorem doPipe_dry (pipefds : UInt32) : Dry (doPipe pipefds) := by
  refine keeps_bind keeps_read fun p => ?_
  dsimp only
  split
  · exact keeps_pure
  split
  · exact keeps_pure
  refine keeps_bind keeps_read fun pipes => ?_
  split
  · exact keeps_pure
  refine keeps_bind keeps_read fun openft => ?_
  split
  · exact keeps_pure
  split
  · exact keeps_pure
  exact makePipe_dry ..

theorem dropFdte_dry (i : Int) (p : UInt32) (fde : Fdte) (fd : Fin fdtSize) : Dry (dropFdte i p fde fd) := by
  unfold dropFdte
  split
  · exact keeps_bind (openftAt_dry _) fun _ => keeps_bind (freeFdte_dry _) fun _ => keeps_pure
  · exact keeps_pure
  · refine keeps_bind (freeFdte_dry _) fun _ => keeps_bind (slot_dry ..) fun _ => ?_
    exact keeps_bind (setOpenft_dry ..) fun _ => keeps_bind (setFdt_dry ..) fun _ => keeps_pure
  · exact keeps_pure

theorem closeSlot_dry (fd : Fin fdtSize) : Dry (closeSlot fd) := by
  refine keeps_bind (fdtAt_dry _) fun i => keeps_ite (fun _ => keeps_pure) fun _ => ?_
  refine keeps_bind (setFdt_dry ..) fun _ => keeps_bind (openftAt_dry _) fun _ => ?_
  refine keeps_bind (deref_dry _) fun ⟨_,_⟩ => keeps_bind (setFdte_dry ..) fun _ => ?_
  exact keeps_ite (fun _ => keeps_pure) fun _ => dropFdte_dry ..

theorem doClose_dry (fd : Int) : Dry (doClose fd) := by
  unfold doClose
  split
  · exact keeps_ite (fun _ => closeSlot_dry _) fun _ => keeps_pure
  · exact keeps_pure

theorem closeAll_dry (fds : List (Fin fdtSize)) : Dry (closeAll fds) := by
  induction fds with
  | nil => exact keeps_pure
  | cons fd rest ih =>
      refine keeps_bind keeps_read fun p => ?_
      exact keeps_ite (fun _ => keeps_bind (doClose_dry _) fun _ => ih) fun _ => ih

theorem doExit_dry : Dry doExit := by
  refine keeps_bind (setRunning_dry _) fun _ => keeps_bind keeps_read fun _ => ?_
  refine keeps_bind (@freeStack_apart _ FileSide.fs _) fun _ => keeps_bind (closeAll_dry _) fun _ => ?_
  refine keeps_bind keeps_read fun _ => keeps_bind (@dropBit_apart _ FileSide.fs _) fun _ => ?_
  exact @haltIfNone_apart _ FileSide.fs

theorem doFork_dry : Dry doFork where
  same run := by
    cases doFork_ends.mp run with
    | full _ same => rw [same]; rfl
    | poor child _ _ same => rw [same]; rfl
    | born child stack _ _ _ _ same => rw [same]; rfl

end Dryness
end ArchiveOs.Kernel
