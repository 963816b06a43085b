import ArchiveOs.Procs

-- What can be said of the calls on files and pipes from the ways in which they touch
-- the machine, and that they leave the processes alone.
namespace ArchiveOs.Kernel
open Fs2
open Prog

-- A property of programs that holds of each of those ways, and of programs put
-- together from ones that have it.
structure Frame (K : (α : Type) → Sys α → Prop) : Prop where
  ret : ∀ {α : Type} (a : α),K α (pure a)
  look : ∀ {α : Type} (f : Machine → α),K α (Prog.read f)
  halt : ∀ {α : Type} (e : Stop),K α (stop e)
  seq : ∀ {α β : Type} {p : Sys α} {f : α → Sys β},K α p → (∀ a,K β (f a)) → K β (p >>= f)
  touch : ∀ (table : Table) (index : Int),K Unit (note (.slot table index))
  onFdt : ∀ (fd : Fin fdtSize) (i : Int),K Unit (setFdt fd i)
  onOpenft : ∀ (i : Fin openSize) (p : Option UInt32),K Unit (setOpenft i p)
  onPipe : ∀ (i : Fin pcbSize) (p : Option Pipe),K Unit (setPipe i p)
  onObject : ∀ (p : UInt32) (e : Option Fdte),K Unit (setFdte p e)
  onAsked : K Unit (setHeap fun h => {h with asked := h.asked + 1})
  onFs : ∀ {α : Type} (f : Mount → Option (Mount × α)),K α (fs f)
  onRam : ∀ (start : UInt32) (bytes : List UInt8),K Unit (poke start bytes)

-- With the paths, of which the copies are noted.
structure PathFrame (K : (α : Type) → Sys α → Prop) : Prop extends Frame K where
  onCopy : ∀ room bytes : Nat,K Unit (note (.copy room bytes))

section Frames
variable {K : (α : Type) → Sys α → Prop}

theorem Frame.ite (_ : Frame K) {α : Type} {c : Prop} [Decidable c] {p q : Sys α} (yes : c → K α p) (no : ¬ c → K α q) :
    K α (if c then p else q) := by
  split
  case isTrue h => exact yes h
  case isFalse h => exact no h

theorem Frame.running (k : Frame K) : K _ running := k.look _

theorem Frame.slot (k : Frame K) (table : Table) (n : Nat) (index : Int) : K _ (slot table n index) := by
  unfold Kernel.slot
  refine k.seq (k.touch ..) fun _ => ?_
  split
  · exact k.ite (fun _ => k.ret _) fun _ => k.halt _
  · exact k.halt _

theorem Frame.fdtAt (k : Frame K) (fd : Int) : K _ (fdtAt fd) :=
  k.seq (k.slot ..) fun _ => k.seq k.running fun _ => k.ret _

theorem Frame.openftAt (k : Frame K) (i : Int) : K _ (openftAt i) := k.seq (k.slot ..) fun _ => k.look _

theorem Frame.deref (k : Frame K) (p : Option UInt32) : K _ (deref p) := by
  cases p with
  | none => exact k.halt _
  | some p =>
      refine k.seq (k.look _) fun e => ?_
      cases e with
      | none => exact k.halt _
      | some e => exact k.ret _

theorem Frame.ask (k : Frame K) : K _ ask := k.seq (k.look _) fun _ => k.seq k.onAsked fun _ => k.ret _

theorem Frame.mallocFdte (k : Frame K) : K _ mallocFdte := by
  refine k.seq k.ask fun ⟨_,_⟩ => k.seq (k.look _) fun _ => ?_
  exact k.ite (fun _ => k.ret _) fun _ => k.seq (k.onObject ..) fun _ => k.ret _

theorem Frame.mallocPipe (k : Frame K) : K _ mallocPipe :=
  k.seq k.ask fun ⟨_,_⟩ => k.seq (k.look _) fun _ => k.ret _

theorem Frame.malloc (k : Frame K) : K _ malloc := k.seq k.ask fun ⟨_,_⟩ => (k.ret _)

theorem Frame.freeFdte (k : Frame K) (p : Option UInt32) : K _ (freeFdte p) := by
  cases p with
  | none => exact k.ret _
  | some p => exact k.seq (k.deref _) fun ⟨_,_⟩ => k.onObject ..

theorem Frame.makePipe (k : Frame K) (pipefds : UInt32) (rindP windP : Fin fdtSize) (pindex : Fin pcbSize)
    (rindG windG : Fin openSize) : K _ (makePipe pipefds rindP windP pindex rindG windG) := by
  refine k.seq k.mallocPipe fun pipe => k.seq (k.onPipe ..) fun _ => ?_
  cases pipe with
  | none => exact k.ret _
  | some pipe =>
      refine k.seq k.mallocFdte fun rend => ?_
      cases rend with
      | none => exact k.ret _
      | some rend =>
          refine k.seq k.mallocFdte fun wend => ?_
          cases wend with
          | none => exact k.ret _
          | some wend =>
              refine k.seq (k.onPipe ..) fun _ => k.seq (k.deref _) fun ⟨_,_⟩ => ?_
              refine k.seq (k.deref _) fun ⟨_,_⟩ => k.seq (k.onObject ..) fun _ => ?_
              refine k.seq (k.onObject ..) fun _ => k.seq (k.onOpenft ..) fun _ => ?_
              refine k.seq (k.onOpenft ..) fun _ => k.seq (k.onFdt ..) fun _ => ?_
              refine k.seq (k.onFdt ..) fun _ => k.seq (k.onRam ..) fun _ => ?_
              exact k.seq (k.onRam ..) fun _ => k.ret _

theorem Frame.doPipe (k : Frame K) (pipefds : UInt32) : K _ (doPipe pipefds) := by
  refine k.seq k.running fun p => ?_
  dsimp only
  split
  · exact k.ret _
  split
  · exact k.ret _
  refine k.seq (k.look _) fun pipes => ?_
  split
  · exact k.ret _
  refine k.seq (k.look _) fun openft => ?_
  split
  · exact k.ret _
  split
  · exact k.ret _
  exact k.makePipe ..

theorem Frame.dropFdte (k : Frame K) (i : Int) (p : UInt32) (fde : Fdte) (fd : Fin fdtSize) : K _ (dropFdte i p fde fd) := by
  unfold Kernel.dropFdte
  split
  · exact k.seq (k.openftAt _) fun _ => k.seq (k.freeFdte _) fun _ => k.ret _
  · exact k.ret _
  · refine k.seq (k.freeFdte _) fun _ => k.seq (k.slot ..) fun _ => ?_
    exact k.seq (k.onOpenft ..) fun _ => k.seq (k.onFdt ..) fun _ => k.ret _
  · exact k.ret _

theorem Frame.closeSlot (k : Frame K) (fd : Fin fdtSize) : K _ (closeSlot fd) := by
  refine k.seq (k.fdtAt _) fun i => k.ite (fun _ => k.ret _) fun _ => ?_
  refine k.seq (k.onFdt ..) fun _ => k.seq (k.openftAt _) fun _ => ?_
  refine k.seq (k.deref _) fun ⟨_,_⟩ => k.seq (k.onObject ..) fun _ => ?_
  exact k.ite (fun _ => k.ret _) fun _ => k.dropFdte ..

theorem Frame.doClose (k : Frame K) (fd : Int) : K _ (doClose fd) := by
  unfold Kernel.doClose
  split
  · exact k.ite (fun _ => k.closeSlot _) fun _ => k.ret _
  · exact k.ret _

theorem Frame.closeAll (k : Frame K) (fds : List (Fin fdtSize)) : K _ (closeAll fds) := by
  induction fds with
  | nil => exact k.ret _
  | cons fd rest ih =>
      refine k.seq k.running fun p => ?_
      exact k.ite (fun _ => k.seq (k.doClose _) fun _ => ih) fun _ => ih

theorem Frame.shareAll (k : Frame K) (fds : List (Fin fdtSize)) : K _ (shareAll fds) := by
  induction fds with
  | nil => exact k.ret _
  | cons fd rest ih =>
      refine k.seq k.running fun p => k.ite (fun _ => ?_) fun _ => ih
      refine k.seq (k.openftAt _) fun _ => k.seq (k.deref _) fun ⟨_,_⟩ => ?_
      exact k.seq (k.onObject ..) fun _ => ih

theorem Frame.writeEntry (k : Frame K) (p : UInt32) (fde : Fdte) (src nchars : UInt32) : K _ (writeEntry p fde src nchars) := by
  refine k.seq (k.look _) fun ram => ?_
  split
  · exact k.ret _
  · refine k.seq (k.slot ..) fun id => k.seq (k.look _) fun pipe => ?_
    cases pipe with
    | none => exact k.halt _
    | some pipe => exact k.seq (k.onPipe ..) fun _ => k.ret _
  · refine k.seq (k.onFs _) fun n => ?_
    exact k.ite (fun _ => k.seq (k.onObject ..) fun _ => k.ret _) fun _ => k.ret _
  · exact k.halt _

theorem Frame.doWrite (k : Frame K) (fd : Int) (src nchars : UInt32) : K _ (doWrite fd src nchars) := by
  refine k.seq (k.fdtAt _) fun i => k.ite (fun _ => k.ret _) fun _ => ?_
  refine k.seq (k.openftAt _) fun p => ?_
  cases p with
  | none => exact k.ret _
  | some p =>
      refine k.seq (k.deref _) fun ⟨_,_⟩ => ?_
      exact k.ite (fun _ => k.writeEntry ..) fun _ => k.ret _

theorem Frame.readEntry (k : Frame K) (p : UInt32) (fde : Fdte) (out nchars : UInt32) : K _ (readEntry p fde out nchars) := by
  unfold Kernel.readEntry
  split
  · exact k.ite (fun _ => k.seq (k.onRam ..) fun _ => k.ret _) fun _ => k.ret _
  · refine k.seq (k.slot ..) fun id => k.seq (k.look _) fun pipe => ?_
    cases pipe with
    | none => exact k.halt _
    | some pipe => exact k.seq (k.onPipe ..) fun _ => k.seq (k.onRam ..) fun _ => k.ret _
  · refine k.seq (k.onFs _) fun n => k.seq (k.onRam ..) fun _ => ?_
    exact k.ite (fun _ => k.seq (k.onObject ..) fun _ => k.ret _) fun _ => k.ret _
  · exact k.halt _

theorem Frame.doRead (k : Frame K) (fd : Int) (out nchars : UInt32) : K _ (doRead fd out nchars) := by
  refine k.seq (k.fdtAt _) fun i => k.ite (fun _ => k.ret _) fun _ => ?_
  refine k.seq (k.openftAt _) fun p => ?_
  cases p with
  | none => exact k.ret _
  | some p =>
      refine k.seq (k.deref _) fun ⟨_,_⟩ => ?_
      exact k.ite (fun _ => k.readEntry ..) fun _ => k.ret _

theorem PathFrame.strcpy (k : PathFrame K) (room : Nat) (s : Path) : K _ (strcpy room s) :=
  k.seq (k.onCopy ..) fun _ => k.ite (fun _ => k.halt _) fun _ => k.ret _

theorem PathFrame.absPath (k : PathFrame K) (path : UInt32) : K _ (absPath path) := by
  refine k.seq k.running fun p => k.seq (k.look _) fun ram => ?_
  refine k.ite (fun _ => k.ret _) fun _ => k.ite (fun _ => k.ret _) fun _ => ?_
  exact k.ite (fun _ => k.ret _) fun _ => k.seq (k.strcpy ..) fun _ => k.ret _

theorem PathFrame.fillFile (k : PathFrame K) (i : Fin openSize) (p : Option UInt32) (apath : Path) (flags : UInt8) :
    K _ (fillFile i p apath flags) := by
  refine k.seq (k.deref _) fun ⟨_,_⟩ => k.seq (k.onObject ..) fun _ => k.seq k.malloc fun _ => ?_
  refine k.ite (fun _ => ?_) fun _ => k.ret _
  exact k.seq (k.onCopy ..) fun _ => k.seq (k.onObject ..) fun _ => k.ret _

theorem PathFrame.doOpen (k : PathFrame K) (path : UInt32) (flags : UInt8) : K _ (doOpen path flags) := by
  refine k.ite (fun _ => k.ret _) fun _ => k.seq (k.look _) fun openft => ?_
  split
  · exact k.ret _
  refine k.seq k.mallocFdte fun p => k.seq (k.onOpenft ..) fun _ => ?_
  cases p with
  | none => exact k.ret _
  | some p =>
      refine k.seq (k.absPath _) fun apath => k.seq (k.onFs _) fun success => ?_
      have rest : ∀ {c : Prop} [Decidable c] {i : Fin openSize} {p : UInt32},
          K _ (if c then Kernel.fillFile i (some p) apath flags else pure (-1)) :=
        k.ite (fun _ => k.fillFile ..) fun _ => k.ret _
      exact k.ite (fun _ => k.seq (k.onFs _) fun _ => rest) fun _ => rest

theorem PathFrame.doCd (k : PathFrame K) (onWd : ∀ path : Path,K Unit (setRunning fun p => {p with wd := path}))
    (cd : UInt32) : K _ (doCd cd) := by
  refine k.seq (k.absPath _) fun apath => k.seq (k.onFs _) fun yes => ?_
  refine k.ite (fun _ => ?_) fun _ => k.ret _
  exact k.seq (k.strcpy ..) fun _ => k.seq (onWd _) fun _ => k.ret _

end Frames

abbrev Calm {α : Type} (p : Sys α) : Prop := Keeps Machine.procs p

theorem setPcb_calm {i : Fin pcbSize} {f : Pcb → Pcb} (same : ∀ p,(f p).proc = p.proc) : Calm (setPcb i f) := by
  refine keeps_update fun m => ?_
  rw [procs_setPcb m i (g := id) same]
  exact Procs.setPcb_id ..

theorem setRunning_calm {f : Pcb → Pcb} (same : ∀ p,(f p).proc = p.proc) : Calm (setRunning f) :=
  keeps_bind keeps_read fun _ => setPcb_calm same

theorem calmFrame : PathFrame fun _ p => Calm p where
  ret _ := keeps_pure
  look _ := keeps_read
  halt _ := keeps_stop
  seq := keeps_bind
  touch _ _ := keeps_note
  onFdt _ _ := setRunning_calm fun _ => rfl
  onOpenft _ _ := keeps_update fun _ => rfl
  onPipe _ _ := keeps_update fun _ => rfl
  onObject _ _ := keeps_update fun _ => rfl
  onAsked := keeps_update fun _ => rfl
  onFs _ := keeps_lift fun _ _ => rfl
  onRam _ _ := keeps_update fun _ => rfl
  onCopy _ _ := keeps_note

end ArchiveOs.Kernel
