import ArchiveOs.Buffers
import ArchiveOs.FileSides

-- How the calls that make and drop descriptors end.
namespace ArchiveOs.Kernel
open Fs2
open Prog

-- The object behind a descriptor of the running process.
def Machine.object (m : Machine) (fd : Int) : Option Fdte :=
  if bound : fd.toNat < fdtSize then
    if 0 ≤ fd then (m.leads ((m.pcb m.current).fdt ⟨fd.toNat,bound⟩)).bind m.heap.fdtes else none
  else none

section Ends
variable {m m' : Machine}

-- One object of the file table, with all else as before.
def Heap.Writes (h h' : Heap) (p : UInt32) (e : Option Fdte) : Prop := h'.fdtes = fun q => if q = p then e else h.fdtes q

theorem Heap.Writes.twice {h h' h'' : Heap} {p : UInt32} {e e' : Option Fdte} (one : h.Writes h' p e) (two : h'.Writes h'' p e') :
    h.Writes h'' p e' := by
  unfold Writes at *
  rw [two]
  funext q
  by_cases here : q = p
  · rw [if_pos here,if_pos here]
  · rw [if_neg here,if_neg here,one]
    exact if_neg here

def openedFile (e : Fdte) (a : Path) (flags : UInt8) : Fdte :=
  {e with type := .file,mode := fmodeFromFlags flags,path := a,cursor := 0,openCount := 1}

theorem fillFile_ends {i : Fin openSize} {p : UInt32} {e : Fdte} {a : Path} {flags : UInt8} {f : Int}
    (object : m.heap.fdtes p = some e) (run : (fillFile i (some p) a flags).Ends m f m') :
    ∃ heap e',m' = {m with heap} ∧ m.heap.Writes heap p (some e') ∧
      (m.heap.answer m.heap.asked = 0 ∧ f = -1 ∨
        m.heap.answer m.heap.asked ≠ 0 ∧ f = (i : Nat) ∧ e' = openedFile e a flags) := by
  unfold fillFile setFdte setHeap at run
  simp only [ends_bind,ends_update,ends_ite,ends_note,ends_pure,malloc_ends] at run
  obtain ⟨⟨q,e'⟩,_,held,_,_,rfl,_,_,⟨rfl,rfl⟩,⟨useful,_,_,rfl,_,_,rfl,rfl,rfl⟩ | ⟨refused,rfl,rfl⟩⟩ := run
  · obtain ⟨same,there,rfl⟩ := deref_ends.mp held
    cases same
    cases object.symm.trans there
    refine ⟨_,openedFile e' a flags,rfl,?_,.inr ⟨of_decide_eq_true useful,rfl,rfl⟩⟩
    funext q'
    by_cases here : q' = q
    · exact (if_pos here).trans (if_pos here).symm
    · exact (if_neg here).trans ((if_neg here).trans (if_neg here).symm)
  · obtain ⟨same,there,rfl⟩ := deref_ends.mp held
    cases same
    cases object.symm.trans there
    refine ⟨_,_,rfl,rfl,.inl ⟨?_,rfl⟩⟩
    simpa using refused

-- How do_open looks for a file, which it may make.
def Sought (s : Mount) (a : Path) (flags : UInt8) (s' : Mount) (found : Bool) : Prop :=
  ∃ t r,isftype s a ftypeFile = some (t,r) ∧
    if r = false ∧ flags ≥ 4 then create t ftypeFile a = some (s',found) else s' = t ∧ found = r

-- One object and the entry that leads to it are new.
structure Enters (m m' : Machine) (i : Fin openSize) (p : UInt32) (e : Fdte) : Prop where
  free : m.openft i = none
  fresh : m.heap.fdtes p = none
  table : m'.openft = put m.openft i (some p)
  object : m.heap.Writes m'.heap p (some e)

-- do_open with an entry of the file table in hand.
inductive Opens (m m' : Machine) (a : Path) (flags : UInt8) : Int → Prop where
  | missing {s : Mount} : Sought m.fs a flags s false → m'.fs = s → Opens m m' a flags (-1)
  | poor {s : Mount} : Sought m.fs a flags s true → m'.fs = s → m.heap.answer (m.heap.asked + 1) = 0 → Opens m m' a flags (-1)
  | opened {s : Mount} {i : Fin openSize} {p : UInt32} {e : Fdte} : Sought m.fs a flags s true → m'.fs = s →
      m.heap.answer (m.heap.asked + 1) ≠ 0 → Enters m m' i p (openedFile e a flags) → Opens m m' a flags (i : Nat)

theorem mallocFdte_none (run : mallocFdte.Ends m none m') : m' = m.asksHeap := by
  unfold mallocFdte setFdte setHeap at run
  simp only [ends_bind,ask_ends,ends_read,ends_ite,ends_pure,ends_update] at run
  obtain ⟨_,_,⟨rfl,rfl⟩,_,_,⟨rfl,rfl⟩,⟨_,_,rfl⟩ | ⟨_,_,_,rfl,given,_⟩⟩ := run
  · rfl
  · cases given

theorem sought_ends {α : Type} {k : Bool → Sys α} {a : Path} {flags : UInt8} {r : α} (run : Ends (do
    let success ← fs fun s => isftype s a ftypeFile
    let success ← if ¬ success ∧ flags ≥ 4 then fs fun s => create s ftypeFile a else pure success
    k success) m r m') : ∃ s found,Sought m.fs a flags s found ∧ (k found).Ends {m with fs := s} r m' := by
  obtain ⟨yes,_,first,run⟩ := ends_bind.mp run
  obtain ⟨t,looked,rfl⟩ := ends_lift.mp first
  rcases ends_ite.mp run with ⟨missing,run⟩ | ⟨there,run⟩
  · obtain ⟨found,_,second,run⟩ := ends_bind.mp run
    obtain ⟨s,made,rfl⟩ := ends_lift.mp second
    refine ⟨s,found,⟨t,yes,looked,?_⟩,run⟩
    rw [if_pos ⟨Bool.eq_false_iff.mpr missing.1,missing.2⟩]
    exact made
  · obtain ⟨found,_,second,run⟩ := ends_bind.mp run
    obtain ⟨rfl,rfl⟩ := ends_pure.mp second
    refine ⟨t,yes,⟨t,yes,looked,?_⟩,run⟩
    rw [if_neg fun both => there ⟨Bool.eq_false_iff.mp both.1,both.2⟩]
    exact ⟨rfl,rfl⟩

theorem doOpen_ends {path : UInt32} {flags : UInt8} {f : Int} (run : (doOpen path flags).Ends m f m') :
    (m'.pcb = m.pcb ∧ m'.pipes = m.pipes ∧ m'.current = m.current ∧ m'.pcballoc = m.pcballoc) ∧
    (m.noEntry flags ∧ f = -1 ∧ m'.fs = m.fs ∧ m'.openft = m.openft ∧ m'.heap.fdtes = m.heap.fdtes ∨
      ¬ m.noEntry flags ∧ Opens m m' (m.apath path) flags f) := by
  rcases ends_ite.mp run with ⟨zero,run⟩ | ⟨used,run⟩
  · obtain ⟨rfl,rfl⟩ := ends_pure.mp run
    exact ⟨⟨rfl,rfl,rfl,rfl⟩,.inl ⟨.inl zero,rfl,rfl,rfl,rfl⟩⟩
  obtain ⟨_,_,now,run⟩ := ends_bind.mp run
  obtain ⟨rfl,rfl⟩ := ends_read.mp now
  split at run
  · rename_i full
    obtain ⟨rfl,rfl⟩ := ends_pure.mp run
    refine ⟨⟨rfl,rfl,rfl,rfl⟩,.inl ⟨.inr (.inl fun i => ?_),rfl,rfl,rfl,rfl⟩⟩
    simpa using firstFrom_none.mp full i (Nat.zero_le _)
  rename_i i found
  have free : m.openft i = none := Option.isNone_iff_eq_none.mp (firstFrom_some found).2.1
  obtain ⟨p,t,given,run⟩ := ends_bind.mp run
  obtain ⟨_,u,taken,run⟩ := ends_bind.mp run
  cases ends_update.mp taken
  cases p with
  | none =>
      obtain ⟨rfl,rfl⟩ := ends_pure.mp run
      have refused := (mallocFdte_ends given).mp rfl
      rw [mallocFdte_none given]
      refine ⟨⟨rfl,rfl,rfl,rfl⟩,.inl ⟨.inr (.inr refused),rfl,rfl,?_,rfl⟩⟩
      show put m.openft i none = m.openft
      rw [← free,put_same]
  | some p =>
      obtain ⟨useful,rfl,rfl⟩ := mallocFdte_allots.mp given
      have enough : ¬ m.noEntry flags := by
        rintro (zero | full | refused)
        · exact used zero
        · have wrong := full i
          rw [free] at wrong
          cases wrong
        · exact useful refused
      have fresh : m.heap.fdtes (m.heap.answer m.heap.asked) = none := by
        rw [← Option.not_isSome_iff_eq_none]
        exact fun some => useful (.inr some)
      have allotted : m.heap.Writes m.allots.heap (m.heap.answer m.heap.asked) (some (m.heap.junk m.heap.asked)) := rfl
      obtain ⟨apath,_,named,run⟩ := ends_bind.mp run
      obtain ⟨_,rfl,rfl⟩ := absPath_ends.mp named
      obtain ⟨s,found,sought,run⟩ := sought_ends run
      rcases ends_ite.mp run with ⟨success,run⟩ | ⟨failed,run⟩
      · cases success
        obtain ⟨heap,e,rfl,writes,⟨refused,rfl⟩ | ⟨enough',rfl,rfl⟩⟩ := fillFile_ends (if_pos rfl) run
        · exact ⟨⟨rfl,rfl,rfl,rfl⟩,.inr ⟨enough,.poor sought rfl refused⟩⟩
        · exact ⟨⟨rfl,rfl,rfl,rfl⟩,.inr ⟨enough,.opened sought rfl enough' ⟨free,fresh,rfl,allotted.twice writes⟩⟩⟩
      · obtain ⟨rfl,rfl⟩ := ends_pure.mp run
        rw [Bool.eq_false_iff.mpr failed] at sought
        exact ⟨⟨rfl,rfl,rfl,rfl⟩,.inr ⟨enough,.missing sought rfl⟩⟩

-- A descriptor of the running process.
def Machine.withFd (m : Machine) (fd : Fin fdtSize) (i : Int) : Machine :=
  m.setPcb m.current fun p => {p with fdt := put p.fdt fd i}

theorem withFd_self (m : Machine) (fd : Fin fdtSize) (i : Int) :
    ((m.withFd fd i).pcb m.current).fdt = put (m.pcb m.current).fdt fd i := congrArg Pcb.fdt (put_self ..)

theorem withFd_other (m : Machine) {j : Fin pcbSize} (fd : Fin fdtSize) (i : Int) (other : j ≠ m.current) :
    (m.withFd fd i).pcb j = m.pcb j := put_other _ _ other

theorem setFdt_ends {fd : Fin fdtSize} {i : Int} : (setFdt fd i).Ends m () m' ↔ m.withFd fd i = m' := by
  unfold setFdt setRunning
  simp only [ends_bind,ends_read]
  constructor
  · rintro ⟨_,_,⟨rfl,rfl⟩,set⟩
    exact ends_update.mp set
  · intro set
    exact ⟨_,_,⟨rfl,rfl⟩,ends_update.mpr set⟩

-- How OPEN ends: before it has an entry of the file table, without the file, or with it.
inductive Opening (m m' : Machine) : Prop where
  | denied : ¬ m.Fetches (m.ctx.gpr 1).toUInt8 → m'.ctx.gpr 0 = UInt32.ofInt (-1) → m'.fs = m.fs → m'.pcb = m.pcb →
      m'.openft = m.openft → m'.heap.fdtes = m.heap.fdtes → Opening m m'
  | failed {s : Mount} {found : Bool} : m.Fetches (m.ctx.gpr 1).toUInt8 → m'.ctx.gpr 0 = UInt32.ofInt (-1) →
      Sought m.fs (m.apath (m.ctx.gpr 0)) (m.ctx.gpr 1).toUInt8 s found → m'.fs = s →
      (found = true → m.heap.answer (m.heap.asked + 1) = 0) → Opening m m'
  | given {s : Mount} {k : Fin fdtSize} {i : Fin openSize} {p : UInt32} {e : Fdte} : m.Fetches (m.ctx.gpr 1).toUInt8 →
      m'.ctx.gpr 0 = UInt32.ofNat k → Sought m.fs (m.apath (m.ctx.gpr 0)) (m.ctx.gpr 1).toUInt8 s true → m'.fs = s →
      (m.pcb m.current).fdt k = -1 → m'.pcb = (m.withFd k i).pcb → m'.current = m.current → m'.pcballoc = m.pcballoc →
      Enters m m' i p (openedFile e (m.apath (m.ctx.gpr 0)) (m.ctx.gpr 1).toUInt8) → Opening m m'

theorem svcOpen_ends (run : svcOpen.Ends m () m') : Opening m m' ∧ m'.pipes = m.pipes := by
  obtain ⟨_,_,now,run⟩ := ends_bind.mp run
  obtain ⟨rfl,rfl⟩ := ends_read.mp now
  dsimp only at run
  split at run
  · rename_i full
    have unfree : ¬ m.Fetches (m.ctx.gpr 1).toUInt8 := by
      rintro ⟨⟨fd,free⟩,_⟩
      have used := firstFrom_none.mp full fd (Nat.zero_le _)
      rw [free] at used
      cases used
    cases setGpr_ends.mp run
    exact ⟨.denied unfree (put_self m.ctx.gpr 0 _) rfl rfl rfl rfl,rfl⟩
  rename_i k found
  have free : (m.pcb m.current).fdt k = -1 := of_decide_eq_true (firstFrom_some found).2.1
  obtain ⟨_,_,now,run⟩ := ends_bind.mp run
  obtain ⟨rfl,rfl⟩ := gpr_ends.mp now
  obtain ⟨_,_,now,run⟩ := ends_bind.mp run
  obtain ⟨rfl,rfl⟩ := gpr_ends.mp now
  obtain ⟨n,t,opened,run⟩ := ends_bind.mp run
  obtain ⟨⟨pcb,pipes,current,alloc⟩,⟨early,rfl,volume,table,objects⟩ | ⟨enough,ended⟩⟩ := doOpen_ends opened
  · rcases ends_ite.mp run with ⟨wrong,_⟩ | ⟨_,run⟩
    · exact absurd rfl wrong
    · cases setGpr_ends.mp run
      exact ⟨.denied (fun fetches => fetches.2 early) (put_self t.ctx.gpr 0 _) volume pcb table objects,pipes⟩
  have fetches : m.Fetches (m.ctx.gpr 1).toUInt8 := ⟨⟨k,free⟩,enough⟩
  rcases ends_ite.mp run with ⟨there,run⟩ | ⟨none,run⟩
  · obtain ⟨_,u,set,run⟩ := ends_bind.mp run
    cases setFdt_ends.mp set
    cases setGpr_ends.mp run
    cases ended with
    | missing => exact absurd rfl there
    | poor => exact absurd rfl there
    | @opened s i p e sought volume _ enters =>
        refine ⟨.given (i := i) (e := e) fetches (put_self t.ctx.gpr 0 _) sought volume free ?_ current alloc
          ⟨enters.free,enters.fresh,enters.table,enters.object⟩,pipes⟩
        show (t.withFd k i).pcb = (m.withFd k i).pcb
        unfold Machine.withFd Machine.setPcb
        rw [pcb,current]
  · cases setGpr_ends.mp run
    cases ended with
    | missing sought volume =>
        exact ⟨.failed fetches (put_self t.ctx.gpr 0 _) sought volume fun wrong => (by cases wrong),pipes⟩
    | poor sought volume refused => exact ⟨.failed fetches (put_self t.ctx.gpr 0 _) sought volume fun _ => refused,pipes⟩
    | opened => exact absurd (by omega) none

theorem fdtAt_ends {n i : Int} :
    (fdtAt n).Ends m i m' ↔ (∃ fd : Fin fdtSize,n = fd.val ∧ (m.pcb m.current).fdt fd = i) ∧ m = m' := by
  unfold fdtAt running
  simp only [ends_bind,slot_ends,ends_read,ends_pure]
  constructor
  · rintro ⟨fd,_,⟨here,rfl⟩,_,_,⟨rfl,rfl⟩,found,rfl⟩
    exact ⟨⟨fd,here,found⟩,rfl⟩
  · rintro ⟨⟨fd,here,found⟩,rfl⟩
    exact ⟨fd,m,⟨here,rfl⟩,_,_,⟨rfl,rfl⟩,found,rfl⟩

-- How do_write and do_read come to the object behind a descriptor.
def onObject (fd : Int) (k : UInt32 → Fdte → Sys Int) : Sys Int := do
  let i ← fdtAt fd
  if i = -1 then pure (-1)
  else do
    match ← openftAt i with
    | none => pure (-1)
    | some p => do
      let (p,fde) ← deref (some p)
      k p fde

theorem doWrite_object (fd : Int) (src nchars : UInt32) : doWrite fd src nchars = onObject fd fun p fde =>
    if fde.mode = .w ∨ fde.mode = .rw then writeEntry p fde src nchars else pure 0 := rfl

theorem doRead_object (fd : Int) (out nchars : UInt32) : doRead fd out nchars = onObject fd fun p fde =>
    if fde.mode = .r ∨ fde.mode = .rw then readEntry p fde out nchars else pure 0 := rfl

theorem object_ends {fd r : Int} {k : UInt32 → Fdte → Sys Int} (run : (onObject fd k).Ends m r m') :
    m.object fd = none ∧ m' = m ∨
      ∃ p e,m.object fd = some e ∧ (∃ l,m.openft l = some p) ∧ m.heap.fdtes p = some e ∧ (k p e).Ends m r m' := by
  obtain ⟨i,_,found,run⟩ := ends_bind.mp run
  obtain ⟨⟨k',here,rfl⟩,rfl⟩ := fdtAt_ends.mp found
  have object : m.object fd = (m.leads ((m.pcb m.current).fdt k')).bind m.heap.fdtes := by
    subst here
    unfold Machine.object
    rw [dif_pos (show ((k'.val : Int)).toNat < fdtSize from k'.isLt),if_pos (Int.natCast_nonneg _)]
    rfl
  rcases ends_ite.mp run with ⟨free,run⟩ | ⟨_,run⟩
  · obtain ⟨_,rfl⟩ := ends_pure.mp run
    refine .inl ⟨?_,rfl⟩
    rw [object,free]
    rfl
  obtain ⟨p,_,looked,run⟩ := ends_bind.mp run
  obtain ⟨opened,rfl⟩ := openftAt_ends.mp looked
  cases p with
  | none =>
      obtain ⟨_,rfl⟩ := ends_pure.mp run
      refine .inl ⟨?_,rfl⟩
      cases leads : m.leads ((m.pcb m.current).fdt k') with
      | none => rw [object,leads]; rfl
      | some p =>
          obtain ⟨j,same,some⟩ := leads_some.mp leads
          obtain ⟨l,same',none⟩ := opened
          have both : j = l := Fin.ext (Int.ofNat.inj (same.symm.trans same'))
          rw [both,none] at some
          cases some
  | some p =>
      obtain ⟨⟨q,e⟩,_,held,ended⟩ := ends_bind.mp run
      obtain ⟨same,there,rfl⟩ := deref_ends.mp held
      cases same
      refine .inr ⟨q,e,?_,opened.imp fun _ both => both.2,there,ended⟩
      rw [object,leads_some.mpr opened]
      exact there

theorem object_some {t : Machine} (k : Fin fdtSize) (i : Fin openSize) {p : UInt32} {e : Fdte}
    (used : (t.pcb t.current).fdt k = (i : Nat)) (entry : t.openft i = some p) (object : t.heap.fdtes p = some e) :
    t.object k.val = some e := by
  unfold Machine.object
  rw [dif_pos (show ((k.val : Int)).toNat < fdtSize from k.isLt),if_pos (Int.natCast_nonneg _)]
  have leads : t.leads ((t.pcb t.current).fdt k) = some p := leads_some.mpr ⟨i,used,entry⟩
  exact (congrArg (fun o => Option.bind o t.heap.fdtes) leads).trans object

end Ends
end ArchiveOs.Kernel
