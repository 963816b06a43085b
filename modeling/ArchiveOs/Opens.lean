import ArchiveOs.Boots

-- OPEN and PIPE when they fail. Both claim a place of a table before the last step
-- that can fail, and give nothing back; PIPE does not tell its caller.
namespace ArchiveOs.Kernel
open Fs2
open Prog

-- The parts of the machine in which a call can leave a trace, and those that say
-- who has called it.
structure Traces where
  openft : Fin openSize → Option UInt32
  pipes : Fin pcbSize → Option Pipe
  pcb : Fin pcbSize → Pcb
  current : Fin pcbSize
  ctx : Ctx

def Machine.traces (m : Machine) : Traces := ⟨m.openft,m.pipes,m.pcb,m.current,m.ctx⟩

abbrev Blank {α : Type} (p : Sys α) : Prop := Keeps Machine.traces p

section Blanks

theorem ask_blank : Blank ask := keeps_bind keeps_read fun _ => keeps_bind (keeps_update fun _ => rfl) fun _ => keeps_pure

theorem setFdte_blank (p : UInt32) (e : Option Fdte) : Blank (setFdte p e) := keeps_update fun _ => rfl

theorem mallocFdte_blank : Blank mallocFdte := by
  refine keeps_bind ask_blank fun ⟨_,_⟩ => keeps_bind keeps_read fun _ => ?_
  exact keeps_ite (fun _ => keeps_pure) fun _ => keeps_bind (setFdte_blank ..) fun _ => keeps_pure

theorem mallocPipe_blank : Blank mallocPipe :=
  keeps_bind ask_blank fun ⟨_,_⟩ => keeps_bind keeps_read fun _ => keeps_pure

theorem malloc_blank : Blank malloc := keeps_bind ask_blank fun ⟨_,_⟩ => keeps_pure

theorem deref_blank (p : Option UInt32) : Blank (deref p) where
  same run := by rw [(deref_ends.mp run).2.2]

theorem fs_blank {α : Type} (f : Mount → Option (Mount × α)) : Blank (fs f) := keeps_lift fun _ _ => rfl

theorem strcpy_blank (room : Nat) (s : Path) : Blank (strcpy room s) :=
  keeps_bind keeps_note fun _ => keeps_ite (fun _ => keeps_stop) fun _ => keeps_pure

theorem absPath_blank (path : UInt32) : Blank (absPath path) := by
  refine keeps_bind keeps_read fun p => keeps_bind keeps_read fun ram => ?_
  refine keeps_ite (fun _ => keeps_pure) fun _ => keeps_ite (fun _ => keeps_pure) fun _ => ?_
  exact keeps_ite (fun _ => keeps_pure) fun _ => keeps_bind (strcpy_blank ..) fun _ => keeps_pure

theorem fillFile_blank (i : Fin openSize) (p : Option UInt32) (apath : Path) (flags : UInt8) :
    Blank (fillFile i p apath flags) := by
  refine keeps_bind (deref_blank _) fun ⟨_,_⟩ => keeps_bind (setFdte_blank ..) fun _ => keeps_bind malloc_blank fun _ => ?_
  refine keeps_ite (fun _ => ?_) fun _ => keeps_pure
  exact keeps_bind keeps_note fun _ => keeps_bind (setFdte_blank ..) fun _ => keeps_pure

end Blanks

section Calls
variable {m m' : Machine}

-- The answer that the allocator will give next is of no use for an object of the file table.
def Heap.Refuses (h : Heap) : Prop := h.answer h.asked = 0 ∨ (h.fdtes (h.answer h.asked)).isSome

theorem mallocFdte_ends {p : Option UInt32} (run : mallocFdte.Ends m p m') : p = none ↔ m.heap.Refuses := by
  unfold mallocFdte setFdte setHeap at run
  simp only [ends_bind,ask_ends,ends_read,ends_ite,ends_pure,ends_update] at run
  unfold Heap.Refuses
  obtain ⟨_,_,⟨rfl,rfl⟩,_,_,⟨rfl,rfl⟩,⟨refused,rfl,_⟩ | ⟨useful,_,_,_,rfl,_⟩⟩ := run
  · exact ⟨fun _ => refused,fun _ => rfl⟩
  · exact ⟨fun wrong => (by cases wrong),fun refused => absurd refused useful⟩

theorem mallocPipe_ends {p : Option Pipe} (run : mallocPipe.Ends m p m') : p = none ↔ m.heap.answer m.heap.asked = 0 := by
  unfold mallocPipe at run
  simp only [ends_bind,ask_ends,ends_read,ends_pure] at run
  obtain ⟨_,_,⟨rfl,rfl⟩,_,_,⟨rfl,rfl⟩,rfl,_⟩ := run
  split
  · rename_i null
    exact ⟨fun _ => null,fun _ => rfl⟩
  · rename_i useful
    exact ⟨fun wrong => (by cases wrong),fun null => absurd null useful⟩

theorem fillFile_gives (i : Fin openSize) (p : Option UInt32) (apath : Path) (flags : UInt8) :
    Gives (fun f : Int => f = -1 ∨ f = (i : Nat)) (fillFile i p apath flags) := by
  refine gives_bind fun ⟨_,_⟩ => gives_bind fun _ => gives_bind fun _ => ?_
  refine gives_ite (gives_bind fun _ => gives_bind fun _ => ?_) ?_
  · exact gives_pure (.inr rfl)
  · exact gives_pure (.inl rfl)

-- Before do_open takes an entry it may find that it cannot.
def Machine.noEntry (m : Machine) (flags : UInt8) : Prop := flags = 0 ∨ (∀ i,(m.openft i).isSome) ∨ m.heap.Refuses

theorem lastStep_traces {c : Prop} [Decidable c] {i : Fin openSize} {p : UInt32} {apath : Path} {flags : UInt8} {f : Int}
    (run : Ends (if c then fillFile i (some p) apath flags else pure (-1)) m f m') :
    (f = -1 ∨ f = (i : Nat)) ∧ m'.traces = m.traces := by
  rcases ends_ite.mp run with ⟨_,run⟩ | ⟨_,run⟩
  · exact ⟨(fillFile_gives ..).value run,(fillFile_blank ..).same run⟩
  · obtain ⟨rfl,rfl⟩ := ends_pure.mp run
    exact ⟨.inl rfl,rfl⟩

theorem doOpen_traces {path : UInt32} {flags : UInt8} {f : Int} (run : (doOpen path flags).Ends m f m') :
    m.noEntry flags ∧ f = -1 ∧ m'.traces = m.traces ∨
      ¬ m.noEntry flags ∧ ∃ i p,m.openft i = none ∧ (f = -1 ∨ f = (i : Nat)) ∧
        m'.traces = {m.traces with openft := put m.openft i (some p)} := by
  unfold doOpen at run
  rcases ends_ite.mp run with ⟨zero,run⟩ | ⟨used,run⟩
  · obtain ⟨rfl,rfl⟩ := ends_pure.mp run
    exact .inl ⟨.inl zero,rfl,rfl⟩
  obtain ⟨_,_,now,run⟩ := ends_bind.mp run
  obtain ⟨rfl,rfl⟩ := ends_read.mp now
  split at run
  · rename_i full
    obtain ⟨rfl,rfl⟩ := ends_pure.mp run
    refine .inl ⟨.inr (.inl fun i => ?_),rfl,rfl⟩
    simpa using firstFrom_none.mp full i (Nat.zero_le _)
  rename_i i found
  have free : m.openft i = none := Option.isNone_iff_eq_none.mp (firstFrom_some found).2.1
  obtain ⟨p,t,given,run⟩ := ends_bind.mp run
  have same := mallocFdte_blank.same given
  have table : t.openft = m.openft := congrArg Traces.openft same
  obtain ⟨_,u,taken,run⟩ := ends_bind.mp run
  have taken : u.traces = {m.traces with openft := put m.openft i p} := by
    rw [← ends_update.mp taken,← same,← table]
    rfl
  cases p with
  | none =>
      obtain ⟨rfl,rfl⟩ := ends_pure.mp run
      refine .inl ⟨.inr (.inr ((mallocFdte_ends given).mp rfl)),rfl,?_⟩
      rw [taken,← free,put_same]
      rfl
  | some p =>
      have enough : ¬ m.noEntry flags := by
        rintro (zero | full | refused)
        · exact used zero
        · have wrong := full i
          rw [free] at wrong
          cases wrong
        · cases (mallocFdte_ends given).mpr refused
      refine .inr ⟨enough,i,p,free,?_⟩
      rw [← taken]
      obtain ⟨apath,u1,named,run⟩ := ends_bind.mp run
      obtain ⟨success,u2,found,run⟩ := ends_bind.mp run
      have still : u2.traces = u.traces := ((fs_blank _).same found).trans ((absPath_blank _).same named)
      rcases ends_ite.mp run with ⟨_,run⟩ | ⟨_,run⟩
      · obtain ⟨success,u3,made,run⟩ := ends_bind.mp run
        obtain ⟨value,last⟩ := lastStep_traces run
        exact ⟨value,last.trans (((fs_blank _).same made).trans still)⟩
      · obtain ⟨success,u3,made,run⟩ := ends_bind.mp run
        obtain ⟨rfl,rfl⟩ := ends_pure.mp made
        obtain ⟨value,last⟩ := lastStep_traces run
        exact ⟨value,last.trans still⟩

-- There are no two places to be had.
def Scarce {n : Nat} (test : Fin n → Bool) : Prop := ∀ i j,test i = true → test j = true → i = j

section Scarcity
variable {n : Nat} {test : Fin n → Bool} {k l : Fin n}

theorem scarce_none (none : firstFrom test 0 = none) : Scarce test := by
  intro i _ here _
  rw [firstFrom_none.mp none i (Nat.zero_le _)] at here
  cases here

theorem scarce_one (first : firstFrom test 0 = some k) (none : firstFrom test (k + 1) = none) : Scarce test := by
  have only : ∀ i,test i = true → i = k := by
    intro i here
    obtain ⟨_,_,least⟩ := firstFrom_some first
    have low := least i (Nat.zero_le _) here
    by_contra other
    have above : k.val + 1 ≤ i.val := Nat.lt_of_le_of_ne low fun same => other (Fin.ext same.symm)
    rw [firstFrom_none.mp none i above] at here
    cases here
  intro i j here there
  rw [only i here,only j there]

theorem not_scarce (first : firstFrom test 0 = some k) (next : firstFrom test (k + 1) = some l) : ¬ Scarce test := by
  obtain ⟨_,here,_⟩ := firstFrom_some first
  obtain ⟨above,there,_⟩ := firstFrom_some next
  intro scarce
  cases scarce k l here there
  exact absurd above (Nat.not_succ_le_self _)

end Scarcity

theorem never {p : Sys Bool} (gives : Gives (· = true) p) : ¬ p.Ends m false m' :=
  fun run => Bool.false_ne_true (gives.value run)

theorem makePipe_traces {pipefds : UInt32} {rindP windP : Fin fdtSize} {i : Fin pcbSize} {rindG windG : Fin openSize}
    (free : m.pipes i = none) (run : (makePipe pipefds rindP windP i rindG windG).Ends m false m') :
    m.heap.answer m.heap.asked = 0 ∧ m'.traces = m.traces ∨ m.heap.answer m.heap.asked ≠ 0 ∧
      ∃ p,m'.traces = {m.traces with pipes := put m.pipes i (some p)} := by
  unfold makePipe at run
  obtain ⟨pipe,t,given,run⟩ := ends_bind.mp run
  have same := mallocPipe_blank.same given
  have table : t.pipes = m.pipes := congrArg Traces.pipes same
  obtain ⟨_,u,taken,run⟩ := ends_bind.mp run
  have taken : u.traces = {m.traces with pipes := put m.pipes i pipe} := by
    rw [← ends_update.mp taken,← same,← table]
    rfl
  cases pipe with
  | none =>
      obtain ⟨_,rfl⟩ := ends_pure.mp run
      refine .inl ⟨(mallocPipe_ends given).mp rfl,?_⟩
      rw [taken,← free,put_same]
      rfl
  | some pipe =>
      refine .inr ⟨fun null => (by cases (mallocPipe_ends given).mpr null),pipe,?_⟩
      rw [← taken]
      obtain ⟨rend,u1,reader,run⟩ := ends_bind.mp run
      have first := mallocFdte_blank.same reader
      cases rend with
      | none =>
          obtain ⟨_,rfl⟩ := ends_pure.mp run
          exact first
      | some rend =>
          obtain ⟨wend,u2,writer,run⟩ := ends_bind.mp run
          have second := mallocFdte_blank.same writer
          cases wend with
          | none =>
              obtain ⟨_,rfl⟩ := ends_pure.mp run
              exact second.trans first
          | some wend =>
              -- From here on the answer is true.
              obtain ⟨_,_,_,run⟩ := ends_bind.mp run
              obtain ⟨⟨_,r⟩,_,_,run⟩ := ends_bind.mp run
              obtain ⟨⟨_,w⟩,_,_,run⟩ := ends_bind.mp run
              refine absurd run (never ?_)
              refine gives_bind fun _ => gives_bind fun _ => gives_bind fun _ => gives_bind fun _ => ?_
              refine gives_bind fun _ => gives_bind fun _ => gives_bind fun _ => gives_bind fun _ => ?_
              exact gives_pure rfl

-- Before do_pipe takes a pipe it may find that it cannot.
def Machine.noPipe (m : Machine) : Prop :=
  Scarce (fun i => (m.pcb m.current).fdt i = -1) ∨ (∀ i,(m.pipes i).isSome) ∨ Scarce (fun i => (m.openft i).isNone) ∨
    m.heap.answer m.heap.asked = 0

theorem doPipe_traces {pipefds : UInt32} (run : (doPipe pipefds).Ends m false m') :
    m.noPipe ∧ m'.traces = m.traces ∨
      ¬ m.noPipe ∧ ∃ i p,m.pipes i = none ∧ m'.traces = {m.traces with pipes := put m.pipes i (some p)} := by
  unfold doPipe at run
  obtain ⟨_,_,now,run⟩ := ends_bind.mp run
  obtain ⟨rfl,rfl⟩ := ends_read.mp now
  dsimp only at run
  split at run
  · rename_i full
    obtain ⟨_,rfl⟩ := ends_pure.mp run
    exact .inl ⟨.inl (scarce_none full),rfl⟩
  rename_i rindP first
  split at run
  · rename_i full
    obtain ⟨_,rfl⟩ := ends_pure.mp run
    exact .inl ⟨.inl (scarce_one first full),rfl⟩
  rename_i windP second
  obtain ⟨_,_,now,run⟩ := ends_bind.mp run
  obtain ⟨rfl,rfl⟩ := ends_read.mp now
  split at run
  · rename_i full
    obtain ⟨_,rfl⟩ := ends_pure.mp run
    refine .inl ⟨.inr (.inl fun i => ?_),rfl⟩
    simpa using firstFrom_none.mp full i (Nat.zero_le _)
  rename_i i found
  have free : m.pipes i = none := Option.isNone_iff_eq_none.mp (firstFrom_some found).2.1
  obtain ⟨_,_,now,run⟩ := ends_bind.mp run
  obtain ⟨rfl,rfl⟩ := ends_read.mp now
  split at run
  · rename_i full
    obtain ⟨_,rfl⟩ := ends_pure.mp run
    exact .inl ⟨.inr (.inr (.inl (scarce_none full))),rfl⟩
  rename_i rindG third
  split at run
  · rename_i full
    obtain ⟨_,rfl⟩ := ends_pure.mp run
    exact .inl ⟨.inr (.inr (.inl (scarce_one third full))),rfl⟩
  rename_i windG fourth
  rcases makePipe_traces free run with ⟨null,same⟩ | ⟨useful,p,same⟩
  · exact .inl ⟨.inr (.inr (.inr null)),same⟩
  · refine .inr ⟨?_,i,p,free,same⟩
    rintro (scarce | full | scarce | null)
    · exact not_scarce first second scarce
    · have wrong := full i
      rw [free] at wrong
      cases wrong
    · exact not_scarce third fourth scarce
    · exact useful null

end Calls

-- The two calls, the numbers that they are called by, and the values that tell of a failure.
inductive Claims where
  | opens | pipe
  deriving DecidableEq, Repr

def Claims.id : Claims → UInt32
  | .opens => 0x0B
  | .pipe => 0x0E

def Claims.failure : Claims → UInt32
  | .opens => UInt32.ofInt (-1)
  | .pipe => ofBool false

-- The call finds no descriptor for its caller, or do_open and do_pipe give none.
def Claims.Denied (m : Machine) : Claims → Prop
  | .opens => (∀ i,(m.pcb m.current).fdt i ≠ -1) ∨ ∃ t,(doOpen (m.ctx.gpr 0) (m.ctx.gpr 1).toUInt8).Ends m (-1) t
  | .pipe => ∃ t,(doPipe (m.ctx.gpr 0)).Ends m false t

structure Traceless (m m' : Machine) (failure : UInt32) : Prop where
  openft : m'.openft = m.openft
  pipes : m'.pipes = m.pipes
  fdt : (m'.pcb m.current).fdt = (m.pcb m.current).fdt
  r0 : m'.ctx.gpr 0 = failure

-- The call fails before it has claimed anything, and the register of PIPE happens to say so.
def Claims.Early (m : Machine) : Claims → Prop
  | .opens => (∀ i,(m.pcb m.current).fdt i ≠ -1) ∨ m.noEntry (m.ctx.gpr 1).toUInt8
  | .pipe => m.noPipe ∧ m.ctx.gpr 0 = 0

section Failures
variable {m m' : Machine}

theorem traceless_of (same : m'.traces = m.traces) : Traceless m m' (m.ctx.gpr 0) where
  openft := congrArg Traces.openft same
  pipes := congrArg Traces.pipes same
  fdt := congrArg (fun v : Traces => (v.pcb m.current).fdt) same
  r0 := congrArg (fun v : Traces => v.ctx.gpr 0) same

theorem put_changes {n : Nat} {α : Type} {table : Fin n → Option α} {i : Fin n} {p : α} (free : table i = none) :
    put table i (some p) ≠ table := by
  intro same
  have here := congrFun same i
  rw [put_self,free] at here
  cases here

theorem pipe_traceless_iff (denied : Claims.pipe.Denied m) (run : svcPipe.Ends m () m') :
    Traceless m m' (ofBool false) ↔ Claims.pipe.Early m := by
  obtain ⟨t,fails⟩ := denied
  unfold svcPipe at run
  obtain ⟨_,_,now,run⟩ := ends_bind.mp run
  obtain ⟨rfl,rfl⟩ := ends_read.mp now
  obtain ⟨b,t',ran,last⟩ := ends_bind.mp run
  cases (ends_pure.mp last).2
  obtain ⟨rfl,rfl⟩ := ends_unique fails ran
  unfold Claims.Early
  rcases doPipe_traces fails with ⟨none,same⟩ | ⟨enough,i,p,free,changed⟩
  · have kept := traceless_of same
    constructor
    · exact fun traceless => ⟨none,kept.r0.symm.trans traceless.r0⟩
    · intro early
      rw [early.2] at kept
      exact kept
  · constructor
    · intro traceless
      have table : t.pipes = put m.pipes i (some p) := congrArg Traces.pipes changed
      exact absurd (table.symm.trans traceless.pipes) (put_changes free)
    · exact fun early => absurd early.1 enough

theorem setGpr_ends {n : Fin 13} {w : UInt32} : (setGpr n w).Ends m () m' ↔
    {m with ctx := {m.ctx with gpr := put m.ctx.gpr n w}} = m' := ends_update

theorem tell_traceless {t : Machine} {w : UInt32} (told : (setGpr 0 w).Ends t () m') (pcb : t.pcb = m.pcb)
    (openft : t.openft = m.openft) (pipes : t.pipes = m.pipes) : Traceless m m' w := by
  cases setGpr_ends.mp told
  exact ⟨openft,pipes,by rw [← pcb],put_self t.ctx.gpr 0 w⟩

theorem open_traceless_iff (denied : Claims.opens.Denied m) (run : svcOpen.Ends m () m') :
    Traceless m m' (UInt32.ofInt (-1)) ↔ Claims.opens.Early m := by
  unfold svcOpen at run
  obtain ⟨_,_,now,run⟩ := ends_bind.mp run
  obtain ⟨rfl,rfl⟩ := ends_read.mp now
  dsimp only at run
  unfold Claims.Early
  split at run
  · rename_i full
    have used : ∀ i,(m.pcb m.current).fdt i ≠ -1 := fun i =>
      of_decide_eq_false (firstFrom_none.mp full i (Nat.zero_le _))
    exact ⟨fun _ => .inl used,fun _ => tell_traceless run rfl rfl rfl⟩
  rename_i slot found
  have free : (m.pcb m.current).fdt slot = -1 := of_decide_eq_true (firstFrom_some found).2.1
  obtain ⟨_,_,now,run⟩ := ends_bind.mp run
  obtain ⟨rfl,rfl⟩ := ends_read.mp now
  obtain ⟨_,_,now,run⟩ := ends_bind.mp run
  obtain ⟨rfl,rfl⟩ := ends_read.mp now
  obtain ⟨f,t,opened,told⟩ := ends_bind.mp run
  rcases denied with used | ⟨t',fails⟩
  · exact absurd free (used slot)
  obtain ⟨rfl,rfl⟩ := ends_unique fails opened
  rw [ends_ite] at told
  rcases told with ⟨wrong,_⟩ | ⟨_,told⟩
  · exact absurd rfl wrong
  rcases doOpen_traces fails with ⟨none,_,same⟩ | ⟨enough,i,p,empty,_,changed⟩
  · have kept := tell_traceless told (congrArg Traces.pcb same) (congrArg Traces.openft same) (congrArg Traces.pipes same)
    exact ⟨fun _ => .inr none,fun _ => kept⟩
  · constructor
    · intro traceless
      have table : t'.openft = put m.openft i (some p) := congrArg Traces.openft changed
      have after : m'.openft = t'.openft := by
        cases setGpr_ends.mp told
        rfl
      exact absurd ((after.trans table).symm.trans traceless.openft) (put_changes empty)
    · rintro (used | none)
      · exact absurd free (used slot)
      · exact absurd none enough

-- A call of OPEN or PIPE that fails leaves no trace, and its caller is told, if
-- and only if it fails before it has claimed its first place.
theorem failures_traceless_iff (c : Claims) (denied : c.Denied m) (run : (handle (.svc c.id)).Ends m () m') :
    Traceless m m' c.failure ↔ c.Early m := by
  cases c with
  | opens => exact open_traceless_iff denied run
  | pipe => exact pipe_traceless_iff denied run

end Failures

-- The allocator has nothing left for the pipe, and the caller's register is 0.
theorem failures_traceless_empty : Traceless ((Machine.started (few 4)).asks 0 0) ((Machine.started (few 4)).call 0x0E 0 0) 0 := by
  have denied : Claims.pipe.Denied ((Machine.started (few 4)).asks 0 0) := ends_answer (by decide +kernel)
  have run : (handle (.svc Claims.pipe.id)).Ends ((Machine.started (few 4)).asks 0 0) ()
      ((Machine.started (few 4)).call 0x0E 0 0) := ends_after (by decide +kernel)
  exact (failures_traceless_iff .pipe denied run).mpr ⟨.inr (.inr (.inr (by decide +kernel))),by decide +kernel⟩

-- The allocator has the pipe to give, and no more: the place of the pipe is lost.
theorem pipe_leaves_trace : ¬ ∀ (c : Claims) (m m' : Machine) (ctx : Ctx) (ram : UInt32 → UInt8),Reached Any m →
    c.Denied (m.enter ctx ram) → (handle (.svc c.id)).Ends (m.enter ctx ram) () m' →
    Traceless (m.enter ctx ram) m' c.failure := by
  intro all
  let asked := (Machine.started (few 5)).asks 0x70001000 0
  have denied : Claims.pipe.Denied asked := ends_answer (by decide +kernel)
  have run : (handle (.svc Claims.pipe.id)).Ends asked () ((Machine.started (few 5)).call 0x0E 0x70001000 0) :=
    ends_after (by decide +kernel)
  have traceless := all .pipe _ _ _ _ (started_reached (by decide) (by decide +kernel)) denied run
  have lost : (((Machine.started (few 5)).call 0x0E 0x70001000 0).pipes 0).isSome = true := by decide +kernel
  have free : (asked.pipes 0).isSome = false := by decide +kernel
  rw [traceless.pipes] at lost
  cases lost.symm.trans free

end ArchiveOs.Kernel
