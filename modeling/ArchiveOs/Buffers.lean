import ArchiveOs.Opens
import ArchiveOs.Forks
import ArchiveOs.Growths

-- The strings of the path calls and the buffers that they are copied into.
namespace ArchiveOs.Kernel
open Fs2 Fs2.Mount
open Prog

-- A copy has the room it needs.
def Fits : Touch → Prop
  | .copy room bytes => bytes ≤ room
  | _ => True

-- Every working directory fits into its 256 bytes with its NUL.
def Machine.ShortWds (m : Machine) : Prop := ∀ i,(m.pcb i).wd.bytes.length < 256

abbrev Safe {α : Type} (p : Sys α) : Prop := Guards Machine.ShortWds Fits p

section Safety

theorem setPcb_safe {i : Fin pcbSize} {f : Pcb → Pcb} (short : ∀ p,p.wd.bytes.length < 256 → (f p).wd.bytes.length < 256) :
    Safe (setPcb i f) := by
  refine guards_update fun m held j => ?_
  show (put m.pcb i (f (m.pcb i)) j).wd.bytes.length < 256
  by_cases here : j = i
  · rw [here,put_self]
    exact short _ (held i)
  · rw [put_other _ _ here]
    exact held j

theorem setRunning_safe {f : Pcb → Pcb} (short : ∀ p,p.wd.bytes.length < 256 → (f p).wd.bytes.length < 256) :
    Safe (setRunning f) := guards_bind guards_read fun _ => setPcb_safe short

-- What does not touch the entries of the processes keeps their working directories.
theorem update_safe {g : Machine → Machine} (same : ∀ m,(g m).pcb = m.pcb) : Safe (update g) :=
  guards_update fun m held => by
    unfold Machine.ShortWds
    rw [same m]
    exact held

theorem safeFrame : Frame fun _ p => Safe p where
  ret _ := guards_pure
  look _ := guards_read
  halt _ := guards_stop
  seq := guards_bind
  touch _ _ := guards_note trivial
  onFdt _ _ := setRunning_safe fun _ short => short
  onOpenft _ _ := update_safe fun _ => rfl
  onPipe _ _ := update_safe fun _ => rfl
  onObject _ _ := update_safe fun _ => rfl
  onAsked := update_safe fun _ => rfl
  onFs _ := guards_lift fun _ _ held => held
  onRam _ _ := update_safe fun _ => rfl

theorem setCtx_safe (f : Ctx → Ctx) : Safe (setCtx f) := update_safe fun _ => rfl

theorem setGpr_safe (n : Fin 13) (w : UInt32) : Safe (setGpr n w) := setCtx_safe _

theorem processExists_safe (i : Fin pcbSize) : Safe (processExists i) := guards_bind (guards_note trivial) fun _ => guards_read

theorem contextSwitch_safe (old : Option (Fin pcbSize)) (new : Fin pcbSize) (st : Status) : Safe (contextSwitch old new st) := by
  have entered : Safe (do
      let p ← Prog.read fun m => m.pcb new
      setCtx fun _ => p.ctx
      setPcb new fun p => {p with status := .executing}
      update fun m => {m with current := p.pid}) := by
    refine guards_bind guards_read fun _ => guards_bind (setCtx_safe _) fun _ => ?_
    exact guards_bind (setPcb_safe fun _ short => short) fun _ => update_safe fun _ => rfl
  cases old with
  | none => exact entered
  | some old => exact guards_bind guards_read fun _ => guards_bind (setPcb_safe fun _ short => short) fun _ => entered

theorem next_safe (st : Status) : Safe (next st) := by
  refine guards_bind (update_safe fun _ => rfl) fun _ => guards_bind guards_read fun current => ?_
  refine guards_bind (guards_search fun i => ?_) fun found => ?_
  · exact guards_bind (processExists_safe i) fun _ => guards_ite (fun _ => guards_read) fun _ => guards_pure
  · cases found with
    | none => exact guards_pure
    | some i => exact contextSwitch_safe ..

theorem schedule_safe : Safe schedule := by
  have counted : Safe (update fun m => {m with currentRuntime := m.currentRuntime + 1}) := update_safe fun _ => rfl
  refine guards_bind guards_read fun _ => guards_bind guards_read fun _ => ?_
  exact guards_ite (fun _ => guards_bind (next_safe _) fun _ => counted) fun _ => counted

theorem freeEntry_safe (is : List (Fin pcbSize)) : Safe (freeEntry is) := by
  induction is with
  | nil => exact guards_bind (guards_note trivial) fun _ => guards_pure
  | cons i rest ih => exact guards_bind (processExists_safe i) fun _ => guards_ite (fun _ => ih) fun _ => guards_pure

theorem newPcbEntry_safe : Safe newPcbEntry := by
  refine guards_bind (freeEntry_safe _) fun free => ?_
  cases free with
  | none => exact guards_pure
  | some i => exact guards_bind (update_safe fun _ => rfl) fun _ => guards_pure

theorem mallocStack_safe : Safe mallocStack := by
  refine guards_bind safeFrame.ask fun ⟨_,_⟩ => guards_bind guards_read fun _ => ?_
  exact guards_ite (fun _ => guards_bind (update_safe fun _ => rfl) fun _ => guards_pure) fun _ => guards_pure

theorem freeStack_safe (p : UInt32) : Safe (freeStack p) := by
  refine guards_bind guards_read fun _ => guards_ite (fun _ => guards_pure) fun _ => ?_
  exact guards_ite (fun _ => update_safe fun _ => rfl) fun _ => guards_stop

theorem dropBit_safe (i : Fin pcbSize) : Safe (dropBit i) :=
  guards_bind (guards_note trivial) fun _ => update_safe fun _ => rfl

theorem haltIfNone_safe : Safe haltIfNone :=
  guards_bind guards_read fun _ => guards_ite (fun _ => guards_stop) fun _ => guards_pure

theorem doExit_safe : Safe doExit := by
  refine guards_bind (setRunning_safe fun _ short => short) fun _ => guards_bind safeFrame.running fun _ => ?_
  refine guards_bind (freeStack_safe _) fun _ => guards_bind (safeFrame.closeAll _) fun _ => ?_
  exact guards_bind guards_read fun _ => guards_bind (dropBit_safe _) fun _ => haltIfNone_safe

theorem bear_safe (child : Fin pcbSize) (stack : UInt32) : Safe (bear child stack) := by
  refine guards_bind safeFrame.running fun _ => guards_bind (update_safe fun _ => rfl) fun _ => ?_
  refine guards_bind (setPcb_safe fun _ short => short) fun _ => guards_bind safeFrame.running fun _ => ?_
  refine guards_bind (setPcb_safe fun _ short => short) fun _ => guards_bind (setGpr_safe ..) fun _ => ?_
  exact safeFrame.shareAll _

theorem doFork_safe : Safe doFork := by
  refine guards_bind guards_read fun _ => guards_bind (setRunning_safe fun _ short => short) fun _ => ?_
  refine guards_bind newPcbEntry_safe fun free => ?_
  cases free with
  | none => exact setGpr_safe ..
  | some child =>
      refine guards_after safeFrame.running fun {parent _ _} held here => ?_
      have short : parent.wd.bytes.length < 256 := by
        rw [← (ends_read.mp here).1]
        exact held _
      refine guards_bind (setPcb_safe fun _ _ => short) fun _ => guards_bind mallocStack_safe fun _ => ?_
      exact guards_ite (fun _ => setGpr_safe ..) fun _ => bear_safe ..

theorem doExec_safe : Safe doExec := guards_bind guards_read fun _ => guards_bind safeFrame.running fun _ => setCtx_safe _

theorem killProcess_safe (i : Fin pcbSize) : Safe (killProcess i) := by
  refine guards_bind (processExists_safe i) fun _ => guards_ite (fun _ => ?_) fun _ => haltIfNone_safe
  refine guards_bind (dropBit_safe i) fun _ => guards_bind guards_read fun _ => ?_
  exact guards_bind (freeStack_safe _) fun _ => haltIfNone_safe

theorem doKill_safe (pid : Int) : Safe (doKill pid) := by
  unfold doKill
  split
  · exact guards_ite (fun _ => killProcess_safe _) fun _ => guards_pure
  · exact guards_pure

theorem doSemPost_safe (semId x : UInt32) : Safe (doSemPost semId x) := by
  unfold doSemPost
  split
  · refine guards_ite (fun _ => guards_pure) fun _ => guards_bind guards_read fun _ => ?_
    refine guards_bind (guards_search fun i => ?_) fun found => ?_
    · exact guards_bind (processExists_safe i) fun _ => guards_ite (fun _ => guards_read) fun _ => guards_pure
    · cases found with
      | none => exact update_safe fun _ => rfl
      | some i =>
          refine guards_bind guards_read fun _ => guards_bind (update_safe fun _ => rfl) fun _ => ?_
          exact setPcb_safe fun _ short => short
  · exact guards_pure

theorem doSemWait_safe (semId x : UInt32) : Safe (doSemWait semId x) := by
  have waits : Safe (do
      let i ← slot .sem pcbSize semId.toNat
      let v ← Prog.read fun m => m.sem i
      if v ≥ x then do
        setSem i (v - x)
        pure true
      else do
        setRunning fun p => {p with status := .waiting}
        if ← malloc then do
          setRunning fun p => {p with waiting := ⟨semId,x⟩}
          pure false
        else stop .null) := by
    refine guards_bind (safeFrame.slot ..) fun _ => guards_bind guards_read fun _ => guards_ite (fun _ => ?_) fun _ => ?_
    · exact guards_bind (update_safe fun _ => rfl) fun _ => guards_pure
    · refine guards_bind (setRunning_safe fun _ short => short) fun _ => guards_bind safeFrame.malloc fun _ => ?_
      refine guards_ite (fun _ => guards_bind (setRunning_safe fun _ short => short) fun _ => guards_pure) fun _ => ?_
      exact guards_stop
  exact guards_ite (fun _ => guards_bind doExit_safe fun _ => waits) fun _ => waits

theorem newUserProc_safe (entry : UInt32) (priority : Int) : Safe (newUserProc entry priority) := by
  refine guards_bind newPcbEntry_safe fun free => ?_
  cases free with
  | none => exact guards_pure
  | some i =>
      refine guards_bind mallocStack_safe fun _ => guards_bind (setPcb_safe fun _ _ => ?_) fun _ => guards_pure
      exact Nat.zero_lt_succ _

theorem openUart_safe (i : Fin openSize) (mode : Fmode) : Safe (openUart i mode) := by
  refine guards_bind safeFrame.mallocFdte fun _ => guards_bind (safeFrame.deref _) fun ⟨_,_⟩ => ?_
  exact guards_bind (safeFrame.onObject ..) fun _ => safeFrame.onOpenft ..

theorem boot_safe (entry : UInt32) : Safe (boot entry) := by
  refine guards_bind (guards_bind guards_read fun _ => ?_) fun _ => ?_
  · exact guards_ite (fun _ => safeFrame.onFs _) fun _ => safeFrame.onFs _
  · refine guards_bind (openUart_safe ..) fun _ => guards_bind (openUart_safe ..) fun _ => ?_
    refine guards_bind (openUart_safe ..) fun _ => guards_bind (newUserProc_safe ..) fun new => ?_
    cases new with
    | none => exact guards_stop
    | some i => exact contextSwitch_safe ..

end Safety

-- The calls that take a path.
def takesPath (id : UInt32) : Prop := id.toNat = 0x0B ∨ 0x10 ≤ id.toNat ∧ id.toNat ≤ 0x16

instance takesPath_decidable (id : UInt32) : Decidable (takesPath id) := by
  unfold takesPath
  infer_instance

section Calls
variable {m m' : Machine}

theorem svc_safe {id : UInt32} (other : ¬ takesPath id) : Safe (svc id) := by
  unfold takesPath at other
  unfold svc
  split
  case h_1 => exact next_safe _
  case h_2 =>
    refine guards_bind guards_read fun _ => guards_bind guards_read fun _ => guards_bind guards_read fun _ => ?_
    exact guards_bind (safeFrame.doWrite ..) fun _ => setGpr_safe ..
  case h_3 =>
    refine guards_bind guards_read fun _ => guards_bind guards_read fun _ => guards_bind guards_read fun _ => ?_
    exact guards_bind (safeFrame.doRead ..) fun _ => setGpr_safe ..
  case h_4 => exact doFork_safe
  case h_5 => exact guards_bind doExit_safe fun _ => next_safe _
  case h_6 => exact doExec_safe
  case h_7 => exact guards_bind guards_read fun _ => doKill_safe _
  case h_8 =>
    refine guards_bind guards_read fun _ => guards_bind guards_read fun _ => ?_
    refine guards_ite (fun _ => guards_pure) fun _ => guards_bind (safeFrame.slot ..) fun _ => ?_
    exact setPcb_safe fun _ short => short
  case h_9 =>
    refine guards_bind guards_read fun _ => guards_bind guards_read fun _ => guards_ite (fun _ => setGpr_safe ..) fun _ => ?_
    refine guards_bind (safeFrame.slot ..) fun _ => guards_bind guards_read fun _ => ?_
    exact guards_bind (doSemPost_safe ..) fun _ => setGpr_safe ..
  case h_10 => exact guards_bind guards_read fun _ => guards_bind guards_read fun _ => doSemPost_safe ..
  case h_11 =>
    refine guards_bind guards_read fun _ => guards_bind guards_read fun _ => guards_bind (doSemWait_safe ..) fun _ => ?_
    exact guards_ite (fun _ => guards_pure) fun _ => next_safe _
  case h_13 => exact guards_bind guards_read fun _ => guards_bind (safeFrame.doClose _) fun _ => setGpr_safe ..
  case h_14 =>
    refine guards_bind guards_read fun _ => guards_bind guards_read fun _ => guards_ite (fun _ => setGpr_safe ..) fun _ => ?_
    refine guards_bind (safeFrame.fdtAt _) fun _ => guards_bind (safeFrame.fdtAt _) fun _ => ?_
    refine guards_bind (safeFrame.slot ..) fun _ => guards_bind (safeFrame.onFdt ..) fun _ => ?_
    refine guards_bind (safeFrame.slot ..) fun _ => guards_bind (safeFrame.onFdt ..) fun _ => setGpr_safe ..
  case h_15 => exact guards_bind guards_read fun _ => guards_bind (safeFrame.doPipe _) fun _ => guards_pure
  case h_16 => exact guards_bind doExec_safe fun _ => guards_bind guards_read fun _ => setGpr_safe ..
  case h_24 =>
    refine guards_bind guards_read fun _ => guards_bind guards_read fun _ => guards_bind safeFrame.running fun _ => ?_
    exact guards_bind (update_safe fun _ => rfl) fun _ => setGpr_safe ..
  case h_25 => exact guards_pure
  all_goals exact absurd (by omega) other

theorem irq_safe (id : UInt32) : Safe (irq id) := guards_ite (fun _ => schedule_safe) fun _ => guards_pure

-- The string that abs_path_r gives.
def Machine.behind (m : Machine) (wd : Path) (path : UInt32) : Path :=
  if path = 0 ∨ m.ram path = 0 then wd
  else if m.ram path = slash then stringAt m.ram (path + 1)
  else if wd.bytes = [] then stringAt m.ram path
  else joinPath wd (stringAt m.ram path)

-- A path that does not begin with a slash has room in scratchpath behind the working
-- directory, if there is one.
def Machine.HasRoom (m : Machine) (wd : Path) (path : UInt32) : Prop :=
  path = 0 ∨ m.ram path = 0 ∨ m.ram path = slash ∨ wd.bytes = [] ∨
    wd.bytes.length + (stringAt m.ram path).bytes.length + 2 ≤ 256

def Machine.apath (m : Machine) (path : UInt32) : Path := m.behind (m.pcb m.current).wd path
def Machine.Joins (m : Machine) (path : UInt32) : Prop := m.HasRoom (m.pcb m.current).wd path

theorem join_length (wd path : Path) : (joinPath wd path).bytes.length = wd.bytes.length + path.bytes.length + 1 := by
  show (wd.bytes ++ slash :: path.bytes).length = _
  rw [List.length_append,List.length_cons]
  omega

theorem absPathR_ends {path : UInt32} {wd a : Path} :
    (absPathR path wd).Ends m a m' ↔ m.HasRoom wd path ∧ m.behind wd path = a ∧ m = m' := by
  unfold absPathR strcpy Machine.HasRoom Machine.behind
  simp only [ends_bind,ends_read,ends_ite,ends_pure,ends_note,ends_stop]
  have long := join_length wd (stringAt m.ram path)
  constructor
  · rintro ⟨_,_,⟨rfl,rfl⟩,⟨empty,rfl,rfl⟩ | ⟨used,⟨root,rfl,rfl⟩ | ⟨relative,⟨none,rfl,rfl⟩ | ⟨some,run⟩⟩⟩⟩
    · refine ⟨by tauto,?_,rfl⟩
      rw [if_pos empty]
    · refine ⟨by tauto,?_,rfl⟩
      rw [if_neg used,if_pos root]
    · refine ⟨by tauto,?_,rfl⟩
      rw [if_neg used,if_neg relative,if_pos none]
    · obtain ⟨_,_,⟨_,_,rfl,⟨_,impossible⟩ | ⟨fits,_,rfl⟩⟩,rfl,rfl⟩ := run
      · exact impossible.elim
      · refine ⟨.inr (.inr (.inr (.inr (by omega)))),?_,rfl⟩
        rw [if_neg used,if_neg relative,if_neg some]
  · rintro ⟨joins,rfl,rfl⟩
    refine ⟨_,_,⟨rfl,rfl⟩,?_⟩
    by_cases used : path = 0 ∨ m.ram path = 0
    · exact .inl ⟨used,by rw [if_pos used],rfl⟩
    refine .inr ⟨used,?_⟩
    by_cases root : m.ram path = slash
    · exact .inl ⟨root,by rw [if_neg used,if_pos root],rfl⟩
    refine .inr ⟨root,?_⟩
    by_cases none : wd.bytes = []
    · exact .inl ⟨none,by rw [if_neg used,if_neg root,if_pos none],rfl⟩
    refine .inr ⟨none,(),m,⟨(),m,rfl,.inr ⟨?_,trivial,rfl⟩⟩,by rw [if_neg used,if_neg root,if_neg none],rfl⟩
    rcases joins with null | end_ | slashed | nowhere | fits
    · exact absurd (.inl null) used
    · exact absurd (.inr end_) used
    · exact absurd slashed root
    · exact absurd nowhere none
    · omega

theorem absPath_ends {path : UInt32} {a : Path} :
    (absPath path).Ends m a m' ↔ m.Joins path ∧ m.apath path = a ∧ m = m' := by
  unfold absPath running
  rw [ends_bind]
  constructor
  · rintro ⟨_,_,now,run⟩
    obtain ⟨rfl,rfl⟩ := ends_read.mp now
    exact absPathR_ends.mp run
  · intro run
    exact ⟨_,_,ends_read.mpr ⟨rfl,rfl⟩,absPathR_ends.mpr run⟩

theorem absPath_notes {path : UInt32} : Notes Fits (absPath path) m ↔ m.Joins path := by
  have long := join_length (m.pcb m.current).wd (stringAt m.ram path)
  unfold absPath absPathR running strcpy Machine.Joins Machine.HasRoom
  simp only [notes_bind,ends_read,notes_ite,noted_pure,noted_read,noted_note,noted_stop,Fits]
  constructor
  · rintro ⟨_,noted⟩
    have noted := (noted _ _ ⟨rfl,rfl⟩).2 _ _ ⟨rfl,rfl⟩
    by_cases used : path = 0 ∨ m.ram path = 0
    · tauto
    by_cases root : m.ram path = slash
    · tauto
    by_cases none : (m.pcb m.current).wd.bytes = []
    · tauto
    have copied := (((noted.2 used).2 root).2 none).1.1
    exact .inr (.inr (.inr (.inr (by omega))))
  · intro joins
    refine ⟨trivial,?_⟩
    rintro _ _ ⟨rfl,rfl⟩
    refine ⟨trivial,?_⟩
    rintro _ _ ⟨rfl,rfl⟩
    refine ⟨fun _ => trivial,fun used => ⟨fun _ => trivial,fun root => ⟨fun _ => trivial,fun none => ?_⟩⟩⟩
    have fits : (m.pcb m.current).wd.bytes.length + (stringAt m.ram path).bytes.length + 2 ≤ 256 := by tauto
    exact ⟨⟨by omega,fun _ _ _ => ⟨fun _ => trivial,fun _ => trivial⟩⟩,fun _ _ _ => trivial⟩

theorem named_notes {β : Type} {path : UInt32} {f : Path → Sys β} :
    Notes Fits (absPath path >>= f) m ↔ m.Joins path ∧ Notes Fits (f (m.apath path)) m := by
  rw [notes_bind,absPath_notes]
  constructor
  · rintro ⟨joins,noted⟩
    exact ⟨joins,noted _ _ (absPath_ends.mpr ⟨joins,rfl,rfl⟩)⟩
  · rintro ⟨joins,noted⟩
    refine ⟨joins,fun a t run => ?_⟩
    obtain ⟨_,rfl,rfl⟩ := absPath_ends.mp run
    exact noted

-- A path of a caller is NULL or a string below 256 bytes.
def Machine.ShortPath (m : Machine) (path : UInt32) : Prop := path = 0 ∨ (stringAt m.ram path).bytes.length < 256

theorem stringFrom_used {ram : UInt32 → UInt8} {a : UInt32} (used : ram a ≠ 0) (n : Nat) :
    stringFrom ram (n + 1) a = ram a :: stringFrom ram n (a + 1) := if_neg used

theorem stringFrom_end {ram : UInt32 → UInt8} {a : UInt32} (ends : ram a = 0) (n : Nat) : stringFrom ram (n + 1) a = [] :=
  if_pos ends

theorem stringFrom_more (ram : UInt32 → UInt8) (n : Nat) (a : UInt32) (ends : (stringFrom ram n a).length < n) :
    stringFrom ram (n + 1) a = stringFrom ram n a := by
  induction n generalizing a with
  | zero => exact absurd ends (Nat.not_lt_zero _)
  | succ n ih =>
      by_cases used : ram a = 0
      · rw [stringFrom_end used,stringFrom_end used]
      · rw [stringFrom_used used] at ends
        rw [stringFrom_used used,stringFrom_used used,ih _ (Nat.lt_of_succ_lt_succ ends)]

theorem stringAt_next {ram : UInt32 → UInt8} {a : UInt32} (used : ram a ≠ 0) (short : (stringAt ram a).bytes.length < 256) :
    (stringAt ram a).bytes = ram a :: (stringAt ram (a + 1)).bytes := by
  have split : (stringAt ram a).bytes = ram a :: stringFrom ram 0xFFFFFFFF (a + 1) := stringFrom_used used 0xFFFFFFFF
  have ends := (congrArg List.length split).symm.trans_lt short
  rw [List.length_cons] at ends
  exact split.trans (congrArg (ram a :: ·) (stringFrom_more ram 0xFFFFFFFF (a + 1) (by omega)).symm)

theorem apath_short {path : UInt32} (held : m.ShortWds) (short : m.ShortPath path) (joins : m.Joins path) :
    (m.apath path).bytes.length < 256 := by
  unfold Machine.apath Machine.behind
  split
  · exact held _
  rename_i used
  rw [not_or] at used
  have short := short.resolve_left used.1
  split
  · have longer := congrArg List.length (stringAt_next used.2 short)
    rw [List.length_cons] at longer
    omega
  split
  · exact short
  · rename_i root some
    have fits : (m.pcb m.current).wd.bytes.length + (stringAt m.ram path).bytes.length + 2 ≤ 256 := by
      unfold Machine.Joins Machine.HasRoom at joins
      tauto
    rw [join_length]
    omega

theorem named_call {f : Path → Sys Unit} (held : m.ShortWds) (safe : ∀ a,Safe (f a)) :
    Notes Fits (gpr 0 >>= fun path => absPath path >>= f) m ↔ m.Joins (m.ctx.gpr 0) := by
  unfold gpr
  simp only [notes_bind (p := Prog.read _),ends_read,noted_read,true_and]
  constructor
  · intro noted
    exact (named_notes.mp (noted _ _ ⟨rfl,rfl⟩)).1
  · rintro joins _ _ ⟨rfl,rfl⟩
    exact named_notes.mpr ⟨joins,(safe _).noted held⟩

theorem named_kept {f : Path → Sys Unit} (held : m.ShortWds) (safe : ∀ a,Safe (f a))
    (run : (gpr 0 >>= fun path => absPath path >>= f).Ends m () m') : m'.ShortWds := by
  obtain ⟨_,_,now,run⟩ := ends_bind.mp run
  obtain ⟨rfl,rfl⟩ := ends_read.mp now
  obtain ⟨a,t,named,run⟩ := ends_bind.mp run
  obtain ⟨_,_,rfl⟩ := absPath_ends.mp named
  exact (safe a).kept held run

theorem isType_safe (ftype : UInt8) (a : Path) : Safe (do
    let yes ← fs fun s => isftype s a ftype
    setGpr 0 (ofBool yes)) := guards_bind (safeFrame.onFs _) fun _ => setGpr_safe ..

theorem list_safe (a : Path) : Safe (do
    let n ← gpr 2
    let (done,out) ← fs fun s => (ls s a (toInt n)).map fun r => (r.1,r.2.1,r.2.2)
    poke (← gpr 1) out
    setGpr 0 (ofBool done)) := by
  refine guards_bind guards_read fun _ => guards_bind (safeFrame.onFs _) fun ⟨_,_⟩ => guards_bind guards_read fun _ => ?_
  exact guards_bind (safeFrame.onRam ..) fun _ => setGpr_safe ..

theorem remove_safe (a : Path) : Safe (do
    let done ← fs fun s => rm s a
    setGpr 0 (ofBool done)) := guards_bind (safeFrame.onFs _) fun _ => setGpr_safe ..

theorem make_safe (ftype : UInt8) (a : Path) : Safe (do
    let done ← fs fun s => create s ftype a
    setGpr 0 (ofBool done)) := guards_bind (safeFrame.onFs _) fun _ => setGpr_safe ..

theorem move_safe {a : Path} (short : a.bytes.length < 256) : Safe (do
    if ← fs fun s => isftype s a ftypeDir then do
      strcpy 256 a
      setRunning fun p => {p with wd := a}
      pure true
    else pure false) := by
  refine guards_bind (safeFrame.onFs _) fun _ => guards_ite (fun _ => ?_) fun _ => guards_pure
  refine guards_bind ?_ fun _ => guards_bind (setRunning_safe fun _ _ => short) fun _ => guards_pure
  exact guards_bind (guards_note short) fun _ => guards_ite (fun _ => guards_stop) fun _ => guards_pure

theorem svcCd_notes (held : m.ShortWds) (short : m.ShortPath (m.ctx.gpr 0)) :
    Notes Fits svcCd m ↔ m.Joins (m.ctx.gpr 0) := by
  unfold svcCd gpr
  simp only [notes_bind (p := Prog.read _),ends_read,noted_read,true_and]
  constructor
  · intro noted
    exact (named_notes.mp (notes_bind.mp (noted _ _ ⟨rfl,rfl⟩)).1).1
  · rintro joins _ _ ⟨rfl,rfl⟩
    refine notes_bind.mpr ⟨named_notes.mpr ⟨joins,(move_safe (apath_short held short joins)).noted held⟩,fun _ _ _ => ?_⟩
    exact noted_update

theorem svcCd_kept (held : m.ShortWds) (short : m.ShortPath (m.ctx.gpr 0)) (run : svcCd.Ends m () m') : m'.ShortWds := by
  obtain ⟨_,_,now,run⟩ := ends_bind.mp run
  obtain ⟨rfl,rfl⟩ := ends_read.mp now
  obtain ⟨done,t,moved,run⟩ := ends_bind.mp run
  obtain ⟨a,u,named,moved⟩ := ends_bind.mp moved
  obtain ⟨joins,rfl,rfl⟩ := absPath_ends.mp named
  exact (setGpr_safe ..).kept ((move_safe (apath_short held short joins)).kept held moved) run

-- What malloc leaves behind when it gives an object for the file table.
def Machine.allots (m : Machine) : Machine :=
  {m with heap := {m.heap with
    asked := m.heap.asked + 1
    fdtes := fun q => if q = m.heap.answer m.heap.asked then some (m.heap.junk m.heap.asked) else m.heap.fdtes q}}

theorem mallocFdte_allots {p : UInt32} :
    mallocFdte.Ends m (some p) m' ↔ ¬ m.heap.Refuses ∧ p = m.heap.answer m.heap.asked ∧ m' = m.allots := by
  unfold mallocFdte setFdte setHeap Heap.Refuses
  simp only [ends_bind,ask_ends,ends_read,ends_ite,ends_pure,ends_update]
  constructor
  · rintro ⟨_,_,⟨rfl,rfl⟩,_,_,⟨rfl,rfl⟩,⟨_,wrong,_⟩ | ⟨useful,_,_,rfl,given,rfl⟩⟩
    · cases wrong
    · cases given
      exact ⟨useful,rfl,rfl⟩
  · rintro ⟨useful,rfl,rfl⟩
    exact ⟨_,_,⟨rfl,rfl⟩,_,_,⟨rfl,rfl⟩,.inr ⟨useful,(),_,rfl,rfl,rfl⟩⟩

-- do_open finds the file or makes it.
def Openable (s : Mount) (a : Path) (flags : UInt8) : Prop :=
  ∃ t r,isftype s a ftypeFile = some (t,r) ∧ (r = true ∨ 4 ≤ flags ∧ ∃ u,create t ftypeFile a = some (u,true))

theorem malloc_ends {b : Bool} : malloc.Ends m b m' ↔ decide (m.heap.answer m.heap.asked ≠ 0) = b ∧ m.asksHeap = m' := by
  unfold malloc
  rw [ends_bind]
  constructor
  · rintro ⟨_,_,asked,given⟩
    obtain ⟨rfl,rfl⟩ := ask_ends.mp asked
    obtain ⟨rfl,rfl⟩ := ends_pure.mp given
    exact ⟨rfl,rfl⟩
  · rintro ⟨rfl,rfl⟩
    exact ⟨_,_,ask_ends.mpr ⟨rfl,rfl⟩,ends_pure.mpr ⟨rfl,rfl⟩⟩

theorem silentFrame : Frame fun _ p => Guards (fun _ => True) Fits p where
  ret _ := guards_pure
  look _ := guards_read
  halt _ := guards_stop
  seq := guards_bind
  touch _ _ := guards_note trivial
  onFdt _ _ := guards_bind guards_read fun _ => guards_update fun _ _ => trivial
  onOpenft _ _ := guards_update fun _ _ => trivial
  onPipe _ _ := guards_update fun _ _ => trivial
  onObject _ _ := guards_update fun _ _ => trivial
  onAsked := guards_update fun _ _ => trivial
  onFs _ := guards_lift fun _ _ _ => trivial
  onRam _ _ := guards_update fun _ _ => trivial

theorem fillFile_notes {i : Fin openSize} {p : UInt32} {e : Fdte} {a : Path} {flags : UInt8} (object : m.heap.fdtes p = some e) :
    Notes Fits (fillFile i (some p) a flags) m ↔ m.heap.answer m.heap.asked = 0 := by
  unfold fillFile setFdte setHeap
  simp only [notes_bind,(silentFrame.deref _).noted trivial,deref_ends,noted_update,ends_update,
    silentFrame.malloc.noted trivial,malloc_ends,notes_ite,noted_note,noted_pure,true_and]
  constructor
  · intro noted
    by_contra useful
    have given := noted (p,e) m ⟨rfl,object,rfl⟩ () _ rfl true _ ⟨decide_eq_true useful,rfl⟩
    have fits : a.bytes.length + 1 ≤ a.bytes.length := (given.1 rfl).1
    omega
  · rintro null ⟨q,e'⟩ _ ⟨_,_,rfl⟩ _ _ rfl b t ⟨rfl,rfl⟩
    exact ⟨fun useful => absurd null (of_decide_eq_true useful),fun _ => trivial⟩

theorem fetch_notes {i : Fin openSize} {p : UInt32} {path : UInt32} {flags : UInt8} (object : (m.heap.fdtes p).isSome) :
    Notes Fits (do
      let apath ← absPath path
      let success ← fs fun s => isftype s apath ftypeFile
      let success ← if ¬ success ∧ flags ≥ 4 then fs fun s => create s ftypeFile apath else pure success
      if success then fillFile i (some p) apath flags else pure (-1)) m ↔
    m.Joins path ∧ (Openable m.fs (m.apath path) flags → m.heap.answer m.heap.asked = 0) := by
  obtain ⟨e,object⟩ := Option.isSome_iff_exists.mp object
  rw [named_notes]
  refine and_congr_right fun _ => ?_
  -- The volume is not looked at any more.
  have filled : ∀ s,Notes Fits (fillFile i (some p) (m.apath path) flags) {m with fs := s} ↔
      m.heap.answer m.heap.asked = 0 := fun s => fillFile_notes (m := {m with fs := s}) object
  unfold fs
  constructor
  · rintro noted ⟨t,r,looked,here⟩
    have noted := (notes_bind.mp noted).2 r _ (ends_lift.mpr ⟨t,looked,rfl⟩)
    have noted := notes_ite.mp noted
    by_cases missing : ¬ r = true ∧ flags ≥ 4
    · obtain ⟨u,made⟩ := (here.resolve_left missing.1).2
      have noted := (notes_bind.mp (noted.1 missing)).2 true _ (ends_lift.mpr ⟨u,made,rfl⟩)
      exact (filled u).mp ((notes_ite.mp noted).1 rfl)
    · have there : r = true := by
        by_contra absent
        exact missing ⟨absent,(here.resolve_left absent).1⟩
      exact (filled t).mp ((notes_ite.mp (noted.2 missing)).1 there)
  · intro enough
    refine notes_bind.mpr ⟨noted_lift,fun r t' run => ?_⟩
    obtain ⟨t,looked,rfl⟩ := ends_lift.mp run
    refine notes_ite.mpr ⟨fun missing => notes_bind.mpr ⟨noted_lift,fun b u' run => ?_⟩,fun there => ?_⟩
    · obtain ⟨u,made,rfl⟩ := ends_lift.mp run
      refine notes_ite.mpr ⟨fun success => (filled u).mpr ?_,fun _ => noted_pure⟩
      rw [success] at made
      exact enough ⟨t,r,looked,.inr ⟨missing.2,u,made⟩⟩
    · refine notes_ite.mpr ⟨fun success => (filled t).mpr ?_,fun _ => noted_pure⟩
      exact enough ⟨t,r,looked,.inl success⟩

-- OPEN gets to the path, and from there to a copy of it.
def Machine.Fetches (m : Machine) (flags : UInt8) : Prop := (∃ fd,(m.pcb m.current).fdt fd = -1) ∧ ¬ m.noEntry flags
def Machine.Copies (m : Machine) (path : UInt32) (flags : UInt8) : Prop :=
  Openable m.fs (m.apath path) flags ∧ m.heap.answer (m.heap.asked + 1) ≠ 0

theorem doOpen_notes {path : UInt32} {flags : UInt8} :
    Notes Fits (doOpen path flags) m ↔ (¬ m.noEntry flags → m.Joins path ∧ ¬ m.Copies path flags) := by
  have asked : Notes Fits mallocFdte m := silentFrame.mallocFdte.noted trivial
  unfold doOpen
  rw [notes_ite]
  by_cases zero : flags = 0
  · exact ⟨fun _ enough => absurd (.inl zero) enough,fun _ => ⟨fun _ => noted_pure,fun used => absurd zero used⟩⟩
  rw [notes_bind]
  simp only [zero,false_implies,not_false_eq_true,true_implies,true_and,noted_read,ends_read]
  cases first : firstFrom (fun i => (m.openft i).isNone) 0 with
  | none =>
      have full : m.noEntry flags := .inr (.inl fun i => (by simpa using firstFrom_none.mp first i (Nat.zero_le _)))
      refine ⟨fun _ enough => absurd full enough,fun _ => ?_⟩
      rintro _ _ ⟨rfl,rfl⟩
      rw [first]
      exact noted_pure
  | some i =>
      have free : ¬ ∀ i,(m.openft i).isSome := by
        intro full
        have here := (firstFrom_some first).2.1
        rw [Option.isNone_iff_eq_none] at here
        have taken := full i
        rw [here] at taken
        cases taken
      constructor
      · intro noted enough
        have noted := noted _ _ ⟨rfl,rfl⟩
        rw [first] at noted
        have given := mallocFdte_allots.mpr ⟨fun refused => enough (.inr (.inr refused)),rfl,rfl⟩
        have noted := (notes_bind.mp noted).2 _ _ given
        have noted := (notes_bind.mp noted).2 () _ (ends_update.mpr rfl)
        obtain ⟨joins,none⟩ := (fetch_notes (by simp [Machine.allots])).mp noted
        exact ⟨joins,fun copies => copies.2 (none copies.1)⟩
      · rintro fine _ _ ⟨rfl,rfl⟩
        rw [first]
        refine notes_bind.mpr ⟨asked,fun p t given => notes_bind.mpr ⟨noted_update,fun _ u taken => ?_⟩⟩
        cases ends_update.mp taken
        cases p with
        | none => exact noted_pure
        | some p =>
            obtain ⟨useful,rfl,rfl⟩ := mallocFdte_allots.mp given
            obtain ⟨joins,none⟩ := fine (by
              rintro (wrong | full | refused)
              · exact zero wrong
              · exact free full
              · exact useful refused)
            refine (fetch_notes (by simp [Machine.allots])).mpr ⟨joins,fun found => ?_⟩
            by_contra useful
            exact none ⟨found,useful⟩

theorem svcOpen_notes : Notes Fits svcOpen m ↔
    (m.Fetches (m.ctx.gpr 1).toUInt8 → m.Joins (m.ctx.gpr 0) ∧ ¬ m.Copies (m.ctx.gpr 0) (m.ctx.gpr 1).toUInt8) := by
  unfold svcOpen running gpr
  rw [notes_bind]
  simp only [noted_read,ends_read,true_and]
  cases first : firstFrom (fun fd => decide ((m.pcb m.current).fdt fd = -1)) 0 with
  | none =>
      constructor
      · rintro _ ⟨⟨fd,free⟩,_⟩
        have used := firstFrom_none.mp first fd (Nat.zero_le _)
        rw [free] at used
        cases used
      · rintro _ _ _ ⟨rfl,rfl⟩
        rw [first]
        exact noted_update
  | some fd =>
      have free : ∃ fd,(m.pcb m.current).fdt fd = -1 := ⟨fd,of_decide_eq_true (firstFrom_some first).2.1⟩
      constructor
      · rintro noted ⟨_,enough⟩
        have noted := noted _ _ ⟨rfl,rfl⟩
        rw [first] at noted
        have noted := (notes_bind.mp noted).2 _ _ (ends_read.mpr ⟨rfl,rfl⟩)
        have noted := (notes_bind.mp noted).2 _ _ (ends_read.mpr ⟨rfl,rfl⟩)
        exact doOpen_notes.mp (notes_bind.mp noted).1 enough
      · rintro fine _ _ ⟨rfl,rfl⟩
        rw [first]
        refine notes_bind.mpr ⟨noted_read,fun r0 t now => ?_⟩
        obtain ⟨rfl,rfl⟩ := ends_read.mp now
        refine notes_bind.mpr ⟨noted_read,fun r1 t now => ?_⟩
        obtain ⟨rfl,rfl⟩ := ends_read.mp now
        refine notes_bind.mpr ⟨doOpen_notes.mpr fun enough => fine ⟨free,enough⟩,fun f t _ => notes_ite.mpr ?_⟩
        refine ⟨fun _ => notes_bind.mpr ⟨?_,fun _ _ _ => noted_update⟩,fun _ => noted_update⟩
        exact (silentFrame.onFdt ..).noted trivial

theorem wdFrame : PathFrame fun _ p => Keeps (fun m i => (m.pcb i).wd) p where
  ret _ := keeps_pure
  look _ := keeps_read
  halt _ := keeps_stop
  seq := keeps_bind
  touch _ _ := keeps_note
  onFdt _ _ := by
    refine keeps_bind keeps_read fun i => keeps_update fun m => ?_
    funext j
    by_cases here : j = i
    · rw [here]
      exact (congrArg Pcb.wd (put_self ..)).trans rfl
    · exact congrArg Pcb.wd (put_other _ _ here)
  onOpenft _ _ := keeps_update fun _ => rfl
  onPipe _ _ := keeps_update fun _ => rfl
  onObject _ _ := keeps_update fun _ => rfl
  onAsked := keeps_update fun _ => rfl
  onFs _ := keeps_lift fun _ _ => rfl
  onRam _ _ := keeps_update fun _ => rfl
  onCopy _ _ := keeps_note

theorem svcOpen_kept (held : m.ShortWds) (run : svcOpen.Ends m () m') : m'.ShortWds := by
  have keeps : Keeps (fun m i => (m.pcb i).wd) svcOpen := by
    refine keeps_bind keeps_read fun p => ?_
    dsimp only
    split
    · exact keeps_update fun _ => rfl
    · refine keeps_bind keeps_read fun _ => keeps_bind keeps_read fun _ => keeps_bind (wdFrame.doOpen ..) fun _ => ?_
      refine keeps_ite (fun _ => ?_) fun _ => keeps_update fun _ => rfl
      exact keeps_bind (wdFrame.onFdt ..) fun _ => keeps_update fun _ => rfl
  intro i
  have same := congrFun (keeps.same run) i
  rw [show (m'.pcb i).wd = (m.pcb i).wd from same]
  exact held i

-- The callers hand out short paths.
def Machine.Short (m : Machine) : Event → Prop
  | .svc id => takesPath id → m.ShortPath (m.ctx.gpr 0)
  | .irq _ => True

def Machine.Fitting (m : Machine) : Event → Prop
  | .svc id =>
    if id.toNat = 0x0B then
      m.Fetches (m.ctx.gpr 1).toUInt8 → m.Joins (m.ctx.gpr 0) ∧ ¬ m.Copies (m.ctx.gpr 0) (m.ctx.gpr 1).toUInt8
    else takesPath id → m.Joins (m.ctx.gpr 0)
  | .irq _ => True

-- Every string that is copied fits where it goes.
def Machine.Copied (m : Machine) (e : Event) : Prop := Notes Fits (handle e) m

theorem path_call {id : UInt32} (path : takesPath id) : svc id = svcOpen ∧ id.toNat = 0x0B ∨ id.toNat ≠ 0x0B ∧ (svc id = svcCd ∨
    ∃ f : Path → Sys Unit,(∀ a,Safe (f a)) ∧ svc id = (gpr 0 >>= fun path => absPath path >>= f)) := by
  have cases : id.toNat = 0x0B ∨ id.toNat = 0x10 ∨ id.toNat = 0x11 ∨ id.toNat = 0x12 ∨ id.toNat = 0x13 ∨
      id.toNat = 0x14 ∨ id.toNat = 0x15 ∨ id.toNat = 0x16 := by
    unfold takesPath at path
    omega
  unfold svc
  rcases cases with h | h | h | h | h | h | h | h
  all_goals rw [h]
  · exact .inl ⟨rfl,rfl⟩
  · exact .inr ⟨by decide,.inr ⟨_,isType_safe ftypeFile,rfl⟩⟩
  · exact .inr ⟨by decide,.inr ⟨_,isType_safe ftypeDir,rfl⟩⟩
  · exact .inr ⟨by decide,.inl rfl⟩
  · exact .inr ⟨by decide,.inr ⟨_,list_safe,rfl⟩⟩
  · exact .inr ⟨by decide,.inr ⟨_,remove_safe,rfl⟩⟩
  · exact .inr ⟨by decide,.inr ⟨_,make_safe ftypeFile,rfl⟩⟩
  · exact .inr ⟨by decide,.inr ⟨_,make_safe ftypeDir,rfl⟩⟩

theorem event_copied (held : m.ShortWds) {e : Event} (short : m.Short e) : m.Copied e ↔ m.Fitting e := by
  cases e with
  | irq id => exact ⟨fun _ => trivial,fun _ => (irq_safe id).noted held⟩
  | svc id =>
      unfold Machine.Copied Machine.Fitting handle
      dsimp only
      by_cases path : takesPath id
      · rcases path_call path with ⟨call,here⟩ | ⟨other,call | ⟨f,safe,call⟩⟩
        · rw [call,if_pos here]
          exact svcOpen_notes
        · rw [call,if_neg other,svcCd_notes held (short path)]
          exact ⟨fun joins _ => joins,fun joins => joins path⟩
        · rw [call,if_neg other,named_call held safe]
          exact ⟨fun joins _ => joins,fun joins => joins path⟩
      · have other : id.toNat ≠ 0x0B := fun here => path (.inl here)
        rw [if_neg other]
        exact ⟨fun _ here => absurd here path,fun _ => (svc_safe path).noted held⟩

-- A path that has been put together fits, so that it fits as a working directory too.
theorem event_kept (held : m.ShortWds) {e : Event} (short : m.Short e) (run : (handle e).Ends m () m') : m'.ShortWds := by
  cases e with
  | irq id => exact (irq_safe id).kept held run
  | svc id =>
      unfold handle at run
      dsimp only at run
      by_cases path : takesPath id
      · rcases path_call path with ⟨call,here⟩ | ⟨other,call | ⟨f,safe,call⟩⟩
        · rw [call] at run
          exact svcOpen_kept held run
        · rw [call] at run
          exact svcCd_kept held (short path) run
        · rw [call] at run
          exact named_kept held safe run
      · exact (svc_safe path).kept held run

theorem Reached.shortWds (reached : Reached Machine.Short m) : m.ShortWds := by
  induction reached with
  | boot z run =>
      refine (boot_safe _).kept (fun i => ?_) run
      rw [z.wd i]
      exact Nat.zero_lt_succ _
  | @call m _ _ ctx ram _ short run ih => exact event_kept (m := m.enter ctx ram) ih short run

-- Over any run of calls with short paths the working directories fit, and each call
-- copies within the buffers under this condition only.
theorem paths_fit_iff (reached : Reached Machine.Short m) :
    m.ShortWds ∧ ∀ ctx ram e,(m.enter ctx ram).Short e → ((m.enter ctx ram).Copied e ↔ (m.enter ctx ram).Fitting e) :=
  ⟨reached.shortWds,fun ctx ram _ short => event_copied (m := m.enter ctx ram) reached.shortWds short⟩

end Calls

-- The memory with the string "a" at the place that the calls point to.
def letterA (a : UInt32) : UInt8 := if a = 0x70001000 then 0x61 else 0

def Machine.asksA (m : Machine) (r1 : UInt32) : Machine :=
  m.enter {m.ctx with gpr := put (put m.ctx.gpr 0 0x70001000) 1 r1} letterA

theorem asksA_short (m : Machine) (r1 : UInt32) (e : Event) : (m.asksA r1).Short e := by
  cases e with
  | irq id => trivial
  | svc id =>
      intro _
      show (0x70001000 : UInt32) = 0 ∨ (stringAt letterA 0x70001000).bytes.length < 256
      decide +kernel

theorem paths_fit_started : (Machine.started (few 4)).ShortWds ∧ ((Machine.started (few 4)).asksA 0).Copied (.svc 0x12) := by
  obtain ⟨held,exact⟩ := paths_fit_iff (@started_reached Machine.Short (few 4) (by decide) (by decide +kernel))
  refine ⟨held,(exact _ letterA _ (asksA_short _ 0 (.svc 0x12))).mpr fun _ => ?_⟩
  exact .inr (.inr (.inr (.inl (by decide +kernel))))

-- A boot on a volume that has a file "a".
def filed : Mount :=
  ((formatVolume ⟨unloadedVolume,zeroDisk⟩ 100 3 4 1 2).bind (Op.create ftypeFile fileA).exec).getD ⟨unloadedVolume,zeroDisk⟩

theorem filed_valid : filed.Valid ∧ filed.disk.Works ∧ filed.vol.blk0 = 0 ∧
    filed.image = (Op.create ftypeFile fileA).apply (formatImage 100 3 4 1 2) := by
  obtain ⟨s,run,_,valid,image,blk0,rdFails,wrFails⟩ := @format_valid ⟨unloadedVolume,zeroDisk⟩ _ 3 _ _ _
    zeroDisk_works.sound passes_boot (by decide) (by decide) rfl
  have works : s.disk.Works := ⟨fun t x => by rw [rdFails]; rfl,fun t x => by rw [wrFails]; rfl⟩
  obtain ⟨t,made,valid',works',blk0',image'⟩ := exec_spec valid works (show Op.Fits s (.create ftypeFile fileA) from trivial)
  have here : filed = t := by
    unfold filed
    rw [run,Option.bind_some,made,Option.getD_some]
  rw [here]
  exact ⟨valid',works',blk0'.trans blk0,by rw [image',image]⟩

def Machine.bare : Machine := {Machine.zero (few 6) with fs := ⟨zeroVolume,filed.disk⟩}

def filedLoaded : Mount := loadVolume ⟨{zeroVolume with blk0 := 0,outcome := .success},filed.disk⟩

def Machine.mounted : Machine := {Machine.zero (few 6) with fs := (blockDump filedLoaded).getD filedLoaded}

theorem mounted_loaded : filedLoaded.vol.outcome = .success ∧ blockDump filedLoaded = some Machine.mounted.fs ∧
    Machine.mounted.fs.Valid ∧ Mount.Same ⟨filed.vol,filed.disk⟩ Machine.mounted.fs := by
  obtain ⟨valid,works,base,_⟩ := filed_valid
  obtain ⟨valid',same,loads,_⟩ := @loadVolume_valid _ valid {zeroVolume with blk0 := 0,outcome := .success}
    base.symm filed.disk rfl (works.reads ..)
  obtain ⟨u,dumped,looked⟩ := blockDump_looked valid' (Works.same works same).sound
  have here : Machine.mounted.fs = u := congrArg (Option.getD · filedLoaded) dumped
  exact ⟨loads,by rw [here]; exact dumped,by rw [here]; exact looked.valid,by rw [here]; exact same.trans looked.toSame⟩

def Machine.opener : Machine := (startInit initProgram).after Machine.mounted

theorem opener_reached : Reached Machine.Short Machine.opener := by
  have z := @zero_zero (few 6) (by decide)
  obtain ⟨loads,dumped,_⟩ := mounted_loaded
  have boots : (boot initProgram).Ends Machine.bare () Machine.opener := by
    refine ends_bind.mpr ⟨(),Machine.mounted,?_,ends_after (by decide +kernel)⟩
    refine ends_bind.mpr ⟨_,_,ends_read.mpr ⟨rfl,rfl⟩,?_⟩
    exact ends_ite.mpr (.inl ⟨loads,ends_lift.mpr ⟨_,congrArg (Option.map _) dumped,rfl⟩⟩)
  have bare : Machine.bare.Zero :=
    ⟨z.pcballoc,z.currentRuntime,z.pid,z.status,z.fdt,z.wd,z.sem,z.pipes,z.openft,z.fdtes,z.areas,z.asked,z.room⟩
  exact .boot bare boots

theorem opener_found : Openable Machine.opener.fs fileA 1 := by
  obtain ⟨valid,works,base,image⟩ := filed_valid
  obtain ⟨_,_,valid',same⟩ := mounted_loaded
  have here : Machine.opener.fs = Machine.mounted.fs := rfl
  rw [here]
  generalize Machine.mounted.fs = u at valid' same
  have works' : u.disk.Works := Works.same works same
  have image' : u.image = filed.image := valid.same_image valid' same
  obtain ⟨t,r,run,result⟩ := isftype_look valid' works'.sound fileA ftypeFile
  rcases result with ⟨_,_,found⟩ | ⟨stopped,_⟩
  · rw [image',image] at found
    have there : ((Op.create ftypeFile fileA).apply (formatImage 100 3 4 1 2)).isftype fileA.bytes ftypeFile = (.success,true) := by
      decide +kernel
    exact ⟨t,r,run,.inl (congrArg Prod.snd (found.trans there))⟩
  · exact (Works.not_faulty works' stopped.faulty).elim

-- A file is opened: the block for its path has no room for the NUL.
theorem path_overruns : ¬ ∀ m,Reached Machine.Short m →
    ∀ ctx ram e,(m.enter ctx ram).Short e → (m.enter ctx ram).Copied e := by
  intro all
  have copied := all _ opener_reached _ letterA _ (asksA_short Machine.opener 1 (.svc 0x0B))
  have fits := svcOpen_notes.mp copied ⟨by decide +kernel,?_⟩
  · refine fits.2 ⟨?_,by decide +kernel⟩
    have named : ((Machine.opener.asksA 1).apath 0x70001000).bytes = fileA.bytes := by decide +kernel
    have same : (Machine.opener.asksA 1).apath 0x70001000 = fileA := by
      generalize (Machine.opener.asksA 1).apath 0x70001000 = a at named
      cases a
      cases named
      rfl
    have found := opener_found
    rw [← same] at found
    exact found
  · rintro (zero | full | refused)
    · cases zero
    · exact absurd (full 3) (by decide +kernel)
    · exact absurd refused (by unfold Heap.Refuses; decide +kernel)

end ArchiveOs.Kernel
