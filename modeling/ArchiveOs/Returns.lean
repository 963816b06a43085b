import ArchiveOs.Progress

-- Calls on the volume that return, and runs in which every proper call does.
namespace ArchiveOs.Kernel
open Fs2 Fs2.Mount
open References
open Prog

section Volume
variable {m m' : Machine} {f : Files}

theorem fs_completes {α : Type} (result : α → Int) (data : α → List UInt8) {g : Mount → Option (Mount × α)} {d : Deed}
    (same : ∀ s,d.call s = (g s).map fun r => (r.1,⟨r.1.vol.outcome,result r.2,data r.2⟩)) (carries : m.fs.Carries f)
    (fits : d.Fits m.fs) (tended : m.fs.Tended d) : (fs g).Completes m := by
  obtain ⟨u,answered,_⟩ := carries_simulates m.fs f (.deed d) carries ⟨fits,tended⟩
  refine completes_lift.mpr ?_
  have called := (same m.fs).symm.trans answered
  cases here : g m.fs with
  | none =>
      rw [here] at called
      cases called
  | some r => rfl

theorem pipe_completes {α : Type} {k : Fin openSize} {e : Fdte} {r : Fin pcbSize → Pipe → Sys α} (holds : m.descs.Holds k e)
    (type : e.type = .pipe) (each : ∀ id pipe,Total (r id pipe)) : Completes (do
      let id ← slot .pipes pcbSize e.id.toNat
      match ← Prog.read fun m => m.pipes id with
      | none => stop .null
      | some pipe => r id pipe) m := by
  obtain ⟨id,index,placed⟩ := holds.pipe type
  rw [index]
  refine completes_bind (slot_completes id) fun i t found => completes_read ?_
  obtain ⟨same,rfl⟩ := slot_ends.mp found
  obtain rfl : id = i := Fin.ext (Int.ofNat.inj same)
  obtain ⟨pipe,there⟩ := Option.isSome_iff_exists.mp placed
  rw [show m.pipes id = some pipe from there]
  exact (each id pipe).completes m

theorem writeEntry_completes {k : Fin openSize} {p : UInt32} {e : Fdte} {src nchars : UInt32} (carries : m.fs.Carries f)
    (holds : m.descs.Holds k e) (deedsFit : e.type = .file → m.DeedsFit [.plain (.write e.path (fun n => m.ram (src + UInt32.ofNat n))
      nchars e.cursor)]) : (writeEntry p e src nchars).Completes m := by
  refine completes_read ?_
  split
  · exact total_pure.completes _
  · rename_i pipe
    exact pipe_completes holds pipe fun _ _ => total_bind total_update fun _ => total_pure
  · rename_i file
    obtain ⟨fits,tended⟩ := deedsFit file _ (List.mem_singleton_self _)
    refine completes_bind (fs_completes (fun n => n) (fun _ => []) (fun _ => rfl) carries fits tended) fun _ _ _ => ?_
    refine completes_ite (fun _ => ?_) fun _ => total_pure.completes _
    exact (total_bind (setFdte_total ..) fun _ => total_pure).completes _
  · rename_i kern
    exact absurd kern holds.kind

theorem readEntry_completes {k : Fin openSize} {p : UInt32} {e : Fdte} {out nchars : UInt32} (carries : m.fs.Carries f)
    (holds : m.descs.Holds k e) : (readEntry p e out nchars).Completes m := by
  unfold readEntry
  split
  · refine completes_ite (fun _ => ?_) fun _ => total_pure.completes _
    exact (total_bind total_update fun _ => total_pure).completes _
  · rename_i pipe
    exact pipe_completes holds pipe fun _ _ => total_bind total_update fun _ => total_bind total_update fun _ => total_pure
  · refine completes_bind (fs_completes Prod.fst Prod.snd (d := .plain (.read e.path nchars e.cursor))
      (fun _ => by rw [Option.map_map]; rfl) carries trivial trivial) fun _ t _ => ?_
    refine completes_bind (total_update.completes _) fun _ _ _ => completes_ite (fun _ => ?_) fun _ => total_pure.completes _
    exact (total_bind (setFdte_total ..) fun _ => total_pure).completes _
  · rename_i kern
    exact absurd kern holds.kind

theorem object_completes {r : UInt32 → Fdte → Sys Int} (counted : m.descs.Counted) (lives : m.descs.live m.current = true)
    (fd : Fin fdtSize) (each : ∀ k p e,m.object fd.val = some e → m.descs.Holds k e → (r p e).Completes m) :
    (onObject fd.val r).Completes m := by
  refine completes_bind (fdtAt_completes fd) fun i t found => ?_
  obtain ⟨⟨fd',this,slot⟩,rfl⟩ := fdtAt_ends.mp found
  obtain rfl : fd = fd' := Fin.ext (Int.ofNat.inj this)
  rcases counted.behind lives fd with free | ⟨k,p,e,there,entry,object,holds⟩
  · exact completes_ite (fun _ => total_pure.completes _) fun used => absurd (slot.symm.trans free) used
  obtain rfl : i = k.val := slot.symm.trans there
  refine completes_ite (fun _ => total_pure.completes _) fun _ => ?_
  refine completes_bind (openftAt_completes k) fun o t looked => ?_
  obtain ⟨⟨l,same,entry'⟩,rfl⟩ := openftAt_ends.mp looked
  obtain rfl : k = l := Fin.ext (Int.ofNat.inj same)
  obtain rfl : some p = o := entry.symm.trans entry'
  refine completes_bind (deref_completes object) fun r' t held => ?_
  obtain ⟨q,e'⟩ := r'
  obtain ⟨same,object',rfl⟩ := deref_ends.mp held
  obtain rfl : p = q := Option.some.inj same
  obtain rfl : e = e' := Option.some.inj (object.symm.trans object')
  exact each k p e (object_some fd k there entry object) holds

theorem svcWrite_completes (counted : m.descs.Counted) (lives : m.descs.live m.current = true) (carries : m.fs.Carries f)
    (fd : Fin fdtSize) (index : toInt (m.ctx.gpr 0) = fd.val) (deedsFit : m.DeedsFit (m.svcDeeds 0x01)) :
    svcWrite.Completes m := by
  refine completes_read (completes_read (completes_read (completes_bind ?_ fun _ _ _ => (setGpr_total ..).completes _)))
  change m.DeedsFit (m.writes (toInt (m.ctx.gpr 0)) (m.ctx.gpr 1) (m.ctx.gpr 2)) at deedsFit
  rw [index] at deedsFit ⊢
  rw [doWrite_object]
  refine object_completes counted lives fd fun k p e object holds => ?_
  refine completes_ite (fun may => writeEntry_completes carries holds fun file => ?_) fun _ => total_pure.completes _
  unfold Machine.writes at deedsFit
  rw [object] at deedsFit
  dsimp only at deedsFit
  rw [if_pos ⟨file,may⟩] at deedsFit
  exact deedsFit

theorem svcRead_completes (counted : m.descs.Counted) (lives : m.descs.live m.current = true) (carries : m.fs.Carries f)
    (fd : Fin fdtSize) (index : toInt (m.ctx.gpr 0) = fd.val) : svcRead.Completes m := by
  refine completes_read (completes_read (completes_read (completes_bind ?_ fun _ _ _ => (setGpr_total ..).completes _)))
  rw [index,doRead_object]
  refine object_completes counted lives fd fun k p e _ holds => ?_
  exact completes_ite (fun _ => readEntry_completes carries holds) fun _ => total_pure.completes _

theorem absPath_completes {path : UInt32} (joins : m.Joins path) : (absPath path).Completes m :=
  ⟨_,_,absPath_ends.mpr ⟨joins,rfl,rfl⟩⟩

theorem named_completes {β : Type} {p : Path → Sys β} {path : UInt32} (joins : m.Joins path)
    (rest : (p (m.apath path)).Completes m) : (absPath path >>= p).Completes m := by
  refine completes_bind (absPath_completes joins) fun a t named => ?_
  obtain ⟨_,rfl,rfl⟩ := absPath_ends.mp named
  exact rest

theorem path_completes {g : Path → Mount → Option (Mount × Bool)} {d : Path → Deed}
    (same : ∀ p s,(d p).call s = (g p s).map fun r => (r.1,⟨r.1.vol.outcome,flag r.2,[]⟩)) (carries : m.fs.Carries f)
    (joins : m.Joins (m.ctx.gpr 0)) (deedsFit : m.DeedsFit [d (m.apath (m.ctx.gpr 0))]) : Completes (do
      let p ← absPath (← gpr 0)
      let yes ← fs (g p)
      setGpr 0 (ofBool yes)) m := by
  obtain ⟨fits,tended⟩ := deedsFit _ (List.mem_singleton_self _)
  refine completes_read (named_completes joins ?_)
  refine completes_bind (fs_completes flag (fun _ => []) (same _) carries fits tended) fun _ _ _ => ?_
  exact (setGpr_total ..).completes _

theorem svcCd_completes (carries : m.fs.Carries f) (wds : m.ShortWds) (short : m.ShortPath (m.ctx.gpr 0))
    (joins : m.Joins (m.ctx.gpr 0)) : svcCd.Completes m := by
  refine completes_read (completes_bind ?_ fun _ _ _ => (setGpr_total ..).completes _)
  refine named_completes joins ?_
  refine completes_bind (fs_completes flag (fun _ => []) (d := .plain (.isftype (m.apath (m.ctx.gpr 0)) ftypeDir))
    (fun _ => rfl) carries trivial trivial) fun yes t _ => ?_
  have fits : ¬ 256 < (m.apath (m.ctx.gpr 0)).bytes.length + 1 := by
    have least := apath_short wds short joins
    omega
  refine completes_ite (fun _ => completes_bind ?_ fun _ _ _ => ?_) fun _ => total_pure.completes _
  · refine completes_bind (total_note.completes _) fun _ _ _ => ?_
    rw [if_neg fits]
    exact total_pure.completes _
  · exact (total_bind (setRunning_total _) fun _ => total_pure).completes _

theorem svcLs_completes (carries : m.fs.Carries f) (joins : m.Joins (m.ctx.gpr 0)) (deedsFit : m.DeedsFit (m.svcDeeds 0x13)) :
    svcLs.Completes m := by
  obtain ⟨fits,tended⟩ := deedsFit _ (List.mem_singleton_self _)
  refine completes_read (named_completes joins (completes_read ?_))
  refine completes_bind (fs_completes (fun r => flag r.1) Prod.snd (fun _ => by rw [Option.map_map]; rfl)
    carries fits tended) fun _ _ _ => ?_
  exact (total_bind total_read fun _ => total_bind total_update fun _ => setGpr_total ..).completes _

theorem sought_completes {α : Type} {r : Bool → Sys α} {a : Path} {flags : UInt8} (carries : m.fs.Carries f)
    (next : ∀ s found,(r found).Completes {m with fs := s}) : Completes (do
    let success ← fs fun s => isftype s a ftypeFile
    let success ← if ¬ success ∧ flags ≥ 4 then fs fun s => create s ftypeFile a else pure success
    r success) m := by
  refine completes_bind (fs_completes flag (fun _ => []) (d := .plain (.isftype a ftypeFile)) (fun _ => rfl)
    carries trivial trivial) fun yes t looked => ?_
  obtain ⟨s,called,rfl⟩ := ends_lift.mp looked
  have carries' := (deed_serves flag (fun _ => []) (d := .plain (.isftype a ftypeFile)) (fun _ => rfl) carries trivial trivial called).1
  refine completes_ite (fun _ => ?_) fun _ => next s yes
  refine completes_bind (fs_completes flag (fun _ => []) (m := {m with fs := s}) (d := .plain (.create ftypeFile a))
    (fun _ => rfl) carries' trivial trivial) fun made u creates => ?_
  obtain ⟨s',_,rfl⟩ := ends_lift.mp creates
  exact next s' made

theorem fillFile_completes {i : Fin openSize} {p : UInt32} {e : Fdte} {a : Path} {flags : UInt8}
    (object : m.heap.fdtes p = some e) : (fillFile i (some p) a flags).Completes m := by
  refine completes_bind (deref_completes object) fun _ _ _ => ?_
  refine (total_bind (setFdte_total ..) fun _ => total_bind malloc_total fun _ => total_ite (fun _ => ?_) fun _ => total_pure).completes _
  exact total_bind total_note fun _ => total_bind (setFdte_total ..) fun _ => total_pure

theorem svcOpen_completes (carries : m.fs.Carries f) (joins : m.Joins (m.ctx.gpr 0)) : svcOpen.Completes m := by
  refine completes_read ?_
  dsimp only
  split
  · exact (setGpr_total ..).completes _
  refine completes_read (completes_read (completes_bind ?_ fun _ _ _ => completes_ite (fun _ => ?_) fun _ => ?_))
  · refine completes_ite (fun _ => total_pure.completes _) fun _ => completes_read ?_
    split
    · exact total_pure.completes _
    refine completes_bind (mallocFdte_total.completes _) fun p t given => completes_bind (total_update.completes _) fun _ u taken => ?_
    cases ends_update.mp taken
    cases p with
    | none => exact total_pure.completes _
    | some p =>
        obtain ⟨_,rfl,rfl⟩ := mallocFdte_allots.mp given
        refine named_completes joins (sought_completes carries fun s found => ?_)
        exact completes_ite (fun _ => fillFile_completes (if_pos rfl)) fun _ => total_pure.completes _
  · exact (total_bind (setRunning_total _) fun _ => setGpr_total ..).completes _
  · exact (setGpr_total ..).completes _

end Volume

-- What a call asks of its caller so that the kernel returns: descriptors and semaphores
-- that exist, short paths, memory where it waits, and that somebody is left to run.
structure Machine.ArgsValid (m : Machine) (id : UInt32) : Prop where
  keepsCounts : KeepsCounts m (.svc id)
  path : takesPath id → m.ShortPath (m.ctx.gpr 0) ∧ m.Joins (m.ctx.gpr 0)
  fd : id.toNat = 0x01 ∨ id.toNat = 0x02 → ∃ fd : Fin fdtSize,toInt (m.ctx.gpr 0) = fd.val
  exit : id.toNat = 0x04 → ∃ i,i ≠ m.current ∧ m.procs.Alive i
  kill : id.toNat = 0x06 → ∃ i : Fin pcbSize,toInt (m.ctx.gpr 0) ≠ i.val ∧ m.procs.Alive i
  sem : id.toNat = 0x08 ∨ id.toNat = 0x0A → (m.ctx.gpr 0).toNat < pcbSize
  memory : id.toNat = 0x0A → ∀ k : Fin pcbSize,(m.ctx.gpr 0).toNat = k.val → m.sem k < m.ctx.gpr 1 →
    m.heap.answer m.heap.asked ≠ 0

-- And that it keeps to what the volume can do.
structure Machine.CallValid (m : Machine) (id : UInt32) : Prop extends m.ArgsValid id where
  deedsFit : m.DeedsFit (m.svcDeeds id.toNat)

def EventValid (m : Machine) : Event → Prop
  | .irq _ => True
  | .svc id => m.CallValid id

-- What the kernel keeps between two calls.
structure Intact (f : Files) (m : Machine) : Prop where
  carries : m.fs.Carries f
  counted : m.descs.Counted
  runner : m.procs.Runner
  kept : m.procs.Kept
  wds : m.ShortWds

section Runs
variable {m m' : Machine} {f : Files} {e : Event}

theorem svc_completes {id : UInt32} (intact : Intact f m) (eventValid : m.CallValid id) : (svc id).Completes m := by
  obtain ⟨carries,counted,runner,kept,wds⟩ := intact
  obtain ⟨⟨⟨steady,shares,_,_,more⟩,path,fd,exit,kill,sem,memory⟩,deedsFit⟩ := eventValid
  have lives : m.descs.live m.current = true := runner.live
  have offers := steady.1
  have named : takesPath id ↔ id.toNat = 0x0B ∨ 0x10 ≤ id.toNat ∧ id.toNat ≤ 0x16 := Iff.rfl
  rw [named] at path
  clear steady named
  unfold svc
  generalize id.toNat = n at *
  split
  case h_1 => exact (next_total _).completes m
  case h_2 =>
    obtain ⟨fd,index⟩ := fd (.inl rfl)
    exact svcWrite_completes counted lives carries fd index deedsFit
  case h_3 =>
    obtain ⟨fd,index⟩ := fd (.inr rfl)
    exact svcRead_completes counted lives carries fd index
  case h_4 => exact doFork_completes counted lives (offers rfl)
  case h_5 =>
    obtain ⟨i,other,live⟩ := exit rfl
    exact svcExit_completes counted runner kept (shares rfl) other live
  case h_6 => exact doExec_total.completes m
  case h_7 =>
    obtain ⟨i,other,live⟩ := kill rfl
    exact svcKill_completes kept live other
  case h_8 => exact svcNice_total.completes m
  case h_9 => exact svcSemInit_completes (sem (.inl rfl))
  case h_10 => exact (total_bind total_read fun _ => total_bind total_read fun _ => doSemPost_total ..).completes m
  case h_11 => exact svcSemWait_completes (sem (.inr rfl)) (memory rfl)
  case h_12 => exact svcOpen_completes carries (path (by decide)).2
  case h_13 => exact svcClose_completes counted lives (more rfl)
  case h_14 => exact svcFdSwap_total.completes m
  case h_15 => exact svcPipe_total.completes m
  case h_16 => exact (total_bind doExec_total fun _ => total_bind total_read fun _ => setGpr_total ..).completes m
  case h_17 => exact path_completes (d := fun p => .plain (.isftype p ftypeFile)) (fun _ _ => rfl) carries (path (by decide)).2 deedsFit
  case h_18 => exact path_completes (d := fun p => .plain (.isftype p ftypeDir)) (fun _ _ => rfl) carries (path (by decide)).2 deedsFit
  case h_19 => exact svcCd_completes carries wds (path (by decide)).1 (path (by decide)).2
  case h_20 => exact svcLs_completes carries (path (by decide)).2 deedsFit
  case h_21 => exact path_completes (d := fun p => .rm p) (fun _ _ => rfl) carries (path (by decide)).2 deedsFit
  case h_22 => exact path_completes (d := fun p => .plain (.create ftypeFile p)) (fun _ _ => rfl) carries (path (by decide)).2 deedsFit
  case h_23 => exact path_completes (d := fun p => .plain (.create ftypeDir p)) (fun _ _ => rfl) carries (path (by decide)).2 deedsFit
  case h_24 =>
    refine (total_bind total_read fun _ => total_bind total_read fun _ => total_bind total_read fun _ => ?_).completes m
    exact total_bind total_update fun _ => setGpr_total ..
  case h_25 => exact total_pure.completes m

theorem handle_completes (intact : Intact f m) (eventValid : EventValid m e) : (handle e).Completes m := by
  cases e with
  | svc id => exact svc_completes intact eventValid
  | irq id => exact (total_ite (fun _ => schedule_total) fun _ => total_pure).completes m

theorem EventValid.keepsCounts (eventValid : EventValid m e) : KeepsCounts m e := by
  cases e with
  | svc id => exact Machine.ArgsValid.keepsCounts (Machine.CallValid.toArgsValid eventValid)
  | irq id => trivial

theorem EventValid.deedsFit (eventValid : EventValid m e) : m.DeedsFit (m.deeds e) := by
  cases e with
  | svc id => exact Machine.CallValid.deedsFit eventValid
  | irq id => exact fun _ none => absurd none List.not_mem_nil

theorem EventValid.short (eventValid : EventValid m e) : m.Short e := by
  cases e with
  | svc id => exact fun path => (Machine.ArgsValid.path (Machine.CallValid.toArgsValid eventValid) path).1
  | irq id => trivial

theorem Intact.step (intact : Intact f m) (eventValid : EventValid m e) (run : (handle e).Ends m () m') :
    Intact (Replies.serve Files.answer f (m.deeds e)).1 m' where
  carries := (handle_tells intact.carries eventValid.deedsFit run).carries
  counted := handle_counted intact.counted intact.runner eventValid.keepsCounts run
  runner := (handle_did run).runner intact.runner eventValid.keepsCounts.steady
  kept := (handle_did run).kept intact.kept (eventValid.keepsCounts.steady.orderly intact.runner)
  wds := event_kept intact.wds eventValid.short run

theorem boot_intact {s : Mount} {zero : Machine} {entry : UInt32} (carries : s.Carries f) (base : f.blk0 = 0) (z : zero.Zero)
    (disk : zero.fs.disk = s.disk) (run : (boot entry).Ends zero () m) : Intact f m where
  carries := boot_carries carries base disk run
  counted := boot_counted z run
  runner := Procs.Booted.runner (boot_booted z run)
  kept := Procs.Booted.kept (boot_booted z run)
  wds := by
    refine (boot_safe _).kept (fun i => ?_) run
    rw [z.wd i]
    exact Nat.zero_lt_succ _

end Runs

-- The kernel has been asked properly only.
abbrev Working : Files → Machine → Prop := Ran fun _ => EventValid

section Works
variable {m m' : Machine} {f : Files}

theorem Intact.enter (intact : Intact f m) (ctx : Ctx) (ram : UInt32 → UInt8) : Intact f (m.enter ctx ram) where
  carries := intact.carries
  counted := intact.counted
  runner := ⟨intact.runner.live,intact.runner.runs,intact.runner.alone,intact.runner.own⟩
  kept := Kept.enter intact.kept ctx ram
  wds := intact.wds

theorem Working.intact (working : Working f m) : Intact f m :=
  (@Ran.keep _ _ _ Intact Intact.carries boot_intact (fun ctx ram intact => intact.enter ctx ram) Intact.step working).1

end Works

end ArchiveOs.Kernel
