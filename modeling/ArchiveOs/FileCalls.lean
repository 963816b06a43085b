import ArchiveOs.Descriptors
import ArchiveOs.Sessions

-- What the calls of the user programs do to the volume, and what they tell of it.
namespace ArchiveOs.Kernel
open Fs2 Fs2.Mount
open Prog

def Machine.writes (m : Machine) (fd : Int) (src nchars : UInt32) : List Deed :=
  match m.object fd with
  | none => []
  | some e =>
    if e.type = .file ∧ (e.mode = .w ∨ e.mode = .rw) then
      [.plain (.write e.path (fun k => m.ram (src + UInt32.ofNat k)) nchars e.cursor)]
    else []

def Machine.reads (m : Machine) (fd : Int) (nchars : UInt32) : List Deed :=
  match m.object fd with
  | none => []
  | some e =>
    if e.type = .file ∧ (e.mode = .r ∨ e.mode = .rw) then [.plain (.read e.path nchars e.cursor)] else []

instance (h : Heap) : Decidable h.Refuses := inferInstanceAs (Decidable (h.answer h.asked = 0 ∨ _))

instance (m : Machine) (flags : UInt8) : Decidable (m.noEntry flags) :=
  inferInstanceAs (Decidable (flags = 0 ∨ (∀ i,(m.openft i).isSome) ∨ m.heap.Refuses))

instance (m : Machine) (flags : UInt8) : Decidable (m.Fetches flags) :=
  inferInstanceAs (Decidable ((∃ fd,(m.pcb m.current).fdt fd = -1) ∧ ¬ m.noEntry flags))

-- do_open looks for a file, and may make it.
def Machine.opens (m : Machine) (path : Path) (flags : UInt8) : List Deed :=
  .plain (.isftype path ftypeFile) ::
    if (m.fs.image.isftype path.bytes ftypeFile).2 = false ∧ flags ≥ 4 then [.plain (.create ftypeFile path)] else []

-- The calls of fs2.c that a call of the kernel makes.
def Machine.svcDeeds (m : Machine) : Nat → List Deed
  | 0x01 => m.writes (toInt (m.ctx.gpr 0)) (m.ctx.gpr 1) (m.ctx.gpr 2)
  | 0x02 => m.reads (toInt (m.ctx.gpr 0)) (m.ctx.gpr 2)
  | 0x0B => if m.Fetches (m.ctx.gpr 1).toUInt8 then m.opens (m.apath (m.ctx.gpr 0)) (m.ctx.gpr 1).toUInt8 else []
  | 0x10 => [.plain (.isftype (m.apath (m.ctx.gpr 0)) ftypeFile)]
  | 0x11 => [.plain (.isftype (m.apath (m.ctx.gpr 0)) ftypeDir)]
  | 0x12 => [.plain (.isftype (m.apath (m.ctx.gpr 0)) ftypeDir)]
  | 0x13 => [.plain (.ls (m.apath (m.ctx.gpr 0)) (toInt (m.ctx.gpr 2)))]
  | 0x14 => [.rm (m.apath (m.ctx.gpr 0))]
  | 0x15 => [.plain (.create ftypeFile (m.apath (m.ctx.gpr 0)))]
  | 0x16 => [.plain (.create ftypeDir (m.apath (m.ctx.gpr 0)))]
  | _ => []

def Machine.deeds (m : Machine) : Event → List Deed
  | .irq _ => []
  | .svc id => m.svcDeeds id.toNat

-- They are such that the volume goes on carrying its files.
def Machine.DeedsFit (m : Machine) (ds : List Deed) : Prop := ∀ d ∈ ds,d.Fits m.fs ∧ m.fs.Tended d

section Calls
variable {m m' : Machine} {f : Files}

theorem deed_serves {α : Type} (result : α → Int) (data : α → List UInt8) {g : Mount → Option (Mount × α)} {d : Deed} {a : α}
    {s t : Mount} (same : ∀ s,d.call s = (g s).map fun r => (r.1,⟨r.1.vol.outcome,result r.2,data r.2⟩)) (carries : s.Carries f)
    (fits : d.Fits s) (tended : s.Tended d) (called : g s = some (t,a)) :
    t.Carries (f.answer d).1 ∧ result a = (f.answer d).2.result ∧ data a = (f.answer d).2.data := by
  obtain ⟨u,answered,carries'⟩ := carries_simulates s f (.deed d) carries ⟨fits,tended⟩
  have replied := (same s).symm.trans answered
  rw [called,Option.map_some] at replied
  obtain ⟨rfl,reply⟩ := Prod.mk.inj (Option.some.inj replied)
  exact ⟨carries',congrArg Reply.result reply,congrArg Reply.data reply⟩

theorem fs_serves {α : Type} (result : α → Int) (data : α → List UInt8) {g : Mount → Option (Mount × α)} {d : Deed} {a : α}
    (same : ∀ s,d.call s = (g s).map fun r => (r.1,⟨r.1.vol.outcome,result r.2,data r.2⟩)) (carries : m.fs.Carries f)
    (fits : d.Fits m.fs) (tended : m.fs.Tended d) (run : (fs g).Ends m a m') :
    ∃ s,{m with fs := s} = m' ∧ s.Carries (f.answer d).1 ∧ result a = (f.answer d).2.result ∧ data a = (f.answer d).2.data := by
  obtain ⟨s,called,rfl⟩ := ends_lift.mp run
  exact ⟨s,rfl,deed_serves result data same carries fits tended called⟩

-- What the call has come to, where the bytes it gives are stored at `out`.
structure Served (m m' : Machine) (f : Files) (ds : List Deed) (out : UInt32) (r : Int) : Prop where
  carries : m'.fs.Carries (Replies.serve Files.answer f ds).1
  result : ∀ d,ds = [d] → r = (f.answer d).2.result
  data : ∀ d,ds = [d] → ∀ a,m'.ram a = (f.answer d).2.data.getD (a - out).toNat (m.ram a)

theorem Served.nothing (carries : m.fs.Carries f) (same : m'.fs = m.fs) (out : UInt32) (r : Int) : Served m m' f [] out r := by
  refine ⟨?_,fun _ wrong => ?_,fun _ wrong => ?_⟩
  · rw [same]
    exact carries
  · cases wrong
  · cases wrong

theorem Served.after {t : Machine} {ds : List Deed} {out : UInt32} {r : Int} (served : Served m t f ds out r)
    (volume : m'.fs = t.fs) (ram : m'.ram = t.ram) : Served m m' f ds out r := by
  refine ⟨?_,served.result,fun d same a => ?_⟩
  · rw [volume]
    exact served.carries
  · rw [ram]
    exact served.data d same a

-- UARTs and pipes leave alone what a change of a pipe leaves alone.
section Entries
variable {View : Type} {view : FileSide → View} {p : UInt32} {fde : Fdte}

theorem writeEntry_apart (pipes : ∀ i pipe,KeepsFileSide view (setPipe i pipe)) {src nchars : UInt32}
    (other : fde.type ≠ .file) : KeepsFileSide view (writeEntry p fde src nchars) := by
  refine keeps_bind keeps_read fun ram => ?_
  split
  · exact keeps_pure
  · refine keeps_bind (slot_apart ..) fun id => keeps_bind keeps_read fun pipe => ?_
    cases pipe with
    | none => exact keeps_stop
    | some pipe => exact keeps_bind (pipes ..) fun _ => keeps_pure
  · rename_i file
    exact absurd file other
  · exact keeps_stop

theorem readEntry_apart (pipes : ∀ i pipe,KeepsFileSide view (setPipe i pipe)) {out nchars : UInt32}
    (other : fde.type ≠ .file) : KeepsFileSide view (readEntry p fde out nchars) := by
  unfold readEntry
  split
  · exact keeps_ite (fun _ => keeps_bind (poke_apart ..) fun _ => keeps_pure) fun _ => keeps_pure
  · refine keeps_bind (slot_apart ..) fun id => keeps_bind keeps_read fun pipe => ?_
    cases pipe with
    | none => exact keeps_stop
    | some pipe => exact keeps_bind (pipes ..) fun _ => keeps_bind (poke_apart ..) fun _ => keeps_pure
  · rename_i file
    exact absurd file other
  · exact keeps_stop

end Entries

theorem writeEntry_dry {p : UInt32} {fde : Fdte} {src nchars : UInt32} (other : fde.type ≠ .file) :
    Dry (writeEntry p fde src nchars) := @writeEntry_apart _ FileSide.fs _ _ (fun _ _ => setPipe_dry ..) _ _ other

theorem readEntry_dry {p : UInt32} {fde : Fdte} {out nchars : UInt32} (other : fde.type ≠ .file) :
    Dry (readEntry p fde out nchars) := @readEntry_apart _ FileSide.fs _ _ (fun _ _ => setPipe_dry ..) _ _ other

theorem cursor_ends {p : UInt32} {moved : Option Fdte} {n r : Int} (run : Ends (do
    if n ≥ 0 then setFdte p moved else pure ()
    pure n) m r m') : m'.fs = m.fs ∧ m'.ram = m.ram ∧ r = n := by
  rcases ends_ite.mp run with ⟨_,run⟩ | ⟨_,run⟩
  · obtain ⟨_,_,set,run⟩ := ends_bind.mp run
    cases ends_update.mp set
    obtain ⟨rfl,rfl⟩ := ends_pure.mp run
    exact ⟨rfl,rfl,rfl⟩
  · obtain ⟨rfl,rfl⟩ := ends_pure.mp run
    exact ⟨rfl,rfl,rfl⟩

theorem doWrite_served {fd r : Int} {src nchars : UInt32} (carries : m.fs.Carries f) (deedsFit : m.DeedsFit (m.writes fd src nchars))
    (run : (doWrite fd src nchars).Ends m r m') (out : UInt32) : Served m m' f (m.writes fd src nchars) out r := by
  rw [doWrite_object] at run
  unfold Machine.writes at deedsFit ⊢
  rcases object_ends run with ⟨none,rfl⟩ | ⟨p,e,some,_,_,run⟩
  · rw [none]
    exact .nothing carries rfl out r
  rw [some] at deedsFit ⊢
  dsimp only at deedsFit ⊢
  rcases ends_ite.mp run with ⟨may,run⟩ | ⟨denied,run⟩
  · by_cases file : e.type = .file
    · rw [if_pos ⟨file,may⟩] at deedsFit ⊢
      obtain ⟨fits,tended⟩ := deedsFit _ (List.mem_singleton_self _)
      obtain ⟨ram,_,now,run⟩ := ends_bind.mp run
      obtain ⟨rfl,rfl⟩ := ends_read.mp now
      rw [file] at run
      obtain ⟨n,t,wrote,run⟩ := ends_bind.mp run
      obtain ⟨s,rfl,carries',result,data⟩ := fs_serves (fun n => n) (fun _ => []) (fun _ => rfl) carries fits tended wrote
      obtain ⟨volume,ram,rfl⟩ := cursor_ends run
      refine Served.after ⟨carries',fun d same => ?_,fun d same a => ?_⟩ volume ram
      · cases same
        exact result
      · cases same
        rw [← data]
        rfl
    · rw [if_neg fun both => file both.1]
      exact .nothing carries ((writeEntry_dry file).same run) out r
  · rw [if_neg fun both => denied both.2]
    obtain ⟨_,rfl⟩ := ends_pure.mp run
    exact .nothing carries rfl out r

theorem doRead_served {fd r : Int} {out nchars : UInt32} (carries : m.fs.Carries f) (deedsFit : m.DeedsFit (m.reads fd nchars))
    (run : (doRead fd out nchars).Ends m r m') : Served m m' f (m.reads fd nchars) out r := by
  rw [doRead_object] at run
  unfold Machine.reads at deedsFit ⊢
  rcases object_ends run with ⟨none,rfl⟩ | ⟨p,e,some,_,_,run⟩
  · rw [none]
    exact .nothing carries rfl out r
  rw [some] at deedsFit ⊢
  dsimp only at deedsFit ⊢
  rcases ends_ite.mp run with ⟨may,run⟩ | ⟨denied,run⟩
  · by_cases file : e.type = .file
    · rw [if_pos ⟨file,may⟩] at deedsFit ⊢
      obtain ⟨fits,tended⟩ := deedsFit _ (List.mem_singleton_self _)
      unfold readEntry at run
      rw [file] at run
      obtain ⟨⟨n,bytes⟩,t,seen,run⟩ := ends_bind.mp run
      obtain ⟨s,rfl,carries',result,data⟩ := fs_serves Prod.fst Prod.snd (fun _ => by rw [Option.map_map]; rfl) carries fits tended seen
      obtain ⟨_,_,poked,run⟩ := ends_bind.mp run
      cases ends_update.mp poked
      obtain ⟨volume,ram,rfl⟩ := cursor_ends run
      refine Served.after ⟨carries',fun d same => ?_,fun d same a => ?_⟩ volume ram
      · cases same
        exact result
      · cases same
        rw [← data]
    · rw [if_neg fun both => file both.1]
      exact .nothing carries ((readEntry_dry file).same run) out r
  · rw [if_neg fun both => denied both.2]
    obtain ⟨_,rfl⟩ := ends_pure.mp run
    exact .nothing carries rfl out r

-- A call that has told its caller of one deed.
def Answers (m m' : Machine) (f : Files) (ds : List Deed) : Prop :=
  ∀ d,ds = [d] → m'.ctx.gpr 0 = UInt32.ofInt (f.answer d).2.result ∧
    ∀ a,m'.ram a = (f.answer d).2.data.getD (a - m.ctx.gpr 1).toNat (m.ram a)

theorem Served.told {t : Machine} {ds : List Deed} {r : Int} {w : UInt32} (served : Served m t f ds (m.ctx.gpr 1) r)
    (shown : w = UInt32.ofInt r) (run : (setGpr 0 w).Ends t () m') :
    m'.fs.Carries (Replies.serve Files.answer f ds).1 ∧ Answers m m' f ds := by
  cases ends_update.mp run
  refine ⟨served.carries,fun d same => ⟨?_,served.data d same⟩⟩
  rw [← served.result d same,shown]
  exact put_self t.ctx.gpr 0 _

theorem ofBool_flag (b : Bool) : ofBool b = UInt32.ofInt (flag b) := by
  cases b <;> rfl

theorem path_served {g : Path → Mount → Option (Mount × Bool)} {d : Path → Deed} {yes : Bool} {path : UInt32} {t : Machine}
    {p : Path} (same : ∀ p s,(d p).call s = (g p s).map fun r => (r.1,⟨r.1.vol.outcome,flag r.2,[]⟩)) (carries : m.fs.Carries f)
    (deedsFit : m.DeedsFit [d (m.apath path)]) (named : (absPath path).Ends m p t) (called : (fs (g p)).Ends t yes m')
    (out : UInt32) :
    Served m m' f [d (m.apath path)] out (flag yes) ∧ ∃ s,m' = {m with fs := s} := by
  obtain ⟨_,rfl,rfl⟩ := absPath_ends.mp named
  obtain ⟨fits,tended⟩ := deedsFit _ (List.mem_singleton_self _)
  obtain ⟨s,rfl,carries',told,data⟩ := fs_serves flag (fun _ => []) (same _) carries fits tended called
  refine ⟨⟨carries',fun d same => ?_,fun d same a => ?_⟩,s,rfl⟩
  · cases same
    exact told
  · cases same
    rw [← data]
    rfl

theorem path_told {g : Path → Mount → Option (Mount × Bool)} {d : Path → Deed}
    (same : ∀ p s,(d p).call s = (g p s).map fun r => (r.1,⟨r.1.vol.outcome,flag r.2,[]⟩)) (carries : m.fs.Carries f)
    (deedsFit : m.DeedsFit [d (m.apath (m.ctx.gpr 0))]) (run : Ends (do
      let p ← absPath (← gpr 0)
      let yes ← fs (g p)
      setGpr 0 (ofBool yes)) m () m') :
    m'.fs.Carries (Replies.serve Files.answer f [d (m.apath (m.ctx.gpr 0))]).1 ∧ Answers m m' f [d (m.apath (m.ctx.gpr 0))] := by
  obtain ⟨_,_,now,run⟩ := ends_bind.mp run
  obtain ⟨rfl,rfl⟩ := gpr_ends.mp now
  obtain ⟨p,t,named,run⟩ := ends_bind.mp run
  obtain ⟨yes,u,called,run⟩ := ends_bind.mp run
  exact (path_served same carries deedsFit named called _).1.told (ofBool_flag yes) run

theorem move_ends {p : Path} {yes done : Bool} (run : Ends (do
    if yes then do
      strcpy 256 p
      setRunning fun q => {q with wd := p}
      pure true
    else pure false) m done m') : done = yes ∧ m'.fs = m.fs ∧ m'.ram = m.ram := by
  rcases ends_ite.mp run with ⟨here,run⟩ | ⟨absent,run⟩
  · obtain ⟨_,t,copied,run⟩ := ends_bind.mp run
    obtain ⟨_,u,set,run⟩ := ends_bind.mp run
    obtain ⟨rfl,rfl⟩ := ends_pure.mp run
    have still : t = m := by
      obtain ⟨_,_,noted,fits⟩ := ends_bind.mp copied
      rw [ends_note.mp noted]
      rcases ends_ite.mp fits with ⟨_,wrong⟩ | ⟨_,same⟩
      · exact absurd wrong ends_stop
      · exact (ends_pure.mp same).2.symm
    subst still
    obtain ⟨_,_,now,put⟩ := ends_bind.mp set
    obtain ⟨rfl,rfl⟩ := ends_read.mp now
    cases ends_update.mp put
    exact ⟨here.symm,rfl,rfl⟩
  · obtain ⟨rfl,rfl⟩ := ends_pure.mp run
    exact ⟨(Bool.eq_false_iff.mpr absent).symm,rfl,rfl⟩

theorem svcCd_told (carries : m.fs.Carries f) (deedsFit : m.DeedsFit (m.svcDeeds 0x12)) (run : svcCd.Ends m () m') :
    m'.fs.Carries (Replies.serve Files.answer f (m.svcDeeds 0x12)).1 ∧ Answers m m' f (m.svcDeeds 0x12) := by
  obtain ⟨_,_,now,run⟩ := ends_bind.mp run
  obtain ⟨rfl,rfl⟩ := gpr_ends.mp now
  obtain ⟨done,t,changed,run⟩ := ends_bind.mp run
  obtain ⟨p,t1,named,changed⟩ := ends_bind.mp changed
  obtain ⟨yes,t2,called,moved⟩ := ends_bind.mp changed
  have served := (path_served (g := fun p s => isftype s p ftypeDir) (d := fun p => .plain (.isftype p ftypeDir))
    (fun _ _ => rfl) carries deedsFit named called (m.ctx.gpr 1)).1
  obtain ⟨rfl,volume,ram⟩ := move_ends moved
  exact (served.after volume ram).told (ofBool_flag _) run

theorem svcLs_told (carries : m.fs.Carries f) (deedsFit : m.DeedsFit (m.svcDeeds 0x13)) (run : svcLs.Ends m () m') :
    m'.fs.Carries (Replies.serve Files.answer f (m.svcDeeds 0x13)).1 ∧ Answers m m' f (m.svcDeeds 0x13) := by
  unfold svcLs at run
  simp only [ends_bind,gpr_ends] at run
  obtain ⟨_,_,⟨rfl,rfl⟩,path,_,named,_,_,⟨rfl,rfl⟩,⟨done,out⟩,_,listed,_,_,⟨rfl,rfl⟩,_,_,poked,run⟩ := run
  obtain ⟨_,rfl,rfl⟩ := absPath_ends.mp named
  obtain ⟨fits,tended⟩ := deedsFit _ (List.mem_singleton_self _)
  obtain ⟨s,rfl,carries',told,data⟩ := fs_serves (fun r => flag r.1) Prod.snd (fun _ => by rw [Option.map_map]; rfl) carries fits
    tended listed
  cases ends_update.mp poked
  refine Served.told ⟨carries',fun d same => ?_,fun d same a => ?_⟩ (ofBool_flag done) run
  · cases same
    exact told
  · cases same
    rw [← data]

theorem flag_inj {a b : Bool} (same : flag a = flag b) : a = b := by
  revert same
  cases a <;> cases b <;> decide

theorem sought_served {a : Path} {flags : UInt8} {s : Mount} {found : Bool} (carries : m.fs.Carries f)
    (sought : Sought m.fs a flags s found) : s.Carries (Replies.serve Files.answer f (m.opens a flags)).1 ∧
      ∃ r,(Replies.serve Files.answer f (m.opens a flags)).2.getLast? = some r ∧ r.result = flag found := by
  obtain ⟨t,yes,looked,made⟩ := sought
  have first : (m.fs.image.isftype a.bytes ftypeFile).2 = (f.image.isftype a.bytes ftypeFile).2 := by rw [carries.image]
  obtain ⟨carries',told,_⟩ := deed_serves flag (fun _ => []) (d := .plain (.isftype a ftypeFile)) (fun _ => rfl) carries trivial
    trivial looked
  have same : yes = (f.image.isftype a.bytes ftypeFile).2 := flag_inj told
  unfold Machine.opens
  rw [first,← same]
  by_cases missing : yes = false ∧ flags ≥ 4
  · rw [if_pos missing] at made ⊢
    obtain ⟨carries'',told,_⟩ := deed_serves flag (fun _ => []) (d := .plain (.create ftypeFile a)) (fun _ => rfl) carries' trivial
      trivial made
    exact ⟨carries'',_,rfl,told.symm⟩
  · rw [if_neg missing] at made ⊢
    obtain ⟨rfl,rfl⟩ := made
    exact ⟨carries',_,rfl,told.symm⟩

-- What the descriptor that OPEN gives is of.
def Grants (m m' : Machine) : Prop :=
  ∃ o,m'.object (toInt (m'.ctx.gpr 0)) = some o ∧ o.type = .file ∧ o.path = m.apath (m.ctx.gpr 0) ∧ o.cursor = 0 ∧
    o.mode = fmodeFromFlags (m.ctx.gpr 1).toUInt8

theorem fd_small (k : Fin fdtSize) : toInt (UInt32.ofNat k) = k.val ∧ UInt32.ofNat k ≠ UInt32.ofInt (-1) := by
  revert k
  decide

theorem svcOpen_told (carries : m.fs.Carries f) (run : svcOpen.Ends m () m') :
    m'.fs.Carries (Replies.serve Files.answer f (m.svcDeeds 0x0B)).1 ∧ (m'.ctx.gpr 0 ≠ UInt32.ofInt (-1) → Grants m m' ∧
      ∃ r,(Replies.serve Files.answer f (m.svcDeeds 0x0B)).2.getLast? = some r ∧ r.result = 1) := by
  have deeds : m.svcDeeds 0x0B = if m.Fetches (m.ctx.gpr 1).toUInt8 then
      m.opens (m.apath (m.ctx.gpr 0)) (m.ctx.gpr 1).toUInt8 else [] := rfl
  rw [deeds]
  cases (svcOpen_ends run).1 with
  | denied unfree told volume =>
      rw [if_neg unfree,volume]
      exact ⟨carries,fun given => absurd told given⟩
  | failed fetches told sought volume =>
      rw [if_pos fetches,volume]
      exact ⟨(sought_served carries sought).1,fun given => absurd told given⟩
  | @given s k i p e fetches told sought volume free pcb current _ enters =>
      obtain ⟨next,last⟩ := sought_served carries sought
      have used : (m'.pcb m'.current).fdt k = (i : Nat) := by
        rw [pcb,current,withFd_self]
        exact put_self ..
      have entry : m'.openft i = some p := by
        rw [enters.table]
        exact put_self ..
      have object : m'.heap.fdtes p = some (openedFile e (m.apath (m.ctx.gpr 0)) (m.ctx.gpr 1).toUInt8) := by
        rw [enters.object]
        exact if_pos rfl
      rw [if_pos fetches,volume]
      refine ⟨next,fun _ => ⟨⟨openedFile e (m.apath (m.ctx.gpr 0)) (m.ctx.gpr 1).toUInt8,?_,rfl,rfl,rfl,rfl⟩,last⟩⟩
      rw [told,(fd_small k).1]
      exact object_some k i used entry object

-- What a call tells: the files have become what its deeds make of them, and the caller gets
-- their answer.
structure Tells (m m' : Machine) (f : Files) (e : Event) : Prop where
  carries : m'.fs.Carries (Replies.serve Files.answer f (m.deeds e)).1
  answers : (∀ id,e = .svc id → id.toNat ≠ 0x0B) → Answers m m' f (m.deeds e)
  opens : (∃ id,e = .svc id ∧ id.toNat = 0x0B) → m'.ctx.gpr 0 ≠ UInt32.ofInt (-1) → Grants m m' ∧
    ∃ r,(Replies.serve Files.answer f (m.deeds e)).2.getLast? = some r ∧ r.result = 1

theorem Tells.nothing {id : UInt32} (none : m.svcDeeds id.toNat = []) (carries : m.fs.Carries f) (same : m'.fs = m.fs)
    (other : id.toNat ≠ 0x0B) : Tells m m' f (.svc id) := by
  refine ⟨?_,fun _ d wrong => ?_,fun ⟨id',is,opens⟩ => ?_⟩
  · show m'.fs.Carries (Replies.serve Files.answer f (m.svcDeeds id.toNat)).1
    rw [none,same]
    exact carries
  · cases none.symm.trans wrong
  · cases is
    exact absurd opens other

theorem Tells.told {id : UInt32} (other : id.toNat ≠ 0x0B)
    (told : m'.fs.Carries (Replies.serve Files.answer f (m.svcDeeds id.toNat)).1 ∧ Answers m m' f (m.svcDeeds id.toNat)) :
    Tells m m' f (.svc id) := by
  refine ⟨told.1,fun _ => told.2,fun ⟨id',is,opens⟩ => ?_⟩
  cases is
  exact absurd opens other

theorem svc_dry {id : UInt32} (other : id.toNat ∉ [0x01,0x02,0x0B,0x10,0x11,0x12,0x13,0x14,0x15,0x16]) : Dry (svc id) := by
  by_cases descriptors : id.toNat ∈ [0x03,0x04,0x0C,0x0D,0x0E]
  · unfold svc
    generalize id.toNat = n at descriptors
    split
    case h_4 => exact doFork_dry
    case h_5 => exact keeps_bind doExit_dry fun _ => @next_apart _ FileSide.fs _
    case h_13 => exact keeps_bind keeps_read fun _ => keeps_bind (doClose_dry _) fun _ => setGpr_dry ..
    case h_14 =>
      refine keeps_bind keeps_read fun _ => keeps_bind keeps_read fun _ => keeps_ite (fun _ => setGpr_dry ..) fun _ => ?_
      refine keeps_bind (fdtAt_dry _) fun _ => keeps_bind (fdtAt_dry _) fun _ => keeps_bind (slot_dry ..) fun _ => ?_
      refine keeps_bind (setFdt_dry ..) fun _ => keeps_bind (slot_dry ..) fun _ => keeps_bind (setFdt_dry ..) fun _ => ?_
      exact setGpr_dry ..
    case h_15 => exact keeps_bind keeps_read fun _ => keeps_bind (doPipe_dry _) fun _ => keeps_pure
    case h_25 =>
      simp only [List.mem_cons,List.not_mem_nil,or_false,imp_false] at *
      omega
    all_goals exact absurd descriptors (by decide)
  · refine @svc_apart _ FileSide.fs id ?_
    simp only [List.mem_cons,List.not_mem_nil,or_false] at *
    omega

theorem svcDeeds_none {n : Nat} (other : n ∉ [0x01,0x02,0x0B,0x10,0x11,0x12,0x13,0x14,0x15,0x16]) : m.svcDeeds n = [] := by
  unfold Machine.svcDeeds
  split
  case h_11 => rfl
  all_goals exact absurd (by decide) other

theorem svc_told {id : UInt32} (file : id.toNat ∈ [0x01,0x02,0x10,0x11,0x12,0x13,0x14,0x15,0x16]) (carries : m.fs.Carries f)
    (deedsFit : m.DeedsFit (m.svcDeeds id.toNat)) (run : (svc id).Ends m () m') :
    m'.fs.Carries (Replies.serve Files.answer f (m.svcDeeds id.toNat)).1 ∧ Answers m m' f (m.svcDeeds id.toNat) := by
  unfold svc at run
  generalize id.toNat = n at *
  split at run
  case h_2 =>
    unfold svcWrite at run
    simp only [ends_bind,gpr_ends] at run
    obtain ⟨_,_,⟨rfl,rfl⟩,_,_,⟨rfl,rfl⟩,_,_,⟨rfl,rfl⟩,n,t,wrote,run⟩ := run
    exact (doWrite_served carries deedsFit wrote _).told rfl run
  case h_3 =>
    unfold svcRead at run
    simp only [ends_bind,gpr_ends] at run
    obtain ⟨_,_,⟨rfl,rfl⟩,_,_,⟨rfl,rfl⟩,_,_,⟨rfl,rfl⟩,n,t,seen,run⟩ := run
    exact (doRead_served carries deedsFit seen).told rfl run
  case h_17 => exact path_told (d := fun p => .plain (.isftype p ftypeFile)) (fun _ _ => rfl) carries deedsFit run
  case h_18 => exact path_told (d := fun p => .plain (.isftype p ftypeDir)) (fun _ _ => rfl) carries deedsFit run
  case h_19 => exact svcCd_told carries deedsFit run
  case h_20 => exact svcLs_told carries deedsFit run
  case h_21 => exact path_told (d := fun p => .rm p) (fun _ _ => rfl) carries deedsFit run
  case h_22 => exact path_told (d := fun p => .plain (.create ftypeFile p)) (fun _ _ => rfl) carries deedsFit run
  case h_23 => exact path_told (d := fun p => .plain (.create ftypeDir p)) (fun _ _ => rfl) carries deedsFit run
  case h_25 =>
    simp only [List.mem_cons,List.not_mem_nil,or_false,imp_false] at *
    omega
  all_goals exact absurd file (by decide)

theorem handle_tells {e : Event} (carries : m.fs.Carries f) (deedsFit : m.DeedsFit (m.deeds e)) (run : (handle e).Ends m () m') :
    Tells m m' f e := by
  cases e with
  | irq id =>
      refine ⟨?_,fun _ d wrong => (by cases wrong),fun ⟨_,wrong,_⟩ => (by cases wrong)⟩
      have dry : Dry (irq id) := @irq_apart _ FileSide.fs id
      show m'.fs.Carries f
      rw [dry.same run]
      exact carries
  | svc id =>
      change m.DeedsFit (m.svcDeeds id.toNat) at deedsFit
      by_cases other : id.toNat ∉ [0x01,0x02,0x0B,0x10,0x11,0x12,0x13,0x14,0x15,0x16]
      · exact .nothing (svcDeeds_none other) carries ((svc_dry other).same run) fun opens => other (by rw [opens]; decide)
      by_cases opens : id.toNat = 0x0B
      · change (svc id).Ends m () m' at run
        have deeds : m.deeds (.svc id) = m.svcDeeds 0x0B := congrArg m.svcDeeds opens
        unfold svc at run
        rw [opens] at run
        obtain ⟨next,given⟩ := svcOpen_told carries run
        rw [← deeds] at next given
        exact ⟨next,fun another => absurd opens (another id rfl),fun _ => given⟩
      · simp only [List.mem_cons,List.not_mem_nil,or_false,not_not] at other
        exact .told opens (svc_told (by simp only [List.mem_cons,List.not_mem_nil,or_false]; omega) carries deedsFit run)

end Calls
end ArchiveOs.Kernel
