import ArchiveOs.Cursors

-- Cursors in whole runs, and what is asked of the callers so that fs2_write begins inside of
-- its file every time.
namespace ArchiveOs.Kernel
open Fs2 Fs2.Mount
open References
open Prog

def FileSide.objects (s : FileSide) : (Fin openSize → Option UInt32) × (UInt32 → Option Fdte) := (s.openft,s.fdtes)

-- The file table and its objects stay.
abbrev Fixed {α : Type} (p : Sys α) : Prop := KeepsFileSide FileSide.objects p

section Moves
variable {m m' : Machine} {f : Files}

theorem Fixed.recounts {α : Type} {p : Sys α} {a : α} (fixed : Fixed p) (run : p.Ends m a m') :
    Descs.Recounts m.descs m'.descs := by
  obtain ⟨openft,fdtes⟩ := Prod.mk.inj (fixed.same run)
  exact .of_eq openft fdtes

theorem setPipe_fixed (i : Fin pcbSize) (p : Option Pipe) : Fixed (setPipe i p) := keeps_update fun _ => rfl

theorem setFdt_fixed (fd : Fin fdtSize) (i : Int) : Fixed (setFdt fd i) :=
  keeps_bind keeps_read fun _ => keeps_update fun _ => rfl

theorem svcFdSwap_fixed : Fixed svcFdSwap := by
  refine keeps_bind keeps_read fun _ => keeps_bind keeps_read fun _ => keeps_ite (fun _ => setGpr_apart ..) fun _ => ?_
  refine keeps_bind (fdtAt_apart _) fun _ => keeps_bind (fdtAt_apart _) fun _ => keeps_bind (slot_apart ..) fun _ => ?_
  refine keeps_bind (setFdt_fixed ..) fun _ => keeps_bind (slot_apart ..) fun _ => ?_
  exact keeps_bind (setFdt_fixed ..) fun _ => setGpr_apart ..

theorem cursor_moves {p : UInt32} {e moved : Fdte} {n r : Int} (entry : ∃ k,m.openft k = some p) (object : m.heap.fdtes p = some e)
    (file : e.type = .file) (same : moved = {e with cursor := e.cursor + UInt32.ofInt n}) (run : Ends (do
      if n ≥ 0 then setFdte p (some moved) else pure ()
      pure n) m r m') : m.descs.Moves m'.descs p e r := by
  subst same
  rcases ends_ite.mp run with ⟨pos,run⟩ | ⟨neg,run⟩
  · obtain ⟨_,_,set,run⟩ := ends_bind.mp run
    cases ends_update.mp set
    obtain ⟨rfl,rfl⟩ := ends_pure.mp run
    refine ⟨entry,object,file,rfl,?_⟩
    rw [if_pos pos]
    rfl
  · obtain ⟨rfl,rfl⟩ := ends_pure.mp run
    refine ⟨entry,object,file,rfl,?_⟩
    rw [if_neg neg]
    funext q
    by_cases here : q = p
    · rw [if_pos here,here]
      exact object
    · rw [if_neg here]

theorem doWrite_moves {fd r : Int} {src nchars : UInt32} (run : (doWrite fd src nchars).Ends m r m') :
    m.writes fd src nchars = [] ∧ Descs.Recounts m.descs m'.descs ∨ ∃ p e,m.descs.Moves m'.descs p e r ∧
      (e.mode = .w ∨ e.mode = .rw) ∧
      m.writes fd src nchars = [.plain (.write e.path (fun k => m.ram (src + UInt32.ofNat k)) nchars e.cursor)] := by
  rw [doWrite_object] at run
  unfold Machine.writes
  rcases object_ends run with ⟨none,rfl⟩ | ⟨p,e,some,entry,object,run⟩
  · rw [none]
    exact .inl ⟨rfl,.refl _⟩
  rw [some]
  dsimp only
  rcases ends_ite.mp run with ⟨may,run⟩ | ⟨denied,run⟩
  · by_cases file : e.type = .file
    · rw [if_pos ⟨file,may⟩]
      obtain ⟨ram,_,now,run⟩ := ends_bind.mp run
      obtain ⟨rfl,rfl⟩ := ends_read.mp now
      rw [file] at run
      obtain ⟨n,t,wrote,run⟩ := ends_bind.mp run
      obtain ⟨s,_,rfl⟩ := ends_lift.mp wrote
      exact .inr ⟨p,e,cursor_moves (m := {m with fs := s}) entry object file (by rw [file]) run,may,rfl⟩
    · rw [if_neg fun both => file both.1]
      exact .inl ⟨rfl,Fixed.recounts (writeEntry_apart setPipe_fixed file) run⟩
  · rw [if_neg fun both => denied both.2]
    obtain ⟨_,rfl⟩ := ends_pure.mp run
    exact .inl ⟨rfl,.refl _⟩

theorem doRead_moves {fd r : Int} {out nchars : UInt32} (run : (doRead fd out nchars).Ends m r m') :
    m.reads fd nchars = [] ∧ Descs.Recounts m.descs m'.descs ∨ ∃ p e,m.descs.Moves m'.descs p e r ∧
      m.reads fd nchars = [.plain (.read e.path nchars e.cursor)] := by
  rw [doRead_object] at run
  unfold Machine.reads
  rcases object_ends run with ⟨none,rfl⟩ | ⟨p,e,some,entry,object,run⟩
  · rw [none]
    exact .inl ⟨rfl,.refl _⟩
  rw [some]
  dsimp only
  rcases ends_ite.mp run with ⟨may,run⟩ | ⟨denied,run⟩
  · by_cases file : e.type = .file
    · rw [if_pos ⟨file,may⟩]
      unfold readEntry at run
      rw [file] at run
      obtain ⟨⟨n,bytes⟩,t,seen,run⟩ := ends_bind.mp run
      obtain ⟨s,_,rfl⟩ := ends_lift.mp seen
      obtain ⟨_,_,poked,run⟩ := ends_bind.mp run
      cases ends_update.mp poked
      exact .inr ⟨p,e,cursor_moves (m := {m with fs := s,ram := _}) entry object file (by rw [file]) run,rfl⟩
    · rw [if_neg fun both => file both.1]
      exact .inl ⟨rfl,Fixed.recounts (readEntry_apart setPipe_fixed file) run⟩
  · rw [if_neg fun both => denied both.2]
    obtain ⟨_,rfl⟩ := ends_pure.mp run
    exact .inl ⟨rfl,.refl _⟩

end Moves

section Calls
variable {m m' : Machine} {f : Files}

theorem svcWrite_cursors (cursors : Cursors f m.descs) (carries : m.fs.Carries f) (deedsFit : m.DeedsFit (m.svcDeeds 0x01))
    (run : svcWrite.Ends m () m') : Cursors (Replies.serve Files.answer f (m.svcDeeds 0x01)).1 m'.descs := by
  unfold svcWrite at run
  simp only [ends_bind,gpr_ends] at run
  obtain ⟨_,_,⟨rfl,rfl⟩,_,_,⟨rfl,rfl⟩,_,_,⟨rfl,rfl⟩,n,t,wrote,run⟩ := run
  rw [(setGpr_still ..).same run]
  have served := doWrite_served carries deedsFit wrote 0
  show Cursors (Replies.serve Files.answer f (m.writes (toInt (m.ctx.gpr 0)) (m.ctx.gpr 1) (m.ctx.gpr 2))).1 t.descs
  rcases doWrite_moves wrote with ⟨none,recounts⟩ | ⟨p,e,moves,may,deeds⟩
  · rw [none]
    exact cursors.keep (.refl _) recounts.settles
  · rw [deeds]
    rw [served.result _ deeds] at moves
    exact cursors.write carries.good _ moves may

theorem svcRead_cursors (cursors : Cursors f m.descs) (carries : m.fs.Carries f) (deedsFit : m.DeedsFit (m.svcDeeds 0x02))
    (run : svcRead.Ends m () m') : Cursors (Replies.serve Files.answer f (m.svcDeeds 0x02)).1 m'.descs := by
  unfold svcRead at run
  simp only [ends_bind,gpr_ends] at run
  obtain ⟨_,_,⟨rfl,rfl⟩,_,_,⟨rfl,rfl⟩,_,_,⟨rfl,rfl⟩,n,t,seen,run⟩ := run
  rw [(setGpr_still ..).same run]
  have served := doRead_served carries deedsFit seen
  show Cursors (Replies.serve Files.answer f (m.reads (toInt (m.ctx.gpr 0)) (m.ctx.gpr 2))).1 t.descs
  rcases doRead_moves seen with ⟨none,recounts⟩ | ⟨p,e,moves,deeds⟩
  · rw [none]
    exact cursors.keep (.refl _) recounts.settles
  · rw [deeds]
    rw [served.result _ deeds] at moves
    exact cursors.read moves

-- Nobody has the file that a path leads to open for writing.
def Unwritten (f : Files) (d : Descs) (path : Path) : Prop :=
  ∃ i q,f.image.resolve path.bytes = .ok (i,q) ∧ (f.image.node i).ftype = ftypeFile ∧
    ∀ p e q',d.Writer p e → f.image.resolve e.path.bytes ≠ .ok (i,q')

theorem opens_spares (good : f.image.Good) (path : Path) (flags : UInt8) :
    f.image.Spares (Replies.serve Files.answer f (m.opens path flags)).1.image := by
  unfold Machine.opens
  split
  · exact Image.create_spares good ftypeFile path.bytes
  · exact .refl _

theorem svcOpen_cursors (cursors : Cursors f m.descs) (good : f.image.Good)
    (copies : m.Fetches (m.ctx.gpr 1).toUInt8 → m.Copies (m.ctx.gpr 0) (m.ctx.gpr 1).toUInt8)
    (alone : m.Fetches (m.ctx.gpr 1).toUInt8 →
      fmodeFromFlags (m.ctx.gpr 1).toUInt8 = .w ∨ fmodeFromFlags (m.ctx.gpr 1).toUInt8 = .rw →
      Unwritten (Replies.serve Files.answer f (m.opens (m.apath (m.ctx.gpr 0)) (m.ctx.gpr 1).toUInt8)).1 m.descs
        (m.apath (m.ctx.gpr 0)))
    (run : svcOpen.Ends m () m') : Cursors (Replies.serve Files.answer f (m.svcDeeds 0x0B)).1 m'.descs := by
  have deeds : m.svcDeeds 0x0B = if m.Fetches (m.ctx.gpr 1).toUInt8 then
      m.opens (m.apath (m.ctx.gpr 0)) (m.ctx.gpr 1).toUInt8 else [] := rfl
  rw [deeds]
  cases (svcOpen_ends run).1 with
  | denied unfree _ _ _ openft objects =>
      rw [if_neg unfree]
      exact cursors.keep (.refl _) (Descs.Recounts.of_eq openft objects).settles
  | failed fetches _ sought _ poor =>
      obtain ⟨openable,room⟩ := copies fetches
      exact absurd (poor (openable_sought openable sought)) room
  | @given s k i p e fetches _ _ _ _ _ _ _ enters =>
      rw [if_pos fetches]
      have start : (openedFile e (m.apath (m.ctx.gpr 0)) (m.ctx.gpr 1).toUInt8).cursor = 0 := rfl
      refine cursors.begin (p := p) (opens_spares good _ _) start (fun o e' writer => ?_) fun writer => alone fetches writer.may
      obtain ⟨⟨l,entry⟩,object,file,may⟩ := writer
      change m'.openft l = some o at entry
      change m'.heap.fdtes o = some e' at object
      rw [enters.table] at entry
      rw [enters.object] at object
      dsimp only at object
      by_cases here : o = p
      · rw [if_pos here] at object
        exact .inr ⟨here,(Option.some.inj object).symm⟩
      · rw [if_neg here] at object
        have away : l ≠ i := by
          rintro rfl
          rw [put_self] at entry
          exact here (Option.some.inj entry).symm
        rw [put_other _ _ away] at entry
        exact .inl ⟨here,⟨l,entry⟩,object,file,may⟩

end Calls

-- What is asked of a caller, so that no cursor of a file that is open for writing ever passes
-- the end of it: a write is not longer than a region, an open for writing leads to a file that
-- nobody has open for writing, and a remove takes no file away that somebody has.
structure Machine.KeepsCursors (m : Machine) (f : Files) (id : UInt32) : Prop extends m.ArgsValid id where
  few : id.toNat = 0x01 → (m.ctx.gpr 2).toNat ≤ maxWrite
  alone : id.toNat = 0x0B → m.Fetches (m.ctx.gpr 1).toUInt8 →
    fmodeFromFlags (m.ctx.gpr 1).toUInt8 = .w ∨ fmodeFromFlags (m.ctx.gpr 1).toUInt8 = .rw →
    Unwritten (Replies.serve Files.answer f (m.opens (m.apath (m.ctx.gpr 0)) (m.ctx.gpr 1).toUInt8)).1 m.descs
      (m.apath (m.ctx.gpr 0))
  lists : id.toNat = 0x13 → ∀ i q,f.image.resolve (m.apath (m.ctx.gpr 0)).bytes = .ok (i,q) → (f.image.node i).ftype = ftypeDir
  clear : id.toNat = 0x14 → m.fs.Clear (m.apath (m.ctx.gpr 0)).bytes
  spared : id.toNat = 0x14 → m.descs.Spared f.image (f.image.rm (m.apath (m.ctx.gpr 0)).bytes).1

def KeepsCursors (f : Files) (m : Machine) : Event → Prop
  | .irq _ => True
  | .svc id => m.KeepsCursors f id

abbrev KeepingCursors : Files → Machine → Prop := Ran KeepsCursors

section Steps
variable {m m' : Machine} {f : Files} {e : Event}

theorem object_behind {fd : Int} {e : Fdte} (object : m.object fd = some e) : ∃ p k,m.openft k = some p ∧ m.heap.fdtes p = some e := by
  unfold Machine.object at object
  split at object
  · split at object
    · obtain ⟨p,leads,there⟩ := Option.bind_eq_some_iff.mp object
      obtain ⟨k,_,entry⟩ := leads_some.mp leads
      exact ⟨p,k,entry,there⟩
    · cases object
  · cases object

theorem writes_deed {fd : Int} {src nchars : UInt32} {d : Deed} (deed : d ∈ m.writes fd src nchars) :
    ∃ p e,m.descs.Writer p e ∧ d = .plain (.write e.path (fun k => m.ram (src + UInt32.ofNat k)) nchars e.cursor) := by
  unfold Machine.writes at deed
  split at deed
  · exact absurd deed List.not_mem_nil
  · rename_i e object
    split at deed
    · rename_i both
      obtain ⟨p,k,entry,there⟩ := object_behind object
      exact ⟨p,e,⟨⟨k,entry⟩,there,both.1,both.2⟩,List.mem_singleton.mp deed⟩
    · exact absurd deed List.not_mem_nil

theorem Cursors.deedsFit (cursors : Cursors f m.descs) (carries : m.fs.Carries f) {fd : Int} {src nchars : UInt32}
    (few : nchars.toNat ≤ maxWrite) : m.DeedsFit (m.writes fd src nchars) := by
  intro d deed
  obtain ⟨p,e,writer,rfl⟩ := writes_deed deed
  refine ⟨trivial,few,fun i q found _ => ?_⟩
  rw [carries.image] at found ⊢
  obtain ⟨j,q',here,_,inside⟩ := cursors.inside p e writer
  obtain ⟨rfl,_⟩ := Prod.mk.inj (Except.ok.inj (here.symm.trans found))
  exact inside

theorem deedsFit_one {d : Deed} (fits : d.Fits m.fs) (tended : m.fs.Tended d) : m.DeedsFit [d] := by
  intro d' member
  cases List.mem_singleton.mp member
  exact ⟨fits,tended⟩

theorem Machine.KeepsCursors.callValid {id : UInt32} (keepsCursors : m.KeepsCursors f id) (cursors : Cursors f m.descs)
    (carries : m.fs.Carries f) : m.CallValid id := by
  refine ⟨keepsCursors.toArgsValid,?_⟩
  have few := keepsCursors.few
  have lists := keepsCursors.lists
  have clear := keepsCursors.clear
  clear keepsCursors
  generalize id.toNat = n at *
  unfold Machine.svcDeeds
  split
  case h_1 => exact cursors.deedsFit carries (few rfl)
  case h_2 =>
    intro d deed
    unfold Machine.reads at deed
    split at deed
    · exact absurd deed List.not_mem_nil
    · split at deed
      · rw [List.mem_singleton.mp deed]
        exact ⟨trivial,trivial⟩
      · exact absurd deed List.not_mem_nil
  case h_3 =>
    intro d deed
    split at deed
    · unfold Machine.opens at deed
      rcases List.mem_cons.mp deed with rfl | deed
      · exact ⟨trivial,trivial⟩
      · split at deed
        · rw [List.mem_singleton.mp deed]
          exact ⟨trivial,trivial⟩
        · exact absurd deed List.not_mem_nil
    · exact absurd deed List.not_mem_nil
  case h_7 =>
    refine deedsFit_one (fun i q found => ?_) trivial
    rw [carries.image] at found ⊢
    exact lists rfl i q found
  case h_8 => exact deedsFit_one trivial (clear rfl)
  case h_11 => exact fun _ none => absurd none List.not_mem_nil
  all_goals exact deedsFit_one trivial trivial

theorem svc_cursors {id : UInt32} (cursors : Cursors f m.descs) (intact : Intact f m) (keepsCursors : m.KeepsCursors f id)
    (run : (svc id).Ends m () m') : Cursors (Replies.serve Files.answer f (m.svcDeeds id.toNat)).1 m'.descs := by
  obtain ⟨carries,counted,runner,_,_⟩ := intact
  have deedsFit := (keepsCursors.callValid cursors carries).deedsFit
  have keepsCounts : KeepsCounts m (.svc id) := keepsCursors.toArgsValid.keepsCounts
  have asked : SvcAsked m m' id.toNat := (handle_did (e := .svc id) run).asked (keepsCounts.steady.orderly runner)
  have lives : m.descs.live m.current = true := runner.live
  have alone := keepsCursors.alone
  have spared := keepsCursors.spared
  clear keepsCursors
  obtain ⟨steady,shares,_,copies,more⟩ := keepsCounts
  by_cases aside : id.toNat ∉ [0x01,0x02,0x03,0x04,0x0B,0x0C,0x0D,0x0E,0x10,0x11,0x12,0x13,0x14,0x15,0x16]
  · have fixed : Fixed (svc id) := svc_apart aside
    rw [svcDeeds_none fun file => aside (by simp only [List.mem_cons,List.not_mem_nil,or_false] at *; omega)]
    exact cursors.keep (.refl _) (fixed.recounts run).settles
  have alloc : id.toNat ∉ [0x03,0x04,0x06] → m'.pcballoc = m.pcballoc := fun other => asked_alloc other asked
  have memory := steady.1
  have still : ∀ {g : Files},m'.descs = m.descs → m.descs.Spared f.image g.image → Cursors g m'.descs := by
    intro g same spared
    rw [same]
    exact cursors.keep spared (Descs.Recounts.refl _).settles
  unfold svc at run
  generalize id.toNat = n at *
  split at run
  case h_2 => exact svcWrite_cursors cursors carries deedsFit run
  case h_3 => exact svcRead_cursors cursors carries deedsFit run
  case h_4 => exact cursors.keep (.refl _) (doFork_counted counted lives (memory rfl) run).2.settles
  case h_5 => exact cursors.keep (.refl _) (svcExit_counted counted lives (shares rfl) asked.2 run).2.settles
  case h_12 => exact svcOpen_cursors cursors carries.good (copies rfl) (alone rfl) run
  case h_13 => exact cursors.keep (.refl _) (svcClose_counted counted lives (more rfl) run).2.settles
  case h_14 => exact cursors.keep (.refl _) (svcFdSwap_fixed.recounts run).settles
  case h_15 => exact cursors.keep (.refl _) (svcPipe_counted counted lives (alloc (by decide)) run).2
  case h_17 => exact still (path_still.same run) (.refl _)
  case h_18 => exact still (path_still.same run) (.refl _)
  case h_19 => exact still (svcCd_still.same run) (.refl _)
  case h_20 => exact still (svcLs_still.same run) (.refl _)
  case h_21 => exact still (path_still.same run) (spared rfl)
  case h_22 => exact still (path_still.same run) (.of_spares (Image.create_spares carries.good _ _))
  case h_23 => exact still (path_still.same run) (.of_spares (Image.create_spares carries.good _ _))
  case h_25 =>
    simp only [List.mem_cons,List.not_mem_nil,or_false,imp_false] at *
    omega
  all_goals exact absurd (by decide) aside

theorem handle_cursors (cursors : Cursors f m.descs) (intact : Intact f m) (keepsCursors : KeepsCursors f m e)
    (run : (handle e).Ends m () m') :
    Cursors (Replies.serve Files.answer f (m.deeds e)).1 m'.descs := by
  cases e with
  | svc id => exact svc_cursors cursors intact keepsCursors run
  | irq id =>
      have fixed : Fixed (irq id) := irq_apart id
      exact cursors.keep (.refl _) (fixed.recounts run).settles

theorem KeepsCursors.eventValid (keepsCursors : KeepsCursors f m e) (cursors : Cursors f m.descs) (carries : m.fs.Carries f) :
    EventValid m e := by
  cases e with
  | svc id => exact Machine.KeepsCursors.callValid keepsCursors cursors carries
  | irq id => trivial

theorem Descs.Uarts.cursors {d : Descs} (uarts : d.Uarts) : Cursors f d := by
  have none : ∀ p e,¬ d.Writer p e := by
    rintro p e ⟨⟨k,entry⟩,object,file,_⟩
    obtain ⟨e',there,uart⟩ := uarts.object k p entry
    cases object.symm.trans there
    cases file.symm.trans uart
  exact ⟨fun p e writer => absurd writer (none p e),fun p e _ _ _ _ _ writer => absurd writer (none p e)⟩

theorem KeepingCursors.kept (keepingCursors : KeepingCursors f m) : Intact f m ∧ Cursors f m.descs := by
  refine (@Ran.keep _ _ _ (fun f m => Intact f m ∧ Cursors f m.descs) (fun both => both.1.carries) ?_
    (fun ctx ram both => ⟨both.1.enter ctx ram,both.2⟩) ?_ keepingCursors).1
  · intro f s zero m entry carries base z disk run
    exact ⟨boot_intact carries base z disk run,(boot_uarts z run).1.cursors⟩
  · rintro f m m' e ⟨intact,cursors⟩ keepsCursors run
    exact ⟨intact.step (keepsCursors.eventValid cursors intact.carries) run,handle_cursors cursors intact keepsCursors run⟩

-- In every run in which the callers mind, the kernel works, every file has as many blocks as
-- its end asks for, and whatever WRITE makes of fs2_write begins inside of its file.
theorem writes_begin_inside (keepingCursors : KeepingCursors f m) : Working f m ∧ f.image.Spacious ∧
    ∀ (fd : Int) (src nchars : UInt32) (path : Path) (data : Nat → UInt8) (nbytes cursor : UInt32),
      Deed.plain (.write path data nbytes cursor) ∈ m.writes fd src nchars →
        ∃ i q,f.image.resolve path.bytes = .ok (i,q) ∧ (f.image.node i).ftype = ftypeFile ∧ cursor.toNat ≤ (f.image.node i).eof := by
  obtain ⟨intact,cursors⟩ := KeepingCursors.kept keepingCursors
  refine ⟨?_,intact.carries.spacious,fun fd src nchars path data nbytes cursor deed => ?_⟩
  · clear intact cursors
    induction keepingCursors with
    | boot carries base z disk run => exact .boot carries base z disk run
    | @call f m m' e ctx ram before keepsCursors run ih =>
        obtain ⟨intact,cursors⟩ := KeepingCursors.kept before
        exact .call ih (keepsCursors.eventValid (m := m.enter ctx ram) cursors intact.carries) run
    | reset _ z disk run ih => exact .reset ih z disk run
  · obtain ⟨p,e,writer,same⟩ := writes_deed deed
    cases same
    exact cursors.inside p e writer

end Steps

-- The first process of a volume with a file "a" opens it for reading and writing.
theorem opener_named : (Machine.opener.asksA 3).apath 0x70001000 = fileA := by
  have named : ((Machine.opener.asksA 3).apath 0x70001000).bytes = fileA.bytes := by decide +kernel
  generalize (Machine.opener.asksA 3).apath 0x70001000 = a at named
  cases a
  cases named
  rfl

theorem opener_copies : (Machine.opener.asksA 3).Copies 0x70001000 3 := by
  refine ⟨?_,by decide +kernel⟩
  obtain ⟨t,r,looked,here⟩ := opener_found
  rw [opener_named]
  exact ⟨t,r,looked,here.imp_right fun wrong => absurd wrong.1 (by decide)⟩

theorem opener_keepsCursors {f : Files} (carries : filed.Carries f) (opened : Machine.opener.fs.Carries f) :
    (Machine.opener.asksA 3).KeepsCursors f 0x0B where
  keepsCounts := ⟨⟨fun wrong => absurd wrong (by decide),fun wrong => absurd wrong (by decide),fun wrong => absurd wrong (by decide),
    fun wrong => absurd wrong (by decide)⟩,fun wrong => absurd wrong (by decide),fun wrong => absurd wrong (by decide),
    fun _ _ => opener_copies,fun wrong => absurd wrong (by decide)⟩
  path path := ⟨asksA_short Machine.opener 3 (.svc 0x0B) path,.inr (.inr (.inr (.inl (by decide +kernel))))⟩
  fd wrong := absurd wrong (by decide)
  exit wrong := absurd wrong (by decide)
  kill wrong := absurd wrong (by decide)
  sem wrong := absurd wrong (by decide)
  memory wrong := absurd wrong (by decide)
  few wrong := absurd wrong (by decide)
  alone _ _ _ := by
    show Unwritten (Replies.serve Files.answer f ((Machine.opener.asksA 3).opens ((Machine.opener.asksA 3).apath 0x70001000) 3)).1 _
      ((Machine.opener.asksA 3).apath 0x70001000)
    rw [opener_named]
    have image : f.image = (Op.create ftypeFile fileA).apply (formatImage 100 3 4 1 2) := by
      rw [← carries.image]
      exact filed_valid.2.2.2
    have found : f.image.resolve fileA.bytes = .ok (1,some 0) ∧ (f.image.node 1).ftype = ftypeFile := by
      rw [image]
      decide +kernel
    obtain ⟨found',same⟩ := opens_spares (m := Machine.opener.asksA 3) opened.good fileA 3 fileA.bytes 1 (some 0) found.1 found.2
    refine ⟨1,some 0,found',by rw [same]; exact found.2,fun p e q' writer => ?_⟩
    obtain ⟨⟨k,entry⟩,object,file,_⟩ := writer
    obtain ⟨e',there,uart⟩ := (boot_uarts opener_boots.1 opener_boots.2).1.object k p entry
    cases object.symm.trans there
    cases file.symm.trans uart
  lists wrong := absurd wrong (by decide)
  clear wrong := absurd wrong (by decide)
  spared wrong := absurd wrong (by decide)

theorem opener_fetches : (Machine.opener.asksA 3).Fetches 3 := by decide +kernel

theorem writes_begin_inside_opener : ∃ (f : Files) (m : Machine),KeepingCursors f m ∧ (∃ p e,m.descs.Writer p e) ∧
    Working f m ∧ f.image.Spacious := by
  obtain ⟨f,carries,base⟩ := filed_carries
  have booted : KeepingCursors f Machine.opener := .boot carries base opener_boots.1 rfl opener_boots.2
  obtain ⟨intact,cursors⟩ := KeepingCursors.kept booted
  have keepsCursors : KeepsCursors f (Machine.opener.asksA 3) (.svc 0x0B) := opener_keepsCursors carries intact.carries
  obtain ⟨_,m,run⟩ := handle_completes (intact.enter _ letterA) (keepsCursors.eventValid cursors intact.carries)
  have next : KeepingCursors _ m := .call booted keepsCursors run
  obtain ⟨working,spacious,_⟩ := writes_begin_inside next
  refine ⟨_,m,next,?_,working,spacious⟩
  cases (svcOpen_ends (m := Machine.opener.asksA 3) run).1 with
  | denied unfree => exact absurd opener_fetches unfree
  | failed _ _ sought _ poor => exact absurd (poor (openable_sought opener_copies.1 sought)) opener_copies.2
  | @given _ _ i p e _ _ _ _ _ _ _ _ enters =>
      refine ⟨p,_,⟨i,?_⟩,(congrFun enters.object p).trans (if_pos rfl),rfl,.inr (show fmodeFromFlags 3 = .rw by decide)⟩
      exact (congrFun enters.table i).trans (put_self ..)

end ArchiveOs.Kernel
