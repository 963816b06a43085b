import ArchiveOs.FileCalls

-- The kernel on a disk: what the files are after any calls, and after any resets.
namespace ArchiveOs.Kernel
open Fs2 Fs2.Mount
open Prog

-- A machine that runs on these files: started on a disk that carries them, after a call that
-- is admitted, or started anew on the disk that the last one has left.
inductive Ran (admits : Files → Machine → Event → Prop) : Files → Machine → Prop where
  | boot {f : Files} {s : Mount} {zero m : Machine} {entry : UInt32} : s.Carries f → f.blk0 = 0 → zero.Zero →
      zero.fs.disk = s.disk → (boot entry).Ends zero () m → Ran admits f m
  | call {f : Files} {m m' : Machine} {e : Event} {ctx : Ctx} {ram : UInt32 → UInt8} : Ran admits f m →
      admits f (m.enter ctx ram) e → (handle e).Ends (m.enter ctx ram) () m' →
      Ran admits (Replies.serve Files.answer f ((m.enter ctx ram).deeds e)).1 m'
  | reset {f : Files} {m zero m' : Machine} {entry : UInt32} : Ran admits f m → zero.Zero → zero.fs.disk = m.fs.disk →
      (Kernel.boot entry).Ends zero () m' → Ran admits f m'

-- The calls keep to what the volume can do.
abbrev Serving : Files → Machine → Prop := Ran fun _ m e => m.DeedsFit (m.deeds e)

section Runs
variable {m m' : Machine} {f : Files}

theorem openUart_dry (i : Fin openSize) (mode : Fmode) : Dry (openUart i mode) := by
  refine keeps_bind mallocFdte_dry fun p => keeps_bind (deref_dry _) fun ⟨_,_⟩ => ?_
  exact keeps_bind (setFdte_dry ..) fun _ => setOpenft_dry ..

theorem newUserProc_dry (entry : UInt32) (priority : Int) : Dry (newUserProc entry priority) := by
  refine keeps_bind (@newPcbEntry_apart _ FileSide.fs) fun i => ?_
  cases i with
  | none => exact keeps_pure
  | some i =>
      refine keeps_bind (@mallocStack_apart _ FileSide.fs) fun _ => ?_
      exact keeps_bind (keeps_update fun _ => rfl) fun _ => keeps_pure

theorem startInit_dry (entry : UInt32) : Dry (startInit entry) := by
  refine keeps_bind (openUart_dry ..) fun _ => keeps_bind (openUart_dry ..) fun _ => keeps_bind (openUart_dry ..) fun _ => ?_
  refine keeps_bind (newUserProc_dry ..) fun p => ?_
  cases p with
  | none => exact keeps_stop
  | some p => exact @contextSwitch_apart _ FileSide.fs ..

theorem boot_carries {s : Mount} {zero : Machine} {entry : UInt32} (carries : s.Carries f) (base : f.blk0 = 0)
    (disk : zero.fs.disk = s.disk) (run : (boot entry).Ends zero () m) : m.fs.Carries f := by
  obtain ⟨_,t,loaded,started⟩ := ends_bind.mp run
  have begins : ({zero.fs.vol with blk0 := 0,outcome := .success} : Volume).blk0 = s.vol.blk0 := base.symm.trans carries.blk0.symm
  obtain ⟨success,next⟩ := carries.remount begins
  rw [(startInit_dry entry).same started]
  obtain ⟨_,_,now,loaded⟩ := ends_bind.mp loaded
  obtain ⟨rfl,rfl⟩ := ends_read.mp now
  rw [disk] at loaded
  rcases ends_ite.mp loaded with ⟨_,dump⟩ | ⟨fails,_⟩
  · obtain ⟨u,dumped,looked⟩ := blockDump_looked next.valid next.works.sound
    obtain ⟨v,made,rfl⟩ := ends_lift.mp dump
    rw [dumped] at made
    cases made
    exact next.look looked.toSame looked.valid
  · exact absurd success fails

theorem serve_blk0 (f : Files) (ds : List Deed) : (Replies.serve Files.answer f ds).1.blk0 = f.blk0 := by
  induction ds generalizing f with
  | nil => rfl
  | cons d ds ih =>
      refine (ih (f.answer d).1).trans ?_
      cases d with
      | rm path => rfl
      | plain op => cases op <;> rfl

-- What holds after every start, is kept by the calls and says that the volume carries the
-- files, holds in every run.
theorem Ran.keep {admits : Files → Machine → Event → Prop} {inv : Files → Machine → Prop}
    (carries : ∀ {f m},inv f m → m.fs.Carries f)
    (boots : ∀ {f : Files} {s : Mount} {zero m : Machine} {entry : UInt32},s.Carries f → f.blk0 = 0 → zero.Zero →
      zero.fs.disk = s.disk → (Kernel.boot entry).Ends zero () m → inv f m)
    (enters : ∀ {f m} (ctx : Ctx) (ram : UInt32 → UInt8),inv f m → inv f (m.enter ctx ram))
    (calls : ∀ {f m m' e},inv f m → admits f m e → (handle e).Ends m () m' →
      inv (Replies.serve Files.answer f (m.deeds e)).1 m') (ran : Ran admits f m) : inv f m ∧ f.blk0 = 0 := by
  induction ran with
  | boot stands base z disk run => exact ⟨boots stands base z disk run,base⟩
  | call _ admitted run ih => exact ⟨calls (enters _ _ ih.1) admitted run,(serve_blk0 ..).trans ih.2⟩
  | reset _ z disk run ih => exact ⟨boots (carries ih.1) ih.2 z disk run,ih.2⟩

theorem Serving.carries (serving : Serving f m) : m.fs.Carries f :=
  (@Ran.keep _ _ _ (fun f m => m.fs.Carries f) id (fun stands base _ disk run => boot_carries stands base disk run)
    (fun _ _ stands => stands) (fun stands deedsFit run => (handle_tells stands deedsFit run).carries) serving).1

end Runs

theorem filed_carries : ∃ f : Files,filed.Carries f ∧ f.blk0 = 0 := by
  obtain ⟨s,run,success,_,_,blk0,_⟩ := @format_valid ⟨unloadedVolume,zeroDisk⟩ _ 3 _ _ _
    zeroDisk_works.sound passes_boot (by decide) (by decide) rfl
  have formatted : s.Formatted := .made zeroDisk_works rfl rfl rfl (by decide) run success
  obtain ⟨t,made,carries⟩ := formatted.carries.create ftypeFile fileA
  have exec : (Op.create ftypeFile fileA).exec s = some t := by
    obtain ⟨r,same,reply⟩ := Option.map_eq_some_iff.mp made
    show (create s ftypeFile fileA).map Prod.fst = some t
    rw [same,Option.map_some,congrArg Prod.fst reply]
  have here : filed = t := by
    unfold filed
    rw [run,Option.bind_some,exec,Option.getD_some]
  exact ⟨_,here ▸ carries,blk0⟩

theorem opener_boots : Machine.bare.Zero ∧ (boot initProgram).Ends Machine.bare () Machine.opener := by
  obtain ⟨loads,dumped,_⟩ := mounted_loaded
  have z := @zero_zero (few 6) (by decide)
  refine ⟨⟨z.pcballoc,z.currentRuntime,z.pid,z.status,z.fdt,z.wd,z.sem,z.pipes,z.openft,z.fdtes,z.areas,z.asked,z.room⟩,?_⟩
  refine ends_bind.mpr ⟨(),Machine.mounted,?_,ends_after (by decide +kernel)⟩
  exact ends_bind.mpr ⟨_,_,ends_read.mpr ⟨rfl,rfl⟩,ends_ite.mpr (.inl ⟨loads,ends_lift.mpr ⟨_,congrArg (Option.map _) dumped,rfl⟩⟩)⟩

end ArchiveOs.Kernel
