import ArchiveOs.Members
import ArchiveOs.Remounts
import ArchiveOs.Replies

-- What the file system is for: files and directories under paths, without caches, blocks
-- in memory or a device. All that its callers see of the code is what this says.
namespace ArchiveOs.Fs2
open Extents Layout Replies

-- The image, the bytes of the blocks of files, and where the volume begins.
structure Files where
  image : Image
  bytes : Nat → Block
  blk0 : UInt32

structure Reply where
  outcome : Outcome
  result : Int
  data : List UInt8

def flag (r : Bool) : Int := if r then 1 else 0

namespace Files

def data (f : Files) (i : Nat) : List UInt8 :=
  (bytesOf f.bytes (blocks (f.image.node i).regs)).take (f.image.node i).eof

def answer (f : Files) : Deed → Files × Reply
  | .plain (.create ftype path) =>
    let r := f.image.create ftype path.bytes
    ({f with image := r.1},⟨r.2,flag (r.2 = .success),[]⟩)
  | .plain (.write path src nbytes cursor) =>
    let r := f.image.write path.bytes nbytes cursor
    ({f with image := r.1,bytes := f.image.stores path.bytes src nbytes cursor f.bytes},⟨r.2.1,r.2.2,[]⟩)
  | .plain (.read path nbytes cursor) =>
    let r := f.image.read f.data path.bytes nbytes cursor
    (f,⟨r.1,r.2.1,r.2.2⟩)
  | .plain (.isftype path ftype) =>
    let r := f.image.isftype path.bytes ftype
    (f,⟨r.1,flag r.2,[]⟩)
  | .plain (.ls path nchars) =>
    let r := f.image.ls path.bytes nchars
    (f,⟨r.1,flag r.2.1,r.2.2⟩)
  | .rm path =>
    let r := f.image.rm path.bytes
    ({f with image := r.1},⟨r.2,flag (r.2 = .success),[]⟩)

end Files

-- The calls of the code with all that they give back, the volume's outcome included.
def Deed.call (s : Mount) : Deed → Option (Mount × Reply)
  | .plain (.create ftype path) => (Fs2.create s ftype path).map fun r => (r.1,⟨r.1.vol.outcome,flag r.2,[]⟩)
  | .plain (.write path src nbytes cursor) =>
    (Fs2.write s path src nbytes cursor).map fun r => (r.1,⟨r.1.vol.outcome,r.2,[]⟩)
  | .plain (.read path nbytes cursor) =>
    (Fs2.read s path nbytes cursor).map fun r => (r.1,⟨r.1.vol.outcome,r.2.1,r.2.2⟩)
  | .plain (.isftype path ftype) => (Fs2.isftype s path ftype).map fun r => (r.1,⟨r.1.vol.outcome,flag r.2,[]⟩)
  | .plain (.ls path nchars) => (Fs2.ls s path nchars).map fun r => (r.1,⟨r.1.vol.outcome,flag r.2.1,r.2.2⟩)
  | .rm path => (Fs2.rm s path).map fun r => (r.1,⟨r.1.vol.outcome,flag r.2,[]⟩)

-- A call, or the same disk mounted afresh by way of any structure.
inductive Order where
  | deed (deed : Deed)
  | remount (fresh : Volume)

def Order.call (s : Mount) : Order → Option (Mount × Reply)
  | .deed d => d.call s
  | .remount fresh => some (loadVolume ⟨fresh,s.disk⟩,⟨(loadVolume ⟨fresh,s.disk⟩).vol.outcome,0,[]⟩)

def Files.serve (f : Files) : Order → Files × Reply
  | .deed deed => f.answer deed
  | .remount _ => (f,⟨.success,0,[]⟩)

namespace Mount

-- Writes begin inside of their file and are not longer than a region; removes are such
-- that fs2_unlink finds its entry and does not move an outdated one; directories are listed.
def Tended (s : Mount) : Deed → Prop
  | .plain op => op.Roomy s
  | .rm path => s.Clear path.bytes

def Admits (s : Mount) : Order → Prop
  | .deed deed => deed.Fits s ∧ s.Tended deed
  | .remount fresh => fresh.blk0 = s.vol.blk0

def files (s : Mount) : Files := ⟨s.image,s.at,s.vol.blk0⟩

-- The volume carries these files.
structure Carries (s : Mount) (f : Files) : Prop where
  valid : s.Valid
  works : s.disk.Works
  spacious : f.image.Spacious
  image : s.image = f.image
  bytes : ∀ b,f.image.FileBlock b → s.at b = f.bytes b
  blk0 : s.vol.blk0 = f.blk0

section Step
variable {s s' : Mount} {f : Files}

theorem Carries.look (carries : s.Carries f) (same : Same s s') (valid : s'.Valid) : s'.Carries f := by
  refine ⟨valid,Works.same carries.works same,carries.spacious,?_,fun b file => ?_,same.blk0.trans carries.blk0⟩
  · rw [carries.valid.same_image valid same,carries.image]
  · rw [same.at_eq]
    exact carries.bytes b file

theorem Carries.grew (carries : s.Carries f) (grew : Grew s s') (valid : s'.Valid) {m : Image} (image : s'.image = m)
    (spacious : m.Spacious) : s'.Carries {f with image := m} := by
  refine ⟨valid,Works.dev carries.works grew.toDev,spacious,image,fun b file => ?_,grew.blk0.trans carries.blk0⟩
  rw [← image] at file
  have old := grew.grows.fileBlock valid.ok file
  rw [carries.image] at old
  rw [grew.files b file]
  exact carries.bytes b old

theorem Carries.data (carries : s.Carries f) {i : Nat} (h : i < f.image.nodes.length) (file : (f.image.node i).ftype ≠ ftypeDir) :
    s.data i = f.data i := by
  unfold Mount.data Files.data
  rw [carries.image]
  congr 1
  unfold bytesOf
  refine List.flatMap_congr fun b member => ?_
  rw [carries.bytes b (.inl ⟨i,h,file,member⟩)]

theorem Carries.good (carries : s.Carries f) : f.image.Good := by
  rw [← carries.image]
  exact carries.valid.good

theorem Carries.create (carries : s.Carries f) (ftype : UInt8) (path : Path) :
    ∃ s',Deed.call s (.plain (.create ftype path)) = some (s',(f.answer (.plain (.create ftype path))).2) ∧
      s'.Carries (f.answer (.plain (.create ftype path))).1 := by
  obtain ⟨s',r,run,ended⟩ := create_spec carries.valid carries.works.sound ftype path
    (createLookups_quiet carries.valid carries.works.sound path carries.works.reads)
  rcases ended with ⟨grew,valid,image,outcome,rfl⟩ | ⟨stopped,_⟩
  · rw [carries.image] at image outcome
    refine ⟨s',?_,carries.grew grew valid image (carries.spacious.create carries.good ftype path.bytes)⟩
    show (Fs2.create s ftype path).map _ = _
    rw [run,Option.map_some,outcome]
    rfl
  · exact (Works.not_faulty carries.works stopped.faulty).elim

theorem Carries.write (carries : s.Carries f) (path : Path) (src : Nat → UInt8) {nbytes cursor : UInt32}
    (fits : s.image.Fits path.bytes nbytes cursor) :
    ∃ s',Deed.call s (.plain (.write path src nbytes cursor)) = some (s',(f.answer (.plain (.write path src nbytes cursor))).2) ∧
      s'.Carries (f.answer (.plain (.write path src nbytes cursor))).1 := by
  obtain ⟨s',r,run,ended⟩ := write_spec carries.valid carries.works.sound path src nbytes cursor fun _ t => carries.works.reads t _
  rcases ended with ⟨written,result,_⟩ | ⟨halted,_⟩
  · have wrote := written.image
    have bytes := written.bytes
    rw [carries.image] at fits result wrote bytes
    refine ⟨s',?_,written.valid,Works.dev carries.works written.toDev,carries.spacious.write carries.good fits,wrote,fun b file => ?_,
      written.blk0.trans carries.blk0⟩
    · show (Fs2.write s path src nbytes cursor).map _ = _
      rw [run,Option.map_some]
      dsimp only
      rw [(Prod.mk.inj result).1,(Prod.mk.inj result).2]
      rfl
    · have old : f.image.FileBlock b := by
        rw [← carries.image]
        refine written.grows.fileBlock written.valid.ok ?_
        rw [wrote]
        exact file
      rw [bytes b old]
      refine Image.stores_congr carries.bytes (fun i q path found => ?_) path.bytes src nbytes cursor b old
      exact ((Image.resolve_attached carries.good found).alive carries.good).1
  · exact (Works.not_faulty carries.works halted.faulty).elim

theorem Carries.read (carries : s.Carries f) (path : Path) (nbytes cursor : UInt32) :
    ∃ s',Deed.call s (.plain (.read path nbytes cursor)) = some (s',(f.answer (.plain (.read path nbytes cursor))).2) ∧
      s'.Carries (f.answer (.plain (.read path nbytes cursor))).1 := by
  have enough : ∀ i q,s.image.resolve path.bytes = .ok (i,q) → (s.image.node i).ftype = ftypeFile →
      (s.image.node i).Enough := by
    rw [carries.image]
    exact fun i q found file => carries.spacious.enough carries.good found file
  obtain ⟨s',r,run,ended⟩ := read_look carries.valid carries.works.sound path nbytes cursor enough
  have view : s.image.read s.data path.bytes nbytes cursor = f.image.read f.data path.bytes nbytes cursor := by
    rw [carries.image]
    unfold Image.read
    cases found : f.image.resolve path.bytes with
    | error e => rfl
    | ok q =>
        obtain ⟨i,p⟩ := q
        dsimp only
        by_cases other : (f.image.node i).ftype ≠ ftypeFile
        · rw [if_pos other,if_pos other]
        · rw [if_neg other,if_neg other,carries.data ((Image.resolve_attached carries.good found).alive carries.good).1
            (by rw [not_not.mp other]; decide)]
  rcases ended with ⟨viewed,_,result⟩ | halted
  · have same := result.trans view
    refine ⟨s',?_,carries.look viewed.toSame viewed.valid⟩
    show (Fs2.read s path nbytes cursor).map _ = _
    have outcome : s'.vol.outcome = _ := congrArg Prod.fst same
    have result : r = _ := congrArg Prod.snd same
    rw [run,Option.map_some,outcome,result]
    rfl
  · exact (Works.not_faulty carries.works halted.faulty).elim

theorem Carries.isftype (carries : s.Carries f) (path : Path) (ftype : UInt8) :
    ∃ s',Deed.call s (.plain (.isftype path ftype)) = some (s',(f.answer (.plain (.isftype path ftype))).2) ∧
      s'.Carries (f.answer (.plain (.isftype path ftype))).1 := by
  obtain ⟨s',r,run,ended⟩ := isftype_look carries.valid carries.works.sound path ftype
  rcases ended with ⟨looked,_,result⟩ | ⟨stopped,_⟩
  · rw [carries.image] at result
    refine ⟨s',?_,carries.look looked.toSame looked.valid⟩
    show (Fs2.isftype s path ftype).map _ = _
    have outcome : s'.vol.outcome = _ := congrArg Prod.fst result
    have same : r = _ := congrArg Prod.snd result
    rw [run,Option.map_some,outcome,same]
    rfl
  · exact (Works.not_faulty carries.works stopped.faulty).elim

theorem Carries.ls (carries : s.Carries f) (path : Path) (nchars : Int) (fits : (Op.ls path nchars).Fits s) :
    ∃ s',Deed.call s (.plain (.ls path nchars)) = some (s',(f.answer (.plain (.ls path nchars))).2) ∧
      s'.Carries (f.answer (.plain (.ls path nchars))).1 := by
  obtain ⟨s',r,run,ended⟩ := ls_look carries.valid carries.works.sound path nchars fits
  rcases ended with ⟨looked,_,result⟩ | ⟨stopped,_⟩
  · rw [carries.image] at result
    refine ⟨s',?_,carries.look looked.toSame looked.valid⟩
    show (Fs2.ls s path nchars).map _ = _
    have outcome : s'.vol.outcome = _ := congrArg Prod.fst result
    have same : r = _ := congrArg Prod.snd result
    rw [run,Option.map_some,outcome,same]
    rfl
  · exact (Works.not_faulty carries.works stopped.faulty).elim

theorem Carries.rm (carries : s.Carries f) (path : Path) (clear : s.Clear path.bytes) :
    ∃ s',Deed.call s (.rm path) = some (s',(f.answer (.rm path)).2) ∧ s'.Carries (f.answer (.rm path)).1 := by
  obtain ⟨s',r,run,ended⟩ := rm_spec carries.valid carries.works.sound path clear.apart clear.fresh fun t x found _ _ =>
    Works.quiet carries.works (rmLookups_same carries.valid carries.works.sound found)
  have answer : f.answer (.rm path) = ({f with image := (s.image.rm path.bytes).1},
      ⟨(s.image.rm path.bytes).2,flag ((s.image.rm path.bytes).2 = .success),[]⟩) := by
    rw [carries.image]
    rfl
  rw [answer]
  have called : Deed.call s (.rm path) = (Fs2.rm s path).map fun r => (r.1,⟨r.1.vol.outcome,flag r.2,[]⟩) := rfl
  rw [called,run]
  cases ended with
  | removed victim _ removed =>
      have same := victim.rm carries.valid.good
      rw [same]
      refine ⟨s',?_,carries.grew removed.toGrew removed.valid removed.image ?_⟩
      · rw [Option.map_some,removed.outcome]
        rfl
      · rw [carries.image] at victim ⊢
        exact carries.spacious.rm carries.good victim
  | lost victim later => exact absurd (clear.reach _ _ _ victim) later
  | refused looked _ same error _ =>
      rw [same]
      refine ⟨s',?_,?_⟩
      · rw [Option.map_some,decide_eq_false error.1]
      · have next := carries.look looked.toSame looked.valid
        have still : ({f with image := s.image} : Files) = f := by rw [carries.image]
        rw [still]
        exact next
  | halted halted => exact (Works.not_faulty carries.works halted.faulty).elim

theorem Carries.remount (carries : s.Carries f) {fresh : Volume} (base : fresh.blk0 = s.vol.blk0) :
    (loadVolume ⟨fresh,s.disk⟩).vol.outcome = .success ∧ (loadVolume ⟨fresh,s.disk⟩).Carries f := by
  obtain ⟨success,alike⟩ := remount_alike carries.valid carries.works base
  refine ⟨success,alike.valid',alike.works',carries.spacious,alike.image.trans carries.image,fun b file => ?_,?_⟩
  case refine_2 =>
    obtain ⟨_,same,_⟩ := loadVolume_valid carries.valid base rfl (carries.works.reads _ _)
    exact same.blk0.trans carries.blk0
  rw [alike.bytes b (by rw [carries.image]; exact file)]
  exact carries.bytes b file

end Step

theorem carries_simulates : Simulates Order.call Admits Files.serve Carries := by
  intro s f order carries admitted
  cases order with
  | deed deed =>
      obtain ⟨fits,tended⟩ := admitted
      cases deed with
      | plain op =>
          cases op with
          | create ftype path => exact carries.create ftype path
          | write path src nbytes cursor => exact carries.write path src tended
          | read path nbytes cursor => exact carries.read path nbytes cursor
          | isftype path ftype => exact carries.isftype path ftype
          | ls path nchars => exact carries.ls path nchars fits
      | rm path => exact carries.rm path tended
  | remount fresh =>
      obtain ⟨success,next⟩ := carries.remount admitted
      have called : Order.call s (.remount fresh) =
          some (loadVolume ⟨fresh,s.disk⟩,⟨(loadVolume ⟨fresh,s.disk⟩).vol.outcome,0,[]⟩) := rfl
      exact ⟨_,called.trans (by rw [success]; rfl),next⟩

theorem Formatted.carries {s : Mount} (formatted : s.Formatted) : s.Carries s.files := by
  obtain ⟨valid,works⟩ := formatted.valid
  refine ⟨valid,works,fun p i lists file => ?_,rfl,fun _ _ => rfl,rfl⟩
  have exist := (lists.parent valid.ok).2.1
  exact (History.format formatted : History Op.Roomy s).roomy i exist file

-- Every run from the formatting on, with the disk mounted afresh at any point, replies what
-- the files do, ends with what the files have become, and never gets stuck.
theorem sessions_refine {s u : Mount} (formatted : s.Formatted) {orders : List Order} {replies : List Reply}
    (session : Session Order.call Admits s orders replies u) :
    replies = (Replies.serve Files.serve s.files orders).2 ∧ u.Carries (Replies.serve Files.serve s.files orders).1 ∧
      ∀ order,u.Admits order → ∃ u' reply,order.call u = some (u',reply) := by
  obtain ⟨same,carries⟩ := carries_simulates.session formatted.carries session
  refine ⟨same,carries,fun order admitted => ?_⟩
  obtain ⟨u',run,_⟩ := carries_simulates u _ order carries admitted
  exact ⟨u',_,run⟩

-- A file is made and read.
theorem sessions_refine_made : ∃ (s u : Mount) (replies : List Reply),s.Formatted ∧
    Session Order.call Admits s [.deed (.plain (.create ftypeFile fileAb)),.deed (.plain (.read fileAb 5 0))] replies u ∧
    replies = (Replies.serve Files.serve s.files
      [.deed (.plain (.create ftypeFile fileAb)),.deed (.plain (.read fileAb 5 0))]).2 := by
  obtain ⟨s,formatted,_⟩ := formats 3 passes_boot (by decide)
  obtain ⟨t,r,first⟩ := carries_simulates.next formatted.carries .nil
    (show s.Admits (.deed (.plain (.create ftypeFile fileAb))) from ⟨trivial,trivial⟩)
  obtain ⟨u,r',both⟩ := carries_simulates.next formatted.carries first
    (show t.Admits (.deed (.plain (.read fileAb 5 0))) from ⟨trivial,trivial⟩)
  exact ⟨s,u,_,formatted,both,(sessions_refine formatted both).1⟩

end Mount
end ArchiveOs.Fs2
