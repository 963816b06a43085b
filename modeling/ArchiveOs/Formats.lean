import ArchiveOs.Creates

-- Formatting a volume and mounting it afresh.
namespace ArchiveOs.Fs2
open Extents Layout

namespace Mount

theorem Valid.device {s : Mount} (v : s.Valid) {d : Disk} (blk : d.blk = s.disk.blk) : (⟨s.vol,d⟩ : Mount).Valid := by
  obtain ⟨content,rd,wr,trace⟩ := d
  cases blk
  exact ⟨⟨v.ok,v.sep,v.htidy,v.itidy,v.iaddr,v.dclean,v.xclean⟩,v.living,v.saved,v.clean⟩

theorem image_device (s : Mount) {d : Disk} (blk : d.blk = s.disk.blk) : (⟨s.vol,d⟩ : Mount).image = s.image := by
  obtain ⟨content,rd,wr,trace⟩ := d
  cases blk
  rfl

theorem loadVolume_valid {s : Mount} (v : s.Valid) {fresh : Volume} (base : fresh.blk0 = s.vol.blk0) {d : Disk}
    (blk : d.blk = s.disk.blk) (fine : d.rdFails d.trace.length .hblock = false) :
    (loadVolume ⟨fresh,d⟩).Valid ∧ Same ⟨s.vol,d⟩ (loadVolume ⟨fresh,d⟩) ∧
      (loadVolume ⟨fresh,d⟩).vol.outcome = .success ∧ (loadVolume ⟨fresh,d⟩).disk.failed = d.failed := by
  have v' := v.device blk
  have header : headerLayout.symm (d.blk (fresh.blk0 + 0)) = s.vol.hblock := by
    have saved := v'.saved
    unfold Saved Mount.at at saved
    rw [base]; exact saved
  have load : loadVolume ⟨fresh,d⟩ = (⟨{fresh with
        hblock := s.vol.hblock,icindex := minusOne,dcaddr := minusOne,xcaddr := minusOne},
      {d with trace := .rd (fresh.blk0 + 0) .hblock true :: d.trace}⟩ : Mount).out .success := by
    unfold loadVolume
    rw [rblk_ok fine]
    dsimp only
    rw [header,if_neg]
    · rfl
    · exact not_not.mpr v.sep.ident
  have same : Same ⟨s.vol,d⟩ (loadVolume ⟨fresh,d⟩) := by rw [load]; exact ⟨base,rfl,rfl,rfl,rfl⟩
  have large : minusOne.toNat = 4294967295 := rfl
  refine ⟨?_,same,by rw [load]; rfl,by rw [load]; rfl⟩
  have index : (loadVolume ⟨fresh,d⟩).vol.icindex = minusOne := by rw [load]; rfl
  have addr : (loadVolume ⟨fresh,d⟩).vol.xcaddr = minusOne := by rw [load]; rfl
  refine v'.recache same ?_ ?_ (.inl (by rw [load]; rfl)) ?_
  · rw [index,large]
    intro inside
    have := (⟨s.vol,d⟩ : Mount).itable_small
    omega
  · intro i h here
    rw [index,large] at here
    have := v'.slot h
    have := (⟨s.vol,d⟩ : Mount).itable_small
    omega
  · rw [addr,large]
    intro file
    have := file.small v'.ok
    have := v'.ok.room
    omega

theorem findFreeRegion_fits {s : Mount} (len : UInt8) (sep : s.vol.hblock.separator = 800)
    (fits : s.vol.hblock.nextBlock.toNat + len.toNat ≤ s.vol.hblock.nblocks.toNat) (save : Bool) :
    findFreeRegion s len save =
      some (if save then saveHblock (s.advance len) else (s.advance len).out .success,s.vol.hblock.nextBlock) := by
  have bound := s.vol.hblock.nblocks.toNat_lt
  have next : (s.vol.hblock.nextBlock + len.toUInt32).toNat = s.vol.hblock.nextBlock.toNat + len.toNat := by
    rw [UInt32.toNat_add,UInt8.toNat_toUInt32]
    exact Nat.mod_eq_of_lt (by omega)
  unfold findFreeRegion
  rw [if_neg (by rw [sep]; decide)]
  dsimp only
  rw [if_neg]
  · cases save <;> rfl
  · intro full
    have := UInt32.lt_iff_toNat_lt.mp full
    omega

-- The root directory, made in the inode cache and saved with its block.
def rootInode (s : Mount) (perm : UInt8) : Inode :=
  {(s.cached 0).beginDir perm s.vol.hblock.nextBlock s.vol.hblock.defaultDregLen with iparent := 0,eof := 2}

def rootVolume (s : Mount) (perm : UInt8) (c : DBlock) : Volume :=
  {s.vol with
    hblock := {s.vol.hblock with
      nextBlock := s.vol.hblock.nextBlock + s.vol.hblock.defaultDregLen.toUInt32
      nextInode := s.vol.hblock.nextInode + 1}
    icache := s.vol.icache.set 0 (s.rootInode perm) islot_pos
    dcaddr := s.vol.hblock.nextBlock
    dcache := c
    outcome := .success}

def rootSaved (s : Mount) (perm : UInt8) (c : DBlock) : Mount :=
  let t : Mount := ⟨s.rootVolume perm c,s.disk⟩
  ((t.stored s.vol.hblock.nextBlock .dcache (dblockLayout c)).stored s.vol.icaddr .icache
    (iblockLayout t.vol.icache)).stored 0 .hblock (headerLayout t.vol.hblock)

theorem root_linkNew {s : Mount} (perm : UInt8) (sound : s.disk.Sound) (sep : s.vol.hblock.separator = 800)
    (fits : s.vol.hblock.nextBlock.toNat + s.vol.hblock.defaultDregLen.toNat ≤ s.vol.hblock.nblocks.toNat)
    (used : s.vol.hblock.nextBlock ≠ 0) :
    ∃ new : DBlock,(do
      let s₂ ← initInode s 0 ftypeDir perm
      linkNew (s₂.setCached 0 {s₂.cached 0 with iparent := 0}) [] 0 0 ftypeDir) = some (s.rootSaved perm new) ∧
      (new.get ⟨0,dslot_pos⟩).link = ⟨Image.dot,0⟩ ∧ (new.get ⟨1,dslot_one⟩).link = ⟨Image.dotdot,0⟩ := by
  have region := findFreeRegion_fits (s := s.setCached 0 {s.cached 0 with
    ftype := ftypeDir,fperm := perm,eof := 0,regStart := Vector.replicate 23 0}) _ sep fits false
  have init : initInode s 0 ftypeDir perm = some (((s.advance s.vol.hblock.defaultDregLen).setCached 0
      ((s.cached 0).beginDir perm s.vol.hblock.nextBlock s.vol.hblock.defaultDregLen)).out .success) := by
    unfold initInode
    dsimp only
    rw [if_pos rfl]
    have len : (s.setCached 0 {s.cached 0 with
        ftype := ftypeDir,fperm := perm,eof := 0,regStart := Vector.replicate 23 0}).vol.hblock.defaultDregLen =
        s.vol.hblock.defaultDregLen := rfl
    rw [len,region]
    simp only [Option.bind_eq_bind,Option.bind_some,Bool.false_eq_true,if_false]
    rw [if_neg (by exact used),setCached_advance,setCached_out,out_cached,cached_setCached,setCached_setCached]
    rfl
  rw [init]
  simp only [Option.bind_eq_bind,Option.bind_some]
  rw [setCached_out,out_cached,cached_setCached,setCached_setCached]
  obtain ⟨new,populate,dot,dotdot⟩ := populateDir_eq
    (s := ((s.advance s.vol.hblock.defaultDregLen).setCached 0
      {(s.cached 0).beginDir perm s.vol.hblock.nextBlock s.vol.hblock.defaultDregLen with iparent := 0}).out .success)
    (by exact sound) 0 0
  refine ⟨new,?_,dot,dotdot⟩
  unfold Mount.linkNew
  have word : ({(s.cached 0).beginDir perm s.vol.hblock.nextBlock s.vol.hblock.defaultDregLen with
      iparent := 0} : Inode).regStart.get ⟨0,row_pos⟩ = s.vol.hblock.nextBlock := by
    show ((s.cached 0).beginDir perm s.vol.hblock.nextBlock s.vol.hblock.defaultDregLen).regStart[0] = _
    simp only [Inode.beginDir,Vector.getElem_set_self]
  rw [if_neg (by simp),if_pos rfl,populate]
  dsimp only
  rw [if_neg (by simp),finishCreate_eq,← setCached_out,cached_setCached,putDir_setCached (by exact sound),
    setCached_setCached,word]
  unfold putDir saveDblockC
  rw [wblk_ok (by exact sound)]
  dsimp only [Mount.wrOutcome]
  rw [saveIblockC_ok (by exact ⟨sound.inodes,sound.writes⟩),saveHblock_ok (by exact ⟨sound.inodes,sound.writes⟩)]
  rfl

-- The arguments that fs2_format_volume accepts.
structure Passes (nblocks : UInt32) (defISz defFSz defDSz : UInt8) : Prop where
  fits : 1 + defISz.toNat + defDSz.toNat ≤ nblocks.toNat
  isz : defISz ≠ 0
  fsz : defFSz ≠ 0
  dsz : defDSz ≠ 0

def formatHeader (s : Mount) (nblocks : UInt32) (defaultPerms defISz defFSz defDSz : UInt8) : Mount :=
  s.withHblock {s.vol.hblock with
    ident := cwfsIdent,nblocks,nextBlock := 1,nextInode := 0
    defaultDregLen := defDSz,defaultFregLen := defFSz,defaultIregLen := defISz
    defaultPerm := defaultPerms,separator := 800,regStart := Vector.replicate 800 0}

-- The inode cache before the root is made in it. A cache that is said to hold inode
-- block 0 already is taken as it is.
def formatTable (s : Mount) (nblocks : UInt32) (defaultPerms defISz defFSz defDSz : UInt8) : Mount :=
  let t := s.formatHeader nblocks defaultPerms defISz defFSz defDSz
  if s.vol.icindex = 0 then t.out .success else saveHblock (t.growTable 0)

section Format
variable {s : Mount} {nblocks : UInt32} {defaultPerms defISz defFSz defDSz : UInt8}

variable (s nblocks defaultPerms defISz defFSz defDSz) in
theorem formatHeader_regs : (s.formatHeader nblocks defaultPerms defISz defFSz defDSz).vol.hblock.regs = [] ∧
    Tidy (s.formatHeader nblocks defaultPerms defISz defFSz defDSz).vol.hblock.rows := by
  have rows : (s.formatHeader nblocks defaultPerms defISz defFSz defDSz).vol.hblock.rows =
      (List.replicate 800 0).zip s.vol.hblock.regLen.toList := by
    unfold HBlock.rows formatHeader withHblock
    rw [Vector.toList_zip,Vector.toList_replicate]
  unfold HBlock.regs
  rw [rows]
  exact ⟨regions_replicate _ _,tidy_replicate _ _⟩

variable (defaultPerms) in
theorem format_iblock (sound : s.disk.Sound) (passes : Passes nblocks defISz defFSz defDSz) :
    getIblockC (s.formatHeader nblocks defaultPerms defISz defFSz defDSz) (0 / 32) true false =
      some (s.formatTable nblocks defaultPerms defISz defFSz defDSz) := by
  have fits := passes.fits
  have zero : (0 : UInt32) / 32 = 0 := by decide
  have one : (1 : UInt32).toNat = 1 := rfl
  unfold getIblockC formatTable
  rw [zero]
  by_cases hit : s.vol.icindex = 0
  · have here : ¬ (0 : UInt32) ≠ (s.formatHeader nblocks defaultPerms defISz defFSz defDSz).vol.icindex :=
      not_not.mpr hit.symm
    rw [if_neg here,if_pos hit]
  · have miss : (0 : UInt32) ≠ (s.formatHeader nblocks defaultPerms defISz defFSz defDSz).vol.icindex := fun e => hit e.symm
    rw [if_pos miss,if_neg hit]
    dsimp only
    simp only [Bool.false_eq_true,if_false]
    have empty := (formatHeader_regs s nblocks defaultPerms defISz defFSz defDSz).1
    generalize header : s.formatHeader nblocks defaultPerms defISz defFSz defDSz = t at *
    have sep : t.vol.hblock.separator = 800 := by rw [← header]; rfl
    have next : t.vol.hblock.nextBlock = 1 := by rw [← header]; rfl
    have ilen : t.vol.hblock.defaultIregLen = defISz := by rw [← header]; rfl
    have blocks : t.vol.hblock.nblocks = nblocks := by rw [← header]; rfl
    have sound' : t.disk.Sound := by rw [← header]; exact sound
    have scan := iblockScan_eq t.vol.hblock.rows 0 (i := 0) (n := 0) (Nat.zero_le _)
    have none : Extents.blocks (regions t.vol.hblock.rows) = [] := by
      show Extents.blocks t.vol.hblock.regs = []
      rw [empty]; rfl
    rw [HBlock.length_rows,none] at scan
    have stop : iblockScan t.vol.hblock.rows t.vol.hblock.separator.toNat 0 0 0 = .stop 0 := by
      rw [sep]
      exact scan.trans (by rw [show regions t.vol.hblock.rows = [] from empty]; rfl)
    have region := findFreeRegion_fits (s := {t with vol := {t.vol with icindex := 0}}) defISz sep
      (by show t.vol.hblock.nextBlock.toNat + _ ≤ t.vol.hblock.nblocks.toNat; rw [next,blocks]; omega) false
    unfold cacheIblock getIblock
    simp only [stop,ilen,region,Option.bind_eq_bind,Option.bind_some]
    rw [if_neg (by rw [sep]; decide),if_neg (by show t.vol.hblock.nextBlock ≠ 0; rw [next]; decide)]
    simp only [Bool.false_eq_true,if_false,if_true,Option.bind_some]
    rw [saveHblock_ok (by exact sound'),saveHblock_ok (by exact sound')]
    simp only [out_outcome,ne_eq,not_true_eq_false,if_false]
    unfold growTable
    dsimp only
    rw [empty]
    subst ilen
    rfl

-- What does not depend on the state of the inode cache.
structure Tabled (s t : Mount) (nblocks : UInt32) (defaultPerms defISz defFSz defDSz : UInt8) : Prop where
  outcome : t.vol.outcome = .success
  icindex : t.vol.icindex = 0
  marked : t.vol.hblock.Marked
  nblocks : t.vol.hblock.nblocks = nblocks
  nextInode : t.vol.hblock.nextInode = 0
  nextBlock : t.vol.hblock.nextBlock = if s.vol.icindex = 0 then 1 else 1 + defISz.toUInt32
  perm : t.vol.hblock.defaultPerm = defaultPerms
  ilen : t.vol.hblock.defaultIregLen = defISz
  flen : t.vol.hblock.defaultFregLen = defFSz
  dlen : t.vol.hblock.defaultDregLen = defDSz
  blk0 : t.vol.blk0 = s.vol.blk0
  rdFails : t.disk.rdFails = s.disk.rdFails
  wrFails : t.disk.wrFails = s.disk.wrFails
  xcaddr : t.vol.xcaddr = s.vol.xcaddr

variable (nblocks defaultPerms defISz defFSz defDSz) in
theorem formatTable_tabled (sound : s.disk.Sound) :
    Tabled s (s.formatTable nblocks defaultPerms defISz defFSz defDSz) nblocks defaultPerms defISz defFSz defDSz := by
  unfold formatTable
  by_cases hit : s.vol.icindex = 0
  · simp only [if_pos hit]
    exact ⟨rfl,hit,⟨rfl,rfl⟩,rfl,rfl,by rw [if_pos hit]; rfl,rfl,rfl,rfl,rfl,rfl,rfl,rfl,rfl⟩
  · simp only [if_neg hit]
    rw [saveHblock_ok (by exact sound)]
    exact ⟨rfl,rfl,⟨rfl,rfl⟩,rfl,rfl,by rw [if_neg hit]; rfl,rfl,rfl,rfl,rfl,rfl,rfl,rfl,rfl⟩

theorem Tabled.next {t : Mount} (a : Tabled s t nblocks defaultPerms defISz defFSz defDSz) :
    t.vol.hblock.nextBlock.toNat = if s.vol.icindex = 0 then 1 else 1 + defISz.toNat := by
  have small := defISz.toNat_lt
  rw [a.nextBlock]
  split
  · rfl
  · rw [UInt32.toNat_add,UInt8.toNat_toUInt32]
    exact Nat.mod_eq_of_lt (by show 1 + defISz.toNat < 4294967296; omega)

variable (defaultPerms) in
theorem format_eq (sound : s.disk.Sound) (passes : Passes nblocks defISz defFSz defDSz) :
    ∃ new : DBlock,formatVolume s nblocks defaultPerms defISz defFSz defDSz =
        some ((s.formatTable nblocks defaultPerms defISz defFSz defDSz).rootSaved defaultPerms new) ∧
      (new.get ⟨0,dslot_pos⟩).link = ⟨Image.dot,0⟩ ∧ (new.get ⟨1,dslot_one⟩).link = ⟨Image.dotdot,0⟩ := by
  have fits := passes.fits
  have a := formatTable_tabled nblocks defaultPerms defISz defFSz defDSz sound
  have iblock := format_iblock defaultPerms sound passes
  have sound' : (s.formatTable nblocks defaultPerms defISz defFSz defDSz).disk.Sound :=
    ⟨by rw [a.rdFails]; exact sound.inodes,by rw [a.wrFails]; exact sound.writes⟩
  have next := a.next
  obtain ⟨new,run,dot,dotdot⟩ := root_linkNew defaultPerms sound' a.marked.separator
    (by rw [next,a.dlen,a.nblocks]; split <;> omega)
    (by
      intro zero
      rw [zero] at next
      have none : (0 : UInt32).toNat = 0 := rfl
      split at next <;> omega)
  refine ⟨new,?_,dot,dotdot⟩
  unfold formatVolume
  rw [if_neg (by rintro (few | zero | zero | zero); exacts [by omega,passes.dsz zero,passes.fsz zero,passes.isz zero])]
  show createFile (s.formatHeader nblocks defaultPerms defISz defFSz defDSz) [] 0 ftypeDir = _
  rw [createFile_eq]
  have first : (s.formatHeader nblocks defaultPerms defISz defFSz defDSz).vol.hblock.nextInode = 0 := rfl
  rw [first,iblock]
  simp only [Option.bind_eq_bind,Option.bind_some]
  rw [if_neg (by rw [a.outcome]; decide),a.perm]
  exact run

-- The volume that formatting leaves when the inode cache held another block before.
theorem rootSaved_vol (t : Mount) (perm : UInt8) (c : DBlock) : (t.rootSaved perm c).vol = t.rootVolume perm c := rfl

theorem rootInode_regs {t : Mount} (used : t.vol.hblock.nextBlock ≠ 0) (perm : UInt8) :
    (t.rootInode perm).regs = [⟨t.vol.hblock.nextBlock.toNat,t.vol.hblock.defaultDregLen.toNat⟩] ∧
      Tidy (t.rootInode perm).rows :=
  (t.cached 0).beginDir_regs perm t.vol.hblock.defaultDregLen used

section Fresh
variable (sound : s.disk.Sound) (passes : Passes nblocks defISz defFSz defDSz) (miss : s.vol.icindex ≠ 0) (c : DBlock)

variable (nblocks defaultPerms defISz defFSz defDSz) in
theorem formatTable_regs (sound : s.disk.Sound) (miss : s.vol.icindex ≠ 0) :
    (s.formatTable nblocks defaultPerms defISz defFSz defDSz).vol.hblock.regs = [⟨1,defISz.toNat⟩] ∧
      Tidy (s.formatTable nblocks defaultPerms defISz defFSz defDSz).vol.hblock.rows ∧
      (s.formatTable nblocks defaultPerms defISz defFSz defDSz).vol.icaddr = 1 := by
  obtain ⟨empty,tidy⟩ := formatHeader_regs s nblocks defaultPerms defISz defFSz defDSz
  unfold formatTable
  simp only [if_neg miss]
  rw [saveHblock_ok (by exact sound)]
  generalize header : s.formatHeader nblocks defaultPerms defISz defFSz defDSz = t at *
  have next : t.vol.hblock.nextBlock = 1 := by rw [← header]; rfl
  have ilen : t.vol.hblock.defaultIregLen = defISz := by rw [← header]; rfl
  have rows := rows_set t.vol.hblock.regStart t.vol.hblock.regLen t.vol.hblock.regs.length t.vol.hblock.nextBlock
    t.vol.hblock.defaultIregLen
  have set := regions_set tidy 1 defISz (by decide) (by
    rw [HBlock.length_rows]
    show t.vol.hblock.regs.length < 800
    rw [empty]; decide)
  have rows' : ((t.growTable 0).stored 0 .hblock (headerLayout (t.growTable 0).vol.hblock)).vol.hblock.rows =
      t.vol.hblock.rows.set (regions t.vol.hblock.rows).length (1,defISz) := by
    rw [← next,← ilen]; exact rows
  have none : regions t.vol.hblock.rows = [] := empty
  refine ⟨?_,?_,next⟩
  · unfold HBlock.regs
    show regions (((t.growTable 0).stored 0 .hblock (headerLayout (t.growTable 0).vol.hblock)).vol.hblock.rows) = _
    rw [rows',set.1,none]; rfl
  · show Tidy (((t.growTable 0).stored 0 .hblock (headerLayout (t.growTable 0).vol.hblock)).vol.hblock.rows)
    rw [rows']; exact set.2

variable (nblocks defaultPerms defISz defFSz defDSz) in
theorem formatTable_trace (sound : s.disk.Sound) (miss : s.vol.icindex ≠ 0) :
    (s.formatTable nblocks defaultPerms defISz defFSz defDSz).disk.trace =
      .wr (s.vol.blk0 + 0) .hblock true :: s.disk.trace := by
  unfold formatTable
  simp only [if_neg miss]
  rw [saveHblock_ok (by exact sound)]
  rfl

theorem rootSaved_at {t : Mount} {b : Nat} (word : t.vol.hblock.nextBlock = UInt32.ofNat b) (small : b < 4294967296)
    (large : 1 < b) (addr : t.vol.icaddr = 1) (perm : UInt8) (c : DBlock) :
    (t.rootSaved perm c).at 0 = headerLayout (t.rootVolume perm c).hblock ∧
    (t.rootSaved perm c).at 1 = iblockLayout (t.rootVolume perm c).icache ∧
    (t.rootSaved perm c).at b = dblockLayout c := by
  have one : UInt32.ofNat 1 = 1 := rfl
  have zero : UInt32.ofNat 0 = 0 := rfl
  have apart : ∀ k : Nat,k < 2 → (UInt32.ofNat b ≠ UInt32.ofNat k) := by
    intro k less equal
    have := congrArg UInt32.toNat equal
    rw [UInt32.toNat_ofNat_of_lt' small,UInt32.toNat_ofNat_of_lt' (by show k < 4294967296; omega)] at this
    omega
  unfold rootSaved
  dsimp only
  rw [addr]
  refine ⟨?_,?_,?_⟩
  · rw [stored_at,if_pos zero]
  · rw [stored_at,if_neg (by rw [one]; decide),stored_at,if_pos one]
  · rw [stored_at,if_neg (by rw [← zero]; exact apart 0 (by decide)),stored_at,
      if_neg (by rw [← one]; exact apart 1 (by decide)),stored_at,if_pos word.symm]

end Fresh

theorem Passes.isz_pos (passes : Passes nblocks defISz defFSz defDSz) : 0 < defISz.toNat :=
  Nat.pos_of_ne_zero fun zero => passes.isz (UInt8.toNat_inj.mp zero)

theorem Passes.dsz_pos (passes : Passes nblocks defISz defFSz defDSz) : 0 < defDSz.toNat :=
  Nat.pos_of_ne_zero fun zero => passes.dsz (UInt8.toNat_inj.mp zero)

theorem Passes.fsz_pos (passes : Passes nblocks defISz defFSz defDSz) : 0 < defFSz.toNat :=
  Nat.pos_of_ne_zero fun zero => passes.fsz (UInt8.toNat_inj.mp zero)

-- An empty volume.
def formatImage (nblocks : UInt32) (defaultPerms defISz defFSz defDSz : UInt8) : Image where
  nblocks := nblocks.toNat
  nextBlock := 1 + defISz.toNat + defDSz.toNat
  perm := defaultPerms
  ilen := defISz.toNat
  flen := defFSz.toNat
  dlen := defDSz.toNat
  iregs := [⟨1,defISz.toNat⟩]
  nodes := [⟨ftypeDir,defaultPerms,2,0,[⟨1 + defISz.toNat,defDSz.toNat⟩],[⟨Image.dot,0⟩,⟨Image.dotdot,0⟩]⟩]

variable (defaultPerms) in
theorem formatImage_ok (passes : Passes nblocks defISz defFSz defDSz) (room : nblocks.toNat + 255 < 4294967296) :
    (formatImage nblocks defaultPerms defISz defFSz defDSz).Ok := by
  have isz := passes.isz_pos
  have fsz := passes.fsz_pos
  have dsz := passes.dsz_pos
  have fits := passes.fits
  -- The inode table comes first, then the root directory.
  have empty : Packed (fun _ : Option Nat => []) 1 1 := ⟨fun _ _ h => by simp at h,fun _ => by simp,fun _ _ _ h => by simp at h⟩
  have table := empty.grow (Nat.le_refl _) none defISz.toNat
  have both := table.grow (by omega) (some 0) defDSz.toNat
  have own : (formatImage nblocks defaultPerms defISz defFSz defDSz).own =
      Function.update (Function.update (fun _ => []) none ([] ++ [⟨1,defISz.toNat⟩])) (some 0)
        ([] ++ [⟨1 + defISz.toNat,defDSz.toNat⟩]) := by
    funext o
    rcases o with _ | _ | i
    · rfl
    · rfl
    · rfl
  refine ⟨room,by show 1 ≤ 1 + _ + _; omega,fits,⟨isz,defISz.toNat_lt⟩,⟨fsz,defFSz.toNat_lt⟩,⟨dsz,defDSz.toNat_lt⟩,?_,?_,?_,?_⟩
  · rw [own]
    exact both
  · show 1 ≤ 32 * (defISz.toNat + 0)
    omega
  · intro i h _ _
    have zero : i = 0 := by
      have : i < 1 := h
      omega
    subst zero
    have two : ∀ (k : Nat) (l : Link),2 ≤ k → ([⟨Image.dot,0⟩,⟨Image.dotdot,0⟩] : List Link)[k]? ≠ some l := by
      intro k l more at_k
      have inside := (List.getElem?_eq_some_iff.mp at_k).1
      simp at inside
      omega
    refine ⟨?_,rfl,?_,rfl,rfl,Nat.le_refl _,fun k l more at_k => absurd at_k (two k l more),
      fun k _ l _ more _ at_k _ => absurd at_k (two k l more)⟩
    · intro r member
      rw [List.mem_singleton.mp member]
      exact dsz
    · show 2 ≤ 128 * (defDSz.toNat + 0)
      omega
  · exact ⟨Nat.one_pos,rfl,by simp [formatImage,Image.node]⟩

theorem formatImage_living : (formatImage nblocks defaultPerms defISz defFSz defDSz).Living := by
  intro i k l h _ _ two at_k
  have zero : i = 0 := by
    have : i < 1 := h
    omega
  subst zero
  have inside : k < 2 := (List.getElem?_eq_some_iff.mp at_k).1
  omega

-- Formatting a volume whose cache tags name no block gives a valid empty volume.
theorem format_valid (sound : s.disk.Sound) (passes : Passes nblocks defISz defFSz defDSz)
    (room : nblocks.toNat + 255 < 4294967296) (miss : s.vol.icindex ≠ 0) (unread : s.vol.xcaddr = minusOne) :
    ∃ s',formatVolume s nblocks defaultPerms defISz defFSz defDSz = some s' ∧ s'.vol.outcome = .success ∧ s'.Valid ∧
      s'.image = formatImage nblocks defaultPerms defISz defFSz defDSz ∧ s'.vol.blk0 = s.vol.blk0 ∧
      s'.disk.rdFails = s.disk.rdFails ∧ s'.disk.wrFails = s.disk.wrFails := by
  obtain ⟨c,run,dot,dotdot⟩ := format_eq defaultPerms sound passes
  have a := formatTable_tabled nblocks defaultPerms defISz defFSz defDSz sound
  obtain ⟨regs,tidy,addr⟩ := formatTable_regs nblocks defaultPerms defISz defFSz defDSz sound miss
  have ok := formatImage_ok defaultPerms passes room
  have next := a.next
  rw [if_neg miss] at next
  have isz := passes.isz_pos
  have dsz := passes.dsz_pos
  have small := defISz.toNat_lt
  have small' := defDSz.toNat_lt
  generalize s.formatTable nblocks defaultPerms defISz defFSz defDSz = t at *
  have word : t.vol.hblock.nextBlock = UInt32.ofNat (1 + defISz.toNat) := by rw [← next]; exact UInt32.ofNat_toNat.symm
  have used : t.vol.hblock.nextBlock ≠ 0 := by
    intro zero
    rw [zero] at next
    have none : (0 : UInt32).toNat = 0 := rfl
    omega
  obtain ⟨header,table,entries⟩ := rootSaved_at word (by omega) (by omega) addr defaultPerms c
  obtain ⟨rootRegs,rootTidy⟩ := rootInode_regs used defaultPerms
  rw [next,a.dlen] at rootRegs
  have fields := rootSaved_vol t defaultPerms c
  generalize saved : t.rootSaved defaultPerms c = u at *
  have one : u.vol.hblock.nextInode.toNat = 1 := by
    rw [fields]
    show (t.vol.hblock.nextInode + 1).toNat = 1
    rw [a.nextInode]; rfl
  have index : u.vol.icindex.toNat = 0 := by
    rw [fields]
    show t.vol.icindex.toNat = 0
    rw [a.icindex]; rfl
  have itable : u.itable = blocks [⟨1,defISz.toNat⟩] := by
    unfold itable
    rw [fields]
    exact congrArg blocks regs
  have at_zero : u.itable[0]? = some 1 := by
    rw [itable]
    simp [blocks_cons,Region.blocks,isz]
  have root : u.inode 0 = t.rootInode defaultPerms := by
    rw [inode_here (by rw [index])]
    simp only [fields]
    show (t.vol.icache.set 0 (t.rootInode defaultPerms))[0] = _
    rw [Vector.getElem_set_self]
  have disk : u.diskInode 0 = t.rootInode defaultPerms := by
    rw [diskInode_at (i := 0) at_zero table]
    show (t.vol.icache.set 0 (t.rootInode defaultPerms))[0] = _
    rw [Vector.getElem_set_self]
  have node : u.node 0 = ⟨ftypeDir,defaultPerms,2,0,[⟨1 + defISz.toNat,defDSz.toNat⟩],
      [⟨Image.dot,0⟩,⟨Image.dotdot,0⟩]⟩ := by
    have content : dblockLayout.symm (u.at (1 + defISz.toNat)) = c := by rw [entries,Equiv.symm_apply_apply]
    have get : (blocks [⟨1 + defISz.toNat,defDSz.toNat⟩]).getD 0 0 = 1 + defISz.toNat := by
      rw [blocks_cons,List.getD_eq_getElem?_getD]
      simp [Region.blocks,dsz]
    have links : (List.range 2).map (linkAt u.at (blocks [⟨1 + defISz.toNat,defDSz.toNat⟩])) =
        [⟨Image.dot,0⟩,⟨Image.dotdot,0⟩] := by
      show [linkAt _ _ 0,linkAt _ _ 1] = _
      unfold linkAt
      simp only [Nat.zero_div,Nat.reduceDiv,get,content]
      exact congr (congrArg _ dot) (congrArg (· :: []) dotdot)
    unfold Mount.node
    rw [root]
    unfold Inode.node
    rw [if_pos ⟨rfl,by rw [rootRegs]; simp⟩,rootRegs]
    have eof : (t.rootInode defaultPerms).eof.toNat = 2 := rfl
    rw [eof,links]
    rfl
  have image : u.image = formatImage nblocks defaultPerms defISz defFSz defDSz := by
    have nextBlock : u.vol.hblock.nextBlock.toNat = 1 + defISz.toNat + defDSz.toNat := by
      rw [fields]
      show (t.vol.hblock.nextBlock + t.vol.hblock.defaultDregLen.toUInt32).toNat = _
      rw [UInt32.toNat_add,UInt8.toNat_toUInt32,next,a.dlen]
      exact Nat.mod_eq_of_lt (by omega)
    unfold Mount.image formatImage
    rw [one,nextBlock]
    show Image.mk _ _ _ _ _ _ _ [u.node 0] = _
    rw [node,fields]
    simp only [rootVolume,a.nblocks,a.perm,a.ilen,a.flen,a.dlen]
    exact congrArg (fun r => Image.mk _ _ _ _ _ _ r _) regs
  refine ⟨u,run,by rw [fields]; rfl,⟨⟨by rw [image]; exact ok,?_,?_,?_,?_,.inr ?_,?_⟩,by rw [image]; exact formatImage_living,?_,?_⟩,image,?_,?_,?_⟩
  · rw [fields]; exact ⟨a.marked.ident,a.marked.separator⟩
  · rw [fields]; exact tidy
  · intro i h
    have zero : i = 0 := by omega
    subst zero
    rw [root]; exact rootTidy
  · intro _
    rw [index,at_zero,fields]
    show some 1 = some t.vol.icaddr.toNat
    rw [addr]; rfl
  · have place : u.vol.dcaddr.toNat = 1 + defISz.toNat := by rw [fields]; exact next
    rw [place,entries,Equiv.symm_apply_apply,fields]
    refine ⟨?_,rfl⟩
    refine (image ▸ ok).dirBlock (i := 0) ?_ ?_
    · rw [image]; rfl
    · rw [image]
      refine mem_blocks.mpr ⟨_,List.mem_singleton_self _,Nat.le_refl _,?_⟩
      show 1 + defISz.toNat < 1 + defISz.toNat + defDSz.toNat
      omega
  · intro file
    have addr' : u.vol.xcaddr = minusOne := by
      rw [fields]
      exact a.xcaddr.trans unread
    have large : minusOne.toNat = 4294967295 := rfl
    rw [addr',large,image] at file
    have := file.small ok
    have bound : (formatImage nblocks defaultPerms defISz defFSz defDSz).nblocks = nblocks.toNat := rfl
    omega
  · unfold Saved
    rw [header,Equiv.symm_apply_apply,fields]
  · intro i h _
    have zero : i = 0 := by omega
    subst zero
    rw [disk]
    simp only [fields]
    show (t.vol.icache.set 0 (t.rootInode defaultPerms))[0] = _
    rw [Vector.getElem_set_self]
  · rw [fields]; exact a.blk0
  · rw [← saved]; exact a.rdFails
  · rw [← saved]; exact a.wrFails

end Format

-- Inode 0 is found through the table of the header that was loaded, as a directory
-- with the entries "." and ".." of itself.
def RootFound (f : Mount) : Prop :=
  ∃ ibaddr,iblockScan f.vol.hblock.rows f.vol.hblock.separator.toNat 0 0 0 = .found ibaddr ∧
    let root := (iblockLayout.symm (f.disk.blk (f.vol.blk0 + ibaddr))).get ⟨0,islot_pos⟩
    root.ftype = ftypeDir ∧ root.eof = 2 ∧ root.blk 0 ≠ 0 ∧
      let entries := dblockLayout.symm (f.disk.blk (f.vol.blk0 + root.blk 0))
      (entries.get ⟨0,dslot_pos⟩).link = ⟨Image.dot,0⟩ ∧ (entries.get ⟨1,dslot_one⟩).link = ⟨Image.dotdot,0⟩

-- Formatting ends well, leaves a disk that any structure can be mounted from, and
-- writes nothing but headers to the first block.
def FormatMounts (s : Mount) (nblocks : UInt32) (defaultPerms defISz defFSz defDSz : UInt8) : Prop :=
  ∃ s',formatVolume s nblocks defaultPerms defISz defFSz defDSz = some s' ∧ s'.vol.outcome = .success ∧
    (∀ fresh : Volume,fresh.blk0 = s.vol.blk0 →
      (loadVolume ⟨fresh,s'.disk⟩).vol.outcome = .success ∧ (loadVolume ⟨fresh,s'.disk⟩).RootFound) ∧
    ∃ new,s'.disk.trace = new ++ s.disk.trace ∧
      ∀ x done,Access.wr s.vol.blk0 x done ∈ new → x = .hblock

end Mount

-- A device without failures.
structure Disk.Works (d : Disk) : Prop where
  reads : ∀ t x,d.rdFails t x = false
  writes : ∀ t x,d.wrFails t x = false

theorem Disk.Works.sound {d : Disk} (w : d.Works) : d.Sound := ⟨fun t => w.reads t _,w.writes⟩

namespace Mount
section Format
variable {s : Mount} {nblocks : UInt32} {defaultPerms defISz defFSz defDSz : UInt8}

theorem rootSaved_load {t : Mount} (marked : t.vol.hblock.Marked) (reads : ∀ n x,t.disk.rdFails n x = false)
    (perm : UInt8) (c : DBlock) (fresh : Volume) (base : fresh.blk0 = t.vol.blk0) :
    ∃ d : Disk,loadVolume ⟨fresh,(t.rootSaved perm c).disk⟩ = (⟨{fresh with
        hblock := (t.rootVolume perm c).hblock,icindex := minusOne,dcaddr := minusOne,xcaddr := minusOne},d⟩ :
          Mount).out .success ∧ d.blk = (t.rootSaved perm c).disk.blk := by
  have block : (t.rootSaved perm c).disk.blk (fresh.blk0 + 0) = headerLayout (t.rootVolume perm c).hblock := by
    rw [base]
    exact if_pos rfl
  refine ⟨{(t.rootSaved perm c).disk with
    trace := .rd (fresh.blk0 + 0) .hblock true :: (t.rootSaved perm c).disk.trace},?_,rfl⟩
  unfold loadVolume
  rw [rblk_ok (by exact reads _ _)]
  dsimp only
  rw [block,Equiv.symm_apply_apply,if_neg (by exact not_not.mpr marked.ident)]
  rfl

theorem format_found (works : s.disk.Works) (passes : Passes nblocks defISz defFSz defDSz) (miss : s.vol.icindex ≠ 0) :
    FormatMounts s nblocks defaultPerms defISz defFSz defDSz := by
  obtain ⟨c,run,dot,dotdot⟩ := format_eq defaultPerms works.sound passes
  have a := formatTable_tabled nblocks defaultPerms defISz defFSz defDSz works.sound
  obtain ⟨regs,tidy,addr⟩ := formatTable_regs nblocks defaultPerms defISz defFSz defDSz works.sound miss
  have trace := formatTable_trace nblocks defaultPerms defISz defFSz defDSz works.sound miss
  have next := a.next
  rw [if_neg miss] at next
  have isz := passes.isz_pos
  have dsz := passes.dsz_pos
  have small := defISz.toNat_lt
  generalize s.formatTable nblocks defaultPerms defISz defFSz defDSz = t at *
  have word : t.vol.hblock.nextBlock = UInt32.ofNat (1 + defISz.toNat) := by rw [← next]; exact UInt32.ofNat_toNat.symm
  have used : t.vol.hblock.nextBlock ≠ 0 := by
    intro zero
    rw [zero] at next
    have none : (0 : UInt32).toNat = 0 := rfl
    omega
  obtain ⟨header,table,entries⟩ := rootSaved_at word (by omega) (by omega) addr defaultPerms c
  obtain ⟨rootRegs,_⟩ := rootInode_regs used defaultPerms
  rw [next,a.dlen] at rootRegs
  refine ⟨_,run,rfl,?_,?_⟩
  · intro fresh base
    obtain ⟨d,load,blk⟩ := rootSaved_load a.marked (by rw [a.rdFails]; exact works.reads) defaultPerms c _
      (base.trans a.blk0.symm)
    rw [load]
    refine ⟨rfl,1,?_,?_⟩
    · have scan := iblockScan_eq t.vol.hblock.rows 0 (i := 0) (n := 0) (Nat.zero_le _)
      have first : (blocks (regions t.vol.hblock.rows))[(0 : UInt32).toNat - 0]? = some 1 := by
        rw [show regions t.vol.hblock.rows = [⟨1,defISz.toNat⟩] from regs]
        simp [blocks_cons,Region.blocks,isz]
      rw [HBlock.length_rows,first] at scan
      show iblockScan t.vol.hblock.rows t.vol.hblock.separator.toNat 0 0 0 = _
      rw [a.marked.separator]
      exact scan
    · have root : (iblockLayout.symm (d.blk (fresh.blk0 + 1))).get ⟨0,islot_pos⟩ = t.rootInode defaultPerms := by
        have block : d.blk (fresh.blk0 + 1) = iblockLayout (t.rootVolume defaultPerms c).icache := by
          rw [blk,base,← a.blk0]; exact table
        simp only [block,Equiv.symm_apply_apply]
        exact Vector.getElem_set_self _
      have first : (t.rootInode defaultPerms).blk 0 = UInt32.ofNat (1 + defISz.toNat) := by
        refine Inode.blk_some ?_
        rw [rootRegs]
        simp [blocks_cons,Region.blocks,dsz]
      have content : dblockLayout.symm (d.blk (fresh.blk0 + UInt32.ofNat (1 + defISz.toNat))) = c := by
        have block : d.blk (fresh.blk0 + UInt32.ofNat (1 + defISz.toNat)) = dblockLayout c := by
          rw [blk,base,← a.blk0]; exact entries
        rw [block,Equiv.symm_apply_apply]
      have place : ∀ o : Outcome,((⟨{fresh with
          hblock := (t.rootVolume defaultPerms c).hblock,icindex := minusOne,dcaddr := minusOne,
          xcaddr := minusOne},d⟩ : Mount).out o).vol.blk0 = fresh.blk0 := fun _ => rfl
      simp only [out_disk,place,root,first,content]
      exact ⟨rfl,rfl,by rw [← word]; exact used,dot,dotdot⟩
  · refine ⟨[.wr (t.vol.blk0 + 0) .hblock true,.wr (t.vol.blk0 + t.vol.icaddr) .icache true,
      .wr (t.vol.blk0 + t.vol.hblock.nextBlock) .dcache true,.wr (s.vol.blk0 + 0) .hblock true],?_,?_⟩
    · show _ :: _ :: _ :: t.disk.trace = _
      rw [trace]
      rfl
    · have shift : ∀ k : UInt32,k ≠ 0 → s.vol.blk0 ≠ t.vol.blk0 + k := by
        intro k other equal
        rw [a.blk0] at equal
        exact other (UInt32.left_eq_add.mp equal)
      intro x done member
      simp only [List.mem_cons,Access.wr.injEq,List.not_mem_nil,or_false] at member
      rcases member with ⟨_,rfl,_⟩ | ⟨equal,_⟩ | ⟨equal,_⟩ | ⟨_,rfl,_⟩
      · rfl
      · exact absurd equal (shift _ (by rw [addr]; decide))
      · exact absurd equal (shift _ used)
      · rfl

theorem format_lost (works : s.disk.Works) (passes : Passes nblocks defISz defFSz defDSz) (hit : s.vol.icindex = 0) :
    ¬ FormatMounts s nblocks defaultPerms defISz defFSz defDSz := by
  rintro ⟨s',run',_,mounts,_⟩
  obtain ⟨c,run,_⟩ := format_eq defaultPerms works.sound passes
  have a := formatTable_tabled nblocks defaultPerms defISz defFSz defDSz works.sound
  have empty : (s.formatTable nblocks defaultPerms defISz defFSz defDSz).vol.hblock.regs = [] := by
    unfold formatTable
    simp only [if_pos hit]
    exact (formatHeader_regs ..).1
  generalize s.formatTable nblocks defaultPerms defISz defFSz defDSz = t at *
  rw [run] at run'
  injection run' with same
  subst same
  obtain ⟨_,ibaddr,found,_⟩ := mounts {s.vol with blk0 := s.vol.blk0} rfl
  obtain ⟨d,load,_⟩ := rootSaved_load a.marked (by rw [a.rdFails]; exact works.reads) defaultPerms c
    {s.vol with blk0 := s.vol.blk0} a.blk0.symm
  rw [load] at found
  have scan := iblockScan_eq t.vol.hblock.rows 0 (i := 0) (n := 0) (Nat.zero_le _)
  have none : (blocks (regions t.vol.hblock.rows))[(0 : UInt32).toNat - 0]? = none := by
    rw [show regions t.vol.hblock.rows = [] from empty]; rfl
  rw [HBlock.length_rows,none] at scan
  have found' : iblockScan t.vol.hblock.rows t.vol.hblock.separator.toNat 0 0 0 = .found ibaddr := found
  rw [a.marked.separator] at found'
  have stop := scan.symm.trans found'
  cases stop

-- The inode cache must not claim to hold the first block of the inode table.
theorem format_mounts_iff (works : s.disk.Works) (passes : Passes nblocks defISz defFSz defDSz) :
    FormatMounts s nblocks defaultPerms defISz defFSz defDSz ↔ s.vol.icindex ≠ 0 :=
  ⟨fun mounts hit => format_lost works passes hit mounts,format_found works passes⟩

end Format

-- The structure before anything is loaded, but with the tags that fs2_load_volume
-- gives to its caches.
def unloadedVolume : Volume := {zeroVolume with icindex := minusOne,dcaddr := minusOne,xcaddr := minusOne}

theorem zeroDisk_works : zeroDisk.Works := ⟨fun _ _ => rfl,fun _ _ => rfl⟩

theorem passes_boot : Passes 100 4 1 2 := ⟨by decide,by decide,by decide,by decide⟩

theorem format_mounts_unloaded :
    FormatMounts ⟨unloadedVolume,zeroDisk⟩ 100 3 4 1 2 ↔ (⟨unloadedVolume,zeroDisk⟩ : Mount).vol.icindex ≠ 0 :=
  format_mounts_iff zeroDisk_works passes_boot

-- What the kernel does when it boots from an empty disk.
theorem format_boot_lost :
    zeroDisk.Works ∧ Passes 100 4 1 2 ∧ ¬ FormatMounts ⟨zeroVolume,zeroDisk⟩ 100 3 4 1 2 :=
  ⟨zeroDisk_works,passes_boot,format_lost zeroDisk_works passes_boot rfl⟩

end Mount
end ArchiveOs.Fs2
