import ArchiveOs.Formats
import ArchiveOs.Writes

-- fs2_read on any mounted volume: finding a file leaves the general purpose cache alone,
-- and what is copied then are the bytes of the file.
namespace ArchiveOs.Fs2
open Extents Layout

namespace Mount

-- Nothing has been written, and nothing read through the general purpose cache.
structure Aside (s s' : Mount) : Prop where
  blk0 : s'.vol.blk0 = s.vol.blk0
  blk : s'.disk.blk = s.disk.blk
  rdFails : s'.disk.rdFails = s.disk.rdFails
  xcaddr : s'.vol.xcaddr = s.vol.xcaddr
  xcache : s'.vol.xcache = s.vol.xcache
  wrFails : s'.disk.wrFails = s.disk.wrFails
  asked : ∃ new,s'.disk.trace = new ++ s.disk.trace ∧ ∀ x ∈ new,∃ a y done,x = .rd a y done ∧ y ≠ .xcache

namespace Aside
variable {s s' s'' : Mount}

theorem refl (s : Mount) : Aside s s := ⟨rfl,rfl,rfl,rfl,rfl,rfl,[],rfl,fun _ member => (by cases member)⟩

theorem trans (a : Aside s s') (b : Aside s' s'') : Aside s s'' := by
  refine ⟨b.blk0.trans a.blk0,b.blk.trans a.blk,b.rdFails.trans a.rdFails,b.xcaddr.trans a.xcaddr,b.xcache.trans a.xcache,
    b.wrFails.trans a.wrFails,?_⟩
  obtain ⟨new,trace,reads⟩ := a.asked
  obtain ⟨new',trace',reads'⟩ := b.asked
  refine ⟨new' ++ new,by rw [trace',trace,List.append_assoc],fun x member => ?_⟩
  rcases List.mem_append.mp member with late | early
  · exact reads' x late
  · exact reads x early

theorem memory (a : Aside s s') (disk : s''.disk = s'.disk) (blk0 : s''.vol.blk0 = s'.vol.blk0)
    (xcaddr : s''.vol.xcaddr = s'.vol.xcaddr) (xcache : s''.vol.xcache = s'.vol.xcache) : Aside s s'' := by
  refine ⟨blk0.trans a.blk0,?_,?_,xcaddr.trans a.xcaddr,xcache.trans a.xcache,?_,?_⟩
  · rw [disk]; exact a.blk
  · rw [disk]; exact a.rdFails
  · rw [disk]; exact a.wrFails
  · rw [disk]; exact a.asked

theorem out (a : Aside s s') (o : Outcome) : Aside s (s'.out o) := a.memory rfl rfl rfl rfl

theorem at_eq (a : Aside s s') : s'.at = s.at := by
  funext b
  unfold Mount.at
  rw [a.blk0,a.blk]

end Aside

theorem rblk_aside {s t : Mount} {a : UInt32} {x : Buffer} {found : Option Block} (other : x ≠ .xcache)
    (run : rblk s a x = (t,found)) : Aside s t := by
  have asks : ∀ done,Aside s (s.seen (.rd (s.vol.blk0 + a) x done)) := by
    exact fun done => ⟨rfl,rfl,rfl,rfl,rfl,rfl,[_],rfl,fun b member => ⟨_,x,done,List.mem_singleton.mp member,other⟩⟩
  cases bad : s.disk.rdFails s.disk.trace.length x with
  | true =>
      rw [rblk_fault bad] at run
      cases run
      exact asks false
  | false =>
      rw [rblk_ok bad] at run
      cases run
      exact asks true

theorem findFreeRegion_aside {s t : Mount} {rsz : UInt8} {a : UInt32} (run : findFreeRegion s rsz false = some (t,a)) :
    Aside s t := by
  unfold findFreeRegion at run
  split at run
  · cases run
  · dsimp only at run
    split at run
    · cases run
      exact (Aside.refl s).out _
    · simp only [Bool.false_eq_true,if_false] at run
      cases run
      exact (Aside.refl s).memory rfl rfl rfl rfl

theorem getIblock_aside {s t : Mount} {q a : UInt32} (run : getIblock s q false = some (t,a)) : Aside s t := by
  unfold getIblock at run
  dsimp only at run
  split at run
  · cases run
  · split at run
    · rename_i read
      cases run
      exact (rblk_aside (by decide) read).out _
    · rename_i read
      cases run
      exact (rblk_aside (by decide) read).memory rfl rfl rfl rfl
  · split at run
    · cases run
      exact (Aside.refl s).out _
    · cases region : findFreeRegion s s.vol.hblock.defaultIregLen false with
      | none =>
          rw [region] at run
          cases run
      | some r =>
          rw [region] at run
          have taken := findFreeRegion_aside region
          simp only [Option.bind_eq_bind,Option.bind_some,Bool.false_eq_true,if_false] at run
          split at run
          · cases run
            exact taken
          · cases run
            exact taken.memory rfl rfl rfl rfl

theorem getIblockC_aside {s t : Mount} {q : UInt32} (run : getIblockC s q false false = some t) : Aside s t := by
  unfold getIblockC at run
  simp only [Bool.false_eq_true,if_false] at run
  split at run
  · rw [cacheIblock_eq] at run
    obtain ⟨r,block,rfl⟩ := Option.map_eq_some_iff.mp run
    have indexed : Aside s (s.indexed q) := (Aside.refl s).memory rfl rfl rfl rfl
    have loaded := indexed.trans (getIblock_aside block)
    dsimp only
    split
    · exact loaded.memory rfl rfl rfl rfl
    · exact loaded.memory rfl rfl rfl rfl
  · cases run
    exact (Aside.refl s).out _

theorem loadDblockC_aside (s : Mount) (a : UInt32) : Aside s (loadDblockC s a false) := by
  unfold loadDblockC
  split
  · rw [if_neg Bool.false_ne_true]
    split
    · rename_i read
      exact (rblk_aside (by decide) read).out _
    · rename_i read
      exact (rblk_aside (by decide) read).memory rfl rfl rfl rfl
  · exact (Aside.refl s).out _

theorem findInDirLoop_aside {dinode : Inode} {name : List UInt8} {len : Nat} (n : Nat) {s t : Mount} {x : UInt32}
    {k i j : Nat} (run : findInDirLoop dinode name len n s k i j = some (t,x)) : Aside s t := by
  induction n generalizing s k i j with
  | zero =>
      cases run
      exact (Aside.refl s).out _
  | succ n ih =>
      unfold findInDirLoop at run
      dsimp only at run
      have next : ∀ {u : Mount} {i j : Nat},Aside s u →
          (if strncmpEq (u.entry k).name.toList name len then some (u.out .success,(u.entry k).inodeIndex)
            else findInDirLoop dinode name len n u (k + 1) i j) = some (t,x) → Aside s t := by
        intro u i j loaded found
        split at found
        · cases found
          exact loaded.out _
        · exact loaded.trans (ih found)
      split at run
      · split at run
        · cases run
        · have loaded := loadDblockC_aside s
          split at run
          · cases run
            exact loaded _
          · split at run
            · cases run
              exact (loaded _).out _
            · split at run
              · cases run
                exact (loaded _).out _
              · exact next (loaded _) run
      · exact next (Aside.refl s) run

theorem findInDirR_aside {s t : Mount} {d x : UInt32} {name : List UInt8} {len : Nat}
    (run : findInDirR s d name len = some (t,x)) : Aside s t := by
  unfold findInDirR at run
  cases load : getIblockC s (d / 32) false false with
  | none =>
      rw [load] at run
      cases run
  | some u =>
      rw [load] at run
      have loaded := getIblockC_aside load
      simp only [Option.bind_eq_bind,Option.bind_some] at run
      split at run
      · cases run
        exact loaded
      · split at run
        · cases run
          exact loaded.out _
        · exact loaded.trans (findInDirLoop_aside _ run)

theorem findFileLoop_aside {s t : Mount} {d x : UInt32} {cursor : List UInt8} {p : Option UInt32}
    (run : findFileLoop s d cursor = some (t,x,p)) : Aside s t := by
  rw [findFileLoop] at run
  split at run
  · cases run
    exact (Aside.refl s).out _
  · split at run
    · cases run
    · rename_i u child look
      have looked := findInDirR_aside look
      split at run
      · cases run
        exact looked
      · split at run
        · cases run
          exact looked.out _
        · rename_i c rest more
          exact looked.trans (findFileLoop_aside run)
termination_by cursor.length
decreasing_by exact walk_shorter _ _ _ ‹_›

theorem findFile_aside {s t : Mount} {x : UInt32} {path : List UInt8} {p : Option UInt32}
    (run : findFile s path = some (t,x,p)) : Aside s t := by
  unfold findFile at run
  split at run
  · cases run
    exact (Aside.refl s).out _
  · cases load : getIblockC s 0 false false with
    | none =>
        rw [load] at run
        cases run
    | some u =>
        rw [load] at run
        exact (getIblockC_aside load).trans (findFileLoop_aside run)

-- A path leads to the inode i, which is in the cache then.
def Leading (s : Mount) (path : Path) (t : Mount) (i : UInt32) : Prop :=
  ∃ u p,findFile s path.bytes = some (u,i,p) ∧ u.vol.outcome = .success ∧
    getIblockC u (i / 32) false false = some t ∧ t.vol.outcome = .success

-- The bytes from the cursor on have been copied, from blocks of the file only.
structure Copied (s : Mount) (inode : Inode) (nbytes cursor : UInt32) (s' : Mount) (n : Int) (out : List UInt8) : Prop where
  count : n = if cursor.toNat < inode.eof.toNat then ((min nbytes.toNat (inode.eof.toNat - cursor.toNat) : Nat) : Int) else 0
  bytes : out = ((s.contents inode).drop cursor.toNat).take nbytes.toNat
  stored : n = out.length
  asked : ∃ new,s'.disk.trace = new ++ s.disk.trace ∧ ∀ a done,Access.rd a .xcache done ∈ new →
    ∃ b ∈ blocks inode.regs,a = s.vol.blk0 + UInt32.ofNat b

variable {s t : Mount} {path : Path} {i : UInt32} {inode : Inode}

theorem Leading.success (leading : s.Leading path t i) : t.vol.outcome = .success := by
  obtain ⟨_,_,_,_,_,success⟩ := leading
  exact success

theorem Leading.aside (leading : s.Leading path t i) : Aside s t := by
  obtain ⟨_,_,found,_,load,_⟩ := leading
  exact (findFile_aside found).trans (getIblockC_aside load)

theorem Leading.read (leading : s.Leading path t i) (file : (t.cached i).ftype = ftypeFile) (nbytes cursor : UInt32) :
    read s path nbytes cursor = some (readFile t (t.cached i) nbytes cursor) := by
  obtain ⟨u,p,found,success,load,success'⟩ := leading
  rw [read_eq,found]
  simp only [Option.bind_eq_bind,Option.bind_some]
  rw [if_neg (not_not.mpr success),load]
  simp only [Option.bind_some]
  rw [if_neg (not_not.mpr success'),if_neg (not_not.mpr file)]

theorem Leading.write (leading : s.Leading path t i) (file : (t.cached i).ftype = ftypeFile) (src : Nat → UInt8)
    (nbytes cursor : UInt32) : write s path src nbytes cursor = writeFile t i src nbytes cursor := by
  obtain ⟨u,p,found,success,load,success'⟩ := leading
  rw [write_eq,found]
  simp only [Option.bind_eq_bind,Option.bind_some]
  rw [if_neg (not_not.mpr success),load]
  simp only [Option.bind_some]
  rw [if_neg (not_not.mpr success'),if_neg (not_not.mpr file)]

theorem length_copied (readable : s.Readable inode) (nbytes cursor : UInt32) :
    (((s.contents inode).drop cursor.toNat).take nbytes.toNat).length =
      if cursor.toNat < inode.eof.toNat then min nbytes.toNat (inode.eof.toNat - cursor.toNat) else 0 := by
  rw [List.length_take,List.length_drop,readable.length]
  split <;> omega

-- fs2_read of a path that leads to a file, with a disk that works; the permissions of
-- the file play no part.
theorem reads_bytes (works : s.disk.Works) (leading : s.Leading path t i) (file : (t.cached i).ftype = ftypeFile)
    (readable : s.Readable (t.cached i)) (nbytes cursor : UInt32) :
    ∃ s' n out,read s path nbytes cursor = some (s',n,out) ∧ s'.vol.outcome = .success ∧
      Copied s (t.cached i) nbytes cursor s' n out := by
  have aside := leading.aside
  have readable' : t.Readable (t.cached i) := by
    refine ⟨readable.enough,readable.small,readable.ondisk,?_⟩
    rw [aside.xcaddr,aside.xcache,aside.at_eq]
    exact readable.tagged
  obtain ⟨s',n,out,run,leafed,result⟩ := readFile_bytes readable' leading.success nbytes cursor
  have contents : t.contents (t.cached i) = s.contents (t.cached i) := by
    unfold contents
    rw [aside.at_eq]
  rcases result with ⟨_,success',bytes,count⟩ | ⟨_,⟨k,x,bad⟩,_⟩
  · refine ⟨s',n,out,by rw [leading.read file,run],success',?_,by rw [bytes,contents],count,?_⟩
    · rw [count,bytes,contents,length_copied readable]
      split <;> rfl
    · obtain ⟨new,trace,only⟩ := leafed.asked
      obtain ⟨new',trace',reads⟩ := aside.asked
      refine ⟨new ++ new',by rw [trace,trace',List.append_assoc],fun a done member => ?_⟩
      rcases List.mem_append.mp member with late | early
      · obtain ⟨b,inside,done',equal⟩ := only _ late
        cases equal
        exact ⟨b,inside,by rw [aside.blk0]⟩
      · obtain ⟨_,_,_,equal,other⟩ := reads _ early
        cases equal
        exact (other rfl).elim
  · rw [aside.rdFails,works.reads] at bad
    cases bad

-- A volume in whose inode cache there are files of five bytes, in block 1.
def shortInode : Inode :=
  {zeroInode with ftype := ftypeFile,fperm := uRead,eof := 5,regLen := Vector.replicate 23 1
                  regStart := (Vector.replicate 23 0).set 0 1}
def shortVolume : Volume := {unloadedVolume with icindex := 0,icache := Vector.replicate 32 shortInode}

theorem shortInode_blocks : blocks shortInode.regs = [1] := by decide +kernel

-- A file of 5000 bytes in the blocks 5 and 2, on a disk on which every block has its number.
def longInode : Inode := {shortInode with eof := 5000,regStart := ((Vector.replicate 23 0).set 0 5).set 1 2}
def longVolume : Volume := {unloadedVolume with icindex := 0,icache := Vector.replicate 32 longInode}
def numberedDisk : Disk := {zeroDisk with blk := fun b => Vector.replicate 4096 b.toUInt8}

theorem numberedDisk_works : numberedDisk.Works := ⟨fun _ _ => rfl,fun _ _ => rfl⟩

theorem longInode_blocks : blocks longInode.regs = [5,2] := by decide +kernel

theorem long_leading : (⟨longVolume,numberedDisk⟩ : Mount).Leading emptyPath ((⟨longVolume,numberedDisk⟩ : Mount).out .success) 0 :=
  ⟨_,none,rfl,rfl,rfl,rfl⟩

theorem long_cached : ((⟨longVolume,numberedDisk⟩ : Mount).out .success).cached 0 = longInode := Vector.getElem_replicate _

-- A read over the end of the first block.
theorem reads_bytes_long : numberedDisk.Works ∧
    (⟨longVolume,numberedDisk⟩ : Mount).Leading emptyPath ((⟨longVolume,numberedDisk⟩ : Mount).out .success) 0 ∧
    (⟨longVolume,numberedDisk⟩ : Mount).Readable longInode ∧
    ∃ s' n out,read ⟨longVolume,numberedDisk⟩ emptyPath 20 4090 = some (s',n,out) ∧ s'.vol.outcome = .success ∧
      Copied ⟨longVolume,numberedDisk⟩ longInode 20 4090 s' n out := by
  have readable : (⟨longVolume,numberedDisk⟩ : Mount).Readable longInode := by
    refine ⟨by decide +kernel,by decide,?_,?_⟩
    · rw [longInode_blocks]
      decide
    · rw [longInode_blocks]
      intro b member here
      rcases List.mem_cons.mp member with rfl | last
      · cases here
      · cases List.mem_singleton.mp last
        cases here
  have copied := reads_bytes numberedDisk_works long_leading (by rw [long_cached]; rfl) (by rw [long_cached]; exact readable) 20 4090
  rw [long_cached] at copied
  exact ⟨numberedDisk_works,long_leading,readable,copied⟩

end Mount
end ArchiveOs.Fs2
