import ArchiveOs.Layout

-- The data of a CWFS 2.1 volume (fs2.h) and of the disk it lives on (disk.h).
namespace ArchiveOs.Fs2
open Layout

abbrev blockSz : Nat := 4096
abbrev Block := Bytes 4096

abbrev ftypeDir : UInt8 := 0
abbrev ftypeFile : UInt8 := 1
abbrev uRead : UInt8 := 1
abbrev uWrite : UInt8 := 2
theorem islot_pos : 0 < 32 := by decide
theorem dslot_pos : 0 < 128 := by decide
theorem dslot_one : 1 < 128 := by decide
theorem row_pos : 0 < 23 := by decide
theorem islot_lt (i : Nat) : i % 32 < 32 := Nat.mod_lt i islot_pos
theorem dslot_lt (k : Nat) : k % 128 < 128 := Nat.mod_lt k dslot_pos

-- fs2_inode_t, 128 bytes.
structure Inode where
  ftype : UInt8
  fperm : UInt8
  unused : Bytes 3
  regLen : Vector UInt8 23
  eof : UInt32
  iparent : UInt32
  regStart : Vector UInt32 23

-- fs2_dir_entry_t, 32 bytes.
structure DirEntry where
  inodeIndex : UInt32
  name : Bytes 28

abbrev IBlock := Vector Inode 32
abbrev DBlock := Vector DirEntry 128

-- fs2_hblock_t, 4096 bytes.
structure HBlock where
  ident : Bytes 8
  defaultPerm : UInt8
  defaultIregLen : UInt8
  defaultFregLen : UInt8
  defaultDregLen : UInt8
  nblocks : UInt32
  nextInode : UInt32
  nextBlock : UInt32
  unused : Bytes 70
  separator : UInt16
  regStart : Vector UInt32 800
  regLen : Vector UInt8 800

private def inodeFields : Inode ≃ UInt8 × UInt8 × Bytes 3 × Bytes 23 × UInt32 × UInt32 × Vector UInt32 23 where
  toFun n := (n.ftype,n.fperm,n.unused,n.regLen,n.eof,n.iparent,n.regStart)
  invFun x := ⟨x.1,x.2.1,x.2.2.1,x.2.2.2.1,x.2.2.2.2.1,x.2.2.2.2.2.1,x.2.2.2.2.2.2⟩
  left_inv _ := rfl
  right_inv _ := rfl

def inodeLayout : Layout Inode 128 :=
  inodeFields.trans (pair byte (pair byte (pair (bytes 3) (pair (bytes 23)
    (pair word32 (pair word32 (array word32 23 word_pos)))))))

private def entryFields : DirEntry ≃ UInt32 × Bytes 28 where
  toFun e := (e.inodeIndex,e.name)
  invFun x := ⟨x.1,x.2⟩
  left_inv _ := rfl
  right_inv _ := rfl

def entryLayout : Layout DirEntry 32 := entryFields.trans (pair word32 (bytes 28))

private def headerFields : HBlock ≃ Bytes 8 × UInt8 × UInt8 × UInt8 × UInt8 × UInt32 × UInt32 × UInt32 ×
    Bytes 70 × UInt16 × Vector UInt32 800 × Bytes 800 where
  toFun h := (h.ident,h.defaultPerm,h.defaultIregLen,h.defaultFregLen,h.defaultDregLen,h.nblocks,
    h.nextInode,h.nextBlock,h.unused,h.separator,h.regStart,h.regLen)
  invFun x := ⟨x.1,x.2.1,x.2.2.1,x.2.2.2.1,x.2.2.2.2.1,x.2.2.2.2.2.1,x.2.2.2.2.2.2.1,x.2.2.2.2.2.2.2.1,
    x.2.2.2.2.2.2.2.2.1,x.2.2.2.2.2.2.2.2.2.1,x.2.2.2.2.2.2.2.2.2.2.1,x.2.2.2.2.2.2.2.2.2.2.2⟩
  left_inv _ := rfl
  right_inv _ := rfl

-- The casts of the source between a block and its three views.
@[irreducible] def headerLayout : Layout HBlock blockSz :=
  headerFields.trans (pair (bytes 8) (pair byte (pair byte (pair byte (pair byte (pair word32
    (pair word32 (pair word32 (pair (bytes 70) (pair word16
      (pair (array word32 800 word_pos) (bytes 800))))))))))))

@[irreducible] def iblockLayout : Layout IBlock blockSz := array inodeLayout 32 (by decide)
@[irreducible] def dblockLayout : Layout DBlock blockSz := array entryLayout 128 (by decide)

inductive Outcome where
  | success | invalidFs | badFormatArgs | diskRdErr | diskWrErr | hblockFull | diskFull | fileFull
  | unexpectedFile | invalidPath | noFile | badFtype | badPermissions
  deriving DecidableEq, Repr

-- The kernel buffer that a block is read into or written from.
inductive Buffer where
  | hblock | icache | dcache | xcache
  deriving DecidableEq, Repr

inductive Access where
  | rd (address : UInt32) (buffer : Buffer) (done : Bool)
  | wr (address : UInt32) (buffer : Buffer) (done : Bool)
  deriving DecidableEq, Repr

-- The device: which of its requests fail is decided outside the program, by
-- their number and buffer. `trace` is the history of requests, latest first.
structure Disk where
  blk : UInt32 → Block
  rdFails : Nat → Buffer → Bool
  wrFails : Nat → Buffer → Bool
  trace : List Access

-- disk_rd leaves the buffer alone when it fails.
def Disk.rd (d : Disk) (a : UInt32) (x : Buffer) : Disk × Option Block :=
  if d.rdFails d.trace.length x then ({d with trace := .rd a x false :: d.trace},none)
  else ({d with trace := .rd a x true :: d.trace},some (d.blk a))

def Disk.wr (d : Disk) (a : UInt32) (x : Buffer) (b : Block) : Disk × Bool :=
  if d.wrFails d.trace.length x then ({d with trace := .wr a x false :: d.trace},false)
  else ({d with blk := fun c => if c = a then b else d.blk c,trace := .wr a x true :: d.trace},true)

-- fs2_volume_t.
structure Volume where
  blk0 : UInt32
  outcome : Outcome
  hblock : HBlock
  icindex : UInt32
  icaddr : UInt32
  icache : IBlock
  dcaddr : UInt32
  dcache : DBlock
  xcaddr : UInt32
  xcache : Block

-- What every function of fs2.c works on: the volume structure and the disk.
structure Mount where
  vol : Volume
  disk : Disk

abbrev minusOne : UInt32 := 0xFFFFFFFF

-- The volume structure of the kernel before it has loaded anything, all of it zero,
-- and a disk that has never been written.
def zeroInode : Inode := ⟨0,0,Vector.replicate 3 0,Vector.replicate 23 0,0,0,Vector.replicate 23 0⟩
def zeroHeader : HBlock where
  ident := Vector.replicate 8 0
  defaultPerm := 0
  defaultIregLen := 0
  defaultFregLen := 0
  defaultDregLen := 0
  nblocks := 0
  nextInode := 0
  nextBlock := 0
  unused := Vector.replicate 70 0
  separator := 0
  regStart := Vector.replicate 800 0
  regLen := Vector.replicate 800 0

def zeroVolume : Volume where
  blk0 := 0
  outcome := .success
  hblock := zeroHeader
  icindex := 0
  icaddr := 0
  icache := Vector.replicate 32 zeroInode
  dcaddr := 0
  dcache := Vector.replicate 128 ⟨0,Vector.replicate 28 0⟩
  xcaddr := 0
  xcache := Vector.replicate 4096 0

def zeroDisk : Disk := ⟨fun _ => Vector.replicate 4096 0,fun _ _ => false,fun _ _ => false,[]⟩

end ArchiveOs.Fs2
