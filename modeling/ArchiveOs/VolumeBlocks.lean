import ArchiveOs.VolumeData

-- Loading and saving blocks, the three caches and the allocation of regions
-- (first part of fs2.c). `none` is the source leaving what C defines: a table
-- read outside its bounds, a division by zero, or a loop that never ends.
namespace ArchiveOs.Fs2
open Layout

def Mount.out (s : Mount) (o : Outcome) : Mount := {s with vol := {s.vol with outcome := o}}

def Mount.withHblock (s : Mount) (h : HBlock) : Mount := {s with vol := {s.vol with hblock := h}}

-- fs2_rblk and fs2_wblk; the buffer names what the source passes a pointer to.
def rblk (s : Mount) (blkindex : UInt32) (out : Buffer) : Mount × Option Block :=
  let (d,b) := s.disk.rd (s.vol.blk0 + blkindex) out
  ({s with disk := d},b)

def wblk (s : Mount) (blkindex : UInt32) (src : Buffer) (b : Block) : Mount × Bool :=
  let (d,done) := s.disk.wr (s.vol.blk0 + blkindex) src b
  ({s with disk := d},done)

def Mount.wrOutcome : Mount × Bool → Mount
  | (s,true) => s.out .success
  | (s,false) => s.out .diskWrErr

def saveIblockC (s : Mount) : Mount :=
  .wrOutcome (wblk s s.vol.icaddr .icache (iblockLayout s.vol.icache))

def saveHblock (s : Mount) : Mount :=
  .wrOutcome (wblk s 0 .hblock (headerLayout s.vol.hblock))

-- The scan for a free region starts at `separator` and counts down while the
-- index is below 800: with separator < 800 it runs off the front of the table.
def findFreeRegion (s : Mount) (rsz : UInt8) (save : Bool) : Option (Mount × UInt32) :=
  if s.vol.hblock.separator.toNat < 800 then none
  else
    let onb := s.vol.hblock.nextBlock
    let nnb := onb + rsz.toUInt32
    if nnb > s.vol.hblock.nblocks then some (s.out .diskFull,0)
    else
      let s := s.withHblock {s.vol.hblock with nextBlock := nnb}
      if save then some (saveHblock s,onb) else some (s.out .success,onb)

-- A region table, row by row.
def HBlock.rows (h : HBlock) : List (UInt32 × UInt8) := (h.regStart.zip h.regLen).toList
def Inode.rows (n : Inode) : List (UInt32 × UInt8) := (n.regStart.zip n.regLen).toList

inductive IblockScan where
  | found (ibaddr : UInt32)
  | stop (i : Nat)
  | outside

-- The loop of fs2_get_iblock; `n` blocks lie in the `i` regions passed so far.
def iblockScan : List (UInt32 × UInt8) → (separator i n : Nat) → (ibindex : UInt32) → IblockScan
  | [],separator,i,_,_ => if i < separator then .outside else .stop i
  | (start,len) :: rows,separator,i,n,ibindex =>
    if i < separator ∧ start ≠ 0 then
      let b := n + len.toNat
      if ibindex.toNat < b then .found (start + ibindex - UInt32.ofNat n)
      else iblockScan rows separator (i + 1) b ibindex
    else .stop i

-- Reads the iblock into the inode cache, or allocates it without reading.
def getIblock (s : Mount) (ibindex : UInt32) (saveH : Bool) : Option (Mount × UInt32) :=
  let h := s.vol.hblock
  match iblockScan h.rows h.separator.toNat 0 0 ibindex with
  | .outside => none
  | .found ibaddr =>
    match rblk s ibaddr .icache with
    | (s,none) => some (s.out .diskRdErr,ibaddr)
    | (s,some b) => some (({s with vol := {s.vol with icache := iblockLayout.symm b}}).out .success,ibaddr)
  | .stop i =>
    if i = h.separator.toNat then some (s.out .hblockFull,0)
    else do
      let (s,nregStart) ← findFreeRegion s h.defaultIregLen false
      if nregStart = 0 then some (s,0)
      else
        let s := s.withHblock {s.vol.hblock with
          regStart := s.vol.hblock.regStart.setIfInBounds i nregStart
          regLen := s.vol.hblock.regLen.setIfInBounds i s.vol.hblock.defaultIregLen}
        if saveH then some (saveHblock s,nregStart) else some (s.out .success,nregStart)

-- The part of fs2_get_iblock_c behind the eviction of the old block: the index
-- is set first, the address once the block has been found.
def cacheIblock (s : Mount) (ibindex : UInt32) (saveH : Bool) : Option Mount := do
  let s : Mount := {s with vol := {s.vol with icindex := ibindex}}
  let (s,icaddr) ← getIblock s ibindex saveH
  let s : Mount := {s with vol := {s.vol with icaddr := icaddr}}
  if s.vol.outcome ≠ .success then some s else some (s.out .success)

def getIblockC (s : Mount) (ibindex : UInt32) (saveH savechanges : Bool) : Option Mount :=
  if ibindex ≠ s.vol.icindex then
    if savechanges then
      let s := saveIblockC s
      if s.vol.outcome ≠ .success then some s else cacheIblock s ibindex saveH
    else cacheIblock s ibindex saveH
  else some (s.out .success)

-- If `dry` is set, only the address changes.
def loadDblockC (s : Mount) (daddr : UInt32) (dry : Bool) : Mount :=
  if daddr ≠ s.vol.dcaddr then
    if dry then ({s with vol := {s.vol with dcaddr := daddr}}).out .success
    else
      match rblk s daddr .dcache with
      | (s,none) => s.out .diskRdErr
      | (s,some b) => ({s with vol := {s.vol with dcache := dblockLayout.symm b,dcaddr := daddr}}).out .success
  else s.out .success

def saveDblockC (s : Mount) : Mount :=
  .wrOutcome (wblk s s.vol.dcaddr .dcache (dblockLayout s.vol.dcache))

def loadGpC (s : Mount) (baddr : UInt32) (dry : Bool) : Mount :=
  if baddr ≠ s.vol.xcaddr then
    if dry then ({s with vol := {s.vol with xcaddr := baddr}}).out .success
    else
      match rblk s baddr .xcache with
      | (s,none) => s.out .diskRdErr
      | (s,some b) => ({s with vol := {s.vol with xcache := b,xcaddr := baddr}}).out .success
  else s.out .success

def saveGpC (s : Mount) : Mount :=
  .wrOutcome (wblk s s.vol.xcaddr .xcache s.vol.xcache)

-- "CWFS 2.1"
def cwfsIdent : Bytes 8 := #v[0x43,0x57,0x46,0x53,0x20,0x32,0x2E,0x31]

-- strncmp over eight bytes none of which is NUL compares all of them.
def loadVolume (s : Mount) : Mount :=
  match rblk s 0 .hblock with
  | (s,none) => s.out .diskRdErr
  | (s,some b) =>
    let s := s.withHblock (headerLayout.symm b)
    if s.vol.hblock.ident ≠ cwfsIdent then s.out .invalidFs
    else ({s with vol := {s.vol with icindex := minusOne,dcaddr := minusOne,xcaddr := minusOne}}).out .success

-- The inode cache, as the pointers `&vol->icache.inodes[i % 32]` see it.
def Mount.cached (s : Mount) (iindex : UInt32) : Inode := s.vol.icache[iindex.toNat % 32]
def Mount.setCached (s : Mount) (iindex : UInt32) (n : Inode) : Mount :=
  {s with vol := {s.vol with icache := s.vol.icache.set (iindex.toNat % 32) n}}

-- The directory block cache.
def Mount.entry (s : Mount) (k : Nat) : DirEntry := s.vol.dcache[k % 128]
def Mount.setEntry (s : Mount) (k : Nat) (e : DirEntry) : Mount :=
  {s with vol := {s.vol with dcache := s.vol.dcache.set (k % 128) e}}

def findBlk : List (UInt32 × UInt8) → (bindex n : Nat) → UInt32
  | [],_,_ => 0
  | (start,len) :: rows,bindex,n =>
    if start ≠ 0 then
      let j := n + len.toNat
      if bindex < j then start + UInt32.ofNat bindex - UInt32.ofNat n else findBlk rows bindex j
    else 0

end ArchiveOs.Fs2
