import ArchiveOs.VolumeFiles

-- Reading, writing and creating by path, and the interface of the volume as one
-- machine (last part of fs2.c).
namespace ArchiveOs.Fs2
open Layout

def toInt (w : UInt32) : Int := if w.toNat < 2147483648 then w.toNat else (w.toNat : Int) - 4294967296

def slice (b : Block) (off len : Nat) : List UInt8 := (b.toList.drop off).take len

def patch (b : Block) (off len : Nat) (src : Nat → UInt8) : Block :=
  Vector.ofFn fun k => if off ≤ k.val ∧ k.val < off + len then src (k.val - off) else b[k.val]

def readLoop (inode : Inode) : (n : Nat) → (s : Mount) → (blkind rcount : Nat) → (out : List UInt8) →
    Mount × Nat × Nat × List UInt8 × Bool
  | 0,s,blkind,rcount,out => (s,blkind,rcount,out,false)
  | n + 1,s,blkind,rcount,out =>
    let blk := inode.blk (blkind + 1)
    if blk = 0 then (s,blkind + 1,rcount,out,true)
    else
      let s := loadGpC s blk false
      if s.vol.outcome ≠ .success then (s,blkind + 1,rcount,out,true)
      else readLoop inode n s (blkind + 1) (rcount + blockSz) (out ++ s.vol.xcache.toList)

def read (s : Mount) (path : Path) (nbytes cursor : UInt32) : Option (Mount × Int × List UInt8) := do
  let (s,iindex,_) ← findFile s path.bytes
  if s.vol.outcome ≠ .success then some (s,-1,[])
  else
    let s ← getIblockC s (iindex / 32) false false
    if s.vol.outcome ≠ .success then some (s,-1,[])
    else
      let inode := s.cached iindex
      if inode.ftype ≠ ftypeFile then some (s.out .badFtype,-1,[])
      -- `fperm & FS2_U_READ == 0` groups as `fperm & (FS2_U_READ == 0)`.
      else if inode.fperm &&& (if uRead = 0 then 1 else 0) ≠ 0 then some (s.out .badPermissions,-1,[])
      else
        let maxbytes := toInt (inode.eof - cursor)
        if maxbytes ≤ 0 then some (s,0,[])
        else
          let blkind := cursor.toNat / blockSz
          let blk := inode.blk blkind
          if blk = 0 then some (s,0,[])
          else
            let rbytes := min nbytes.toNat maxbytes.toNat
            let maxb1 := blockSz - cursor.toNat % blockSz
            let read1 := min rbytes maxb1
            let s := loadGpC s blk false
            if s.vol.outcome ≠ .success then some (s,-1,[])
            else
              let out := slice s.vol.xcache (cursor.toNat % blockSz) read1
              if read1 = rbytes then some (s,read1,out)
              else
                let (s,blkind,rcount,out,stopped) :=
                  readLoop inode ((rbytes - read1) / blockSz) s blkind read1 out
                if stopped ∨ rcount = rbytes then some (s,rcount,out)
                else
                  let s := loadGpC s (inode.blk (blkind + 1)) false
                  if s.vol.outcome ≠ .success then some (s,rcount,out)
                  else some (s,rbytes,out ++ slice s.vol.xcache 0 (rbytes - rcount))

def growSlot : List (UInt32 × UInt8) → (i : Nat) → Nat
  | [],i => i
  | (start,_) :: rows,i => if start ≠ 0 then growSlot rows (i + 1) else i

def growFile (s : Mount) (iindex : UInt32) (rsz : UInt8) : Option (Mount × UInt32) := do
  let i := growSlot (s.cached iindex).rows 0
  if i = 23 then some (s.out .fileFull,0)
  else
    let (s,blk0) ← findFreeRegion s rsz true
    if blk0 = 0 ∨ s.vol.outcome ≠ .success then some (s,0)
    else
      let inode := s.cached iindex
      let s := s.setCached iindex {inode with
        regStart := inode.regStart.setIfInBounds i blk0,regLen := inode.regLen.setIfInBounds i rsz}
      some (s.out .success,blk0)

def finishWrite (s : Mount) (iindex cursor : UInt32) (wcount : Nat) : Mount × Int :=
  (saveIblockC (s.setCached iindex {s.cached iindex with eof := cursor + UInt32.ofNat wcount}),wcount)

-- `uint8_t sz = n / 4096; if (n % 4096) ++sz`, on the unsigned and on the signed count.
def growLen (nbytes : UInt32) : UInt8 :=
  UInt8.ofNat (nbytes.toNat / blockSz) + (if nbytes.toNat % blockSz ≠ 0 then 1 else 0)
def growLenInt (rembytes : Int) : UInt8 :=
  UInt8.ofInt (rembytes.tdiv 4096) + (if rembytes.tmod 4096 ≠ 0 then 1 else 0)

-- The block with index `blkind` of the file, after growing the file when it has none.
-- The outcome is FS2_SUCCESS before every call, so that checking it afterwards is
-- checking it after the growth only.
def blkOrGrow (s : Mount) (iindex : UInt32) (blkind : Nat) (sz : UInt8) : Option (Mount × UInt32) :=
  let blk := (s.cached iindex).blk blkind
  if blk = 0 then growFile s iindex sz else some (s,blk)

-- The full blocks of fs2_write; the flag says that the function has finished inside.
def writeLoop (iindex : UInt32) (src : Nat → UInt8) (nbytes : UInt32) : (n : Nat) → (s : Mount) →
    (blkind wcount : Nat) → Option (Mount × Nat × Nat × Bool)
  | 0,s,blkind,wcount => some (s,blkind,wcount,false)
  | n + 1,s,blkind,wcount => do
    let (s,blk) ← blkOrGrow s iindex (blkind + 1) (growLenInt (toInt (nbytes - UInt32.ofNat wcount)))
    if s.vol.outcome ≠ .success then some (s,blkind + 1,wcount,true)
    else
      let s := loadGpC s blk true
      let s := saveGpC {s with vol := {s.vol with
        xcache := patch s.vol.xcache 0 blockSz fun k => src (wcount + k)}}
      if s.vol.outcome ≠ .success then some (s,blkind + 1,wcount,true)
      else writeLoop iindex src nbytes n s (blkind + 1) (wcount + blockSz)

-- Assumes cursor <= eof. Always updates eof. `src` is the memory at `in`.
def write (s : Mount) (path : Path) (src : Nat → UInt8) (nbytes cursor : UInt32) : Option (Mount × Int) := do
  let (s,iindex,_) ← findFile s path.bytes
  if s.vol.outcome ≠ .success then some (s,-1)
  else
    let s ← getIblockC s (iindex / 32) false false
    if s.vol.outcome ≠ .success then some (s,-1)
    else
      let inode := s.cached iindex
      if inode.ftype ≠ ftypeFile then some (s.out .badFtype,-1)
      else if inode.fperm &&& (if uWrite = 0 then 1 else 0) ≠ 0 then some (s.out .badPermissions,-1)
      else
        let off := cursor.toNat % blockSz
        let write1 := min nbytes.toNat (blockSz - off)
        let blkind := cursor.toNat / blockSz
        let (s,blk) ← blkOrGrow s iindex blkind (growLen nbytes)
        if s.vol.outcome ≠ .success then some (s,0)
        else
          let s := loadGpC s blk false
          if s.vol.outcome ≠ .success then some (s,0)
          else
            let s := saveGpC {s with vol := {s.vol with xcache := patch s.vol.xcache off write1 src}}
            if s.vol.outcome ≠ .success then some (s,0)
            else
              let (s,blkind,wcount,stopped) ←
                writeLoop iindex src nbytes ((nbytes.toNat - write1) / blockSz) s blkind write1
              if stopped ∨ wcount = nbytes.toNat then some (finishWrite s iindex cursor wcount)
              else
                -- 3. The last block is copied from the start of `in`.
                let (s,blk) ← blkOrGrow s iindex (blkind + 1) s.vol.hblock.defaultFregLen
                if s.vol.outcome ≠ .success then some (finishWrite s iindex cursor wcount)
                else
                  let s := loadGpC s blk true
                  let s := saveGpC {s with vol := {s.vol with
                    xcache := patch s.vol.xcache 0 (nbytes.toNat - wcount) src}}
                  some (finishWrite s iindex cursor (if s.vol.outcome = .success then nbytes.toNat else wcount))

-- The two pointer walks of fs2_create, as positions in the copy of the path.
def splitBack (path : List UInt8) : Nat → Nat
  | 0 => 0
  | i + 1 => if path.getD (i + 1) 0 ≠ slash then splitBack path i else i + 1
def stripBack (path : List UInt8) : Nat → Nat
  | 0 => 0
  | i + 1 => if path.getD (i + 1) 0 = slash then stripBack path i else i + 1

def create (s : Mount) (ftype : UInt8) (path : Path) : Option (Mount × Bool) := do
  let pathc := path.bytes
  let (s,_,_) ← findFile s pathc
  if s.vol.outcome = .success then some (s.out .unexpectedFile,false)
  else if s.vol.outcome ≠ .noFile then some (s,false)
  else
    let split := pathc.length - 1
    if pathc.getD split 0 = slash then some (s.out .invalidPath,false)
    else
      let split := splitBack pathc split
      let new := pathc.drop (if split = 0 then split else split + 1)
      let split := stripBack pathc split
      if split = 0 then
        let s ← createFile s new 0 ftype
        some (s,s.vol.outcome = .success)
      else
        let (s,p,_) ← findFile s (pathc.take (split + 1))
        if s.vol.outcome ≠ .success then some (s,false)
        else
          let s ← createFile s new p ftype
          some (s,s.vol.outcome = .success)

end ArchiveOs.Fs2
