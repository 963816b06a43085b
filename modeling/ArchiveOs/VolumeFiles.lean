import ArchiveOs.VolumeBlocks

-- Names, directories and files (second part of fs2.c). A C string is the list of
-- the bytes before its terminator; behind the end of a list stands a NUL.
namespace ArchiveOs.Fs2
open Layout

abbrev slash : UInt8 := 0x2F

-- Paths come from callers as NUL-terminated strings.
structure Path where
  bytes : List UInt8
  noNul : 0 ∉ bytes

def emptyPath : Path := ⟨[],List.not_mem_nil⟩

-- strncmp(a, b, n) == 0.
def strncmpEq : List UInt8 → List UInt8 → Nat → Bool
  | _,_,0 => true
  | a,b,n + 1 =>
    a.headD 0 == b.headD 0 && (a.headD 0 == 0 || strncmpEq a.tail b.tail n)

-- strncpy(dst, src, 28) pads with NULs; strcpy leaves what is behind its NUL.
def strncpy28 (src : List UInt8) : Bytes 28 := Vector.ofFn fun k => src[k.val]?.getD 0
def strcpy28 (dst : Bytes 28) (src : List UInt8) : Bytes 28 :=
  Vector.ofFn fun k => if k.val ≤ src.length then src[k.val]?.getD 0 else dst[k.val]

-- The loop of fs2_find_in_dir_r over the entries k, .. eof - 1; `n` of them are left.
def findInDirLoop (dinode : Inode) (name : List UInt8) (nchars : Nat) :
    (n : Nat) → (s : Mount) → (k i j : Nat) → Option (Mount × UInt32)
  | 0,s,_,_,_ => some (s.out .noFile,minusOne)
  | n + 1,s,k,i,j =>
    let match? (s : Mount) (i j : Nat) : Option (Mount × UInt32) :=
      if strncmpEq (s.entry k).name.toList name nchars then some (s.out .success,(s.entry k).inodeIndex)
      else findInDirLoop dinode name nchars n s (k + 1) i j
    if k % 128 = 0 then
      match dinode.rows[i]? with
      | none => none
      | some (start,len) =>
        let s := loadDblockC s (start + UInt32.ofNat j) false
        if s.vol.outcome ≠ .success then some (s,minusOne)
        else
          let (i,j) := if j + 1 = len.toNat then (i + 1,0) else (i,j + 1)
          match dinode.rows[i]? with
          | none => some (s.out .noFile,minusOne)
          | some (start,_) => if start = 0 then some (s.out .noFile,minusOne) else match? s i j
    else match? s i j

-- -1 stands for every failure; the outcome says which.
def findInDirR (s : Mount) (diindex : UInt32) (name : List UInt8) (nchars : Nat) : Option (Mount × UInt32) := do
  let s ← getIblockC s (diindex / 32) false false
  if s.vol.outcome ≠ .success then some (s,minusOne)
  else
    let dinode := s.cached diindex
    if dinode.ftype ≠ ftypeDir then some (s.out .badFtype,minusOne)
    else findInDirLoop dinode name nchars dinode.eof.toNat s 0 0 0

theorem walk_shorter (cursor rest : List UInt8) (c : UInt8)
    (more : cursor.dropWhile (· ≠ slash) = c :: rest) :
    ((c :: rest).dropWhile (· = slash)).length < cursor.length := by
  have tail : (c :: rest).length ≤ cursor.length := by
    rw [← more]; exact (List.dropWhile_suffix _).length_le
  have first : c = slash := by
    have := List.head?_dropWhile_not (fun c : UInt8 => decide (c ≠ slash)) cursor
    rw [more] at this
    simpa using this
  subst first
  have drop : ((slash :: rest).dropWhile (· = slash)).length ≤ rest.length := by
    simp only [decide_true,List.dropWhile_cons_of_pos]
    exact (List.dropWhile_suffix _).length_le
  simp only [List.length_cons] at tail
  omega

-- The component loop; the second result is what is put into *putparent.
def findFileLoop (s : Mount) (parent : UInt32) (cursor : List UInt8) : Option (Mount × UInt32 × Option UInt32) :=
  let i := (cursor.takeWhile (· ≠ slash)).length
  if i > 28 then some (s.out .invalidPath,minusOne,none)
  else
    match findInDirR s parent cursor i with
    | none => none
    | some (s,child) =>
      if child = minusOne then some (s,minusOne,none)
      else
        match _more : cursor.dropWhile (· ≠ slash) with
        | [] => some (s.out .success,child,some parent)
        | c :: rest => findFileLoop s child ((c :: rest).dropWhile (· = slash))
termination_by cursor.length
decreasing_by exact walk_shorter _ _ _ _more

-- The outcome of the first load is not looked at.
def findFile (s : Mount) (path : List UInt8) : Option (Mount × UInt32 × Option UInt32) :=
  if path = [] then some (s.out .success,0,none)
  else do
    let s ← getIblockC s 0 false false
    findFileLoop s 0 path

-- On a fresh inode of the inode cache.
def initInode (s : Mount) (iindex : UInt32) (ftype fperm : UInt8) : Option Mount :=
  let n := s.cached iindex
  let s := s.setCached iindex {n with ftype,fperm,eof := 0,regStart := Vector.replicate 23 0}
  if ftype = ftypeDir then do
    let (s,rst) ← findFreeRegion s s.vol.hblock.defaultDregLen false
    if rst = 0 then some (s.out .diskFull)
    else
      let n := s.cached iindex
      let s := s.setCached iindex {n with
        regStart := n.regStart.set 0 rst row_pos,regLen := n.regLen.set 0 s.vol.hblock.defaultDregLen row_pos}
      some (s.out .success)
  else some (s.out .success)

inductive SlotScan where
  | found (i : Nat) (n : UInt32)
  | stop (i : Nat)

-- Finds the region that holds entry `eof`.
def slotScan : List (UInt32 × UInt8) → (eof : UInt32) → (i : Nat) → (n : UInt32) → SlotScan
  | [],_,i,_ => .stop i
  | (start,len) :: rows,eof,i,n =>
    if start ≠ 0 then
      let b := n + len.toUInt32
      if eof < b * 128 then .found i n else slotScan rows eof (i + 1) b
    else .stop i

-- The source leaves its locals i and n uninitialised; i0 and n0 are what they hold.
def addDirEntryFrom (i0 : Nat) (n0 : UInt32) (s : Mount) (name : List UInt8)
    (diindex ciindex : UInt32) : Option Mount :=
  let dinode := s.cached diindex
  match slotScan (dinode.rows.drop i0) dinode.eof i0 n0 with
  | .found i n =>
    let (start,_) := dinode.rows.getD i (0,0)
    let dbaddr := start + dinode.eof / 128 - n
    let s := loadDblockC s dbaddr false
    if s.vol.outcome ≠ .success then some s
    else
      let s := s.setEntry dinode.eof.toNat ⟨ciindex,strncpy28 name⟩
      let s := saveDblockC s
      if s.vol.outcome ≠ .success then some s
      else some (s.setCached diindex {dinode with eof := dinode.eof + 1})
  | .stop i =>
    if i = 23 then some (s.out .fileFull)
    else do
      let (s,daddr) ← findFreeRegion s s.vol.hblock.defaultDregLen false
      if daddr = 0 then some s
      else if 23 < i then none
      else
        let s := s.setCached diindex {dinode with
          regStart := dinode.regStart.setIfInBounds i daddr
          regLen := dinode.regLen.setIfInBounds i s.vol.hblock.defaultDregLen
          eof := dinode.eof + 1}
        let s := loadDblockC s daddr true
        some (saveDblockC (s.setEntry 0 ⟨ciindex,strncpy28 name⟩))

def addDirEntry (s : Mount) (name : List UInt8) (diindex ciindex : UInt32) : Option Mount :=
  addDirEntryFrom 0 0 s name diindex ciindex

-- Entries 0 and 1 of a new directory.
def populateDir (s : Mount) (iindex parent : UInt32) : Mount :=
  let dbaddr := (s.cached iindex).regStart.get ⟨0,row_pos⟩
  let s := loadDblockC s dbaddr true
  let s := s.setEntry 0 ⟨iindex,strcpy28 (s.entry 0).name [0x2E]⟩
  let s := s.setEntry 1 ⟨parent,strcpy28 (s.entry 1).name [0x2E,0x2E]⟩
  saveDblockC (s.setCached iindex {s.cached iindex with eof := 2})

-- The end of fs2_create_file: neither the outcome of fs2_add_dir_entry nor that of
-- fs2_save_iblock_c is looked at.
def finishCreate (s : Mount) : Mount :=
  let s := saveIblockC s
  saveHblock (s.withHblock {s.vol.hblock with nextInode := s.vol.hblock.nextInode + 1})

def createFile (s : Mount) (name : List UInt8) (parent : UInt32) (ftype : UInt8) : Option Mount := do
  let iindex := s.vol.hblock.nextInode
  let s ← getIblockC s (iindex / 32) true false
  if s.vol.outcome ≠ .success then some s
  else
    let s ← initInode s iindex ftype s.vol.hblock.defaultPerm
    let s := s.setCached iindex {s.cached iindex with iparent := parent}
    if s.vol.outcome ≠ .success then some s
    else
      let s := if ftype = ftypeDir then populateDir s iindex parent else s
      if iindex ≠ 0 then
        let s ← getIblockC s (parent / 32) false true
        if s.vol.outcome ≠ .success then some s
        else
          let s ← addDirEntry s name parent iindex
          some (finishCreate s)
      else some (finishCreate s)

-- The check of the arguments adds in `int`, so nothing wraps.
def formatVolume (s : Mount) (nblocks : UInt32) (defaultPerms defISz defFSz defDSz : UInt8) : Option Mount :=
  if nblocks.toNat < 1 + defISz.toNat + defDSz.toNat ∨ defDSz = 0 ∨ defFSz = 0 ∨ defISz = 0 then
    some (s.out .badFormatArgs)
  else
    createFile (s.withHblock {s.vol.hblock with
      ident := cwfsIdent,nblocks,nextBlock := 1,nextInode := 0
      defaultDregLen := defDSz,defaultFregLen := defFSz,defaultIregLen := defISz
      defaultPerm := defaultPerms,separator := 800,regStart := Vector.replicate 800 0}) [] 0 ftypeDir

-- `find_blk(reg_start, reg_len, 23, b)` of an inode.
def Inode.blk (n : Inode) (b : Nat) : UInt32 := findBlk n.rows b 0

-- The loop of fs2_unlink; the search looks at slot k % 32 of the loaded block.
def unlinkLoop (pindex xiindex : UInt32) : (n : Nat) → (s : Mount) → (k i j : Nat) → Option Mount
  | 0,s,_,_,_ => some (s.out .noFile)
  | n + 1,s,k,i,j =>
    let pinode := s.cached pindex
    let match? (s : Mount) (i j : Nat) : Option Mount :=
      if (s.entry (k % 32)).inodeIndex = xiindex then
        let last := pinode.eof.toNat - 1
        let finish (s : Mount) : Mount :=
          saveDblockC (s.setCached pindex {pinode with eof := pinode.eof - 1})
        if k ≠ last then
          if k / 128 ≠ last / 128 then
            let s := loadGpC s (pinode.blk (last / 128)) false
            if s.vol.outcome ≠ .success then some s
            else some (finish (s.setEntry k ((dblockLayout.symm s.vol.xcache)[last % 128])))
          else some (finish (s.setEntry k (s.entry last)))
        else some (finish s)
      else unlinkLoop pindex xiindex n s (k + 1) i j
    if k % 128 = 0 then
      match pinode.rows[i]? with
      | none => none
      | some (start,len) =>
        let s := loadDblockC s (start + UInt32.ofNat j) false
        if s.vol.outcome ≠ .success then some s
        else if len = 0 then none
        else
          let j := (j + 1) % len.toNat
          match? s (if j = 0 then i + 1 else i) j
    else match? s i j

def unlink (s : Mount) (pindex xiindex : UInt32) : Option Mount :=
  unlinkLoop pindex xiindex (s.cached pindex).eof.toNat s 0 0 0

def rm (s : Mount) (path : Path) : Option (Mount × Bool) := do
  let (s,ind,p) ← findFile s path.bytes
  if s.vol.outcome ≠ .success then some (s,false)
  else if ind = 0 then some (s.out .badPermissions,false)
  else
    -- The empty path is the only one that leaves `p` unset, and it gives index 0.
    let p := p.getD 0
    let s ← getIblockC s (ind / 32) false false
    if s.vol.outcome ≠ .success then some (s,false)
    else
      let inode := s.cached ind
      if inode.ftype = ftypeDir ∧ inode.eof > 2 then some (s.out .badFtype,false)
      else
        let move : Bool := ind < s.vol.hblock.nextInode - 1
        let s := if move then s.setCached ind {inode with regStart := Vector.replicate 23 0} else s
        let s ← getIblockC s (p / 32) false move
        if s.vol.outcome ≠ .success then some (s,false)
        else
          let s ← unlink s p ind
          if s.vol.outcome ≠ .success then some (s,false)
          else
            let s := saveIblockC s
            some (s,s.vol.outcome = .success)

-- fs2_block_dump reads each block of inodes into a block of its own. Its text is only
-- printed, but a region that a lookup adds to the table stays in the header.
def dumpBlock (s : Mount) (q : Nat) : Option Mount := do
  let (t,_) ← getIblock s (UInt32.ofNat q) false
  some {t with vol := {t.vol with icache := s.vol.icache}}

def blockDump (s : Mount) : Option Mount :=
  (List.range ((s.vol.hblock.nextInode.toNat + 31) / 32)).foldlM dumpBlock s

-- One name: stores its bytes while the cursor stays below nchars.
def lsName (nchars : Int) : List UInt8 → List UInt8 → List UInt8 × Bool
  | [],out => (out,true)
  | c :: rest,out =>
    if c = 0 then (out,true)
    else
      let out := out ++ [c]
      if (out.length : Int) ≥ nchars then (out,false) else lsName nchars rest out

-- `out` is what has been stored so far, from position 0 on.
def lsLoop (dinode : Inode) (nchars : Int) :
    (n : Nat) → (s : Mount) → (k i j : Nat) → (out : List UInt8) → Option (Mount × Bool × List UInt8)
  | 0,s,_,_,_,out =>
    if (out.length : Int) < nchars then some (s.out .success,true,out ++ [0]) else some (s,false,out)
  | n + 1,s,k,i,j,out =>
    let print (s : Mount) (i j : Nat) : Option (Mount × Bool × List UInt8) :=
      match lsName nchars (s.entry k).name.toList out with
      | (out,false) => some (s,false,out)
      | (out,true) =>
        if (out.length : Int) < nchars then lsLoop dinode nchars n s (k + 1) i j (out ++ [0x0A])
        else some (s,false,out)
    if k % 128 = 0 then
      match dinode.rows[i]? with
      | none => none
      | some (start,len) =>
        let s := loadDblockC s (start + UInt32.ofNat j) false
        if s.vol.outcome ≠ .success then some (s,false,out)
        else if len = 0 then none
        else
          let j := (j + 1) % len.toNat
          print s (if j = 0 then i + 1 else i) j
    else print s i j

def ls (s : Mount) (path : Path) (nchars : Int) : Option (Mount × Bool × List UInt8) := do
  let (s,iindex,_) ← findFile s path.bytes
  if s.vol.outcome ≠ .success then some (s,false,[])
  else
    let s ← getIblockC s (iindex / 32) false false
    if s.vol.outcome ≠ .success then some (s,false,[])
    else
      let dinode := s.cached iindex
      lsLoop dinode nchars dinode.eof.toNat s 0 0 0 []

def isftype (s : Mount) (path : Path) (ftype : UInt8) : Option (Mount × Bool) := do
  let (s,iindex,_) ← findFile s path.bytes
  if s.vol.outcome ≠ .success then some (s,false)
  else
    let s ← getIblockC s (iindex / 32) false false
    if s.vol.outcome ≠ .success then some (s,false)
    else some (s,(s.cached iindex).ftype == ftype)

end ArchiveOs.Fs2
