import ArchiveOs.VolumeOps
import ArchiveOs.Extents

-- The logical image of a volume: what its blocks mean, with no caches, no byte
-- layout and no device. Each operation is stated once more on images; that the
-- code computes them is proved later, it is not assumed here.
namespace ArchiveOs.Fs2
open Extents

structure Link where
  name : List UInt8
  inode : Nat
  deriving DecidableEq, Repr, Inhabited

structure Node where
  ftype : UInt8
  fperm : UInt8
  eof : Nat
  iparent : Nat
  regs : List Region
  links : List Link
  deriving DecidableEq, Repr, Inhabited

structure Image where
  nblocks : Nat
  nextBlock : Nat
  perm : UInt8
  ilen : Nat
  flen : Nat
  dlen : Nat
  iregs : List Region
  nodes : List Node
  deriving DecidableEq, Repr

namespace Image

def node (m : Image) (i : Nat) : Node := m.nodes.getD i default
def setNode (m : Image) (i : Nat) (n : Node) : Image := {m with nodes := m.nodes.set i n}
def push (m : Image) (n : Node) : Image := {m with nodes := m.nodes ++ [n]}

-- What belongs to the inode table (`none`) and to each inode.
def own (m : Image) : Option Nat → List Region
  | none => m.iregs
  | some i => (m.node i).regs

def alloc (m : Image) (len : Nat) : Option (Image × Nat) :=
  if m.nblocks < m.nextBlock + len then none
  else some ({m with nextBlock := m.nextBlock + len},m.nextBlock)

end Image

-- A lookup stops in front of the last block of a directory.
def Node.visible (n : Node) : List Link := n.links.take (128 * (total n.regs - 1))

-- A name is found under any of its prefixes.
def Node.find (n : Node) (name : List UInt8) : Option Nat :=
  (n.visible.find? fun l => name.isPrefixOf l.name).map Link.inode

-- "a//b/" has the components "a", "b" and "".
def consHead (c : UInt8) : List (List UInt8) → List (List UInt8)
  | [] => [[c]]
  | name :: names => (c :: name) :: names

def components : (inSlash : Bool) → List UInt8 → List (List UInt8)
  | _,[] => [[]]
  | true,c :: rest => if c = slash then components true rest else consHead c (components false rest)
  | false,c :: rest => if c = slash then [] :: components true rest else consHead c (components false rest)

namespace Image

def lookup (m : Image) (d : Nat) (name : List UInt8) : Except Outcome Nat :=
  if (m.node d).ftype ≠ ftypeDir then .error .badFtype
  else
    match (m.node d).find name with
    | none => .error .noFile
    | some i => .ok i

-- The inode that a path leads to, and the directory where it was found last.
def walk (m : Image) (parent : Nat) : List (List UInt8) → Except Outcome (Nat × Nat)
  | [] => .error .noFile
  | name :: rest =>
    if name.length > 28 then .error .invalidPath
    else
      match m.lookup parent name with
      | .error e => .error e
      | .ok child => if rest = [] then .ok (child,parent) else walk m child rest

def resolve (m : Image) (path : List UInt8) : Except Outcome (Nat × Option Nat) :=
  if path = [] then .ok (0,none)
  else (m.walk 0 (components false path)).map fun r => (r.1,some r.2)

-- Room for the inode table to hold one more inode.
def needIblock (m : Image) : Except Outcome Image :=
  if m.nodes.length / 32 < total m.iregs then .ok m
  else if m.iregs.length = 800 then .error .hblockFull
  else
    match m.alloc m.ilen with
    | none => .error .diskFull
    | some (m,b) => .ok {m with iregs := m.iregs ++ [⟨b,m.ilen⟩]}

def link (m : Image) (p : Nat) (name : List UInt8) (child : Nat) : Image × Outcome :=
  let n := m.node p
  let linked : Node := {n with eof := n.eof + 1,links := n.links ++ [⟨name.take 28,child⟩]}
  if n.eof < 128 * total n.regs then (m.setNode p linked,.success)
  else if n.regs.length = 23 then (m,.fileFull)
  else
    match m.alloc m.dlen with
    | none => (m,.diskFull)
    | some (m,b) => (m.setNode p {linked with regs := n.regs ++ [⟨b,m.dlen⟩]},.success)

def dot : List UInt8 := [0x2E]
def dotdot : List UInt8 := [0x2E,0x2E]

-- A link that finds no room is dropped, and the creation goes on.
def createFile (m : Image) (name : List UInt8) (p : Nat) (ftype : UInt8) : Image × Outcome :=
  let child := m.nodes.length
  match m.needIblock with
  | .error e => (m,e)
  | .ok m =>
    if ftype = ftypeDir then
      match m.alloc m.dlen with
      | none => (m,.diskFull)
      | some (m,b) =>
        (((m.push ⟨ftype,m.perm,2,p,[⟨b,m.dlen⟩],[⟨dot,child⟩,⟨dotdot,p⟩]⟩).link p name child).1,.success)
    else (((m.push ⟨ftype,m.perm,0,p,[],[]⟩).link p name child).1,.success)

-- The parent of a path that leads nowhere, and the creation there.
def createParent (m : Image) (ftype : UInt8) (path : List UInt8) : Image × Outcome :=
  let split := path.length - 1
  if path.getD split 0 = slash then (m,.invalidPath)
  else
    let split := splitBack path split
    let new := path.drop (if split = 0 then split else split + 1)
    let split := stripBack path split
    if split = 0 then m.createFile new 0 ftype
    else
      match m.resolve (path.take (split + 1)) with
      | .error e => (m,e)
      | .ok (p,_) => m.createFile new p ftype

def create (m : Image) (ftype : UInt8) (path : List UInt8) : Image × Outcome :=
  match m.resolve path with
  | .ok _ => (m,.unexpectedFile)
  | .error .noFile => m.createParent ftype path
  | .error e => (m,e)

-- Block q of file i, or the first block of a region of `sz` blocks added to it.
def blkOrGrow (m : Image) (i q sz : Nat) : Except Outcome (Image × Nat) :=
  let n := m.node i
  match (blocks n.regs)[q]? with
  | some b => .ok (m,b)
  | none =>
    if n.regs.length = 23 then .error .fileFull
    else
      match m.alloc sz with
      | none => .error .diskFull
      | some (m,b) => .ok (m.setNode i {n with regs := n.regs ++ [⟨b,sz⟩]},b)

-- One store of a write: `len` bytes of the source from `src` on go to offset `off`
-- of the block, which is the one for index `blkind` of the file.
structure Put where
  blkind : Nat
  block : Nat
  off : Nat
  src : Nat
  len : Nat
  deriving DecidableEq, Repr

structure Written where
  image : Image
  wcount : Nat
  puts : List Put
  deriving DecidableEq, Repr

-- The full blocks; the flag says that there was no room for one of them.
def writeLoop (i : Nat) (nbytes : UInt32) : (n : Nat) → Image → (blkind wcount : Nat) → Written × Nat × Bool
  | 0,m,blkind,wcount => (⟨m,wcount,[]⟩,blkind,false)
  | n + 1,m,blkind,wcount =>
    match m.blkOrGrow i (blkind + 1) (growLenInt (toInt (nbytes - UInt32.ofNat wcount))).toNat with
    | .error _ => (⟨m,wcount,[]⟩,blkind + 1,true)
    | .ok (m,b) =>
      let (w,blkind',full) := writeLoop i nbytes n m (blkind + 1) (wcount + blockSz)
      ({w with puts := ⟨blkind + 1,b,0,wcount,blockSz⟩ :: w.puts},blkind',full)

-- A write to file i that finds its first block.
def writeAt (m : Image) (i : Nat) (nbytes cursor : UInt32) : Except Outcome Written :=
  let off := cursor.toNat % blockSz
  let write1 := min nbytes.toNat (blockSz - off)
  let blkind := cursor.toNat / blockSz
  match m.blkOrGrow i blkind (growLen nbytes).toNat with
  | .error e => .error e
  | .ok (m,b) =>
    let first : Put := ⟨blkind,b,off,0,write1⟩
    let (w,blkind,full) := writeLoop i nbytes ((nbytes.toNat - write1) / blockSz) m blkind write1
    let w := {w with puts := first :: w.puts}
    if full ∨ w.wcount = nbytes.toNat then .ok w
    else
      match w.image.blkOrGrow i (blkind + 1) w.image.flen with
      | .error _ => .ok w
      | .ok (m,b) => .ok ⟨m,nbytes.toNat,w.puts ++ [⟨blkind + 1,b,0,0,nbytes.toNat - w.wcount⟩]⟩

def write (m : Image) (path : List UInt8) (nbytes cursor : UInt32) : Image × Outcome × Int :=
  match m.resolve path with
  | .error e => (m,e,-1)
  | .ok (i,_) =>
    if (m.node i).ftype ≠ ftypeFile then (m,.badFtype,-1)
    else
      match m.writeAt i nbytes cursor with
      | .error e => (m,e,0)
      | .ok w =>
        let n := w.image.node i
        (w.image.setNode i {n with eof := (cursor + UInt32.ofNat w.wcount).toNat},.success,w.wcount)

end Image
end ArchiveOs.Fs2
