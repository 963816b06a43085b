import ArchiveOs.ImageOk

-- What a mounted volume stands for: its image, read through the inode cache and
-- from the disk; and when the three caches tell the truth about the disk.
namespace ArchiveOs.Fs2
open Extents Layout

-- Block b of the volume.
def Mount.at (s : Mount) (b : Nat) : Block := s.disk.blk (s.vol.blk0 + UInt32.ofNat b)

-- The used part of a region table.
def regions (rows : List (UInt32 × UInt8)) : List Region :=
  (rows.takeWhile (·.1 ≠ 0)).map fun r => ⟨r.1.toNat,r.2.toNat⟩

-- Behind the used part every row is unused.
def Tidy (rows : List (UInt32 × UInt8)) : Prop :=
  ∀ r ∈ rows.drop (regions rows).length, r.1 = 0

def HBlock.regs (h : HBlock) : List Region := regions h.rows
def Inode.regs (n : Inode) : List Region := regions n.rows

def cstr (name : Bytes 28) : List UInt8 := name.toList.takeWhile (· ≠ 0)

def DirEntry.link (e : DirEntry) : Link := ⟨cstr e.name,e.inodeIndex.toNat⟩

-- Entry k of the directory that is stored in the blocks bs.
def linkAt (rd : Nat → Block) (bs : List Nat) (k : Nat) : Link :=
  have slot := dslot_lt k
  ((dblockLayout.symm (rd (bs.getD (k / 128) 0)))[k % 128]).link

def Inode.node (rd : Nat → Block) (n : Inode) : Node where
  ftype := n.ftype
  fperm := n.fperm
  eof := n.eof.toNat
  iparent := n.iparent.toNat
  regs := n.regs
  links := if n.ftype = ftypeDir ∧ n.regs ≠ [] then (List.range n.eof.toNat).map (linkAt rd (blocks n.regs)) else []

namespace Mount

def itable (s : Mount) : List Nat := blocks s.vol.hblock.regs
def diskInode (s : Mount) (i : Nat) : Inode := (iblockLayout.symm (s.at (s.itable.getD (i / 32) 0)))[i % 32]
def inode (s : Mount) (i : Nat) : Inode :=
  if i / 32 = s.vol.icindex.toNat then s.vol.icache[i % 32] else s.diskInode i
def node (s : Mount) (i : Nat) : Node := (s.inode i).node s.at

def image (s : Mount) : Image where
  nblocks := s.vol.hblock.nblocks.toNat
  nextBlock := s.vol.hblock.nextBlock.toNat
  perm := s.vol.hblock.defaultPerm
  ilen := s.vol.hblock.defaultIregLen.toNat
  flen := s.vol.hblock.defaultFregLen.toNat
  dlen := s.vol.hblock.defaultDregLen.toNat
  iregs := s.vol.hblock.regs
  nodes := (List.range s.vol.hblock.nextInode.toNat).map s.node

@[simp] theorem image_length (s : Mount) : s.image.nodes.length = s.vol.hblock.nextInode.toNat := by
  simp [image]

theorem image_node (s : Mount) {i : Nat} (h : i < s.vol.hblock.nextInode.toNat) : s.image.node i = s.node i := by
  rw [Image.node_lt (by simpa using h)]; simp [image]

end Mount

namespace Image

-- Blocks that the directory cache may hold, and blocks for which the general
-- purpose cache has to be right.
def DirBlock (m : Image) (b : Nat) : Prop :=
  0 < b ∧ b < m.nextBlock ∧ b ∉ blocks m.iregs ∧
    ∀ i, i < m.nodes.length → (m.node i).ftype ≠ ftypeDir → b ∉ blocks (m.node i).regs

def FileBlock (m : Image) (b : Nat) : Prop :=
  (∃ i, i < m.nodes.length ∧ (m.node i).ftype ≠ ftypeDir ∧ b ∈ blocks (m.node i).regs) ∨
    (m.nextBlock ≤ b ∧ b ≤ m.nblocks)

theorem Ok.dirBlock {m : Image} (ok : m.Ok) {i b : Nat}
    (dir : (m.node i).ftype = ftypeDir) (member : b ∈ blocks (m.node i).regs) : m.DirBlock b := by
  have bounds := ok.packed.within (some i) b member
  refine ⟨bounds.1,bounds.2,?_,?_⟩
  · intro table
    cases ok.packed.apart none (some i) b table member
  · intro j _ file other
    cases ok.packed.apart (some j) (some i) b other member
    exact file dir

theorem Ok.frontier_fresh {m : Image} (ok : m.Ok) (o : Option Nat) {b : Nat} (above : m.nextBlock ≤ b) :
    b ∉ blocks (m.own o) := by
  intro member
  have := (ok.packed.within o _ member).2
  omega

theorem Ok.frontier_dirBlock {m : Image} (ok : m.Ok) {len b : Nat} (above : m.nextBlock ≤ b)
    (below : b < m.nextBlock + len) : DirBlock {m with nextBlock := m.nextBlock + len} b := by
  have lower := ok.lower
  refine ⟨by omega,below,ok.frontier_fresh none above,?_⟩
  intro i _ _
  exact ok.frontier_fresh (some i) above

end Image

-- What formatting leaves in every header.
structure HBlock.Marked (h : HBlock) : Prop where
  ident : h.ident = cwfsIdent
  separator : h.separator = 800

namespace Mount

-- The invariant inside of operations: header and cached inodes may be unsaved.
structure Mid (s : Mount) : Prop where
  ok : s.image.Ok
  sep : s.vol.hblock.Marked
  htidy : Tidy s.vol.hblock.rows
  itidy : ∀ i, i < s.vol.hblock.nextInode.toNat → Tidy (s.inode i).rows
  iaddr : s.vol.icindex.toNat < s.itable.length → s.itable[s.vol.icindex.toNat]? = some s.vol.icaddr.toNat
  dclean : s.vol.dcaddr = minusOne ∨
    (s.image.DirBlock s.vol.dcaddr.toNat ∧ s.vol.dcache = dblockLayout.symm (s.at s.vol.dcaddr.toNat))
  xclean : s.image.FileBlock s.vol.xcaddr.toNat → s.vol.xcache = s.at s.vol.xcaddr.toNat

-- The header on the disk is the one in memory.
def Saved (s : Mount) : Prop := headerLayout.symm (s.at 0) = s.vol.hblock

-- The invariant between operations.
structure Valid (s : Mount) : Prop extends Mid s where
  living : s.image.Living
  saved : s.Saved
  clean : ∀ i, i < s.vol.hblock.nextInode.toNat → i / 32 = s.vol.icindex.toNat →
    s.vol.icache[i % 32] = s.diskInode i

theorem Valid.good {s : Mount} (v : s.Valid) : s.image.Good := ⟨v.ok,v.living⟩

-- A lookup may move the caches; header, disk and device stay.
structure Same (s s' : Mount) : Prop where
  blk0 : s'.vol.blk0 = s.vol.blk0
  hblock : s'.vol.hblock = s.vol.hblock
  blk : s'.disk.blk = s.disk.blk
  rdFails : s'.disk.rdFails = s.disk.rdFails
  wrFails : s'.disk.wrFails = s.disk.wrFails

namespace Same
variable {s s' s'' : Mount}

theorem refl (s : Mount) : Same s s := ⟨rfl,rfl,rfl,rfl,rfl⟩

theorem trans (a : Same s s') (b : Same s' s'') : Same s s'' :=
  ⟨b.blk0.trans a.blk0,b.hblock.trans a.hblock,b.blk.trans a.blk,b.rdFails.trans a.rdFails,b.wrFails.trans a.wrFails⟩

theorem at_eq (a : Same s s') : s'.at = s.at := by funext b; simp [Mount.at,a.blk0,a.blk]
theorem itable_eq (a : Same s s') : s'.itable = s.itable := by simp [Mount.itable,a.hblock]
theorem diskInode_eq (a : Same s s') : s'.diskInode = s.diskInode := by
  funext i; simp [Mount.diskInode,a.at_eq,a.itable_eq]

end Same

theorem Valid.inode_disk {s : Mount} (v : s.Valid) {i : Nat} (h : i < s.vol.hblock.nextInode.toNat) :
    s.inode i = s.diskInode i := by
  unfold inode
  split
  · rename_i here; exact v.clean i h here
  · rfl

-- The image depends on header and disk only, as long as the inode cache is clean.
theorem image_congr {s s' : Mount} (same : Same s s')
    (inodes : ∀ i, i < s.vol.hblock.nextInode.toNat → s'.inode i = s.inode i) : s'.image = s.image := by
  unfold image
  rw [same.hblock]
  congr 1
  apply List.map_congr_left
  intro i member
  simp only [node,inodes i (List.mem_range.mp member),same.at_eq]

theorem Valid.same_inode {s s' : Mount} (v : s.Valid) (v' : s'.Valid) (same : Same s s') {i : Nat}
    (h : i < s.vol.hblock.nextInode.toNat) : s'.inode i = s.inode i := by
  rw [v'.inode_disk (by rw [same.hblock]; exact h),same.diskInode_eq,v.inode_disk h]

theorem Valid.same_image {s s' : Mount} (v : s.Valid) (v' : s'.Valid) (same : Same s s') : s'.image = s.image :=
  image_congr same fun _ h => v.same_inode v' same h

theorem Valid.recache {s s' : Mount} (v : s.Valid) (same : Same s s')
    (iaddr : s'.vol.icindex.toNat < s.itable.length → s.itable[s'.vol.icindex.toNat]? = some s'.vol.icaddr.toNat)
    (clean : ∀ i, i < s.vol.hblock.nextInode.toNat → i / 32 = s'.vol.icindex.toNat →
      s'.vol.icache[i % 32] = s.diskInode i)
    (dclean : s'.vol.dcaddr = minusOne ∨
      (s.image.DirBlock s'.vol.dcaddr.toNat ∧ s'.vol.dcache = dblockLayout.symm (s.at s'.vol.dcaddr.toNat)))
    (xclean : s.image.FileBlock s'.vol.xcaddr.toNat → s'.vol.xcache = s.at s'.vol.xcaddr.toNat) : s'.Valid := by
  have inodes : ∀ i, i < s.vol.hblock.nextInode.toNat → s'.inode i = s.inode i := by
    intro i h
    rw [v.inode_disk h]
    unfold inode
    split
    · rename_i here; exact clean i h here
    · rw [same.diskInode_eq]
  have image := image_congr same inodes
  refine ⟨⟨?_,?_,?_,?_,?_,?_,?_⟩,by rw [image]; exact v.living,?_,?_⟩
  · rw [image]; exact v.ok
  · rw [same.hblock]; exact v.sep
  · rw [same.hblock]; exact v.htidy
  · intro i h
    rw [same.hblock] at h
    rw [inodes i h]; exact v.itidy i h
  · rw [same.itable_eq]; exact iaddr
  · rw [image,same.at_eq]; exact dclean
  · rw [image,same.at_eq]; exact xclean
  · unfold Saved; rw [same.hblock,same.at_eq]; exact v.saved
  · rw [same.hblock,same.diskInode_eq]; exact clean

end Mount
end ArchiveOs.Fs2
