import ArchiveOs.Saves

-- Stores of directory blocks, data blocks and the header, and loads while the
-- inode cache or the header is not yet saved.
namespace ArchiveOs.Fs2
open Extents Layout

theorem linkAt_put (rd : Nat → Block) {rd' : Nat → Block} {bs : List Nat} {q b : Nat} {new : DBlock} (nodup : bs.Nodup)
    (at_q : bs[q]? = some b) (put : rd' b = dblockLayout new) (stay : ∀ b' ∈ bs,b' ≠ b → rd' b' = rd b') {k : Nat}
    (inside : k / 128 < bs.length) :
    linkAt rd' bs k = if k / 128 = q then (new[k % 128]).link else linkAt rd bs k := by
  unfold linkAt
  by_cases here : k / 128 = q
  · have content : dblockLayout.symm (rd' b) = new := by rw [put,Equiv.symm_apply_apply]
    rw [if_pos here,here,List.getD_eq_getElem?_getD,at_q]
    simp only [Option.getD_some,content]
  · have other : bs[k / 128] ≠ b := by
      intro equal
      obtain ⟨inside',value⟩ := List.getElem?_eq_some_iff.mp at_q
      exact here ((List.Nodup.getElem_inj_iff nodup).mp (equal.trans value.symm))
    rw [if_neg here,List.getD_eq_getElem?_getD,List.getElem?_eq_getElem inside]
    simp only [Option.getD_some,stay _ (List.getElem_mem inside) other]

namespace Mount

theorem Slid.dev {s s' : Mount} (a : Slid s s') (quiet : s'.disk.failed = s.disk.failed) : Dev s s' :=
  ⟨a.blk0,a.rdFails,a.wrFails,quiet,a.later⟩

theorem Slid.placed {s s' : Mount} (a : Slid s s') (placed : s.Placed) : s'.Placed := by
  unfold Placed
  rw [a.icindex,a.itable_eq]; exact placed

theorem Mid.out {s : Mount} (v : s.Mid) (o : Outcome) : (s.out o).Mid :=
  ⟨v.ok,v.sep,v.htidy,v.itidy,v.iaddr,v.dclean,v.xclean⟩

theorem loadDblockC_quiet {s : Mount} (v : s.Mid) (quiet : s.disk.Quiet) {b : Nat} (d : s.image.DirBlock b) :
    Slid s (loadDblockC s (UInt32.ofNat b) false) ∧
      (loadDblockC s (UInt32.ofNat b) false).disk.failed = s.disk.failed ∧
      (loadDblockC s (UInt32.ofNat b) false).vol.outcome = .success ∧
      (loadDblockC s (UInt32.ofNat b) false).vol.dcaddr = UInt32.ofNat b ∧
      (loadDblockC s (UInt32.ofNat b) false).vol.dcache = dblockLayout.symm (s.at b) := by
  obtain ⟨slid,fine | ⟨_,⟨t,x,after,bad⟩,_⟩⟩ := loadDblockC_slid v d
  · exact ⟨slid,fine⟩
  · rw [quiet t x after] at bad; cases bad

-- One block has been stored that is not a block of the inode table.
structure Stored (s s' : Mount) (b : Nat) (c : Block) : Prop extends Dev s s', SameI s s' where
  hblock : s'.vol.hblock = s.vol.hblock
  put : s'.at b = c
  stay : ∀ a, a < 4294967296 → a ≠ b → s'.at a = s.at a

namespace Stored
variable {s s' : Mount} {b : Nat} {c : Block}

theorem itable_eq (a : Stored s s' b c) : s'.itable = s.itable := by unfold itable; rw [a.hblock]

theorem placed (a : Stored s s' b c) (placed : s.Placed) : s'.Placed := by
  unfold Placed
  rw [a.icindex,a.itable_eq]; exact placed

section Table
variable (a : Stored s s' b c) (v : s.Mid) (t : b ∉ s.itable)
include a v t

theorem diskInode {i : Nat} (inside : i / 32 < s.itable.length) : s'.diskInode i = s.diskInode i := by
  have found := List.getElem?_eq_getElem inside
  have bound := (itable_bounds v found).2
  have other : s.itable[i / 32] ≠ b := fun equal => t (List.mem_of_getElem? (equal ▸ found))
  have block := a.stay _ (Nat.lt_trans bound s.nextBlock_lt) other
  unfold Mount.diskInode
  rw [a.itable_eq,List.getD_eq_getElem?_getD,found]
  simp only [Option.getD_some,block]

theorem inode {i : Nat} (inside : i / 32 < s.itable.length) : s'.inode i = s.inode i := by
  unfold Mount.inode
  rw [a.icindex,a.icache,a.diskInode v t inside]

theorem clean (clean : s.Clean) : s'.Clean := by
  intro i h here
  rw [a.hblock] at h
  rw [a.icindex] at here
  rw [a.icache,a.diskInode v t (v.slot h)]
  exact clean i h here

theorem mid (ok : s'.image.Ok) (dclean : s'.vol.dcaddr = minusOne ∨
      (s'.image.DirBlock s'.vol.dcaddr.toNat ∧ s'.vol.dcache = dblockLayout.symm (s'.at s'.vol.dcaddr.toNat)))
    (xclean : s'.image.FileBlock s'.vol.xcaddr.toNat → s'.vol.xcache = s'.at s'.vol.xcaddr.toNat) : s'.Mid where
  ok := ok
  sep := by rw [a.hblock]; exact v.sep
  htidy := by rw [a.hblock]; exact v.htidy
  itidy := by
    intro i h
    rw [a.hblock] at h
    rw [a.inode v t (v.slot h)]; exact v.itidy i h
  iaddr := by rw [a.icindex,a.icaddr,a.itable_eq]; exact v.iaddr
  dclean := dclean
  xclean := xclean

theorem image_owner {p : Nat}
    (others : ∀ i, i < s.vol.hblock.nextInode.toNat → i ≠ p → (s.inode i).ftype = ftypeDir →
      b ∉ blocks (s.inode i).regs) :
    s'.image = if p < s.vol.hblock.nextInode.toNat then s.image.setNode p ((s.inode p).node s'.at) else s.image := by
  have nodes : s'.image.nodes = s.image.nodes.set p ((s.inode p).node s'.at) := by
    apply List.ext_getElem
    · simp [a.hblock]
    · intro i h₁ h₂
      have h : i < s.vol.hblock.nextInode.toNat := by simpa using h₂
      simp only [image,List.getElem_map,List.getElem_range,List.getElem_set]
      show Inode.node s'.at (s'.inode i) = _
      rw [a.inode v t (v.slot h)]
      by_cases same : i = p
      · subst same; simp
      · rw [if_neg (fun e => same e.symm)]
        refine Inode.node_congr (fun dir live => v.fits h dir live) ?_
        intro dir k member
        have node := s.image_node h
        have inside := v.ok.packed.within (some i) k (by
          show k ∈ blocks (s.image.node i).regs
          rw [node]; exact member)
        refine a.stay k (Nat.lt_trans inside.2 s.nextBlock_lt) ?_
        intro equal
        exact others i h same dir (equal ▸ member)
  have whole : s'.image = {s.image with nodes := s'.image.nodes} := by unfold image; rw [a.hblock]
  split
  · rw [whole,nodes]; rfl
  · rename_i beyond
    rw [whole,nodes,List.set_eq_of_length_le (by simpa using beyond)]

theorem image_free (apart : ∀ i, i < s.vol.hblock.nextInode.toNat → (s.inode i).ftype = ftypeDir →
      b ∉ blocks (s.inode i).regs) : s'.image = s.image := by
  have owner := a.image_owner v t (p := s.vol.hblock.nextInode.toNat) fun i h _ dir => apart i h dir
  rw [if_neg (Nat.lt_irrefl _)] at owner
  exact owner

end Table

theorem saved (a : Stored s s' b c) (positive : 0 < b) (saved : s.Saved) : s'.Saved := by
  unfold Saved
  rw [a.hblock,a.stay 0 (by decide) (by omega)]
  exact saved

end Stored

theorem Mid.not_dir {s : Mount} (v : s.Mid) {b : Nat} (other : ¬ s.image.DirBlock b) :
    ∀ i, i < s.vol.hblock.nextInode.toNat → (s.inode i).ftype = ftypeDir → b ∉ blocks (s.inode i).regs := by
  intro i h dir member
  have node := s.image_node h
  exact other (v.ok.dirBlock (i := i) (by rw [node]; exact dir) (by rw [node]; exact member))

theorem stored_stored {s : Mount} {b : Nat} (x : Buffer) (c : Block) (small : b < 4294967296) :
    Stored s (s.stored (UInt32.ofNat b) x c) b c := by
  refine ⟨⟨rfl,rfl,rfl,rfl,Nat.le_succ _⟩,⟨rfl,rfl,rfl⟩,rfl,?_,?_⟩
  · rw [stored_at,if_pos rfl]
  · intro a small' ne
    exact stored_other s x c (by rw [UInt32.toNat_ofNat_of_lt' small]; exact ne) small'

-- A whole directory block goes through its cache to the disk.
def putDir (s : Mount) (b : UInt32) (c : DBlock) : Mount :=
  saveDblockC {s with vol := {s.vol with dcaddr := b,dcache := c}}

structure PutDir (s s' : Mount) (b : Nat) (c : DBlock) : Prop extends Stored s s' b (dblockLayout c) where
  outcome : s'.vol.outcome = .success
  dcaddr : s'.vol.dcaddr = UInt32.ofNat b
  dcache : s'.vol.dcache = c
  xcaddr : s'.vol.xcaddr = s.vol.xcaddr
  xcache : s'.vol.xcache = s.vol.xcache

theorem putDir_put {s : Mount} {b : Nat} (sound : s.disk.Sound) (c : DBlock) (small : b < 4294967296) :
    PutDir s (s.putDir (UInt32.ofNat b) c) b c := by
  unfold putDir saveDblockC
  rw [wblk_ok (s := {s with vol := {s.vol with dcaddr := UInt32.ofNat b,dcache := c}}) sound]
  obtain ⟨⟨h₁,h₂,h₃,h₄,h₅⟩,⟨h₆,h₇,h₈⟩,h₉,put,stay⟩ := stored_stored
    (s := {s with vol := {s.vol with dcaddr := UInt32.ofNat b,dcache := c}}) .dcache (dblockLayout c) small
  exact ⟨⟨⟨h₁,h₂,h₃,h₄,h₅⟩,⟨h₆,h₇,h₈⟩,h₉,put,stay⟩,rfl,rfl,rfl,rfl,rfl⟩

namespace PutDir
variable {s s' : Mount} {b : Nat} {c : DBlock}

theorem files (a : PutDir s s' b c) (v : s.Mid) (d : s.image.DirBlock b) {k : Nat} (f : s.image.FileBlock k) :
    s'.at k = s.at k :=
  a.stay k (v.fileBlock_small f).1 fun same => d.not_file (same ▸ f)

theorem mid (a : PutDir s s' b c) (v : s.Mid) (d : s.image.DirBlock b) (ok : s'.image.Ok)
    (grows : s.image.Grows s'.image) : s'.Mid := by
  refine a.toStored.mid v (dirBlock_small d).2 ok (.inr ?_) ?_
  · rw [a.dcaddr,a.dcache,UInt32.toNat_ofNat_of_lt' (dirBlock_small d).1,a.put,Equiv.symm_apply_apply]
    exact ⟨grows.dirBlock d,rfl⟩
  · rw [a.xcaddr,a.xcache]
    intro file
    have old := grows.fileBlock ok file
    rw [a.files v d old]
    exact v.xclean old

end PutDir

-- A block of a file goes through the general purpose cache to the disk.
def putGp (s : Mount) (b : UInt32) (c : Block) : Mount :=
  saveGpC {s with vol := {s.vol with xcaddr := b,xcache := c}}

structure PutGp (s s' : Mount) (b : Nat) (c : Block) : Prop extends Stored s s' b c where
  outcome : s'.vol.outcome = .success
  dcaddr : s'.vol.dcaddr = s.vol.dcaddr
  dcache : s'.vol.dcache = s.vol.dcache
  xcaddr : s'.vol.xcaddr = UInt32.ofNat b
  xcache : s'.vol.xcache = c

theorem putGp_put {s : Mount} {b : Nat} (sound : s.disk.Sound) (c : Block) (small : b < 4294967296) :
    PutGp s (s.putGp (UInt32.ofNat b) c) b c := by
  unfold putGp saveGpC
  rw [wblk_ok (s := {s with vol := {s.vol with xcaddr := UInt32.ofNat b,xcache := c}}) sound]
  obtain ⟨⟨h₁,h₂,h₃,h₄,h₅⟩,⟨h₆,h₇,h₈⟩,h₉,put,stay⟩ := stored_stored
    (s := {s with vol := {s.vol with xcaddr := UInt32.ofNat b,xcache := c}}) .xcache c small
  exact ⟨⟨⟨h₁,h₂,h₃,h₄,h₅⟩,⟨h₆,h₇,h₈⟩,h₉,put,stay⟩,rfl,rfl,rfl,rfl,rfl⟩

namespace PutGp
variable {s s' : Mount} {b : Nat} {c : Block}

theorem image (a : PutGp s s' b c) (v : s.Mid) (f : s.image.FileBlock b) : s'.image = s.image :=
  a.toStored.image_free v (v.fileBlock_small f).2 (v.not_dir fun d => d.not_file f)

theorem mid (a : PutGp s s' b c) (v : s.Mid) (f : s.image.FileBlock b) : s'.Mid := by
  have image := a.image v f
  refine a.toStored.mid v (v.fileBlock_small f).2 (by rw [image]; exact v.ok) ?_ ?_
  · rw [a.dcaddr,a.dcache,image]
    rcases v.dclean with none | ⟨dir,right⟩
    · exact .inl none
    · exact .inr ⟨dir,by rw [a.stay _ (dirBlock_small dir).1 fun same => dir.not_file (same ▸ f)]; exact right⟩
  · rw [a.xcaddr,a.xcache,UInt32.toNat_ofNat_of_lt' (v.fileBlock_small f).1,a.put]
    exact fun _ => rfl

end PutGp

-- The header goes to block 0.
structure SavedHblock (s s' : Mount) : Prop extends Stored s s' 0 (headerLayout s.vol.hblock) where
  outcome : s'.vol.outcome = .success
  dcaddr : s'.vol.dcaddr = s.vol.dcaddr
  dcache : s'.vol.dcache = s.vol.dcache
  xcaddr : s'.vol.xcaddr = s.vol.xcaddr
  xcache : s'.vol.xcache = s.vol.xcache

theorem saveHblock_ok {s : Mount} (sound : s.disk.Sound) :
    saveHblock s = (s.stored 0 .hblock (headerLayout s.vol.hblock)).out .success := by
  unfold saveHblock
  rw [wblk_ok sound]; rfl

theorem saveHblock_saved {s : Mount} (sound : s.disk.Sound) : SavedHblock s (saveHblock s) := by
  rw [saveHblock_ok sound]
  obtain ⟨⟨h₁,h₂,h₃,h₄,h₅⟩,⟨h₆,h₇,h₈⟩,h₉,put,stay⟩ := stored_stored (s := s) (b := 0) .hblock
    (headerLayout s.vol.hblock) (by decide)
  exact ⟨⟨⟨h₁,h₂,h₃,h₄,h₅⟩,⟨h₆,h₇,h₈⟩,h₉,put,stay⟩,rfl,rfl,rfl,rfl,rfl⟩

theorem Mid.zero_free {s : Mount} (v : s.Mid) : 0 ∉ s.itable := fun member => by
  have := (v.ok.packed.within none 0 member).1
  omega

namespace SavedHblock
variable {s s' : Mount}

theorem saved (a : SavedHblock s s') : s'.Saved := by
  unfold Saved
  rw [a.put,a.hblock,Equiv.symm_apply_apply]

theorem image (a : SavedHblock s s') (v : s.Mid) : s'.image = s.image :=
  a.toStored.image_free v v.zero_free (v.not_dir fun d => by have := d.1; omega)

theorem mid (a : SavedHblock s s') (v : s.Mid) : s'.Mid := by
  have image := a.image v
  refine a.toStored.mid v v.zero_free (by rw [image]; exact v.ok) ?_ ?_
  · rw [a.dcaddr,a.dcache,image]
    rcases v.dclean with none | ⟨dir,right⟩
    · exact .inl none
    · exact .inr ⟨dir,by rw [a.stay _ (dirBlock_small dir).1 (by have := dir.1; omega)]; exact right⟩
  · rw [a.xcaddr,a.xcache,image]
    intro file
    rw [a.stay _ (v.fileBlock_small file).1 (fun same => v.ok.zero_not_file (same ▸ file))]
    exact v.xclean file

end SavedHblock

end Mount
end ArchiveOs.Fs2
