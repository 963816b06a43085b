import ArchiveOs.Lookups

-- One lemma for each store of the source: to a cached inode, to the header in
-- memory, and through the caches to the disk.
namespace ArchiveOs.Fs2
open Extents Layout

theorem Inode.node_congr {n : Inode} {rd rd' : Nat → Block}
    (fits : n.ftype = ftypeDir → n.regs ≠ [] → n.eof.toNat ≤ 128 * total n.regs)
    (same : n.ftype = ftypeDir → ∀ b ∈ blocks n.regs,rd' b = rd b) : n.node rd' = n.node rd := by
  unfold Inode.node
  congr 1
  by_cases dir : n.ftype = ftypeDir ∧ n.regs ≠ []
  · rw [if_pos dir,if_pos dir]
    apply List.map_congr_left
    intro k member
    have less := List.mem_range.mp member
    have enough := fits dir.1 dir.2
    have inside : k / 128 < (blocks n.regs).length := by rw [length_blocks]; omega
    unfold linkAt
    rw [List.getD_eq_getElem?_getD,List.getElem?_eq_getElem inside]
    rw [same dir.1 _ (by simp [List.getElem_mem])]
  · rw [if_neg dir,if_neg dir]

-- Images only grow while operations other than a remove run: blocks are taken
-- from the frontier, never handed over.
structure Image.Grows (m m' : Image) : Prop where
  nblocks : m'.nblocks = m.nblocks
  nextBlock : m.nextBlock ≤ m'.nextBlock
  table : ∀ b, b ∈ blocks m'.iregs → b ∈ blocks m.iregs ∨ m.nextBlock ≤ b
  files : ∀ i b, i < m'.nodes.length → (m'.node i).ftype ≠ ftypeDir → b ∈ blocks (m'.node i).regs →
    (∃ j, j < m.nodes.length ∧ (m.node j).ftype ≠ ftypeDir ∧ b ∈ blocks (m.node j).regs) ∨ m.nextBlock ≤ b

namespace Image.Grows
variable {m m' m'' : Image}

theorem refl (m : Image) : Grows m m :=
  ⟨rfl,Nat.le_refl _,fun _ h => .inl h,fun i _ h t member => .inl ⟨i,h,t,member⟩⟩

theorem trans (a : Grows m m') (b : Grows m' m'') : Grows m m'' := by
  refine ⟨b.nblocks.trans a.nblocks,Nat.le_trans a.nextBlock b.nextBlock,?_,?_⟩
  · intro c member
    rcases b.table c member with old | new
    · exact a.table c old
    · exact .inr (Nat.le_trans a.nextBlock new)
  · intro i c h t member
    rcases b.files i c h t member with ⟨j,hj,tj,old⟩ | new
    · exact a.files j c hj tj old
    · exact .inr (Nat.le_trans a.nextBlock new)

theorem dirBlock (g : Grows m m') {b : Nat} (d : m.DirBlock b) : m'.DirBlock b := by
  obtain ⟨positive,below,notTable,notFile⟩ := d
  refine ⟨positive,Nat.lt_of_lt_of_le below g.nextBlock,?_,?_⟩
  · intro member
    rcases g.table b member with old | new
    · exact notTable old
    · omega
  · intro i h t member
    rcases g.files i b h t member with ⟨j,hj,tj,old⟩ | new
    · exact notFile j hj tj old
    · omega

theorem fileBlock (g : Grows m m') (ok : m'.Ok) {b : Nat} (f : m'.FileBlock b) : m.FileBlock b := by
  rcases f with ⟨i,h,t,member⟩ | ⟨above,below⟩
  · rcases g.files i b h t member with old | new
    · exact .inl old
    · have bounds := ok.packed.within (some i) b member
      have upper := ok.upper
      have same := g.nblocks
      exact .inr ⟨new,by omega⟩
  · have := g.nextBlock
    have same := g.nblocks
    exact .inr ⟨by omega,by omega⟩

theorem setNode {i : Nat} {n : Node} (h : i < m.nodes.length) (ftype : n.ftype = (m.node i).ftype)
    (regs : ∀ b ∈ blocks n.regs,b ∈ blocks (m.node i).regs ∨ m.nextBlock ≤ b) : Grows m (m.setNode i n) := by
  refine ⟨rfl,Nat.le_refl _,fun _ h => .inl h,?_⟩
  intro j b hj t member
  rw [length_setNode] at hj
  rw [node_setNode n j h] at t member
  split at t
  · rename_i is_i
    subst is_i
    rw [if_pos rfl] at member
    rcases regs b member with old | new
    · exact .inl ⟨j,hj,by rw [← ftype]; exact t,old⟩
    · exact .inr new
  · rename_i other
    rw [if_neg other] at member
    exact .inl ⟨j,hj,t,member⟩

theorem setDir {i : Nat} {n : Node} (h : i < m.nodes.length) (dir : n.ftype = ftypeDir) : Grows m (m.setNode i n) := by
  refine ⟨rfl,Nat.le_refl _,fun _ h => .inl h,?_⟩
  intro j b hj t member
  rw [length_setNode] at hj
  rw [node_setNode n j h] at t member
  split at t
  · exact absurd dir t
  · rename_i other
    rw [if_neg other] at member
    exact .inl ⟨j,hj,t,member⟩

theorem push {n : Node} (empty : n.ftype ≠ ftypeDir → n.regs = []) : Grows m (m.push n) := by
  refine ⟨rfl,Nat.le_refl _,fun _ h => .inl h,?_⟩
  intro i b h t member
  rw [length_push] at h
  rw [node_push] at t member
  split at t
  · rename_i last
    rw [if_pos last,empty t] at member
    cases member
  · rename_i old
    rw [if_neg old] at member
    exact .inl ⟨i,by omega,t,member⟩

end Image.Grows

theorem Image.FileBlock.small {m : Image} (ok : m.Ok) {b : Nat} (f : m.FileBlock b) : b ≤ m.nblocks := by
  rcases f with ⟨i,_,_,member⟩ | bounds
  · have := (ok.packed.within (some i) b member).2
    have := ok.upper
    omega
  · exact bounds.2

theorem Image.DirBlock.not_file {m : Image} {b : Nat} (d : m.DirBlock b) : ¬ m.FileBlock b := by
  rintro (⟨i,h,t,member⟩ | ⟨above,_⟩)
  · exact d.2.2.2 i h t member
  · have := d.2.1; omega

theorem Image.Ok.table_not_file {m : Image} (ok : m.Ok) {b : Nat} (table : b ∈ blocks m.iregs) : ¬ m.FileBlock b := by
  rintro (⟨i,_,_,member⟩ | ⟨above,_⟩)
  · cases ok.packed.apart none (some i) b table member
  · have := (ok.packed.within none b table).2; omega

theorem Image.Ok.zero_not_file {m : Image} (ok : m.Ok) : ¬ m.FileBlock 0 := by
  rintro (⟨i,_,_,member⟩ | ⟨above,_⟩)
  · have := (ok.packed.within (some i) 0 member).1; omega
  · have := ok.lower; omega

-- No read will fail from now on.
def Disk.Quiet (d : Disk) : Prop := ∀ t x,d.trace.length ≤ t → d.rdFails t x = false

namespace Mount

def Clean (s : Mount) : Prop :=
  ∀ i, i < s.vol.hblock.nextInode.toNat → i / 32 = s.vol.icindex.toNat → s.vol.icache.get ⟨i % 32,islot_lt i⟩ = s.diskInode i

-- The device behind a run of requests none of which has failed.
structure Dev (s s' : Mount) : Prop where
  blk0 : s'.vol.blk0 = s.vol.blk0
  rdFails : s'.disk.rdFails = s.disk.rdFails
  wrFails : s'.disk.wrFails = s.disk.wrFails
  failed : s'.disk.failed = s.disk.failed
  later : s.disk.trace.length ≤ s'.disk.trace.length

namespace Dev
variable {s s' s'' : Mount}

theorem refl (s : Mount) : Dev s s := ⟨rfl,rfl,rfl,rfl,Nat.le_refl _⟩
theorem trans (a : Dev s s') (b : Dev s' s'') : Dev s s'' :=
  ⟨b.blk0.trans a.blk0,b.rdFails.trans a.rdFails,b.wrFails.trans a.wrFails,b.failed.trans a.failed,
    Nat.le_trans a.later b.later⟩
theorem out (a : Dev s s') (o : Outcome) : Dev s (s'.out o) := ⟨a.blk0,a.rdFails,a.wrFails,a.failed,a.later⟩
theorem sound (a : Dev s s') (sound : s.disk.Sound) : s'.disk.Sound :=
  ⟨by rw [a.rdFails]; exact sound.inodes,by rw [a.wrFails]; exact sound.writes⟩
theorem quiet (a : Dev s s') (quiet : s.disk.Quiet) : s'.disk.Quiet := by
  intro t x after
  rw [a.rdFails]
  exact quiet t x (Nat.le_trans a.later after)

end Dev

-- Header and caches stay true when the image grows and the blocks they are about stay.
theorem Mid.next {s s' : Mount} (v : s.Mid) (ok : s'.image.Ok) (grows : s.image.Grows s'.image)
    (sep : s'.vol.hblock.Marked) (htidy : Tidy s'.vol.hblock.rows)
    (itidy : ∀ i, i < s'.vol.hblock.nextInode.toNat → Tidy (s'.inode i).rows)
    (iaddr : s'.vol.icindex.toNat < s'.itable.length → s'.itable[s'.vol.icindex.toNat]? = some s'.vol.icaddr.toNat)
    (dcaddr : s'.vol.dcaddr = s.vol.dcaddr) (dcache : s'.vol.dcache = s.vol.dcache)
    (dstay : ∀ b, s.image.DirBlock b → s'.at b = s.at b)
    (xcaddr : s'.vol.xcaddr = s.vol.xcaddr) (xcache : s'.vol.xcache = s.vol.xcache)
    (xstay : ∀ b, s'.image.FileBlock b → s'.at b = s.at b) : s'.Mid where
  ok := ok
  sep := sep
  htidy := htidy
  itidy := itidy
  iaddr := iaddr
  dclean := by
    rw [dcaddr,dcache]
    rcases v.dclean with none | ⟨dir,true_of⟩
    · exact .inl none
    · exact .inr ⟨grows.dirBlock dir,by rw [dstay _ dir]; exact true_of⟩
  xclean := by
    rw [xcaddr,xcache]
    intro file
    rw [xstay _ file]
    exact v.xclean (grows.fileBlock ok file)

theorem Mid.fits {s : Mount} (v : s.Mid) {i : Nat} (h : i < s.vol.hblock.nextInode.toNat)
    (dir : (s.inode i).ftype = ftypeDir) (live : (s.inode i).regs ≠ []) :
    (s.inode i).eof.toNat ≤ 128 * total (s.inode i).regs := by
  have node := s.image_node h
  have shape := v.ok.dirs i (by simpa using h) (by rw [node]; exact dir) (by rw [node]; exact live)
  have fits := shape.fits
  rw [node] at fits
  exact fits

theorem Mid.image_stays {s s' : Mount} (v : s.Mid) (hblock : s'.vol.hblock = s.vol.hblock)
    (inodes : ∀ i, i < s.vol.hblock.nextInode.toNat → s'.inode i = s.inode i)
    (stay : ∀ b, s.image.DirBlock b → s'.at b = s.at b) : s'.image = s.image := by
  unfold image
  rw [hblock]
  congr 1
  apply List.map_congr_left
  intro i member
  have h := List.mem_range.mp member
  unfold node
  rw [inodes i h]
  refine Inode.node_congr (fun dir live => v.fits h dir live) ?_
  intro dir b inside
  have node := s.image_node h
  refine stay b (v.ok.dirBlock (i := i) (by rw [node]; exact dir) ?_)
  rw [node]; exact inside

theorem inode_here {s : Mount} {i : Nat} (cached : i / 32 = s.vol.icindex.toNat) : s.inode i = s.vol.icache[i % 32] :=
  if_pos cached

theorem inode_there {s : Mount} {i : Nat} (other : i / 32 ≠ s.vol.icindex.toNat) : s.inode i = s.diskInode i :=
  if_neg other

theorem diskInode_at {s : Mount} {i b : Nat} {new : IBlock} (found : s.itable[i / 32]? = some b)
    (block : s.at b = iblockLayout new) : s.diskInode i = new.get ⟨i % 32,islot_lt i⟩ := by
  have content : iblockLayout.symm (s.at b) = new := by rw [block,Equiv.symm_apply_apply]
  unfold diskInode
  rw [List.getD_eq_getElem?_getD,found]
  simp only [Option.getD_some,content]
  rfl

-- Storing an inode into the cache.
section SetCached
variable {s : Mount} {x : UInt32} {n : Inode}

theorem inode_setCached (here : s.vol.icindex = x / 32) (n : Inode) (i : Nat) :
    (s.setCached x n).inode i = if i = x.toNat then n else s.inode i := by
  unfold inode
  have index : (s.setCached x n).vol.icindex.toNat = x.toNat / 32 := by
    show s.vol.icindex.toNat = _
    rw [here,UInt32.toNat_div]; rfl
  have old : s.vol.icindex.toNat = x.toNat / 32 := index
  rw [index,old]
  by_cases same : i = x.toNat
  · subst same; simp [setCached]
  · rw [if_neg same]
    split
    · have ne : x.toNat % 32 ≠ i % 32 := by omega
      simp only [setCached]
      rw [Vector.getElem_set_ne _ _ ne]
    · rfl

theorem image_setCached (here : s.vol.icindex = x / 32) (n : Inode) :
    (s.setCached x n).image =
      if x.toNat < s.vol.hblock.nextInode.toNat then s.image.setNode x.toNat (n.node s.at) else s.image := by
  have nodes : (s.setCached x n).image.nodes = s.image.nodes.set x.toNat (n.node s.at) := by
    apply List.ext_getElem
    · simp [setCached]
    · intro i h₁ h₂
      simp only [image,List.getElem_map,List.getElem_range,List.getElem_set]
      show Inode.node s.at ((s.setCached x n).inode i) = _
      rw [inode_setCached here]
      by_cases same : i = x.toNat
      · subst same; simp
      · rw [if_neg same,if_neg (fun e => same e.symm)]; rfl
  split
  · have whole : (s.setCached x n).image = {s.image with nodes := (s.setCached x n).image.nodes} := rfl
    rw [whole,nodes]; rfl
  · rename_i beyond
    have whole : (s.setCached x n).image = {s.image with nodes := (s.setCached x n).image.nodes} := rfl
    rw [whole,nodes,List.set_eq_of_length_le (by simpa using beyond)]

theorem Mid.setCached_live (v : s.Mid) (here : s.vol.icindex = x / 32) (h : x.toNat < s.vol.hblock.nextInode.toNat)
    (tidy : Tidy n.rows) (ok : (s.image.setNode x.toNat (n.node s.at)).Ok)
    (grows : s.image.Grows (s.image.setNode x.toNat (n.node s.at))) : (s.setCached x n).Mid := by
  have image := image_setCached here n
  rw [if_pos h] at image
  refine v.next (by rw [image]; exact ok) (by rw [image]; exact grows) v.sep v.htidy ?_ v.iaddr rfl rfl
    (fun _ _ => rfl) rfl rfl (fun _ _ => rfl)
  intro i hi
  rw [inode_setCached here]
  split
  · exact tidy
  · exact v.itidy i hi

theorem Mid.setCached_dead (v : s.Mid) (here : s.vol.icindex = x / 32)
    (h : s.vol.hblock.nextInode.toNat ≤ x.toNat) : (s.setCached x n).Mid := by
  have image := image_setCached here n
  rw [if_neg (by omega)] at image
  refine v.next (by rw [image]; exact v.ok) (by rw [image]; exact .refl _) v.sep v.htidy ?_ v.iaddr rfl rfl
    (fun _ _ => rfl) rfl rfl (fun _ _ => rfl)
  intro i hi
  have hi' : i < s.vol.hblock.nextInode.toNat := hi
  rw [inode_setCached here,if_neg (by omega)]
  exact v.itidy i hi

end SetCached

-- Saving the inode cache.
section SaveIblock
variable {s : Mount}

theorem saveIblockC_ok (sound : s.disk.Sound) :
    saveIblockC s = (s.stored s.vol.icaddr .icache (iblockLayout s.vol.icache)).out .success := by
  unfold saveIblockC
  rw [wblk_ok sound]; rfl

structure SavedIblock (s s' : Mount) : Prop extends Dev s s' where
  mid : s'.Mid
  clean : s'.Clean
  placed : s'.Placed
  image : s'.image = s.image
  hblock : s'.vol.hblock = s.vol.hblock
  inode : ∀ i, i / 32 < s.itable.length → s'.inode i = s.inode i
  disk : ∀ i, i / 32 < s.itable.length → s'.diskInode i = s.inode i
  stay : ∀ b, b < 4294967296 → b ∉ s.itable → s'.at b = s.at b
  outcome : s'.vol.outcome = .success
  dcaddr : s'.vol.dcaddr = s.vol.dcaddr
  dcache : s'.vol.dcache = s.vol.dcache
  xcaddr : s'.vol.xcaddr = s.vol.xcaddr
  xcache : s'.vol.xcache = s.vol.xcache

theorem Mid.slot (v : s.Mid) {i : Nat} (h : i < s.vol.hblock.nextInode.toNat) : i / 32 < s.itable.length := by
  obtain ⟨b,found⟩ := itable_holds v h
  exact (List.getElem?_eq_some_iff.mp found).1

theorem dirBlock_small {b : Nat} (d : s.image.DirBlock b) : b < 4294967296 ∧ b ∉ s.itable :=
  ⟨Nat.lt_trans d.2.1 s.nextBlock_lt,d.2.2.1⟩

theorem Mid.fileBlock_small (v : s.Mid) {b : Nat} (f : s.image.FileBlock b) : b < 4294967296 ∧ b ∉ s.itable := by
  have := f.small v.ok
  have := v.ok.room
  exact ⟨by omega,fun table => v.ok.table_not_file table f⟩

theorem Mid.saveIblockC (v : s.Mid) (sound : s.disk.Sound) (placed : s.Placed) :
    SavedIblock s (saveIblockC s) := by
  rw [saveIblockC_ok sound]
  have addr := v.iaddr placed
  have stay : ∀ b, b < 4294967296 → b ∉ s.itable →
      (s.stored s.vol.icaddr .icache (iblockLayout s.vol.icache)).at b = s.at b := by
    intro b small other
    refine stored_other s _ _ ?_ small
    intro equal
    subst equal
    exact other (List.mem_of_getElem? addr)
  have nodup : s.itable.Nodup := v.ok.packed.nodup none
  -- Every other block of the table stays, this one gets what the cache holds.
  have inode : ∀ i, i / 32 < s.itable.length →
      (s.stored s.vol.icaddr .icache (iblockLayout s.vol.icache)).diskInode i = s.inode i := by
    intro i inside
    by_cases cached : i / 32 = s.vol.icindex.toNat
    · rw [inode_here cached]
      exact diskInode_at (cached ▸ addr) (stored_same s _ _ _)
    · rw [inode_there cached]
      have found := List.getElem?_eq_getElem inside
      have bound := (itable_bounds v found).2
      have other : s.itable[i / 32] ≠ s.vol.icaddr.toNat := by
        intro equal
        obtain ⟨inside',value⟩ := List.getElem?_eq_some_iff.mp addr
        exact cached ((List.Nodup.getElem_inj_iff nodup).mp (equal.trans value.symm))
      have block := stored_other s .icache (iblockLayout s.vol.icache) other (Nat.lt_trans bound s.nextBlock_lt)
      unfold diskInode
      rw [show (s.stored s.vol.icaddr .icache (iblockLayout s.vol.icache)).itable = s.itable from rfl,
        List.getD_eq_getElem?_getD,found]
      simp only [Option.getD_some,block]
  have overlay : ∀ i, i / 32 < s.itable.length →
      ((s.stored s.vol.icaddr .icache (iblockLayout s.vol.icache)).out .success).inode i = s.inode i := by
    intro i inside
    by_cases cached : i / 32 = s.vol.icindex.toNat
    · rw [inode_here cached,inode_here (by exact cached)]; rfl
    · rw [← inode i inside,inode_there (by exact cached)]; rfl
  have image : ((s.stored s.vol.icaddr .icache (iblockLayout s.vol.icache)).out .success).image = s.image :=
    v.image_stays rfl (fun i h => overlay i (v.slot h))
      fun b d => stay b (dirBlock_small d).1 (dirBlock_small d).2
  refine ⟨⟨rfl,rfl,rfl,rfl,Nat.le_succ _⟩,?_,?_,placed,image,rfl,overlay,inode,stay,rfl,rfl,rfl,rfl,rfl⟩
  · refine v.next (by rw [image]; exact v.ok) (by rw [image]; exact .refl _) v.sep v.htidy ?_ v.iaddr rfl rfl
      (fun b d => stay b (dirBlock_small d).1 (dirBlock_small d).2) rfl rfl ?_
    · intro i h
      rw [overlay i (v.slot h)]; exact v.itidy i h
    · intro b f
      rw [image] at f
      exact stay b (v.fileBlock_small f).1 (v.fileBlock_small f).2
  · intro i h cached
    have inside := v.slot h
    exact (inode_here (s := s) cached).symm.trans (inode i inside).symm

end SaveIblock

end Mount
end ArchiveOs.Fs2
