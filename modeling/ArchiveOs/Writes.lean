import ArchiveOs.Entries
import ArchiveOs.Reads

-- Writing a file: the image and the stores that fs2_write comes to, with a disk
-- that is full at any point, or a stop at a failed read.
namespace ArchiveOs.Fs2
open Extents Layout

namespace Image

-- A store works on the block that the general purpose cache holds: for the first
-- one it has been read, later ones overwrite what is left of the one before.
def Put.apply (src : Nat → UInt8) (c : (Nat → Block) × Block) (p : Put) : (Nat → Block) × Block :=
  let new := patch c.2 p.off p.len fun k => src (p.src + k)
  (Function.update c.1 p.block new,new)

def puts (src : Nat → UInt8) (ps : List Put) (c : (Nat → Block) × Block) : (Nat → Block) × Block :=
  ps.foldl (Put.apply src) c

def Written.stores (w : Written) (src : Nat → UInt8) (rd : Nat → Block) : Nat → Block :=
  match w.puts with
  | [] => rd
  | p :: ps => (Image.puts src (p :: ps) (rd,rd p.block)).1

-- One more region for file i.
def growAt (m : Image) (i sz : Nat) : Image :=
  let n := m.node i
  Image.setNode {m with nextBlock := m.nextBlock + sz} i {n with regs := n.regs ++ [⟨m.nextBlock,sz⟩]}

theorem node_growAt {m : Image} {i : Nat} (sz : Nat) (h : i < m.nodes.length) (j : Nat) :
    (m.growAt i sz).node j =
      if j = i then {m.node i with regs := (m.node i).regs ++ [⟨m.nextBlock,sz⟩]} else m.node j :=
  node_setNode (m := {m with nextBlock := m.nextBlock + sz}) _ j h

theorem blkOrGrow_some {m : Image} {i q sz b : Nat} (at_q : (blocks (m.node i).regs)[q]? = some b) :
    m.blkOrGrow i q sz = .ok (m,b) := by
  unfold blkOrGrow
  dsimp only
  rw [at_q]

theorem blkOrGrow_none {m : Image} {i q sz : Nat} (at_q : (blocks (m.node i).regs)[q]? = none) :
    m.blkOrGrow i q sz =
      if (m.node i).regs.length = 23 then .error .fileFull
      else if m.nblocks < m.nextBlock + sz then .error .diskFull
      else .ok (m.growAt i sz,m.nextBlock) := by
  unfold blkOrGrow alloc growAt
  dsimp only
  rw [at_q]
  dsimp only
  by_cases all : (m.node i).regs.length = 23
  · rw [if_pos all,if_pos all]
  rw [if_neg all,if_neg all]
  by_cases full : m.nblocks < m.nextBlock + sz
  · rw [if_pos full,if_pos full]
  · rw [if_neg full,if_neg full]

theorem Living.growAt {m : Image} (living : m.Living) {i : Nat} (sz : Nat) (h : i < m.nodes.length)
    (file : (m.node i).ftype ≠ ftypeDir) : (m.growAt i sz).Living := by
  have advanced : Living {m with nextBlock := m.nextBlock + sz} := living.same_nodes rfl
  exact advanced.setNode h (fun _ dir => absurd dir file) fun dir => absurd dir file

theorem Ok.growAt {m : Image} (ok : m.Ok) {i sz : Nat} (h : i < m.nodes.length) (file : (m.node i).ftype ≠ ftypeDir)
    (fits : m.nextBlock + sz ≤ m.nblocks) : (m.growAt i sz).Ok ∧ m.Grows (m.growAt i sz) := by
  have more := ok.growNode sz (n := {m.node i with regs := (m.node i).regs ++ [⟨m.nextBlock,sz⟩]}) h rfl
  have advanced := ok.advance fits
  refine ⟨advanced.replace h more rfl rfl (fun _ _ => by simp) fun dir => absurd dir file,?_⟩
  refine ⟨rfl,Nat.le_add_right _ _,fun _ h => .inl h,?_⟩
  intro j b hj t member
  have hj' : j < m.nodes.length := by simpa [Image.growAt] using hj
  rw [node_growAt sz h] at t member
  by_cases same : j = i
  · rw [if_pos same,blocks_append,List.mem_append] at member
    rcases member with old | new
    · exact .inl ⟨i,h,file,old⟩
    · obtain ⟨r,here,bounds⟩ := mem_blocks.mp new
      rw [List.mem_singleton.mp here] at bounds
      exact .inr bounds.1
  · rw [if_neg same] at t member
    exact .inl ⟨j,hj',t,member⟩

-- The blocks of the volume after a write.
def stores (m : Image) (path : List UInt8) (src : Nat → UInt8) (nbytes cursor : UInt32) (rd : Nat → Block) : Nat → Block :=
  match m.resolve path with
  | .error _ => rd
  | .ok (i,_) =>
    if (m.node i).ftype ≠ ftypeFile then rd
    else
      match m.writeAt i nbytes cursor with
      | .error _ => rd
      | .ok w => w.stores src rd

end Image

namespace Mount

-- A write to inode x is under way since `s`: the inode cache is not saved yet,
-- everything else is; `m` is the image and `rd` has the bytes of all files. Blocks of
-- directories have not been touched.
structure Writing (s t : Mount) (x : UInt32) (m : Image) (rd : Nat → Block) : Prop extends Dev s t where
  start : s.Mid
  mid : t.Mid
  saved : t.Saved
  here : t.vol.icindex = x / 32
  placed : t.Placed
  next : t.vol.hblock.nextInode = s.vol.hblock.nextInode
  table : t.itable = s.itable
  image : t.image = m
  grows : s.image.Grows m
  living : m.Living
  file : (t.inode x.toNat).ftype ≠ ftypeDir
  bytes : ∀ b, s.image.FileBlock b → t.at b = rd b
  dirs : ∀ b, s.image.DirBlock b → t.at b = s.at b

section Writing
variable {s t : Mount} {x : UInt32} {m : Image} {rd : Nat → Block}

theorem Writing.out (w : Writing s t x m rd) (o : Outcome) : Writing s (t.out o) x m rd :=
  ⟨w.toDev.out o,w.start,w.mid.out o,w.saved,w.here,w.placed,w.next,w.table,w.image,w.grows,w.living,w.file,w.bytes,w.dirs⟩

theorem Writing.exist (w : Writing s t x m rd) (h : x.toNat < s.vol.hblock.nextInode.toNat) :
    x.toNat < t.vol.hblock.nextInode.toNat := by rw [w.next]; exact h

-- The region of a file that has no block for an index.
def growInode (t : Mount) (x : UInt32) (sz : UInt8) : Inode :=
  let n := t.cached x
  {n with
    regStart := n.regStart.setIfInBounds n.regs.length t.vol.hblock.nextBlock
    regLen := n.regLen.setIfInBounds n.regs.length sz}

-- Growing a file by a region, in memory: what fs2_find_free_region saves in
-- between depends on the header only.
def grown (t : Mount) (x : UInt32) (sz : UInt8) : Mount := (t.advance sz).setCached x (t.growInode x sz)

theorem Inode.file_node {n : Inode} (rd : Nat → Block) (file : n.ftype ≠ ftypeDir) :
    n.node rd = ⟨n.ftype,n.fperm,n.eof.toNat,n.iparent.toNat,n.regs,[]⟩ := by
  unfold Inode.node
  rw [if_neg fun both => file both.1]

theorem grown_image (v : t.Mid) (here : t.vol.icindex = x / 32) (h : x.toNat < t.vol.hblock.nextInode.toNat)
    (file : (t.inode x.toNat).ftype ≠ ftypeDir) (room : (t.inode x.toNat).regs.length < 23) (sz : UInt8) :
    Tidy (t.growInode x sz).rows ∧ (t.grown x sz).image = t.image.growAt x.toNat sz.toNat := by
  have cached := cached_inode here
  have set := Inode.regs_set (n := t.inode x.toNat) (t.growInode x sz) (v.itidy _ h) rfl room
    sz (frontier_ne_zero v) (by unfold growInode; rw [cached]) (by unfold growInode; rw [cached])
  refine ⟨set.2,?_⟩
  have image := image_setCached (s := t.advance sz) (x := x) here (t.growInode x sz)
  rw [if_pos (by exact h),advance_image v _] at image
  have file' : (t.growInode x sz).ftype ≠ ftypeDir := by unfold growInode; rw [cached]; exact file
  have node : (t.growInode x sz).node t.at = {t.image.node x.toNat with
      regs := (t.image.node x.toNat).regs ++ [⟨t.image.nextBlock,sz.toNat⟩]} := by
    rw [t.image_node h,Inode.file_node _ file',set.1]
    unfold Mount.node
    rw [Inode.file_node _ file]
    unfold growInode
    rw [cached]
    rfl
  exact image.trans (congrArg _ node)

theorem grown_mid (v : t.Mid) (here : t.vol.icindex = x / 32) (h : x.toNat < t.vol.hblock.nextInode.toNat)
    (file : (t.inode x.toNat).ftype ≠ ftypeDir) (room : (t.inode x.toNat).regs.length < 23) (sz : UInt8)
    (fits : t.image.nextBlock + sz.toNat ≤ t.image.nblocks) : (t.grown x sz).Mid ∧ t.image.Grows (t.grown x sz).image := by
  obtain ⟨tidy,image⟩ := grown_image v here h file room sz
  have ftype : (t.image.node x.toNat).ftype ≠ ftypeDir := by rw [t.image_node h]; exact file
  obtain ⟨ok,grows⟩ := v.ok.growAt (by simpa using h) ftype fits
  rw [← image] at ok grows
  refine ⟨v.next ok grows ⟨v.sep.ident,v.sep.separator⟩ v.htidy ?_ v.iaddr rfl rfl (fun _ _ => rfl) rfl rfl (fun _ _ => rfl),grows⟩
  intro i hi
  have inode := inode_setCached (s := t.advance sz) (x := x) here (t.growInode x sz) i
  show Tidy (((t.advance sz).setCached x (t.growInode x sz)).inode i).rows
  rw [inode]
  split
  · exact tidy
  · exact v.itidy i hi

theorem saveHblock_setCached (sound : t.disk.Sound) (x : UInt32) (n : Inode) :
    saveHblock (t.setCached x n) = (saveHblock t).setCached x n := by
  rw [saveHblock_ok sound,saveHblock_ok (by exact sound)]; rfl

theorem growFile_eq (v : t.Mid) (sound : t.disk.Sound) (here : t.vol.icindex = x / 32) (sz : UInt8) :
    growFile t x sz = some (
      if (t.inode x.toNat).regs.length = 23 then (t.out .fileFull,0)
      else if t.image.nblocks < t.image.nextBlock + sz.toNat then (t.out .diskFull,0)
      else ((saveHblock (t.grown x sz)).out .success,UInt32.ofNat t.image.nextBlock)) := by
  have cached := cached_inode here
  have slot : growSlot (t.inode x.toNat).rows 0 = (t.inode x.toNat).regs.length := by
    rw [growSlot_eq,Nat.zero_add]; rfl
  unfold growFile
  dsimp only
  rw [cached,slot]
  by_cases all : (t.inode x.toNat).regs.length = 23
  · rw [if_pos all,if_pos all]
  rw [if_neg all,if_neg all]
  have region := findFreeRegion_spec v sz true
  by_cases full : t.image.nblocks < t.image.nextBlock + sz.toNat
  · rw [Image.alloc_none.mpr full] at region
    dsimp only at region
    rw [region,if_pos full]
    simp only [Option.bind_eq_bind,Option.bind_some]
    rw [if_pos (.inl trivial)]
  · have taken : t.image.alloc sz.toNat =
        some ({t.image with nextBlock := t.image.nextBlock + sz.toNat},t.image.nextBlock) :=
      Image.alloc_eq.mpr ⟨by omega,rfl,rfl⟩
    rw [taken] at region
    dsimp only at region
    obtain ⟨_,word,_,run⟩ := region
    have sound' : (t.advance sz).disk.Sound := sound
    have positive : UInt32.ofNat t.image.nextBlock ≠ 0 := by rw [← word]; exact frontier_ne_zero v
    rw [run,if_neg full]
    simp only [Option.bind_eq_bind,Option.bind_some,if_true]
    rw [if_neg (by rw [saveHblock_ok sound']; simpa using positive)]
    unfold grown
    rw [saveHblock_setCached sound',saveHblock_ok sound']
    unfold growInode
    rw [cached,word]
    have cached' : ((t.advance sz).stored 0 .hblock (headerLayout (t.advance sz).vol.hblock)).cached x =
        t.inode x.toNat := cached
    rw [out_cached,cached']

theorem Writing.grow (w : Writing s t x m rd) (sound : s.disk.Sound) (h : x.toNat < s.vol.hblock.nextInode.toNat)
    (success : t.vol.outcome = .success) (q : Nat) (sz : UInt8) :
    ∃ t' blk,blkOrGrow t x q sz = some (t',blk) ∧ t'.vol.xcaddr = t.vol.xcaddr ∧ t'.vol.xcache = t.vol.xcache ∧
      match m.blkOrGrow x.toNat q sz.toNat with
      | .error e => t' = t.out e ∧ e ≠ .success ∧ e ≠ .diskRdErr
      | .ok (m',b) => blk = UInt32.ofNat b ∧ t'.vol.outcome = .success ∧ m'.FileBlock b ∧ Writing s t' x m' rd := by
  have v := w.mid
  have exist := w.exist h
  have sound' := w.toDev.sound sound
  have node := t.image_node exist
  rw [w.image] at node
  have regs : (m.node x.toNat).regs = (t.inode x.toNat).regs := by rw [node]; rfl
  have length : x.toNat < m.nodes.length := by rw [← w.image]; simpa using exist
  unfold blkOrGrow
  dsimp only
  rw [cached_inode w.here]
  cases at_q : (blocks (t.inode x.toNat).regs)[q]? with
  | some b =>
    have member := node_blocks exist w.file b (List.mem_of_getElem? at_q)
    rw [Inode.blk_some at_q,if_neg (FileBlock.word v member).2,Image.blkOrGrow_some (by rw [regs]; exact at_q)]
    exact ⟨_,_,rfl,rfl,rfl,rfl,success,by rw [← w.image]; exact member,w⟩
  | none =>
    have beyond : total (t.inode x.toNat).regs ≤ q := by
      rw [← length_blocks]
      exact List.getElem?_eq_none_iff.mp at_q
    rw [Inode.blk_none beyond,if_pos rfl,growFile_eq v sound' w.here,Image.blkOrGrow_none (by rw [regs]; exact at_q),regs,
      ← w.image]
    by_cases all : (t.inode x.toNat).regs.length = 23
    · rw [if_pos all,if_pos all]
      exact ⟨_,_,rfl,rfl,rfl,rfl,by decide,by decide⟩
    rw [if_neg all,if_neg all]
    by_cases full : t.image.nblocks < t.image.nextBlock + sz.toNat
    · rw [if_pos full,if_pos full]
      exact ⟨_,_,rfl,rfl,rfl,rfl,by decide,by decide⟩
    rw [if_neg full,if_neg full]
    have room : (t.inode x.toNat).regs.length < 23 := by
      have := regions_length_le (t.inode x.toNat).rows
      rw [Inode.length_rows] at this
      have le : (t.inode x.toNat).regs.length ≤ 23 := this
      omega
    obtain ⟨mid,grows⟩ := grown_mid v w.here exist w.file room sz (by omega)
    have image := (grown_image v w.here exist w.file room sz).2
    have saved := saveHblock_saved (s := t.grown x sz) sound'
    have image' := (saved.image mid).trans image
    have mid' := saved.mid mid
    have grows' : s.image.Grows (t.image.growAt x.toNat sz.toNat) := by
      rw [← image]; exact (w.image ▸ w.grows).trans grows
    have here' : (saveHblock (t.grown x sz)).vol.icindex = x / 32 := saved.icindex.trans w.here
    have inode' : (saveHblock (t.grown x sz)).inode x.toNat = t.growInode x sz := by
      have old := inode_setCached (s := t.advance sz) (x := x) w.here (t.growInode x sz) x.toNat
      rw [if_pos rfl] at old
      rw [saved.toStored.inode mid mid.zero_free (mid.slot exist)]
      exact old
    have placed : (saveHblock (t.grown x sz)).Placed := saved.placed w.placed
    have dev : Dev t (saveHblock (t.grown x sz)) := ⟨saved.blk0,saved.rdFails,saved.wrFails,saved.failed,saved.later⟩
    refine ⟨_,_,rfl,saved.xcaddr,saved.xcache,rfl,rfl,?_,(w.toDev.trans dev).out _,w.start,mid'.out _,saved.saved,here',
      placed,?_,?_,image',grows',
      (w.image ▸ w.living).growAt _ (by simpa using exist) (by rw [t.image_node exist]; exact w.file),?_,?_,?_⟩
    · -- With no block to take, the first free one is used all the same.
      by_cases empty : sz.toNat = 0
      · refine .inr ⟨?_,?_⟩
        · show t.image.nextBlock + sz.toNat ≤ _
          omega
        · show t.image.nextBlock ≤ t.image.nblocks
          omega
      · refine .inl ⟨x.toNat,?_,?_,?_⟩
        · simpa [Image.growAt] using exist
        · rw [Image.node_growAt _ (by simpa using exist),if_pos rfl]
          show (t.image.node x.toNat).ftype ≠ _
          rw [t.image_node exist]; exact w.file
        · rw [Image.node_growAt _ (by simpa using exist),if_pos rfl]
          simp only [blocks_append,List.mem_append]
          refine .inr (mem_blocks.mpr ⟨_,List.mem_singleton_self _,?_,?_⟩)
          · exact Nat.le_refl _
          · show t.image.nextBlock < t.image.nextBlock + sz.toNat
            omega
    · exact (congrArg HBlock.nextInode saved.hblock).trans w.next
    · rw [out_itable,saved.itable_eq]
      exact w.table
    · rw [out_inode,inode']
      unfold growInode
      rw [cached_inode w.here]
      exact w.file
    · intro b f
      rw [out_at,saved.stay b (w.start.fileBlock_small f).1 fun zero => w.start.ok.zero_not_file (zero ▸ f)]
      exact w.bytes b f
    · intro b d
      rw [out_at,saved.stay b (dirBlock_small d).1 d.1.ne']
      exact w.dirs b d

theorem loadGpC_dry (t : Mount) (a : UInt32) :
    loadGpC t a true = ({t with vol := {t.vol with xcaddr := a}} : Mount).out .success := by
  unfold loadGpC
  by_cases hit : a = t.vol.xcaddr
  · rw [if_neg (by simpa using hit),hit]
  · rw [if_pos hit]; rfl

theorem putGp_dry (sound : t.disk.Sound) (a : UInt32) (c : Block) :
    saveGpC {loadGpC t a true with vol := {(loadGpC t a true).vol with xcache := c}} = t.putGp a c := by
  rw [loadGpC_dry]
  unfold putGp saveGpC
  rw [wblk_ok (by exact sound),wblk_ok (by exact sound)]
  rfl

theorem Writing.put (w : Writing s t x m rd) (sound : s.disk.Sound) {b : Nat} (f : m.FileBlock b) (c : Block) :
    Writing s (t.putGp (UInt32.ofNat b) c) x m (Function.update rd b c) ∧
      (t.putGp (UInt32.ofNat b) c).vol.outcome = .success ∧ (t.putGp (UInt32.ofNat b) c).vol.xcache = c := by
  have v := w.mid
  have f' : t.image.FileBlock b := by rw [w.image]; exact f
  have small := v.fileBlock_small f'
  have put := putGp_put (w.toDev.sound sound) c small.1
  have positive : 0 < b := Nat.pos_of_ne_zero fun zero => v.ok.zero_not_file (zero ▸ f')
  refine ⟨⟨w.toDev.trans put.toDev,w.start,put.mid v f',put.saved positive w.saved,put.icindex.trans w.here,
    put.placed w.placed,(congrArg HBlock.nextInode put.hblock).trans w.next,put.itable_eq.trans w.table,(put.image v f').trans w.image,w.grows,w.living,?_,?_,?_⟩,
    put.outcome,put.xcache⟩
  · unfold inode
    rw [put.icindex,put.icache]
    have file := w.file
    unfold inode at file
    split
    · rename_i here; rw [if_pos here] at file; exact file
    · rename_i other
      exact absurd (by rw [w.here,UInt32.toNat_div]; rfl) other
  · intro k g
    by_cases same : k = b
    · rw [same,put.put,Function.update_self]
    · rw [put.stay k (w.start.fileBlock_small g).1 same,Function.update_of_ne same]
      exact w.bytes k g
  · intro k d
    rw [put.stay k (dirBlock_small d).1 fun same => (w.grows.dirBlock d).not_file (same ▸ f)]
    exact w.dirs k d

theorem writeLoop_spec (sound : s.disk.Sound) (h : x.toNat < s.vol.hblock.nextInode.toNat) (src : Nat → UInt8)
    (nbytes : UInt32) (n blkind wcount : Nat) (w : Writing s t x m rd) (success : t.vol.outcome = .success) :
    ∃ t',writeLoop x src nbytes n t blkind wcount =
        some (t',(m.writeLoop x.toNat nbytes n blkind wcount).2.1,(m.writeLoop x.toNat nbytes n blkind wcount).1.wcount,
          (m.writeLoop x.toNat nbytes n blkind wcount).2.2) ∧
      Writing s t' x (m.writeLoop x.toNat nbytes n blkind wcount).1.image
        (Image.puts src (m.writeLoop x.toNat nbytes n blkind wcount).1.puts (rd,t.vol.xcache)).1 ∧
      t'.vol.xcache = (Image.puts src (m.writeLoop x.toNat nbytes n blkind wcount).1.puts (rd,t.vol.xcache)).2 ∧
      ((m.writeLoop x.toNat nbytes n blkind wcount).2.2 = false → t'.vol.outcome = .success) := by
  induction n generalizing t m rd blkind wcount with
  | zero => exact ⟨t,rfl,w,rfl,fun _ => success⟩
  | succ n ih =>
    unfold writeLoop Image.writeLoop
    obtain ⟨t₁,blk,run,_,content,result⟩ := w.grow sound h success (blkind + 1)
      (growLenInt (toInt (nbytes - UInt32.ofNat wcount)))
    simp only [run,Option.bind_eq_bind,Option.bind_some]
    cases grown : m.blkOrGrow x.toNat (blkind + 1) (growLenInt (toInt (nbytes - UInt32.ofNat wcount))).toNat with
    | error e =>
      rw [grown] at result
      obtain ⟨rfl,plain,_⟩ := result
      rw [if_pos (by simpa using plain)]
      exact ⟨_,rfl,w.out e,rfl,fun flag => nomatch flag⟩
    | ok r =>
      obtain ⟨m₁,b⟩ := r
      rw [grown] at result
      obtain ⟨rfl,success₁,file,w₁⟩ := result
      dsimp only
      rw [if_neg (by simp [success₁]),putGp_dry (w₁.toDev.sound sound),loadGpC_dry]
      obtain ⟨w₂,success₂,content₂⟩ := w₁.put sound file (patch t₁.vol.xcache 0 blockSz fun k => src (wcount + k))
      have calm : ¬ (t₁.putGp (UInt32.ofNat b) (patch t₁.vol.xcache 0 blockSz fun k => src (wcount + k))).vol.outcome ≠
          .success := by simp [success₂]
      rw [if_neg (by exact calm)]
      obtain ⟨t',run',w',content',final⟩ := ih (blkind + 1) (wcount + blockSz) w₂ success₂
      rw [content₂,content] at w' content'
      exact ⟨t',run',w',content',final⟩

theorem Writing.paged {t' : Mount} (w : Writing s t x m rd) (p : Paged t t') (calm : t'.disk.failed = t.disk.failed) :
    Writing s t' x m rd := by
  refine ⟨w.toDev.trans ⟨p.blk0,p.rdFails,p.wrFails,calm,p.later⟩,w.start,p.mid w.mid,?_,p.icindex.trans w.here,
    p.placed w.placed,?_,p.itable_eq.trans w.table,p.image.trans w.image,w.grows,w.living,?_,?_,?_⟩
  · unfold Saved
    rw [p.hblock,p.at_eq]; exact w.saved
  · rw [p.hblock]; exact w.next
  · rw [p.inode]; exact w.file
  · intro b f
    rw [p.at_eq]; exact w.bytes b f
  · intro b d
    rw [p.at_eq]; exact w.dirs b d

-- A write that has come to its end.
structure Wrote (s s' : Mount) (rd : Nat → Block) : Prop extends Dev s s' where
  valid : s'.Valid
  grows : s.image.Grows s'.image
  bytes : ∀ b, s.image.FileBlock b → s'.at b = rd b
  outcome : s'.vol.outcome = .success
  dirs : ∀ b, s.image.DirBlock b → s'.at b = s.at b

theorem Writing.finish (w : Writing s t x m rd) (sound : s.disk.Sound) (h : x.toNat < s.vol.hblock.nextInode.toNat)
    (cursor : UInt32) (wcount : Nat) :
    ∃ s',finishWrite t x cursor wcount = (s',(wcount : Int)) ∧ Wrote s s' rd ∧
      s'.image = m.setNode x.toNat {m.node x.toNat with eof := (cursor + UInt32.ofNat wcount).toNat} := by
  have exist := w.exist h
  have cached := cached_inode w.here
  have file := w.file
  have node : ({t.inode x.toNat with eof := cursor + UInt32.ofNat wcount} : Inode).node t.at =
      {m.node x.toNat with eof := (cursor + UInt32.ofNat wcount).toNat} := by
    rw [← w.image,t.image_node exist,Inode.file_node _ (by exact file)]
    unfold Mount.node
    rw [Inode.file_node _ file]
    rfl
  have length : x.toNat < t.image.nodes.length := by simpa using exist
  have ftype : (t.image.node x.toNat).ftype ≠ ftypeDir := by rw [t.image_node exist]; exact file
  have image := image_setCached (s := t) w.here {t.inode x.toNat with eof := cursor + UInt32.ofNat wcount}
  rw [if_pos exist,node,← w.image] at image
  have ok := w.mid.ok.replace (n := {t.image.node x.toNat with eof := (cursor + UInt32.ofNat wcount).toNat}) length
    (w.mid.ok.keepNode length rfl) rfl rfl (fun _ => id) fun dir => absurd dir ftype
  have grows : t.image.Grows (t.image.setNode x.toNat
      {t.image.node x.toNat with eof := (cursor + UInt32.ofNat wcount).toNat}) :=
    .setNode length rfl fun _ old => .inl old
  have mid : (t.setCached x {t.inode x.toNat with eof := cursor + UInt32.ofNat wcount}).Mid := by
    refine w.mid.setCached_live w.here exist (w.mid.itidy _ exist) ?_ ?_
    · rw [node,← w.image]; exact ok
    · rw [node,← w.image]; exact grows
  have saved := mid.saveIblockC (w.toDev.sound sound) w.placed
  have dev : Dev t (saveIblockC (t.setCached x {t.inode x.toNat with eof := cursor + UInt32.ofNat wcount})) :=
    ⟨saved.blk0,saved.rdFails,saved.wrFails,saved.failed,saved.later⟩
  unfold finishWrite
  rw [cached]
  refine ⟨_,rfl,⟨w.toDev.trans dev,⟨saved.mid,?_,?_,saved.clean⟩,?_,?_,saved.outcome,?_⟩,?_⟩
  · rw [saved.image,image]
    exact (w.image ▸ w.living).setNode length (fun _ dir => absurd dir ftype) fun dir => absurd dir ftype
  · unfold Saved
    rw [saved.hblock,saved.stay 0 (by decide) mid.zero_free]
    exact w.saved
  · rw [saved.image,image]
    exact w.grows.trans (w.image ▸ grows)
  · intro b f
    have small := w.start.fileBlock_small f
    rw [saved.stay b small.1 ?_]
    · exact w.bytes b f
    · show b ∉ t.itable
      rw [w.table]; exact small.2
  · intro b d
    have small := dirBlock_small d
    rw [saved.stay b small.1 (by show b ∉ t.itable; rw [w.table]; exact small.2)]
    exact w.dirs b d
  · rw [saved.image,image,w.image]

theorem Writing.begin {s : Mount} (v : s.Valid) {x : UInt32} (here : s.vol.icindex = x / 32) (placed : s.Placed)
    (file : (s.inode x.toNat).ftype ≠ ftypeDir) : Writing s s x s.image s.at :=
  ⟨.refl s,v.toMid,v.toMid,v.saved,here,placed,rfl,rfl,rfl,.refl _,v.living,file,fun _ _ => rfl,fun _ _ => rfl⟩

-- fs2_write behind the checks of type and permission.
def writeFile (s : Mount) (iindex : UInt32) (src : Nat → UInt8) (nbytes cursor : UInt32) : Option (Mount × Int) := do
  let off := cursor.toNat % blockSz
  let write1 := min nbytes.toNat (blockSz - off)
  let blkind := cursor.toNat / blockSz
  let (s,blk) ← blkOrGrow s iindex blkind (growLen nbytes)
  if s.vol.outcome ≠ .success then some (s,0)
  else
    let s := loadGpC s blk false
    if s.vol.outcome ≠ .success then some (s,0)
    else
      let s := saveGpC {s with vol := {s.vol with xcache := patch s.vol.xcache off write1 src}}
      if s.vol.outcome ≠ .success then some (s,0)
      else
        let (s,blkind,wcount,stopped) ← writeLoop iindex src nbytes ((nbytes.toNat - write1) / blockSz) s blkind write1
        if stopped ∨ wcount = nbytes.toNat then some (finishWrite s iindex cursor wcount)
        else
          let (s,blk) ← blkOrGrow s iindex (blkind + 1) s.vol.hblock.defaultFregLen
          if s.vol.outcome ≠ .success then some (finishWrite s iindex cursor wcount)
          else
            let s := loadGpC s blk true
            let s := saveGpC {s with vol := {s.vol with
              xcache := patch s.vol.xcache 0 (nbytes.toNat - wcount) src}}
            some (finishWrite s iindex cursor (if s.vol.outcome = .success then nbytes.toNat else wcount))

theorem write_eq (s : Mount) (path : Path) (src : Nat → UInt8) (nbytes cursor : UInt32) :
    write s path src nbytes cursor = (do
      let (s,iindex,_) ← findFile s path.bytes
      if s.vol.outcome ≠ .success then some (s,-1)
      else
        let s ← getIblockC s (iindex / 32) false false
        if s.vol.outcome ≠ .success then some (s,-1)
        else if (s.cached iindex).ftype ≠ ftypeFile then some (s.out .badFtype,-1)
        else writeFile s iindex src nbytes cursor) := by
  have granted : ∀ perm : UInt8,¬ (perm &&& (if uWrite = 0 then 1 else 0) ≠ 0) := by
    intro perm
    have one : (if uWrite = 0 then (1 : UInt8) else 0) = 0 := by decide
    rw [one]
    simp
  unfold write writeFile
  congr 1
  funext r
  obtain ⟨t,iindex,p⟩ := r
  dsimp only
  by_cases lost : t.vol.outcome ≠ .success
  · rw [if_pos lost,if_pos lost]
  · rw [if_neg lost,if_neg lost]
    congr 1
    funext t
    by_cases gone : t.vol.outcome ≠ .success
    · rw [if_pos gone,if_pos gone]
    rw [if_neg gone,if_neg gone]
    by_cases dir : (t.cached iindex).ftype ≠ ftypeFile
    · rw [if_pos dir,if_pos dir]
    rw [if_neg dir,if_neg dir,if_neg (granted _)]

-- Outcomes of a write to file x. Only the load of the first block can fail, and
-- nothing has been changed then, unless the file had to grow for it.
theorem writeFile_spec {s : Mount} (v : s.Valid) (sound : s.disk.Sound) {x : UInt32} (here : s.vol.icindex = x / 32)
    (placed : s.Placed) (h : x.toNat < s.vol.hblock.nextInode.toNat) (file : (s.inode x.toNat).ftype ≠ ftypeDir)
    (success : s.vol.outcome = .success) (src : Nat → UInt8) (nbytes cursor : UInt32)
    (fine : total (s.inode x.toNat).regs ≤ cursor.toNat / 4096 → ∀ t,s.disk.rdFails t .xcache = false) :
    ∃ s' r,writeFile s x src nbytes cursor = some (s',r) ∧
      ((match s.image.writeAt x.toNat nbytes cursor with
      | .error e => s' = s.out e ∧ e ≠ .success ∧ e ≠ .diskRdErr ∧ r = 0
      | .ok w => Wrote s s' (w.stores src s.at) ∧ r = w.wcount ∧ s'.image = w.image.setNode x.toNat
          {w.image.node x.toNat with eof := (cursor + UInt32.ofNat w.wcount).toNat}) ∨
      (Halted s s' ∧ r = 0)) := by
  have begin := Writing.begin v here placed file
  unfold writeFile Image.writeAt
  dsimp only
  obtain ⟨t₁,blk,run,addr,content,result⟩ := begin.grow sound h success (cursor.toNat / blockSz) (growLen nbytes)
  simp only [run,Option.bind_eq_bind,Option.bind_some]
  cases grown : s.image.blkOrGrow x.toNat (cursor.toNat / blockSz) (growLen nbytes).toNat with
  | error e =>
    rw [grown] at result
    obtain ⟨rfl,plain,notRead⟩ := result
    rw [if_pos (by simpa using plain)]
    exact ⟨_,_,rfl,.inl ⟨rfl,plain,notRead,rfl⟩⟩
  | ok r =>
    obtain ⟨m₁,b⟩ := r
    rw [grown] at result
    obtain ⟨rfl,success₁,free,w₁⟩ := result
    dsimp only
    rw [if_neg (by simp [success₁])]
    obtain ⟨page,loaded⟩ := loadGpC_file w₁.mid (.refl w₁.mid) (b := b) (by rw [w₁.image]; exact free)
    rcases loaded with ⟨calm,success₂,addr₂,content₂⟩ | ⟨loud,⟨n,bad⟩,error⟩
    · rw [if_neg (by simp [success₂])]
      have w₂ := w₁.paged page calm
      have old : t₁.at b = s.at b := w₁.bytes b (w₁.grows.fileBlock (by rw [← w₁.image]; exact w₁.mid.ok) free)
      generalize loadGpC t₁ (UInt32.ofNat b) false = t₂ at *
      have store : ∀ c,saveGpC {t₂ with vol := {t₂.vol with xcache := c}} = t₂.putGp (UInt32.ofNat b) c := by
        intro c
        unfold putGp
        rw [← addr₂]
      rw [store,content₂,old]
      obtain ⟨w₃,success₃,content₃⟩ := w₂.put sound free
        (patch (s.at b) (cursor.toNat % blockSz) (min nbytes.toNat (blockSz - cursor.toNat % blockSz)) src)
      generalize write1_def : min nbytes.toNat (blockSz - cursor.toNat % blockSz) = write1 at *
      generalize t₂.putGp (UInt32.ofNat b) (patch (s.at b) (cursor.toNat % blockSz) write1 src) = t₃ at *
      rw [if_neg (by simp [success₃])]
      obtain ⟨t₄,run₄,w₄,content₄,final⟩ := writeLoop_spec sound h src nbytes ((nbytes.toNat - write1) / blockSz)
        (cursor.toNat / blockSz) write1 w₃ success₃
      rw [content₃] at w₄ content₄
      generalize m₁.writeLoop x.toNat nbytes ((nbytes.toNat - write1) / blockSz) (cursor.toNat / blockSz) write1 = l at *
      obtain ⟨wl,blkind,full⟩ := l
      dsimp only at *
      rw [run₄]
      dsimp only [Option.bind_some]
      have first : Image.puts src (⟨cursor.toNat / blockSz,b,cursor.toNat % blockSz,0,write1⟩ :: wl.puts) (s.at,s.at b) =
          Image.puts src wl.puts (Function.update s.at b (patch (s.at b) (cursor.toNat % blockSz) write1 src),
            patch (s.at b) (cursor.toNat % blockSz) write1 src) := by
        unfold Image.puts
        rw [List.foldl_cons]
        unfold Image.Put.apply
        simp only [Nat.zero_add]
      rw [← first] at w₄ content₄
      by_cases done : full = true ∨ wl.wcount = nbytes.toNat
      · rw [if_pos done,if_pos done]
        obtain ⟨s',finish,wrote,image⟩ := w₄.finish sound h cursor wl.wcount
        exact ⟨s',_,congrArg some finish,.inl ⟨wrote,rfl,image⟩⟩
      · rw [if_neg done,if_neg done]
        have success₄ : t₄.vol.outcome = .success := final (by simpa using fun e => done (.inl e))
        obtain ⟨t₅,blk,run₅,_,content₅,result⟩ := w₄.grow sound h success₄ (blkind + 1) t₄.vol.hblock.defaultFregLen
        have flen : wl.image.flen = t₄.vol.hblock.defaultFregLen.toNat := by rw [← w₄.image]; rfl
        rw [run₅,flen]
        dsimp only [Option.bind_some]
        cases grown : wl.image.blkOrGrow x.toNat (blkind + 1) t₄.vol.hblock.defaultFregLen.toNat with
        | error e =>
          rw [grown] at result
          obtain ⟨rfl,plain,_⟩ := result
          rw [if_pos (by simpa using plain)]
          obtain ⟨s',finish,wrote,image⟩ := (w₄.out e).finish sound h cursor wl.wcount
          exact ⟨s',_,congrArg some finish,.inl ⟨wrote,rfl,image⟩⟩
        | ok r =>
          obtain ⟨m₅,b'⟩ := r
          rw [grown] at result
          obtain ⟨rfl,success₅,free',w₅⟩ := result
          dsimp only
          rw [if_neg (by simp [success₅]),putGp_dry (w₅.toDev.sound sound),loadGpC_dry]
          obtain ⟨w₆,success₆,_⟩ := w₅.put sound free' (patch t₅.vol.xcache 0 (nbytes.toNat - wl.wcount) src)
          rw [if_pos (by exact success₆)]
          obtain ⟨s',finish,wrote,image⟩ := w₆.finish sound h cursor nbytes.toNat
          refine ⟨s',_,congrArg some finish,.inl ⟨?_,rfl,image⟩⟩
          rw [content₅,content₄] at wrote
          unfold Image.Written.stores
          dsimp only [List.cons_append]
          unfold Image.puts at wrote ⊢
          rw [← List.cons_append,List.foldl_append]
          simp only [List.foldl_cons,List.foldl_nil] at wrote ⊢
          unfold Image.Put.apply at wrote ⊢
          simpa only [Nat.zero_add] using wrote
    · rw [if_pos (by simp [error])]
      refine ⟨_,_,rfl,.inr ⟨?_,rfl⟩⟩
      cases at_q : (blocks (s.inode x.toNat).regs)[cursor.toNat / blockSz]? with
      | none =>
        have beyond : total (s.inode x.toNat).regs ≤ cursor.toNat / 4096 := by
          rw [← length_blocks]
          exact List.getElem?_eq_none_iff.mp at_q
        have impossible := fine beyond n
        rw [← w₁.rdFails,bad] at impossible
        cases impossible
      | some b' =>
        have still : t₁ = s := by
          unfold blkOrGrow at run
          dsimp only at run
          rw [cached_inode here,Inode.blk_some at_q,
            if_neg (FileBlock.word v.toMid (node_blocks h file b' (List.mem_of_getElem? at_q))).2] at run
          injection run with same
          exact (congrArg Prod.fst same).symm
        subst still
        exact ⟨page.viewed v,loud,⟨n,_,bad⟩,error⟩

end Writing

-- What a write may do: the operation on images with its stores, or a stop at a
-- failed read with nothing changed.
structure Written (s s' : Mount) (path : List UInt8) (src : Nat → UInt8) (nbytes cursor : UInt32) : Prop
    extends Dev s s' where
  valid : s'.Valid
  grows : s.image.Grows s'.image
  image : s'.image = (s.image.write path nbytes cursor).1
  bytes : ∀ b, s.image.FileBlock b → s'.at b = s.image.stores path src nbytes cursor s.at b
  dirs : ∀ b, s.image.DirBlock b → s'.at b = s.at b

theorem Looked.written {s s' : Mount} (a : Looked s s') (v : s.Valid) (calm : s'.disk.failed = s.disk.failed)
    {path : List UInt8} {src : Nat → UInt8} {nbytes cursor : UInt32}
    (image : (s.image.write path nbytes cursor).1 = s.image)
    (stores : s.image.stores path src nbytes cursor s.at = s.at) : Written s s' path src nbytes cursor :=
  ⟨a.dev calm,a.valid,by rw [a.image v]; exact .refl _,by rw [image,a.image v],fun b _ => by rw [stores,a.at_eq],
    fun b _ => by rw [a.at_eq]⟩

-- A file that has to grow before its first store is written only while no block of a file fails to load.
def GrowsFirst (m : Image) (path : List UInt8) (cursor : UInt32) : Prop :=
  ∃ i q,m.resolve path = .ok (i,q) ∧ (m.node i).ftype = ftypeFile ∧ total (m.node i).regs ≤ cursor.toNat / 4096

theorem write_spec {s : Mount} (v : s.Valid) (sound : s.disk.Sound) (path : Path) (src : Nat → UInt8)
    (nbytes cursor : UInt32) (fine : GrowsFirst s.image path.bytes cursor → ∀ t,s.disk.rdFails t .xcache = false) :
    ∃ s' r,write s path src nbytes cursor = some (s',r) ∧
      ((Written s s' path.bytes src nbytes cursor ∧ (s'.vol.outcome,r) = (s.image.write path.bytes nbytes cursor).2 ∧
        s'.vol.outcome ≠ .diskRdErr) ∨
      (Halted s s' ∧ r ≤ 0)) := by
  obtain ⟨s₁,x,p,run,result⟩ := findInode_look v sound path
  rw [write_eq]
  simp only [run,Option.bind_eq_bind,Option.bind_some]
  cases found : s.image.resolve path.bytes with
  | error e =>
    rw [found] at result
    have same : s.image.write path.bytes nbytes cursor = (s.image,e,-1) := by unfold Image.write; rw [found]
    have stores : s.image.stores path.bytes src nbytes cursor s.at = s.at := by unfold Image.stores; rw [found]
    rcases result with ⟨looked,calm,outcome,plain⟩ | stopped
    · rw [if_pos (by rw [outcome]; exact plain)]
      refine ⟨_,_,rfl,.inl ⟨looked.written v calm (by rw [same]) stores,by rw [same,outcome],?_⟩⟩
      rw [outcome]
      exact (Image.resolve_error found).2
    · rw [if_pos (by rw [stopped.outcome]; decide)]
      exact ⟨_,_,rfl,.inr ⟨stopped.halted,by decide⟩⟩
  | ok r =>
    obtain ⟨i,q⟩ := r
    rw [found] at result
    rcases result with ⟨success,index,_,exist,_,_,s₂,run₂,looked,calm,success₂,here,placed,cached⟩ | stopped
    · rw [if_neg (by simp [success]),run₂]
      simp only [Option.bind_some]
      have node := s.image_node exist
      have ftype : (s.image.node i).ftype = (s.inode i).ftype := by rw [node]; rfl
      rw [if_neg (by simp [success₂]),cached]
      by_cases dir : (s.inode i).ftype ≠ ftypeFile
      · rw [if_pos dir]
        have same : s.image.write path.bytes nbytes cursor = (s.image,.badFtype,-1) := by
          unfold Image.write
          rw [found]
          exact if_pos (by rw [ftype]; exact dir)
        have stores : s.image.stores path.bytes src nbytes cursor s.at = s.at := by
          unfold Image.stores
          rw [found]
          exact if_pos (by rw [ftype]; exact dir)
        refine ⟨_,_,rfl,.inl ⟨(looked.out .badFtype).written v calm (by rw [same]) stores,by rw [same]; rfl,?_⟩⟩
        rw [out_outcome]; decide
      · rw [if_neg dir]
        have plain : (s.inode i).ftype = ftypeFile := by simpa using dir
        have inode : s₂.inode i = s.inode i := v.same_inode looked.valid looked.toSame exist
        have image := looked.image v
        obtain ⟨s',r,run',final⟩ := writeFile_spec looked.valid (looked.toSame.sound sound) here placed
          (by rw [looked.hblock,index]; exact exist) (by rw [index,inode,plain]; decide) success₂ src nbytes cursor
          (by
            rw [index,inode,looked.rdFails]
            intro beyond
            exact fine ⟨i,q,found,by rw [ftype]; exact plain,by rw [node]; exact beyond⟩)
        rw [index,image,looked.at_eq] at final
        refine ⟨s',r,run',?_⟩
        rcases final with finished | ⟨halted,count⟩
        · left
          have same : s.image.write path.bytes nbytes cursor =
              match s.image.writeAt i nbytes cursor with
              | .error e => (s.image,e,0)
              | .ok w => (w.image.setNode i {w.image.node i with eof := (cursor + UInt32.ofNat w.wcount).toNat},
                  .success,w.wcount) := by
            unfold Image.write
            rw [found]
            exact if_neg (by rw [ftype]; exact dir)
          have stores : s.image.stores path.bytes src nbytes cursor s.at =
              match s.image.writeAt i nbytes cursor with
              | .error _ => s.at
              | .ok w => w.stores src s.at := by
            unfold Image.stores
            rw [found]
            exact if_neg (by rw [ftype]; exact dir)
          cases attempt : s.image.writeAt i nbytes cursor with
          | error e =>
            rw [attempt] at finished same stores
            obtain ⟨rfl,_,notRead,rfl⟩ := finished
            exact ⟨(looked.out e).written v calm (by rw [same]) stores,by rw [same]; rfl,notRead⟩
          | ok w =>
            rw [attempt] at finished same stores
            obtain ⟨wrote,rfl,image'⟩ := finished
            refine ⟨⟨(looked.dev calm).trans wrote.toDev,wrote.valid,?_,by rw [same]; exact image',?_,?_⟩,?_,?_⟩
            · rw [← image]; exact wrote.grows
            · intro b f
              rw [stores]
              exact wrote.bytes b (by rw [image]; exact f)
            · intro b d
              rw [wrote.dirs b (by rw [image]; exact d),looked.at_eq]
            · rw [same,wrote.outcome]
            · rw [wrote.outcome]; decide
        · refine .inr ⟨⟨looked.viewed.trans halted.toViewed,halted.loud,looked.toSame.faulty.mp halted.faulty,
            halted.outcome⟩,Int.le_of_eq count⟩
    · rw [if_pos (by rw [stopped.outcome]; decide)]
      exact ⟨_,_,rfl,.inr ⟨stopped.halted,by decide⟩⟩

end Mount
end ArchiveOs.Fs2
