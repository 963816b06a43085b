import ArchiveOs.Entries
import ArchiveOs.Listings
import ArchiveOs.Paths

-- Creating files and directories: the code computes what the image says, and
-- leaves a volume whose caches and disk agree again.
namespace ArchiveOs.Fs2
open Extents Layout

namespace Mount

-- The new inode starts to count. The source does this last, but nothing in between
-- looks at the number of inodes, so it may as well be done before the entry is made.
def bump (s : Mount) : Mount := s.withHblock {s.vol.hblock with nextInode := s.vol.hblock.nextInode + 1}

section Bump
variable {s : Mount}

theorem rblk_bump (s : Mount) (a : UInt32) (x : Buffer) :
    rblk s.bump a x = ((rblk s a x).1.bump,(rblk s a x).2) := rfl

theorem wrOutcome_bump (r : Mount × Bool) : Mount.wrOutcome (r.1.bump,r.2) = (Mount.wrOutcome r).bump := by
  obtain ⟨s,done⟩ := r
  cases done <;> rfl

theorem loadDblockC_bump (s : Mount) (a : UInt32) (dry : Bool) :
    loadDblockC s.bump a dry = (loadDblockC s a dry).bump := by
  unfold loadDblockC
  by_cases hit : a = s.vol.dcaddr
  · rw [if_neg (by simpa [bump,withHblock] using hit),if_neg (by simpa using hit)]; rfl
  · rw [if_pos (by simpa [bump,withHblock] using hit),if_pos hit]
    cases dry
    · simp only [Bool.false_eq_true,if_false]
      rw [rblk_bump]
      rcases rblk s a .dcache with ⟨t,none | b⟩ <;> rfl
    · rfl

theorem saveDblockC_bump (s : Mount) : saveDblockC s.bump = (saveDblockC s).bump :=
  wrOutcome_bump (wblk s s.vol.dcaddr .dcache (dblockLayout s.vol.dcache))

theorem saveIblockC_bump (s : Mount) : Fs2.saveIblockC s.bump = (Fs2.saveIblockC s).bump :=
  wrOutcome_bump (wblk s s.vol.icaddr .icache (iblockLayout s.vol.icache))

theorem findFreeRegion_bump (s : Mount) (len : UInt8) :
    findFreeRegion s.bump len false = (findFreeRegion s len false).map fun r => (r.1.bump,r.2) := by
  unfold findFreeRegion
  by_cases outside : s.vol.hblock.separator.toNat < 800
  · rw [if_pos outside,if_pos (by exact outside)]; rfl
  · rw [if_neg outside,if_neg (by exact outside)]
    by_cases full : s.vol.hblock.nextBlock + len.toUInt32 > s.vol.hblock.nblocks
    · dsimp only
      rw [if_pos full,if_pos (by exact full)]; rfl
    · dsimp only
      rw [if_neg full,if_neg (by exact full)]; rfl

theorem addDirEntry_bump (s : Mount) (name : List UInt8) (p child : UInt32) :
    addDirEntry s.bump name p child = (addDirEntry s name p child).map bump := by
  unfold addDirEntry addDirEntryFrom
  have cached : s.bump.cached p = s.cached p := rfl
  rw [cached]
  dsimp only
  split
  · rw [loadDblockC_bump]
    generalize loadDblockC s _ false = l
    by_cases failed : l.vol.outcome ≠ .success
    · rw [if_pos failed,if_pos (by exact failed)]; rfl
    · rw [if_neg failed,if_neg (by exact failed)]
      have entry : ∀ k e,l.bump.setEntry k e = (l.setEntry k e).bump := fun _ _ => rfl
      rw [entry,saveDblockC_bump]
      generalize saveDblockC _ = t
      by_cases lost : t.vol.outcome ≠ .success
      · rw [if_pos lost,if_pos (by exact lost)]; rfl
      · rw [if_neg lost,if_neg (by exact lost)]; rfl
  · rename_i i _
    by_cases all : i = 23
    · rw [if_pos all,if_pos all]; rfl
    · rw [if_neg all,if_neg all]
      have len : s.bump.vol.hblock.defaultDregLen = s.vol.hblock.defaultDregLen := rfl
      rw [len,findFreeRegion_bump]
      cases findFreeRegion s s.vol.hblock.defaultDregLen false with
      | none => rfl
      | some r =>
        obtain ⟨t,daddr⟩ := r
        simp only [Option.map_some,Option.bind_eq_bind,Option.bind_some]
        by_cases zero : daddr = 0
        · rw [if_pos zero,if_pos zero]; rfl
        · rw [if_neg zero,if_neg zero]
          by_cases more : 23 < i
          · rw [if_pos more,if_pos more]; rfl
          · rw [if_neg more,if_neg more]
            have cache : ∀ n,t.bump.setCached p n = (t.setCached p n).bump := fun _ => rfl
            have entry : ∀ (l : Mount) k e,l.bump.setEntry k e = (l.setEntry k e).bump := fun _ _ _ => rfl
            rw [cache,loadDblockC_bump,entry,saveDblockC_bump]; rfl

theorem finishCreate_eq (s : Mount) : finishCreate s = saveHblock (Fs2.saveIblockC s.bump) := by
  rw [saveIblockC_bump]; rfl

theorem bump_nextInode (v : s.Mid) : s.bump.vol.hblock.nextInode.toNat = s.vol.hblock.nextInode.toNat + 1 := by
  have room := v.ok.inodes
  rw [image_length] at room
  have size : total s.image.iregs = s.itable.length := by unfold itable; rw [length_blocks]; rfl
  have := s.itable_small
  exact succ_toNat (by omega)

theorem bump_image (v : s.Mid) : s.bump.image = s.image.push (s.node s.vol.hblock.nextInode.toNat) := by
  have next := bump_nextInode v
  have nodes : s.bump.image.nodes = s.image.nodes ++ [s.node s.vol.hblock.nextInode.toNat] := by
    unfold image
    dsimp only
    rw [next,List.range_succ,List.map_append]; rfl
  have whole : s.bump.image = {s.image with nodes := s.bump.image.nodes} := rfl
  rw [whole,nodes]; rfl

theorem bump_mid (v : s.Mid) (tidy : Tidy (s.inode s.vol.hblock.nextInode.toNat).rows)
    (ok : (s.image.push (s.node s.vol.hblock.nextInode.toNat)).Ok)
    (grows : s.image.Grows (s.image.push (s.node s.vol.hblock.nextInode.toNat))) : s.bump.Mid := by
  have image := bump_image v
  refine v.next (by rw [image]; exact ok) (by rw [image]; exact grows) ⟨v.sep.ident,v.sep.separator⟩ v.htidy ?_ v.iaddr rfl rfl
    (fun _ _ => rfl) rfl rfl (fun _ _ => rfl)
  intro i h
  rw [bump_nextInode v] at h
  rcases Nat.lt_or_eq_of_le (Nat.le_of_lt_succ h) with old | rfl
  · exact v.itidy i old
  · exact tidy

end Bump

end Mount

-- A fresh inode, as a file, or as a directory with its first region.
def Inode.begin (n : Inode) (ftype fperm : UInt8) : Inode :=
  {n with ftype,fperm,eof := 0,regStart := Vector.replicate 23 0}

def Inode.beginDir (n : Inode) (fperm : UInt8) (start : UInt32) (len : UInt8) : Inode :=
  {n.begin ftypeDir fperm with
    regStart := (n.begin ftypeDir fperm).regStart.set 0 start row_pos
    regLen := (n.begin ftypeDir fperm).regLen.set 0 len row_pos}

theorem Inode.begin_regs (n : Inode) (ftype fperm : UInt8) :
    (n.begin ftype fperm).regs = [] ∧ Tidy (n.begin ftype fperm).rows := by
  have rows : (n.begin ftype fperm).rows = (List.replicate 23 0).zip n.regLen.toList := by
    unfold Inode.rows Inode.begin
    rw [Vector.toList_zip,Vector.toList_replicate]
  unfold Inode.regs
  rw [rows]
  exact ⟨regions_replicate _ _,tidy_replicate _ _⟩

theorem Inode.beginDir_regs (n : Inode) (fperm : UInt8) {start : UInt32} (len : UInt8) (used : start ≠ 0) :
    (n.beginDir fperm start len).regs = [⟨start.toNat,len.toNat⟩] ∧ Tidy (n.beginDir fperm start len).rows := by
  obtain ⟨empty,tidy⟩ := n.begin_regs ftypeDir fperm
  have set := Inode.regs_set (n.beginDir fperm start len) tidy (i := 0) (by rw [empty]; rfl)
    (by decide) len used (by ext; simp [beginDir,Vector.getElem_set,Vector.getElem_setIfInBounds])
    (by ext; simp [beginDir,Vector.getElem_set,Vector.getElem_setIfInBounds])
  rw [empty] at set
  exact set

namespace Mount

theorem setCached_out (s : Mount) (x : UInt32) (n : Inode) (o : Outcome) :
    (s.out o).setCached x n = (s.setCached x n).out o := rfl

theorem setCached_advance (s : Mount) (x : UInt32) (n : Inode) (len : UInt8) :
    (s.setCached x n).advance len = (s.advance len).setCached x n := rfl

section NewInode
variable {s : Mount} {x : UInt32} {ftype fperm : UInt8}

theorem initInode_file (s : Mount) (x : UInt32) (fperm : UInt8) (file : ftype ≠ ftypeDir) :
    initInode s x ftype fperm = some ((s.setCached x ((s.cached x).begin ftype fperm)).out .success) := by
  unfold initInode
  dsimp only
  rw [if_neg file]; rfl

variable (v : s.Mid) (here : s.vol.icindex = x / 32) (dead : s.vol.hblock.nextInode.toNat ≤ x.toNat)
include v here dead

theorem initInode_dir (fperm : UInt8) :
    match s.image.alloc s.image.dlen with
    | none => initInode s x ftypeDir fperm = some ((s.setCached x ((s.cached x).begin ftypeDir fperm)).out .diskFull)
    | some _ => s.image.nextBlock + s.image.dlen ≤ s.image.nblocks ∧
        initInode s x ftypeDir fperm = some (((s.advance s.vol.hblock.defaultDregLen).setCached x
          ((s.cached x).beginDir fperm s.vol.hblock.nextBlock s.vol.hblock.defaultDregLen)).out .success) := by
  have v₁ := v.setCached_dead here dead (n := (s.cached x).begin ftypeDir fperm)
  have region := findFreeRegion_spec v₁ s.vol.hblock.defaultDregLen false
  have image := image_setCached here ((s.cached x).begin ftypeDir fperm)
  rw [if_neg (by omega)] at image
  rw [image] at region
  have dlen : s.image.dlen = s.vol.hblock.defaultDregLen.toNat := rfl
  unfold initInode
  dsimp only
  rw [if_pos rfl,dlen]
  cases taken : s.image.alloc s.vol.hblock.defaultDregLen.toNat with
  | none =>
    rw [taken] at region
    dsimp only
    have run : findFreeRegion (s.setCached x {s.cached x with
        ftype := ftypeDir,fperm,eof := 0,regStart := Vector.replicate 23 0}) s.vol.hblock.defaultDregLen false = _ := region
    have len : (s.setCached x {s.cached x with
        ftype := ftypeDir,fperm,eof := 0,regStart := Vector.replicate 23 0}).vol.hblock.defaultDregLen =
        s.vol.hblock.defaultDregLen := rfl
    rw [len,run]
    rfl
  | some r =>
    rw [taken] at region
    obtain ⟨fits,word,_,run⟩ := region
    rw [← word] at run
    refine ⟨fits,?_⟩
    have run' : findFreeRegion (s.setCached x {s.cached x with
        ftype := ftypeDir,fperm,eof := 0,regStart := Vector.replicate 23 0}) s.vol.hblock.defaultDregLen false = _ := run
    have len : (s.setCached x {s.cached x with
        ftype := ftypeDir,fperm,eof := 0,regStart := Vector.replicate 23 0}).vol.hblock.defaultDregLen =
        s.vol.hblock.defaultDregLen := rfl
    have used := frontier_ne_zero v₁
    rw [len,run']
    simp only [Option.bind_eq_bind,Option.bind_some,Bool.false_eq_true,if_false]
    rw [if_neg used,setCached_advance,setCached_out,out_cached,cached_setCached,setCached_setCached]
    rfl

-- A state in which a new inode x is complete in memory and on the disk, but does
-- not count yet.
structure Begun (s s' : Mount) (x : UInt32) (m : Image) (n : Node) : Prop extends Grew s s' where
  mid : s'.Mid
  placed : s'.Placed
  icindex : s'.vol.icindex = x / 32
  image : s'.image = m
  tidy : Tidy (s'.inode x.toNat).rows
  node : s'.node x.toNat = n
  dirs : ∀ b,(s'.inode x.toNat).ftype = ftypeDir → b ∈ blocks (s'.inode x.toNat).regs → m.DirBlock b
  fits : (s'.inode x.toNat).ftype = ftypeDir → (s'.inode x.toNat).eof.toNat ≤ 128 * total (s'.inode x.toNat).regs

theorem begun_file (fperm : UInt8) (placed : s.Placed) (file : ftype ≠ ftypeDir) (o : Outcome) (parent : UInt32) :
    Begun s ((s.setCached x {(s.cached x).begin ftype fperm with iparent := parent}).out o) x s.image
      ⟨ftype,fperm,0,parent.toNat,[],[]⟩ := by
  have regs := (s.cached x).begin_regs ftype fperm
  have image := image_setCached here {(s.cached x).begin ftype fperm with iparent := parent}
  rw [if_neg (by omega)] at image
  have inode : ((s.setCached x {(s.cached x).begin ftype fperm with iparent := parent}).out o).inode x.toNat =
      {(s.cached x).begin ftype fperm with iparent := parent} := by
    rw [out_inode,inode_setCached here,if_pos rfl]
  refine ⟨.still ⟨rfl,rfl,rfl,rfl,Nat.le_refl _⟩ image fun _ _ => rfl,(v.setCached_dead here dead).out o,placed,here,image,
    ?_,?_,?_,?_⟩
  · rw [inode]; exact regs.2
  · unfold Mount.node Inode.node
    rw [inode]
    have none : Inode.regs {(s.cached x).begin ftype fperm with iparent := parent} = [] := regs.1
    rw [none,if_neg (fun h => h.2 rfl)]; rfl
  · rw [inode]; exact fun _ t => absurd t file
  · rw [inode]; exact fun t => absurd t file

end NewInode

theorem populateDir_eq {s : Mount} (sound : s.disk.Sound) (x parent : UInt32) :
    ∃ new : DBlock,populateDir s x parent =
        (s.putDir ((s.cached x).regStart.get ⟨0,row_pos⟩) new).setCached x {s.cached x with eof := 2} ∧
      (new.get ⟨0,dslot_pos⟩).link = ⟨Image.dot,x.toNat⟩ ∧ (new.get ⟨1,dslot_one⟩).link = ⟨Image.dotdot,parent.toNat⟩ := by
  let c₀ : DBlock := s.vol.dcache.set 0 ⟨x,strcpy28 s.vol.dcache[0].name Image.dot⟩
  refine ⟨c₀.set 1 ⟨parent,strcpy28 c₀[1].name Image.dotdot⟩,?_,?_,?_⟩
  · unfold populateDir
    dsimp only
    rw [loadDblockC_dry,← putDir_setCached sound]
    unfold putDir saveDblockC
    rw [wblk_ok (by exact sound),wblk_ok (by exact sound)]
    rfl
  · show ((c₀.set 1 ⟨parent,_⟩)[0]).link = _
    rw [Vector.getElem_set_ne _ _ (by decide),Vector.getElem_set_self]
    unfold DirEntry.link
    rw [cstr_strcpy28 (by decide) (by decide)]
  · show ((c₀.set 1 ⟨parent,_⟩)[1]).link = _
    rw [Vector.getElem_set_self]
    unfold DirEntry.link
    rw [cstr_strcpy28 (by decide) (by decide)]

theorem begun_dir {s t : Mount} {x parent : UInt32} {fperm : UInt8} (v : s.Mid) (placed : s.Placed)
    (here : s.vol.icindex = x / 32) (dead : s.vol.hblock.nextInode.toNat ≤ x.toNat)
    (fits : s.image.nextBlock + s.image.dlen ≤ s.image.nblocks) {new : DBlock}
    (put : PutDir ((s.advance s.vol.hblock.defaultDregLen).out .success) t s.image.nextBlock new)
    (dot : (new[0]).link = ⟨Image.dot,x.toNat⟩) (dotdot : (new[1]).link = ⟨Image.dotdot,parent.toNat⟩) {n : Inode}
    (shape : n = {(s.cached x).beginDir fperm s.vol.hblock.nextBlock s.vol.hblock.defaultDregLen with
      iparent := parent,eof := 2}) :
    Begun s (t.setCached x n) x {s.image with nextBlock := s.image.nextBlock + s.image.dlen}
      ⟨ftypeDir,fperm,2,parent.toNat,[⟨s.image.nextBlock,s.image.dlen⟩],[⟨Image.dot,x.toNat⟩,⟨Image.dotdot,parent.toNat⟩]⟩ := by
  have len := v.ok.dlen.1
  have advanced := advance_image v s.vol.hblock.defaultDregLen
  have v' := (advance_mid v fits).out .success
  have dirBlock : ∀ b,s.image.nextBlock ≤ b → b < s.image.nextBlock + s.image.dlen →
      ((s.advance s.vol.hblock.defaultDregLen).out .success).image.DirBlock b := by
    intro b above below
    rw [out_image,advanced]
    exact v.ok.frontier_dirBlock above below
  have d := dirBlock s.image.nextBlock (Nat.le_refl _) (by omega)
  have image : t.image = {s.image with nextBlock := s.image.nextBlock + s.image.dlen} := by
    rw [put.toStored.image_free v' (dirBlock_small d).2,out_image,advanced]
    · rfl
    · intro i h _ member
      refine v.ok.frontier_fresh (some i) (Nat.le_refl _) ?_
      simp only [Image.own]
      rw [s.image_node (by exact h)]
      exact member
  have mid : t.Mid := by
    refine put.mid v' d ?_ ?_
    · rw [image]; exact v.ok.advance fits
    · rw [image,out_image,advanced]; exact .refl _
  have here' : t.vol.icindex = x / 32 := put.icindex.trans here
  have dead' : t.vol.hblock.nextInode.toNat ≤ x.toNat := by rw [put.hblock]; exact dead
  have final : (t.setCached x n).image = {s.image with nextBlock := s.image.nextBlock + s.image.dlen} := by
    rw [image_setCached here',if_neg (by omega)]; exact image
  have regs := (s.cached x).beginDir_regs fperm s.vol.hblock.defaultDregLen (frontier_ne_zero v)
  have nregs : n.regs = [⟨s.image.nextBlock,s.image.dlen⟩] := by rw [shape]; exact regs.1
  have rows : n.rows = ((s.cached x).beginDir fperm s.vol.hblock.nextBlock s.vol.hblock.defaultDregLen).rows := by
    rw [shape]; rfl
  have inode : (t.setCached x n).inode x.toNat = n := by rw [inode_setCached here',if_pos rfl]
  have eof : n.eof.toNat = 2 := by rw [shape]; rfl
  have ftype : n.ftype = ftypeDir := by rw [shape]; rfl
  have first : Grew s ((s.advance s.vol.hblock.defaultDregLen).out .success) :=
    ⟨⟨rfl,rfl,rfl,rfl,Nat.le_refl _⟩,advance_grows v,fun _ _ => rfl⟩
  have second : Grew ((s.advance s.vol.hblock.defaultDregLen).out .success) (t.setCached x n) := by
    refine .still ⟨put.blk0,put.rdFails,put.wrFails,put.failed,put.later⟩ ?_ fun b f => put.files v' d f
    rw [final,out_image,advanced]; rfl
  refine ⟨first.trans second (by rw [final]; exact v.ok.advance fits),mid.setCached_dead here' dead',put.placed placed,here',
    final,?_,?_,?_,?_⟩
  · rw [inode,rows]; exact regs.2
  · unfold Mount.node
    rw [inode]
    have content : dblockLayout.symm (t.at s.image.nextBlock) = new := by rw [put.put,Equiv.symm_apply_apply]
    have block : ∀ k,k < 128 → linkAt t.at (blocks n.regs) k = (new[k % 128]).link := by
      intro k less
      have zero : k / 128 = 0 := by omega
      have get : (blocks n.regs).getD 0 0 = s.image.nextBlock := by
        rw [nregs,blocks_cons,List.getD_eq_getElem?_getD]
        simp [Region.blocks,len]
      unfold linkAt
      simp only [zero,get,content]
    have links : (List.range 2).map (linkAt t.at (blocks n.regs)) = [⟨Image.dot,x.toNat⟩,⟨Image.dotdot,parent.toNat⟩] := by
      have two : List.range 2 = [0,1] := rfl
      rw [two,List.map_cons,List.map_cons,List.map_nil,block 0 (by decide),block 1 (by decide)]
      exact congr (congrArg _ dot) (congrArg (· :: []) dotdot)
    have at_eq : (t.setCached x n).at = t.at := rfl
    unfold Inode.node
    rw [at_eq,if_pos ⟨ftype,by rw [nregs]; simp⟩,eof,links,nregs,shape]
    rfl
  · intro b _ member
    rw [inode,nregs] at member
    obtain ⟨r,is_r,above,below⟩ := mem_blocks.mp member
    rw [List.mem_singleton.mp is_r] at above below
    exact v.ok.frontier_dirBlock above below
  · intro _
    rw [inode,eof,nregs,total_cons,total_nil]
    dsimp only
    omega

theorem begun_populate {s : Mount} {x : UInt32} (parent : UInt32) (fperm : UInt8) (v : s.Mid) (sound : s.disk.Sound)
    (placed : s.Placed) (here : s.vol.icindex = x / 32) (dead : s.vol.hblock.nextInode.toNat ≤ x.toNat)
    (fits : s.image.nextBlock + s.image.dlen ≤ s.image.nblocks) {n : Inode}
    (shape : n = {(s.cached x).beginDir fperm s.vol.hblock.nextBlock s.vol.hblock.defaultDregLen with iparent := parent}) :
    Begun s (populateDir (((s.advance s.vol.hblock.defaultDregLen).setCached x n).out .success) x parent) x
      {s.image with nextBlock := s.image.nextBlock + s.image.dlen}
      ⟨ftypeDir,fperm,2,parent.toNat,[⟨s.image.nextBlock,s.image.dlen⟩],[⟨Image.dot,x.toNat⟩,⟨Image.dotdot,parent.toNat⟩]⟩ := by
  obtain ⟨c,populate,dot,dotdot⟩ := populateDir_eq
    (s := ((s.advance s.vol.hblock.defaultDregLen).setCached x n).out .success) (by exact sound) x parent
  have word : n.regStart.get ⟨0,row_pos⟩ = UInt32.ofNat s.image.nextBlock := by
    rw [shape]
    show ((s.cached x).beginDir fperm s.vol.hblock.nextBlock s.vol.hblock.defaultDregLen).regStart[0] = _
    simp only [Inode.beginDir,Vector.getElem_set_self]
    exact UInt32.ofNat_toNat.symm
  rw [populate,← setCached_out,cached_setCached,putDir_setCached (by exact sound),setCached_setCached,word]
  exact begun_dir v placed here dead fits (putDir_put (by exact sound) c s.nextBlock_lt) dot dotdot (by rw [shape])

theorem nextInode_eq {s s' : Mount} (length : s'.image.nodes.length = s.image.nodes.length) :
    s'.vol.hblock.nextInode = s.vol.hblock.nextInode := by
  rw [image_length,image_length] at length
  exact UInt32.toNat_inj.mp length

-- The second half of fs2_create_file: the parent gets its entry, then everything is saved.
theorem Begun.finish {s t : Mount} {x p : UInt32} {m : Image} {n : Node} {name : List UInt8} (a : Begun s t x m n)
    (sound : s.disk.Sound) (quiet : s.disk.Quiet) (noNul : 0 ∉ name) (last : t.vol.hblock.nextInode = x)
    (below : p.toNat < x.toNat) (room : x.toNat / 32 < t.itable.length) (dir : (m.node p.toNat).ftype = ftypeDir)
    (live : (m.node p.toNat).regs ≠ []) (empty : n.ftype ≠ ftypeDir → n.regs = [])
    (pushed : (m.push n).Ok) (ok : ((m.push n).link p.toNat name x.toNat).1.Good) :
    ∃ t₁ t₂,getIblockC t (p / 32) false true = some t₁ ∧ t₁.vol.outcome = .success ∧
      addDirEntry t₁ name p x = some t₂ ∧ Grew s (finishCreate t₂) ∧ (finishCreate t₂).Valid ∧
      (finishCreate t₂).image = ((m.push n).link p.toNat name x.toNat).1 ∧ (finishCreate t₂).vol.outcome = .success := by
  have h : p.toNat < t.vol.hblock.nextInode.toNat := by rw [last]; exact below
  obtain ⟨b,found⟩ := itable_holds a.mid h
  obtain ⟨t₁,run,turned⟩ := getIblockC_save a.mid (a.toDev.sound sound) a.placed (q := p / 32)
    (by rw [UInt32.toNat_div]; exact found) false
  have last₁ : t₁.vol.hblock.nextInode = x := by rw [turned.hblock]; exact last
  have inode₁ : t₁.inode x.toNat = t.inode x.toNat := turned.inode _ room
  have node₁ : t₁.node x.toNat = n := by
    rw [← a.node]
    unfold Mount.node
    rw [inode₁]
    refine Inode.node_congr (fun dir _ => a.fits dir) fun dir b member => ?_
    have d : t.image.DirBlock b := by rw [a.image]; exact a.dirs b dir member
    exact turned.stay b (dirBlock_small d).1 (dirBlock_small d).2
  have image₁ : t₁.image = m := turned.image.trans a.image
  have bumped : t₁.bump.image = m.push n := by rw [bump_image turned.mid,last₁,node₁,image₁]
  have grows : m.Grows (m.push n) := .push empty
  have mid : t₁.bump.Mid := by
    refine bump_mid turned.mid ?_ ?_ ?_
    · rw [last₁,inode₁]; exact a.tidy
    · rw [last₁,node₁,image₁]; exact pushed
    · rw [last₁,node₁,image₁]; exact grows
  have placed : t₁.bump.Placed := by
    unfold Placed
    show t₁.vol.icindex.toNat < t₁.itable.length
    rw [turned.icindex,turned.itable_eq,UInt32.toNat_div]
    exact (List.getElem?_eq_some_iff.mp found).1
  have dev : Dev t t₁.bump := turned.toDev.trans ⟨rfl,rfl,rfl,rfl,Nat.le_refl _⟩
  have sound₁ := dev.sound (a.toDev.sound sound)
  have h₁ : p.toNat < t₁.bump.vol.hblock.nextInode.toNat := by
    have : t₁.bump.image.nodes.length = t₁.bump.vol.hblock.nextInode.toNat := image_length _
    rw [← this,bumped,Image.length_push]
    have length : m.nodes.length = x.toNat := by rw [← a.image,image_length,last]
    omega
  have old : t₁.bump.node p.toNat = m.node p.toNat := by
    rw [← image_node _ h₁,bumped,Image.node_push,if_neg]
    have length : m.nodes.length = x.toNat := by rw [← a.image,image_length,last]
    omega
  have dir₁ : (t₁.bump.inode p.toNat).ftype = ftypeDir := by rw [← old] at dir; exact dir
  have live₁ : (t₁.bump.inode p.toNat).regs ≠ [] := by rw [← old] at live; exact live
  obtain ⟨t₂',run',grew',mid',placed',image'⟩ := addDirEntry_spec mid sound₁
    (dev.quiet (a.toDev.quiet quiet)) placed x noNul turned.icindex h₁ dir₁ live₁ (by rw [bumped]; exact ok.toOk)
  rw [addDirEntry_bump] at run'
  obtain ⟨t₂,added,rfl⟩ := Option.map_eq_some_iff.mp run'
  have saved := mid'.saveIblockC (grew'.toDev.sound sound₁) placed'
  have header := saveHblock_saved (saved.toDev.sound (grew'.toDev.sound sound₁))
  have final : (finishCreate t₂).image = ((m.push n).link p.toNat name x.toNat).1 := by
    rw [finishCreate_eq,header.image saved.mid,saved.image,image',bumped]
  refine ⟨t₁,t₂,run,turned.outcome,added,?_,?_,final,?_⟩
  · have g₁ : Grew t t₁.bump := by
      refine ⟨dev,by rw [bumped,a.image]; exact grows,fun k f => ?_⟩
      rw [bumped] at f
      exact turned.files a.mid (by rw [a.image]; exact grows.fileBlock pushed f)
    have g₂ : Grew t₂.bump (finishCreate t₂) := by
      rw [finishCreate_eq]
      refine .still (saved.toDev.trans header.toDev) ((header.image saved.mid).trans saved.image) fun k f => ?_
      have small := mid'.fileBlock_small f
      rw [header.stay k small.1 (fun zero => mid'.ok.zero_not_file (zero ▸ f))]
      exact saved.stay k small.1 small.2
    have final_ok : (finishCreate t₂).image.Ok := by rw [final]; exact ok.toOk
    exact (a.toGrew.trans (g₁.trans (grew'.trans g₂ final_ok) final_ok) final_ok)
  · rw [finishCreate_eq]
    exact ⟨header.mid saved.mid,by rw [← finishCreate_eq,final]; exact ok.living,header.saved,header.clean saved.mid saved.mid.zero_free saved.clean⟩
  · rw [finishCreate_eq]; exact header.outcome

theorem Valid.setCached_dead {s : Mount} {x : UInt32} {n : Inode} (v : s.Valid) (here : s.vol.icindex = x / 32)
    (dead : s.vol.hblock.nextInode.toNat ≤ x.toNat) : (s.setCached x n).Valid := by
  have image := image_setCached here n
  rw [if_neg (by omega)] at image
  refine ⟨v.toMid.setCached_dead here dead,by rw [image]; exact v.living,v.saved,?_⟩
  intro i h cached
  have h' : i < s.vol.hblock.nextInode.toNat := h
  have inode := inode_setCached here n i
  rw [inode_here cached,if_neg (by omega)] at inode
  rw [inode]
  exact v.inode_disk h

-- fs2_create_file behind the point where type, region and parent are set.
def linkNew (s : Mount) (name : List UInt8) (parent iindex : UInt32) (ftype : UInt8) : Option Mount :=
  if s.vol.outcome ≠ .success then some s
  else
    let s := if ftype = ftypeDir then populateDir s iindex parent else s
    if iindex ≠ 0 then do
      let s ← getIblockC s (parent / 32) false true
      if s.vol.outcome ≠ .success then some s
      else
        let s ← addDirEntry s name parent iindex
        some (finishCreate s)
    else some (finishCreate s)

theorem createFile_eq (s : Mount) (name : List UInt8) (parent : UInt32) (ftype : UInt8) :
    createFile s name parent ftype = (do
      let s₁ ← getIblockC s (s.vol.hblock.nextInode / 32) true false
      if s₁.vol.outcome ≠ .success then some s₁
      else
        let s₂ ← initInode s₁ s.vol.hblock.nextInode ftype s₁.vol.hblock.defaultPerm
        linkNew (s₂.setCached s.vol.hblock.nextInode {s₂.cached s.vol.hblock.nextInode with iparent := parent})
          name parent s.vol.hblock.nextInode ftype) := rfl

theorem Begun.linkNew {s t t' : Mount} {x : UInt32} {m : Image} {n : Node} (a : Begun s t' x m n) (p : UInt32)
    (name : List UInt8) (ftype : UInt8) (success : t.vol.outcome = .success)
    (same : t' = if ftype = ftypeDir then populateDir t x p else t)
    (sound : s.disk.Sound) (quiet : s.disk.Quiet) (noNul : 0 ∉ name) (last : t'.vol.hblock.nextInode = x)
    (below : p.toNat < x.toNat) (room : x.toNat / 32 < t'.itable.length) (dir : (m.node p.toNat).ftype = ftypeDir)
    (live : (m.node p.toNat).regs ≠ []) (empty : n.ftype ≠ ftypeDir → n.regs = []) (pushed : (m.push n).Ok)
    (ok : ((m.push n).link p.toNat name x.toNat).1.Good) :
    ∃ s',linkNew t name p x ftype = some s' ∧ Grew s s' ∧ s'.Valid ∧
      s'.image = ((m.push n).link p.toNat name x.toNat).1 ∧ s'.vol.outcome = .success := by
  obtain ⟨t₁,t₂,run,success₁,added,result⟩ := a.finish sound quiet noNul last below room dir live empty pushed ok
  have first : x ≠ 0 := by
    intro zero
    rw [zero] at below
    cases below
  refine ⟨finishCreate t₂,?_,result⟩
  unfold Mount.linkNew
  rw [if_neg (by simp [success]),← same]
  dsimp only
  rw [if_pos first,run]
  simp only [Option.bind_eq_bind,Option.bind_some]
  rw [if_neg (by simp [success₁]),added]
  rfl

theorem createFile_spec {s : Mount} (v : s.Valid) (sound : s.disk.Sound) (quiet : s.disk.Quiet) (placed : s.Placed)
    {p : UInt32} (name : List UInt8) (noNul : 0 ∉ name) (ftype : UInt8) (h : p.toNat < s.vol.hblock.nextInode.toNat)
    (dir : (s.image.node p.toNat).ftype = ftypeDir) (live : (s.image.node p.toNat).regs ≠ []) :
    ∃ s',createFile s name p ftype = some s' ∧ Grew s s' ∧ s'.Valid ∧
      s'.image = (s.image.createFile name p.toNat ftype).1 ∧
      s'.vol.outcome = (s.image.createFile name p.toNat ftype).2 := by
  obtain ⟨s₁,run,grew,v₁,result⟩ := getIblockC_new v sound placed
  have sound₁ := grew.toDev.sound sound
  have quiet₁ := grew.toDev.quiet quiet
  have length : s.image.nodes.length = s.vol.hblock.nextInode.toNat := image_length s
  rw [createFile_eq,run]
  unfold Image.createFile
  simp only [Option.bind_eq_bind,Option.bind_some]
  cases enough : s.image.needIblock with
  | error e =>
    rw [enough] at result
    obtain ⟨image,outcome,failed,_⟩ := result
    rw [if_pos (by rw [outcome]; exact failed)]
    exact ⟨_,rfl,grew,v₁,image,outcome⟩
  | ok m =>
    rw [enough] at result
    obtain ⟨image,success,placed₁,here⟩ := result
    obtain ⟨ok,nodes,room⟩ := v.ok.needIblock enough
    rw [if_neg (by simp [success])]
    have last : s₁.vol.hblock.nextInode = s.vol.hblock.nextInode := nextInode_eq (by rw [image,nodes])
    have node : m.node p.toNat = s.image.node p.toNat := by simp only [Image.node,nodes]
    have length₁ : s₁.image.nodes.length = s.vol.hblock.nextInode.toNat := by rw [image,nodes]; exact length
    have dead : s₁.vol.hblock.nextInode.toNat ≤ s.vol.hblock.nextInode.toNat := by rw [last]
    rw [← node] at dir live
    rw [← nodes] at room
    rw [length]
    subst image
    have h' : p.toNat < s₁.image.nodes.length := by rw [length₁]; exact h
    -- The inode block holds a slot for the new inode.
    have slot : ∀ t : Mount,t.image.iregs = s₁.image.iregs →
        s.vol.hblock.nextInode.toNat / 32 < t.itable.length := by
      intro t same
      have table : t.itable = s₁.itable := congrArg blocks same
      have size : total s₁.image.iregs = s₁.itable.length := by unfold itable; rw [length_blocks]; rfl
      rw [table]
      omega
    by_cases file : ftype = ftypeDir
    · subst file
      have region := initInode_dir v₁.toMid here dead s₁.vol.hblock.defaultPerm
      cases taken : s₁.image.alloc s₁.image.dlen with
      | none =>
        rw [taken] at region
        simp only [region,Option.bind_some]
        rw [setCached_out,out_cached,cached_setCached,setCached_setCached]
        have image' := image_setCached here {(s₁.cached s.vol.hblock.nextInode).begin ftypeDir
          s₁.vol.hblock.defaultPerm with iparent := p}
        rw [if_neg (by omega)] at image'
        unfold Mount.linkNew
        rw [if_pos (by simp)]
        have still : Grew s₁ ((s₁.setCached s.vol.hblock.nextInode {(s₁.cached s.vol.hblock.nextInode).begin ftypeDir
            s₁.vol.hblock.defaultPerm with iparent := p}).out .diskFull) :=
          .still ⟨rfl,rfl,rfl,rfl,Nat.le_refl _⟩ image' fun _ _ => rfl
        refine ⟨_,rfl,grew.trans still ?_,(v₁.setCached_dead here dead).out _,?_⟩
        · rw [out_image,image']; exact ok
        · simp only [if_true,taken,out_image,image',out_outcome,and_self]
      | some r =>
        rw [taken] at region
        obtain ⟨fits,run'⟩ := region
        obtain ⟨m,b⟩ := r
        obtain ⟨_,rfl,rfl⟩ := Image.alloc_eq.mp taken
        simp only [run',Option.bind_some]
        rw [setCached_out,out_cached,cached_setCached,setCached_setCached]
        have a := begun_populate p s₁.vol.hblock.defaultPerm v₁.toMid sound₁ placed₁ here dead fits rfl
        have pushed := ok.pushDir room fits ftypeDir s₁.image.perm (Nat.le_of_lt h')
        have linked := (v₁.good.advance fits).linkPushed pushed name h' dir live rfl (by simp) fun _ => by simp
        rw [length₁] at pushed linked
        obtain ⟨s',run'',grew',valid,image',outcome'⟩ := a.linkNew p name ftypeDir rfl
          (if_pos rfl).symm sound₁ quiet₁ noNul ((nextInode_eq (by rw [a.image])).trans last) h
          (slot _ (by rw [a.image])) dir live (fun t => absurd rfl t) pushed linked
        refine ⟨s',run'',grew.trans grew' valid.ok,valid,?_⟩
        simp only [if_true,taken]
        exact ⟨image',outcome'⟩
    · simp only [initInode_file s₁ _ _ file,Option.bind_some]
      rw [setCached_out,out_cached,cached_setCached,setCached_setCached,if_neg file]
      have a := begun_file v₁.toMid here dead s₁.vol.hblock.defaultPerm placed₁ file .success p
      have pushed := ok.pushFile room s₁.image.perm file (p := p.toNat)
      obtain ⟨s',run',grew',valid,image',outcome'⟩ := a.linkNew p name ftype rfl (if_neg file).symm sound₁ quiet₁ noNul last h
        (slot _ (by rw [a.image])) dir live (fun _ => rfl) pushed (by
          have linked := v₁.good.linkPushed pushed name h' dir live rfl (by simp) fun t => absurd t file
          rw [length₁] at linked
          exact linked)
      exact ⟨s',run',grew.trans grew' valid.ok,valid,image',outcome'⟩

theorem Looked.grew {s s' : Mount} (a : Looked s s') (v : s.Valid) (quiet : s'.disk.failed = s.disk.failed) :
    Grew s s' := .still (a.dev quiet) (a.image v) fun _ _ => by rw [a.at_eq]

-- The mount when fs2_create has looked up the path, and the parent where it has one.
def createLookups (s : Mount) (path : List UInt8) : Option Mount := do
  let (s,_,_) ← findFile s path
  let split := stripBack path (splitBack path (path.length - 1))
  if s.vol.outcome ≠ .noFile ∨ split = 0 then some s
  else
    let (s,_,_) ← findFile s (path.take (split + 1))
    some s

theorem createLookups_quiet {s : Mount} (v : s.Valid) (sound : s.disk.Sound) (path : Path)
    (reads : ∀ t x,s.disk.rdFails t x = false) (t : Mount) (look : createLookups s path.bytes = some t) :
    t.disk.Quiet := by
  suffices same : t.disk.rdFails = s.disk.rdFails from fun n x _ => by rw [same]; exact reads n x
  obtain ⟨s₁,r₁,p₁,run,looked,_⟩ := findFile_look v sound path.bytes path.noNul
  unfold createLookups at look
  simp only [run,Option.bind_eq_bind,Option.bind_some] at look
  split at look
  · cases look
    exact looked.rdFails
  · obtain ⟨s₂,r₂,p₂,run₂,looked₂,_⟩ := findFile_look looked.valid (looked.toSame.sound sound)
      (path.bytes.take (stripBack path.bytes (splitBack path.bytes (path.bytes.length - 1)) + 1))
      (fun member => path.noNul (List.mem_of_mem_take member))
    rw [run₂] at look
    cases look
    exact looked₂.rdFails.trans looked.rdFails

theorem create_spec {s : Mount} (v : s.Valid) (sound : s.disk.Sound) (ftype : UInt8) (path : Path)
    (quiet : ∀ t,createLookups s path.bytes = some t → t.disk.Quiet) :
    ∃ s' r,create s ftype path = some (s',r) ∧
      ((Grew s s' ∧ s'.Valid ∧ s'.image = (s.image.create ftype path.bytes).1 ∧
        s'.vol.outcome = (s.image.create ftype path.bytes).2 ∧ r = (s'.vol.outcome = .success : Bool)) ∨
      (Stopped s s' ∧ r = false)) := by
  obtain ⟨s₁,r₁,p₁,run,looked,placed,result⟩ := findFile_look v sound path.bytes path.noNul
  have image₁ := looked.image v
  have sound₁ := looked.toSame.sound sound
  have quiet₁ := quiet
  unfold createLookups at quiet₁
  unfold create Image.create
  simp only [run,Option.bind_eq_bind,Option.bind_some] at quiet₁ ⊢
  rcases result with ⟨calm,result⟩ | ⟨loud,faulty,_,_,error⟩
  · cases found : s.image.resolve path.bytes with
    | ok r =>
      rw [found] at result
      rw [if_pos result.2.2]
      exact ⟨_,_,rfl,.inl ⟨(looked.grew v calm).out _,looked.valid.out _,image₁,rfl,rfl⟩⟩
    | error e =>
      rw [found] at result
      have outcome := result.2.2
      have plain := Image.resolve_error found
      rw [if_neg (by rw [outcome]; exact plain.1)]
      by_cases missing : e = .noFile
      · subst missing
        rw [if_neg (by simp [outcome])]
        have nonempty : path.bytes ≠ [] := by
          intro empty
          rw [empty] at found
          simp [Image.resolve] at found
        unfold Image.createParent
        dsimp only
        by_cases trailing : path.bytes.getD (path.bytes.length - 1) 0 = slash
        · rw [if_pos trailing,if_pos trailing]
          exact ⟨_,_,rfl,.inl ⟨(looked.grew v calm).out _,looked.valid.out _,image₁,rfl,rfl⟩⟩
        · rw [if_neg trailing,if_neg trailing]
          by_cases top : stripBack path.bytes (splitBack path.bytes (path.bytes.length - 1)) = 0
          · rw [if_pos top,if_pos top]
            have root := v.ok.root
            obtain ⟨s',run',grew',valid',image',outcome'⟩ := createFile_spec looked.valid sound₁
              (quiet₁ s₁ (if_pos (.inr top))) (placed nonempty) (p := 0)
              (path.bytes.drop (if splitBack path.bytes (path.bytes.length - 1) = 0 then
                splitBack path.bytes (path.bytes.length - 1) else splitBack path.bytes (path.bytes.length - 1) + 1))
              (fun member => path.noNul (List.mem_of_mem_drop member)) ftype
              (by rw [looked.hblock,← image_length]; exact root.1) (by rw [image₁]; exact root.2.1)
              (by rw [image₁]; exact root.2.2)
            rw [image₁] at image' outcome'
            rw [run']
            exact ⟨_,_,rfl,.inl ⟨(looked.grew v calm).trans grew' valid'.ok,valid',image',outcome',rfl⟩⟩
          · rw [if_neg top,if_neg top]
            obtain ⟨outer,split⟩ := split_pointers nonempty top
            obtain ⟨s₂,r₂,p₂,run₂,looked₂,placed₂,result₂⟩ := findFile_look looked.valid sound₁
              (path.bytes.take (stripBack path.bytes (splitBack path.bytes (path.bytes.length - 1)) + 1))
              (fun member => path.noNul (List.mem_of_mem_take member))
            rw [image₁] at result₂
            rw [if_neg (by simp [outcome,top]),run₂] at quiet₁
            rw [run₂]
            simp only [Option.bind_some]
            rcases result₂ with ⟨calm₂,result₂⟩ | ⟨loud,faulty,_,_,error⟩
            · have calm' := calm₂.trans calm
              have looked' := looked.trans looked₂
              cases found₂ : s.image.resolve (path.bytes.take
                  (stripBack path.bytes (splitBack path.bytes (path.bytes.length - 1)) + 1)) with
              | error e =>
                rw [found₂] at result₂
                have plain₂ := Image.resolve_error found₂
                rw [if_pos (by rw [result₂.2.2]; exact plain₂.1)]
                exact ⟨_,_,rfl,.inl ⟨looked'.grew v calm',looked'.valid,looked'.image v,result₂.2.2,by
                  rw [result₂.2.2]; simp [plain₂.1]⟩⟩
              | ok r =>
                obtain ⟨i,q⟩ := r
                rw [found₂] at result₂
                obtain ⟨index,_,success⟩ := result₂
                have attached := Image.resolve_attached v.good found₂
                have alive := attached.alive v.good
                have dir := split.parent_dir found found₂
                rw [if_neg (by simp [success])]
                obtain ⟨s',run',grew',valid',image',outcome'⟩ := createFile_spec looked'.valid
                  (looked'.toSame.sound sound) (quiet₁ s₂ rfl) (placed₂ split.nonempty) (p := r₂)
                  (path.bytes.drop (if splitBack path.bytes (path.bytes.length - 1) = 0 then
                    splitBack path.bytes (path.bytes.length - 1) else splitBack path.bytes (path.bytes.length - 1) + 1))
                  (fun member => path.noNul (List.mem_of_mem_drop member)) ftype
                  (by rw [looked'.hblock,← image_length,index]; exact alive.1)
                  (by rw [looked'.image v,index]; exact dir) (by rw [looked'.image v,index]; exact alive.2 dir)
                rw [looked'.image v,index] at image' outcome'
                rw [run']
                exact ⟨_,_,rfl,.inl ⟨(looked'.grew v calm').trans grew' valid'.ok,valid',image',outcome',rfl⟩⟩
            · rw [if_pos (by simp [error])]
              exact ⟨_,_,rfl,.inr ⟨⟨looked.trans looked₂,loud,looked.toSame.faulty.mp faulty,error⟩,rfl⟩⟩
      · rw [if_pos (by rw [outcome]; exact missing)]
        refine ⟨_,_,rfl,.inl ⟨looked.grew v calm,looked.valid,?_,?_,by rw [outcome]; simp [plain.1]⟩⟩
        · cases e <;> first | exact absurd rfl missing | exact image₁
        · cases e <;> first | exact absurd rfl missing | exact outcome
  · rw [if_neg (by simp [error]),if_pos (by simp [error])]
    exact ⟨_,_,rfl,.inr ⟨⟨looked,loud,faulty,error⟩,rfl⟩⟩

end Mount
end ArchiveOs.Fs2
