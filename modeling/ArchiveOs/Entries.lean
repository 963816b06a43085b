import ArchiveOs.Allocs

-- Names, and a new entry at the end of a directory.
namespace ArchiveOs.Fs2
open Extents Layout

theorem cstr_strncpy28 {name : List UInt8} (noNul : 0 ∉ name) : cstr (strncpy28 name) = name.take 28 := by
  have list : (strncpy28 name).toList = name.take 28 ++ List.replicate (28 - name.length) 0 := by
    apply List.ext_getElem
    · simp; omega
    · intro k h₁ h₂
      simp only [strncpy28,Vector.getElem_toList,Vector.getElem_ofFn]
      have bound : k < 28 := by simpa using h₁
      by_cases inside : k < name.length
      · rw [List.getElem_append_left (by simp; omega)]
        simp [inside]
      · rw [List.getElem_append_right (by simp; omega)]
        simp [List.getElem?_eq_none (Nat.le_of_not_lt inside)]
  unfold cstr
  rw [list,List.takeWhile_append_of_pos]
  · cases 28 - name.length <;> simp [List.replicate_succ]
  · intro c member
    have : c ≠ 0 := fun zero => noNul (zero ▸ List.mem_of_mem_take member)
    simpa using this

theorem cstr_strcpy28 {dst : Bytes 28} {src : List UInt8} (noNul : 0 ∉ src) (short : src.length < 28) :
    cstr (strcpy28 dst src) = src := by
  have list : (strcpy28 dst src).toList = src ++ 0 :: (dst.toList.drop (src.length + 1)) := by
    apply List.ext_getElem
    · simp; omega
    · intro k h₁ h₂
      simp only [strcpy28,Vector.getElem_toList,Vector.getElem_ofFn]
      rcases Nat.lt_trichotomy k src.length with less | rfl | more
      · rw [List.getElem_append_left less,if_pos (by omega)]
        simp [less]
      · simp
      · rw [List.getElem_append_right (by omega),if_neg (by omega)]
        obtain ⟨d,rfl⟩ : ∃ d,k = src.length + 1 + d := ⟨k - src.length - 1,by omega⟩
        have : src.length + 1 + d - src.length = d + 1 := by omega
        simp [this]
  unfold cstr
  rw [list,List.takeWhile_append_of_pos]
  · simp
  · intro c member
    have : c ≠ 0 := fun zero => noNul (zero ▸ member)
    simpa using this

theorem Inode.links_snoc (rd rd' : Nat → Block) {n n' : Inode} (dir : n.ftype = ftypeDir) (live : n.regs ≠ [])
    (dir' : n'.ftype = ftypeDir) (live' : n'.regs ≠ []) (eof : n'.eof.toNat = n.eof.toNat + 1)
    (before : ∀ k,k < n.eof.toNat → linkAt rd' (blocks n'.regs) k = linkAt rd (blocks n.regs) k) :
    (n'.node rd').links = (n.node rd).links ++ [linkAt rd' (blocks n'.regs) n.eof.toNat] := by
  simp only [Inode.node]
  rw [if_pos ⟨dir',live'⟩,if_pos ⟨dir,live⟩,eof,List.range_succ,List.map_append]
  congr 1
  apply List.map_congr_left
  intro k member
  exact before k (List.mem_range.mp member)

theorem Inode.regs_set {n : Inode} (n' : Inode) (tidy : Tidy n.rows) {i : Nat} (slot : i = n.regs.length) (room : i < 23)
    {start : UInt32} (len : UInt8) (used : start ≠ 0) (starts : n'.regStart = n.regStart.setIfInBounds i start)
    (lens : n'.regLen = n.regLen.setIfInBounds i len) :
    n'.regs = n.regs ++ [⟨start.toNat,len.toNat⟩] ∧ Tidy n'.rows := by
  have rows : n'.rows = n.rows.set (regions n.rows).length (start,len) := by
    unfold Inode.rows
    rw [starts,lens,slot]
    exact rows_set _ _ _ _ _
  unfold Inode.regs
  rw [rows]
  refine regions_set tidy _ len used ?_
  rw [Inode.length_rows]
  exact slot ▸ room

namespace Mount

theorem loadDblockC_dry (s : Mount) (a : UInt32) :
    loadDblockC s a true = ({s with vol := {s.vol with dcaddr := a}} : Mount).out .success := by
  unfold loadDblockC
  by_cases hit : a = s.vol.dcaddr
  · rw [if_neg (by simpa using hit),hit]
  · rw [if_pos hit]; rfl

theorem setCached_setCached (s : Mount) (x : UInt32) (n n' : Inode) :
    (s.setCached x n).setCached x n' = s.setCached x n' := by
  simp [setCached]

@[simp] theorem cached_setCached (s : Mount) (x : UInt32) (n : Inode) : (s.setCached x n).cached x = n := by
  simp [setCached,cached]

theorem putDir_setCached {s : Mount} (sound : s.disk.Sound) (b : UInt32) (c : DBlock) (x : UInt32) (n : Inode) :
    (s.setCached x n).putDir b c = (s.putDir b c).setCached x n := by
  unfold putDir saveDblockC
  rw [wblk_ok (by exact sound),wblk_ok (by exact sound)]
  rfl

theorem eof_small {s : Mount} (v : s.Mid) {i : Nat} (h : i < s.vol.hblock.nextInode.toNat)
    (dir : (s.inode i).ftype = ftypeDir) (live : (s.inode i).regs ≠ []) : (s.inode i).eof.toNat ≤ 750720 := by
  have fits := v.fits h dir live
  have bound := total_regions_le (s.inode i).rows
  rw [Inode.length_rows] at bound
  unfold Inode.regs at fits
  omega

theorem succ_toNat {w : UInt32} (small : w.toNat < 4294967295) : (w + 1).toNat = w.toNat + 1 := by
  rw [UInt32.toNat_add]
  exact Nat.mod_eq_of_lt (by show w.toNat + 1 < 4294967296; omega)

-- A directory block has been stored without touching an entry that counts; then
-- the inode of its directory follows.
theorem PutDir.extend {s t : Mount} {b : Nat} {c : DBlock} (v : s.Mid) (put : PutDir s t b c) (d : s.image.DirBlock b)
    (image : t.image = s.image) (placed : s.Placed) {p : UInt32} (here : s.vol.icindex = p / 32)
    (h : p.toNat < s.vol.hblock.nextInode.toNat) {n : Inode} (tidy : Tidy n.rows) {m : Image}
    (equal : s.image.setNode p.toNat (n.node t.at) = m) (ok : m.Ok) (grows : s.image.Grows m) :
    Grew s (t.setCached p n) ∧ (t.setCached p n).Mid ∧ (t.setCached p n).Placed ∧ (t.setCached p n).image = m := by
  have mid : t.Mid := put.mid v d (by rw [image]; exact v.ok) (by rw [image]; exact .refl _)
  have here' : t.vol.icindex = p / 32 := put.icindex.trans here
  have h' : p.toNat < t.vol.hblock.nextInode.toNat := by rw [put.hblock]; exact h
  have equal' : t.image.setNode p.toNat (n.node t.at) = m := by rw [image]; exact equal
  have final : (t.setCached p n).image = m := by rw [image_setCached here',if_pos h']; exact equal'
  have dev : Dev s (t.setCached p n) := ⟨put.blk0,put.rdFails,put.wrFails,put.failed,put.later⟩
  refine ⟨⟨dev,by rw [final]; exact grows,?_⟩,
    mid.setCached_live here' h' tidy (by rw [equal']; exact ok) (by rw [equal',image]; exact grows),put.placed placed,final⟩
  intro k f
  rw [final] at f
  exact put.files v d (grows.fileBlock ok f)

theorem saveEntry_put {s : Mount} {b : Nat} (sound : s.disk.Sound) (dcaddr : s.vol.dcaddr = UInt32.ofNat b)
    (small : b < 4294967296) (k : Nat) (e : DirEntry) :
    PutDir s (saveDblockC (s.setEntry k e)) b (s.vol.dcache.set (k % 128) e) := by
  have put := putDir_put sound (s.vol.dcache.set (k % 128) e) small
  unfold putDir at put
  rw [← dcaddr] at put
  exact put

section AddEntry
variable {s t : Mount} {p child : UInt32} {name : List UInt8} {b : Nat}

theorem addEntry_room (v : s.Mid) (placed : s.Placed) (noNul : 0 ∉ name)
    (here : s.vol.icindex = p / 32) (h : p.toNat < s.vol.hblock.nextInode.toNat)
    {dinode : Inode} (inode : s.inode p.toNat = dinode) (dir : dinode.ftype = ftypeDir) (live : dinode.regs ≠ [])
    (at_q : (blocks dinode.regs)[dinode.eof.toNat / 128]? = some b)
    (loaded : s.vol.dcache = dblockLayout.symm (s.at b))
    (put : PutDir s t b (s.vol.dcache.set (dinode.eof.toNat % 128) ⟨child,strncpy28 name⟩))
    {linked : Node} (shape : linked = {s.image.node p.toNat with
      eof := (s.image.node p.toNat).eof + 1
      links := (s.image.node p.toNat).links ++ [⟨name.take 28,child.toNat⟩]})
    (ok : (s.image.setNode p.toNat linked).Ok) {n : Inode} (next : n = {dinode with eof := dinode.eof + 1}) :
    Grew s (t.setCached p n) ∧ (t.setCached p n).Mid ∧ (t.setCached p n).Placed ∧
      (t.setCached p n).image = s.image.setNode p.toNat linked := by
  subst inode
  have node := s.image_node h
  have regs : (s.image.node p.toNat).regs = (s.inode p.toNat).regs := by rw [node]; rfl
  have nregs : n.regs = (s.inode p.toNat).regs := by rw [next]; rfl
  have member := List.mem_of_getElem? at_q
  have d : s.image.DirBlock b := v.ok.dirBlock (i := p.toNat) (by rw [node]; exact dir) (by rw [regs]; exact member)
  have fits := v.fits h dir live
  have inside := (List.getElem?_eq_some_iff.mp at_q).1
  have mine : blocks (s.image.own (some p.toNat)) = blocks (s.inode p.toNat).regs := by simp only [Image.own,regs]
  have nodup : (blocks (s.inode p.toNat).regs).Nodup := mine ▸ v.ok.packed.nodup (some p.toNat)
  have stay : ∀ b' ∈ blocks (s.inode p.toNat).regs,b' ≠ b → t.at b' = s.at b' := by
    intro b' member' ne
    have bound := v.ok.packed.within (some p.toNat) b' (mine ▸ member')
    exact put.stay b' (Nat.lt_trans bound.2 s.nextBlock_lt) ne
  have entries := fun k inside => linkAt_put _ nodup at_q put.put stay (k := k) inside
  -- Entries that count lie in front of the one that is written.
  have before : ∀ k,k < (s.inode p.toNat).eof.toNat →
      linkAt t.at (blocks (s.inode p.toNat).regs) k = linkAt s.at (blocks (s.inode p.toNat).regs) k := by
    intro k less
    rw [entries k (by omega)]
    split
    · rename_i same
      have ne : (s.inode p.toNat).eof.toNat % 128 ≠ k % 128 := by omega
      rw [Vector.getElem_set_ne _ _ ne,loaded]
      unfold linkAt
      rw [same,List.getD_eq_getElem?_getD,at_q]
      rfl
    · rfl
  have unchanged : (s.inode p.toNat).node t.at = (s.inode p.toNat).node s.at := by
    unfold Inode.node
    rw [if_pos ⟨dir,live⟩,if_pos ⟨dir,live⟩]
    congr 1
    exact List.map_congr_left fun k member => before k (List.mem_range.mp member)
  have image : t.image = s.image := by
    rw [put.toStored.image_owner v (dirBlock_small d).2 (p := p.toNat),if_pos h,unchanged]
    · exact Image.setNode_same (by simpa using h) node
    · intro i hi ne _ other
      have theirs : b ∈ blocks (s.image.own (some i)) := by
        simp only [Image.own]; rw [s.image_node hi]; exact other
      cases v.ok.packed.apart _ _ b theirs (mine ▸ member)
      exact ne rfl
  have small := eof_small v h dir live
  have eof' : n.eof.toNat = (s.inode p.toNat).eof.toNat + 1 := by
    rw [next]; exact succ_toNat (by omega)
  have ndir : n.ftype = ftypeDir := by rw [next]; exact dir
  have snoc := Inode.links_snoc s.at t.at dir live ndir (nregs ▸ live) eof'
    (by rw [nregs]; exact before)
  have last : linkAt t.at (blocks n.regs) (s.inode p.toNat).eof.toNat = ⟨name.take 28,child.toNat⟩ := by
    rw [nregs,entries _ inside,if_pos rfl,Vector.getElem_set_self]
    unfold DirEntry.link; rw [cstr_strncpy28 noNul]
  rw [last] at snoc
  have equal : n.node t.at = linked := by
    have fields : n.node t.at = {(s.inode p.toNat).node s.at with
        eof := n.eof.toNat,links := (n.node t.at).links} := by
      rw [next]; rfl
    rw [fields,snoc,eof',shape,node]; rfl
  refine put.extend v d image placed here h ?_ (congrArg (s.image.setNode p.toNat) equal) ok ?_
  · have rows : n.rows = (s.inode p.toNat).rows := by rw [next]; rfl
    rw [rows]; exact v.itidy _ h
  · exact .setDir (by simpa using h) (by rw [shape,node]; exact dir)

theorem addEntry_grown (child : UInt32) (v : s.Mid) (placed : s.Placed) (noNul : 0 ∉ name)
    (here : s.vol.icindex = p / 32) (h : p.toNat < s.vol.hblock.nextInode.toNat)
    {dinode : Inode} (inode : s.inode p.toNat = dinode) (dir : dinode.ftype = ftypeDir) (live : dinode.regs ≠ [])
    (full : dinode.eof.toNat = 128 * total dinode.regs) (d : s.image.DirBlock b)
    (fresh : ∀ o,b ∉ blocks (s.image.own o)) {new : DBlock} (put : PutDir s t b new)
    (first : new[0] = ⟨child,strncpy28 name⟩) {n : Inode} {len : Nat} (positive : 0 < len) (tidy : Tidy n.rows)
    (nregs : n.regs = dinode.regs ++ [⟨b,len⟩])
    (next : n = {dinode with eof := dinode.eof + 1,regStart := n.regStart,regLen := n.regLen})
    {linked : Node} (shape : linked = {s.image.node p.toNat with
      eof := (s.image.node p.toNat).eof + 1
      regs := (s.image.node p.toNat).regs ++ [⟨b,len⟩]
      links := (s.image.node p.toNat).links ++ [⟨name.take 28,child.toNat⟩]})
    (ok : (s.image.setNode p.toNat linked).Ok) :
    Grew s (t.setCached p n) ∧ (t.setCached p n).Mid ∧ (t.setCached p n).Placed ∧
      (t.setCached p n).image = s.image.setNode p.toNat linked := by
  subst inode
  have node := s.image_node h
  have regs : (s.image.node p.toNat).regs = (s.inode p.toNat).regs := by rw [node]; rfl
  have mine : blocks (s.image.own (some p.toNat)) = blocks (s.inode p.toNat).regs := by simp only [Image.own,regs]
  have image : t.image = s.image := by
    refine put.toStored.image_free v (dirBlock_small d).2 fun i hi _ member => fresh (some i) ?_
    simp only [Image.own]; rw [s.image_node hi]; exact member
  have stay : ∀ b' ∈ blocks (s.inode p.toNat).regs,t.at b' = s.at b' := by
    intro b' member'
    have bound := v.ok.packed.within (some p.toNat) b' (mine ▸ member')
    exact put.stay b' (Nat.lt_trans bound.2 s.nextBlock_lt) fun same => fresh (some p.toNat) (mine ▸ same ▸ member')
  have small := eof_small v h dir live
  have eof' : n.eof.toNat = (s.inode p.toNat).eof.toNat + 1 := by
    rw [next]; exact succ_toNat (by omega)
  have ndir : n.ftype = ftypeDir := by rw [next]; exact dir
  have list : blocks n.regs = blocks (s.inode p.toNat).regs ++ blocks [⟨b,len⟩] := by rw [nregs,blocks_append]
  have before : ∀ k,k < (s.inode p.toNat).eof.toNat →
      linkAt t.at (blocks n.regs) k = linkAt s.at (blocks (s.inode p.toNat).regs) k := by
    intro k less
    have inside : k / 128 < (blocks (s.inode p.toNat).regs).length := by rw [length_blocks]; omega
    unfold linkAt
    rw [list,List.getD_eq_getElem?_getD,List.getD_eq_getElem?_getD,List.getElem?_append_left inside,
      List.getElem?_eq_getElem inside]
    simp only [Option.getD_some,stay _ (List.getElem_mem inside)]
  have snoc := Inode.links_snoc s.at t.at dir live ndir (by rw [nregs]; simp) eof' before
  have last : linkAt t.at (blocks n.regs) (s.inode p.toNat).eof.toNat = ⟨name.take 28,child.toNat⟩ := by
    have block : (blocks n.regs).getD ((s.inode p.toNat).eof.toNat / 128) 0 = b := by
      rw [list,List.getD_eq_getElem?_getD,List.getElem?_append_right (by rw [length_blocks]; omega),length_blocks]
      have zero : (s.inode p.toNat).eof.toNat / 128 - total (s.inode p.toNat).regs = 0 := by omega
      rw [zero,blocks_cons]
      simp [Region.blocks,positive]
    have content : dblockLayout.symm (t.at b) = new := by rw [put.put,Equiv.symm_apply_apply]
    have zero : (s.inode p.toNat).eof.toNat % 128 = 0 := by omega
    unfold linkAt
    simp only [block,content,zero]
    rw [first]
    unfold DirEntry.link; rw [cstr_strncpy28 noNul]
  rw [last] at snoc
  have equal : n.node t.at = linked := by
    have fields : n.node t.at = {(s.inode p.toNat).node s.at with
        eof := n.eof.toNat,regs := n.regs,links := (n.node t.at).links} := by
      rw [next]; rfl
    rw [fields,snoc,eof',nregs,shape,node]; rfl
  exact put.extend v d image placed here h tidy (congrArg (s.image.setNode p.toNat) equal) ok
    (.setDir (by simpa using h) (by rw [shape,node]; exact dir))

end AddEntry

-- One entry goes to the end of directory p. What the source sets in memory before
-- a store ends up the same behind it.
theorem addDirEntry_spec {s : Mount} (v : s.Mid) (sound : s.disk.Sound) (quiet : s.disk.Quiet) (placed : s.Placed)
    {p : UInt32} (child : UInt32) {name : List UInt8} (noNul : 0 ∉ name) (here : s.vol.icindex = p / 32)
    (h : p.toNat < s.vol.hblock.nextInode.toNat) (dir : (s.inode p.toNat).ftype = ftypeDir)
    (live : (s.inode p.toNat).regs ≠ []) (ok : (s.image.link p.toNat name child.toNat).1.Ok) :
    ∃ s', addDirEntry s name p child = some s' ∧ Grew s s' ∧ s'.Mid ∧ s'.Placed ∧
      s'.image = (s.image.link p.toNat name child.toNat).1 := by
  have node := s.image_node h
  have regs : (s.image.node p.toNat).regs = (s.inode p.toNat).regs := by rw [node]; rfl
  have eof : (s.image.node p.toNat).eof = (s.inode p.toNat).eof.toNat := by rw [node]; rfl
  have cached := cached_inode here
  have fits := v.fits h dir live
  have scan := slotScan_eq (s.inode p.toNat).rows (s.inode p.toNat).eof 0 0 (Nat.zero_le _)
    (by rw [Inode.length_rows]; decide)
  have zero : (0 : UInt32).toNat = 0 := rfl
  rw [zero,Nat.sub_zero] at scan
  unfold addDirEntry addDirEntryFrom
  rw [cached]
  unfold Image.link at ok ⊢
  dsimp only at ok ⊢
  simp only [List.drop_zero]
  rw [eof,regs] at ok ⊢
  by_cases inside : (s.inode p.toNat).eof.toNat < 128 * total (s.inode p.toNat).regs
  · rw [if_pos inside] at ok ⊢
    have within : (s.inode p.toNat).eof.toNat / 128 < (blocks (s.inode p.toNat).regs).length := by
      rw [length_blocks]; omega
    obtain ⟨b,at_q⟩ : ∃ b,(blocks (s.inode p.toNat).regs)[(s.inode p.toNat).eof.toNat / 128]? = some b :=
      ⟨_,List.getElem?_eq_getElem within⟩
    have at_q' : (blocks (regions (s.inode p.toNat).rows))[(s.inode p.toNat).eof.toNat / 128]? = some b := at_q
    rw [at_q'] at scan
    obtain ⟨k,m,start,len,found,row,address⟩ := scan
    have d : s.image.DirBlock b :=
      v.ok.dirBlock (i := p.toNat) (by rw [node]; exact dir) (by rw [regs]; exact List.mem_of_getElem? at_q)
    obtain ⟨slid,calm,success,dcaddr,dcache⟩ := loadDblockC_quiet v quiet d
    simp only [found,Nat.zero_add]
    have row' : (s.inode p.toNat).rows.getD k (0,0) = (start,len) := by rw [List.getD_eq_getElem?_getD,row]; rfl
    simp only [row',address]
    rw [if_neg (by simp [success])]
    generalize loadDblockC s _ false = l at slid calm dcaddr dcache
    have put := saveEntry_put (slid.toSame.sound sound) dcaddr (dirBlock_small d).1 (s.inode p.toNat).eof.toNat
      ⟨child,strncpy28 name⟩
    rw [if_neg (by simp [put.outcome])]
    rw [← slid.image] at ok ⊢
    obtain ⟨grew,mid',placed',image'⟩ := addEntry_room (slid.mid v) (slid.placed placed) noNul
      (slid.icindex.trans here) (by rw [slid.hblock]; exact h) (congrFun slid.inode p.toNat) dir live at_q
      (by rw [dcache,slid.at_eq]) put (by rw [slid.image,← regs,← eof]) ok rfl
    have first : Grew s l := .still (slid.dev calm) slid.image fun _ _ => by rw [slid.at_eq]
    exact ⟨_,rfl,first.trans grew mid'.ok,mid',placed',image'⟩
  · rw [if_neg inside] at ok ⊢
    have beyond : (blocks (regions (s.inode p.toNat).rows))[(s.inode p.toNat).eof.toNat / 128]? = none := by
      refine List.getElem?_eq_none ?_
      rw [length_blocks]
      unfold Inode.regs at inside
      omega
    rw [beyond] at scan
    simp only [scan,Nat.zero_add]
    have slots : (regions (s.inode p.toNat).rows).length = (s.inode p.toNat).regs.length := rfl
    rw [slots]
    by_cases all : (s.inode p.toNat).regs.length = 23
    · rw [if_pos all,if_pos all]
      exact ⟨_,rfl,(Grew.refl s).out _,v.out _,placed,rfl⟩
    · rw [if_neg all] at ok ⊢
      rw [if_neg all]
      have region := findFreeRegion_spec v s.vol.hblock.defaultDregLen false
      have dlen : s.image.dlen = s.vol.hblock.defaultDregLen.toNat := rfl
      cases taken : s.image.alloc s.image.dlen with
      | none =>
        rw [dlen] at taken
        rw [taken] at region
        simp only [region,Option.bind_eq_bind,Option.bind_some,if_true]
        exact ⟨_,rfl,(Grew.refl s).out _,v.out _,placed,rfl⟩
      | some r =>
        obtain ⟨m,b⟩ := r
        obtain ⟨fits',rfl,rfl⟩ := Image.alloc_eq.mp taken
        rw [taken] at ok
        rw [dlen] at taken
        rw [taken] at region
        obtain ⟨_,word,_,run⟩ := region
        rw [← word] at run
        simp only [run,Option.bind_eq_bind,Option.bind_some,Bool.false_eq_true,if_false]
        rw [if_neg (frontier_ne_zero v)]
        have rows := regions_length_le (s.inode p.toNat).rows
        rw [Inode.length_rows] at rows
        have few : (s.inode p.toNat).regs.length < 23 := by
          unfold Inode.regs at all ⊢
          omega
        rw [if_neg (by omega)]
        generalize new : Inode.mk _ _ _ _ _ _ _ = n
        have grown := Inode.regs_set n (v.itidy _ h) rfl few
          s.vol.hblock.defaultDregLen (frontier_ne_zero v) (by rw [← new]) (by rw [← new]; rfl)
        have advanced := advance_image v s.vol.hblock.defaultDregLen
        have v' := (advance_mid v fits').out .success
        have dlen_pos := v.ok.dlen.1
        have d : (s.advance s.vol.hblock.defaultDregLen).image.DirBlock s.image.nextBlock := by
          rw [advanced]
          exact v.ok.frontier_dirBlock (Nat.le_refl _) (Nat.lt_add_of_pos_right dlen_pos)
        have put := putDir_put (s := (s.advance s.vol.hblock.defaultDregLen).out .success) (by exact sound)
          (s.vol.dcache.set 0 ⟨child,strncpy28 name⟩) (dirBlock_small d).1
        rw [loadDblockC_dry]
        have order : saveDblockC (setEntry (({((s.advance s.vol.hblock.defaultDregLen).out .success).setCached p n with
            vol := {(((s.advance s.vol.hblock.defaultDregLen).out .success).setCached p n).vol with
              dcaddr := s.vol.hblock.nextBlock}} : Mount).out .success) 0 ⟨child,strncpy28 name⟩) =
            (((s.advance s.vol.hblock.defaultDregLen).out .success).putDir (UInt32.ofNat s.image.nextBlock)
              (s.vol.dcache.set 0 ⟨child,strncpy28 name⟩)).setCached p n := by
          rw [← word]
          unfold putDir saveDblockC
          rw [wblk_ok (by exact sound),wblk_ok (by exact sound)]
          rfl
        rw [order]
        have full : (s.inode p.toNat).eof.toNat = 128 * total (s.inode p.toNat).regs := by omega
        have own : ((s.advance s.vol.hblock.defaultDregLen).out .success).image.own = s.image.own := by
          rw [out_image,advanced]
          funext o; cases o <;> rfl
        rw [← eof,← regs] at ok ⊢
        obtain ⟨grew,mid',placed',image'⟩ := addEntry_grown child v' placed noNul here h rfl dir live full d
          (fun o => by rw [own]; exact v.ok.frontier_fresh o (Nat.le_refl _)) put (by simp) dlen_pos grown.2 grown.1
          (by rw [← new]; rfl) rfl (by rw [out_image,advanced]; exact ok)
        rw [out_image,advanced] at image'
        have first : Grew s ((s.advance s.vol.hblock.defaultDregLen).out .success) :=
          ⟨⟨rfl,rfl,rfl,rfl,Nat.le_refl _⟩,advance_grows v,fun _ _ => rfl⟩
        exact ⟨_,rfl,first.trans grew mid'.ok,mid',placed',image'⟩

end Mount
end ArchiveOs.Fs2
