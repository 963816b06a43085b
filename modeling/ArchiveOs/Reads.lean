import ArchiveOs.Copies

-- Reading a file of a volume whose caches are right: its bytes, or a stop at a failed read.
namespace ArchiveOs.Fs2
open Extents Layout

-- A file is as long as its regions allow.
def Node.Enough (n : Node) : Prop := n.eof ≤ 4096 * total n.regs

namespace Mount

-- The contents of a file.
def data (s : Mount) (i : Nat) : List UInt8 :=
  (bytesOf s.at (blocks (s.image.node i).regs)).take (s.image.node i).eof

theorem length_data {s : Mount} {i : Nat} (enough : (s.image.node i).Enough) :
    (s.data i).length = (s.image.node i).eof := by
  unfold data Node.Enough at *
  rw [List.length_take,length_bytesOf,length_blocks]
  omega

end Mount

def Image.read (m : Image) (data : Nat → List UInt8) (path : List UInt8) (nbytes cursor : UInt32) :
    Outcome × Int × List UInt8 :=
  match m.resolve path with
  | .error e => (e,-1,[])
  | .ok (i,_) =>
    if (m.node i).ftype ≠ ftypeFile then (.badFtype,-1,[])
    else
      let out := ((data i).drop cursor.toNat).take nbytes.toNat
      (.success,out.length,out)

namespace Mount

-- Reading moves the caches only.
structure Viewed (s s' : Mount) : Prop extends Same s s' where
  valid : s'.Valid
  later : s.disk.trace.length ≤ s'.disk.trace.length

theorem Looked.viewed {s s' : Mount} (a : Looked s s') : Viewed s s' := ⟨a.toSame,a.valid,a.later⟩

theorem Viewed.trans {s s' s'' : Mount} (a : Viewed s s') (b : Viewed s' s'') : Viewed s s'' :=
  ⟨a.toSame.trans b.toSame,b.valid,Nat.le_trans a.later b.later⟩

theorem Viewed.out {s s' : Mount} (a : Viewed s s') (o : Outcome) : Viewed s (s'.out o) :=
  ⟨a.toSame.trans (.out s' o),a.valid.out o,a.later⟩

theorem Viewed.image {s s' : Mount} (a : Viewed s s') (v : s.Valid) : s'.image = s.image :=
  v.same_image a.valid a.toSame

structure Halted (s s' : Mount) : Prop extends Viewed s s' where
  loud : s'.disk.failed = true
  faulty : s.disk.Faulty
  outcome : s'.vol.outcome = .diskRdErr

theorem Stopped.halted {s s' : Mount} (a : Stopped s s') : Halted s s' := ⟨a.toLooked.viewed,a.loud,a.faulty,a.outcome⟩

-- Only the general purpose cache has moved.
structure Paged (s s' : Mount) : Prop extends Same s s', SameI s s' where
  dcaddr : s'.vol.dcaddr = s.vol.dcaddr
  dcache : s'.vol.dcache = s.vol.dcache
  later : s.disk.trace.length ≤ s'.disk.trace.length
  xclean : s.image.FileBlock s'.vol.xcaddr.toNat → s'.vol.xcache = s.at s'.vol.xcaddr.toNat

namespace Paged
variable {s s' s'' : Mount}

theorem refl (v : s.Mid) : Paged s s := ⟨.refl s,.refl s,rfl,rfl,Nat.le_refl _,v.xclean⟩

theorem inode (a : Paged s s') : s'.inode = s.inode := by
  funext i
  unfold Mount.inode
  rw [a.icindex,a.icache,a.diskInode_eq]

theorem image (a : Paged s s') : s'.image = s.image := image_congr a.toSame fun i _ => by rw [a.inode]

theorem mid (a : Paged s s') (v : s.Mid) : s'.Mid := by
  refine ⟨?_,?_,?_,?_,?_,?_,?_⟩
  · rw [a.image]; exact v.ok
  · rw [a.hblock]; exact v.sep
  · rw [a.hblock]; exact v.htidy
  · rw [a.hblock,a.inode]; exact v.itidy
  · rw [a.icindex,a.icaddr,a.itable_eq]; exact v.iaddr
  · rw [a.image,a.at_eq,a.dcaddr,a.dcache]; exact v.dclean
  · rw [a.image,a.at_eq]; exact a.xclean

theorem viewed (a : Paged s s') (v : s.Valid) : Viewed s s' := by
  refine ⟨a.toSame,⟨a.mid v.toMid,by rw [a.image]; exact v.living,?_,?_⟩,a.later⟩
  · unfold Saved; rw [a.hblock,a.at_eq]; exact v.saved
  · rw [a.hblock,a.icindex,a.icache,a.diskInode_eq]; exact v.clean

theorem trans (a : Paged s s') (b : Paged s' s'') : Paged s s'' :=
  ⟨a.toSame.trans b.toSame,a.toSameI.trans b.toSameI,b.dcaddr.trans a.dcaddr,b.dcache.trans a.dcache,
    Nat.le_trans a.later b.later,by rw [← a.image,← a.at_eq]; exact b.xclean⟩

theorem out (a : Paged s s') (o : Outcome) : Paged s (s'.out o) :=
  ⟨a.toSame.trans (.out s' o),a.toSameI.out o,a.dcaddr,a.dcache,a.later,a.xclean⟩

theorem placed (a : Paged s s') (placed : s.Placed) : s'.Placed := by
  unfold Placed
  rw [a.icindex,a.itable_eq]; exact placed

end Paged

theorem loadGpC_paged {s : Mount} (v : s.Mid) (a : UInt32) :
    Paged s (loadGpC s a false) ∧
      (((loadGpC s a false).disk.failed = s.disk.failed ∧ (loadGpC s a false).vol.outcome = .success ∧
        (loadGpC s a false).vol.xcaddr = a ∧
        (s.image.FileBlock a.toNat → (loadGpC s a false).vol.xcache = s.at a.toNat)) ∨
      ((loadGpC s a false).disk.failed = true ∧ (∃ t,s.disk.rdFails t .xcache = true) ∧
        (loadGpC s a false).vol.outcome = .diskRdErr)) := by
  unfold loadGpC
  by_cases hit : a = s.vol.xcaddr
  · rw [if_neg (by simpa using hit)]
    exact ⟨(Paged.refl v).out _,.inl ⟨rfl,rfl,hit.symm,fun file => by rw [hit] at file ⊢; exact v.xclean file⟩⟩
  · rw [if_pos hit]
    simp only [Bool.false_eq_true,if_false]
    cases bad : s.disk.rdFails s.disk.trace.length .xcache with
    | true =>
      rw [rblk_fault bad]
      exact ⟨⟨⟨rfl,rfl,rfl,rfl,rfl⟩,⟨rfl,rfl,rfl⟩,rfl,rfl,Nat.le_succ _,v.xclean⟩,.inr ⟨rfl,⟨_,bad⟩,rfl⟩⟩
    | false =>
      rw [rblk_ok bad]
      refine ⟨⟨⟨rfl,rfl,rfl,rfl,rfl⟩,⟨rfl,rfl,rfl⟩,rfl,rfl,Nat.le_succ _,fun _ => ?_⟩,.inl ⟨rfl,rfl,rfl,fun _ => ?_⟩⟩
      · exact (at_toNat s a).symm
      · exact (at_toNat s a).symm

theorem readLoop_paged {s : Mount} (v : s.Mid) (inode : Inode) (n : Nat) {t : Mount} (blkind rcount : Nat)
    (out : List UInt8) (paged : Paged s t) : Paged s (readLoop inode n t blkind rcount out).1 := by
  induction n generalizing t blkind rcount out with
  | zero => exact paged
  | succ n ih =>
    unfold readLoop
    dsimp only
    split
    · exact paged
    · have next := paged.trans (loadGpC_paged (paged.mid v) (inode.blk (blkind + 1))).1
      split
      · exact next
      · exact ih _ _ _ next

theorem FileBlock.word {s : Mount} (v : s.Mid) {b : Nat} (f : s.image.FileBlock b) :
    (UInt32.ofNat b).toNat = b ∧ UInt32.ofNat b ≠ 0 := by
  have addr := UInt32.toNat_ofNat_of_lt' (v.fileBlock_small f).1
  refine ⟨addr,fun zero => ?_⟩
  rw [zero] at addr
  have first : b = 0 := addr.symm
  exact v.ok.zero_not_file (first ▸ f)

theorem loadGpC_file {s t : Mount} (v : s.Mid) (paged : Paged s t) {b : Nat} (f : s.image.FileBlock b) :
    Paged s (loadGpC t (UInt32.ofNat b) false) ∧
      (((loadGpC t (UInt32.ofNat b) false).disk.failed = t.disk.failed ∧
        (loadGpC t (UInt32.ofNat b) false).vol.outcome = .success ∧
        (loadGpC t (UInt32.ofNat b) false).vol.xcaddr = UInt32.ofNat b ∧
        (loadGpC t (UInt32.ofNat b) false).vol.xcache = s.at b) ∨
      ((loadGpC t (UInt32.ofNat b) false).disk.failed = true ∧ (∃ n,s.disk.rdFails n .xcache = true) ∧
        (loadGpC t (UInt32.ofNat b) false).vol.outcome = .diskRdErr)) := by
  obtain ⟨next,loaded⟩ := loadGpC_paged (paged.mid v) (UInt32.ofNat b)
  have word := FileBlock.word v f
  refine ⟨paged.trans next,?_⟩
  rcases loaded with ⟨calm,success,here,content⟩ | ⟨loud,⟨n,bad⟩,error⟩
  · refine .inl ⟨calm,success,here,?_⟩
    rw [content (by rw [word.1,paged.image]; exact f),word.1,paged.at_eq]
  · exact .inr ⟨loud,⟨n,by rw [← paged.rdFails]; exact bad⟩,error⟩

theorem never_denied (perm : UInt8) : ¬ (perm &&& (if uRead = 0 then 1 else 0) ≠ 0) := by
  have one : (if uRead = 0 then (1 : UInt8) else 0) = 0 := by decide
  rw [one]
  simp

theorem node_blocks {s : Mount} {i : Nat} (h : i < s.vol.hblock.nextInode.toNat)
    (file : (s.inode i).ftype ≠ ftypeDir) : ∀ b ∈ blocks (s.inode i).regs,s.image.FileBlock b := by
  intro b member
  have node := s.image_node h
  exact .inl ⟨i,by simpa using h,by rw [node]; exact file,by rw [node]; exact member⟩

theorem read_eq (s : Mount) (path : Path) (nbytes cursor : UInt32) : read s path nbytes cursor = (do
    let (s,iindex,_) ← findFile s path.bytes
    if s.vol.outcome ≠ .success then some (s,-1,[])
    else
      let s ← getIblockC s (iindex / 32) false false
      if s.vol.outcome ≠ .success then some (s,-1,[])
      else if (s.cached iindex).ftype ≠ ftypeFile then some (s.out .badFtype,-1,[])
      else some (readFile s (s.cached iindex) nbytes cursor)) := by
  unfold read readFile
  congr 1
  funext r
  obtain ⟨t,iindex,p⟩ := r
  dsimp only
  by_cases lost : t.vol.outcome ≠ .success
  · rw [if_pos lost,if_pos lost]
  · rw [if_neg lost,if_neg lost]
    congr 1
    funext t
    by_cases gone : t.vol.outcome ≠ .success
    · rw [if_pos gone,if_pos gone]
    rw [if_neg gone,if_neg gone]
    by_cases dir : (t.cached iindex).ftype ≠ ftypeFile
    · rw [if_pos dir,if_pos dir]
    rw [if_neg dir,if_neg dir,if_neg (never_denied _)]
    by_cases past : toInt ((t.cached iindex).eof - cursor) ≤ 0
    · simp only [if_pos past]
    simp only [if_neg past]
    by_cases hole : (t.cached iindex).blk (cursor.toNat / blockSz) = 0
    · simp only [if_pos hole]
    simp only [if_neg hole]
    generalize loadGpC t ((t.cached iindex).blk (cursor.toNat / blockSz)) false = t1
    by_cases first : t1.vol.outcome ≠ .success
    · simp only [if_pos first]
    simp only [if_neg first]
    split
    · rfl
    generalize readLoop _ _ t1 _ _ _ = r
    obtain ⟨t2,blkind,rcount,out,stopped⟩ := r
    dsimp only
    split
    · rfl
    · split <;> rfl

theorem readFile_paged {s : Mount} (v : s.Mid) (inode : Inode) (nbytes cursor : UInt32) :
    Paged s (readFile s inode nbytes cursor).1 := by
  have first := (loadGpC_paged v (inode.blk (cursor.toNat / blockSz))).1
  have loop := fun n rcount out => readLoop_paged v inode n (cursor.toNat / blockSz) rcount out first
  have last := fun n rcount out a => (loop n rcount out).trans (loadGpC_paged ((loop n rcount out).mid v) a).1
  unfold readFile
  dsimp only
  split
  · exact .refl v
  split
  · exact .refl v
  split
  · exact first
  split
  · exact first
  split
  · exact loop _ _ _
  split
  · exact last _ _ _ _
  · exact last _ _ _ _

theorem Leafed.paged {s s' : Mount} (v : s.Mid) {bs : List Nat} (files : ∀ b ∈ bs,s.image.FileBlock b)
    (a : Leafed bs s s') : Paged s s' := by
  refine ⟨a.toSame,a.toSameI,a.dcaddr,a.dcache,a.later,fun file => ?_⟩
  rcases a.page with ⟨same,content⟩ | ⟨b,member,here,content⟩
  · rw [same] at file ⊢
    rw [content]
    exact v.xclean file
  · rw [here,content,(FileBlock.word v (files b member)).1]

theorem contents_node {s : Mount} {i : Nat} (h : i < s.vol.hblock.nextInode.toNat) : s.contents (s.inode i) = s.data i := by
  unfold contents data
  rw [s.image_node h]
  rfl

theorem Mid.readable {s : Mount} (v : s.Mid) {i : Nat} (h : i < s.vol.hblock.nextInode.toNat)
    (file : (s.inode i).ftype ≠ ftypeDir) (enough : (s.image.node i).Enough) : s.Readable (s.inode i) := by
  have files := node_blocks h file
  have bound : (s.inode i).eof.toNat ≤ 4096 * total (s.inode i).regs := by
    unfold Node.Enough at enough
    rw [s.image_node h] at enough; exact enough
  have short := total_regions_le (s.inode i).rows
  rw [Inode.length_rows] at short
  have short' : total (s.inode i).regs ≤ 5865 := short
  refine ⟨bound,by omega,fun b member => (FileBlock.word v (files b member)).2,fun b member here => ?_⟩
  have word := (FileBlock.word v (files b member)).1
  have page := v.xclean
  rw [here,word] at page
  exact page (files b member)

theorem readFile_look {s : Mount} (v : s.Mid) {i : Nat} (h : i < s.vol.hblock.nextInode.toNat)
    (file : (s.inode i).ftype ≠ ftypeDir) (enough : (s.image.node i).Enough) (success : s.vol.outcome = .success)
    (nbytes cursor : UInt32) :
    ∃ s' n out,readFile s (s.inode i) nbytes cursor = (s',n,out) ∧ Paged s s' ∧
      ((s'.disk.failed = s.disk.failed ∧ s'.vol.outcome = .success ∧
        out = ((s.data i).drop cursor.toNat).take nbytes.toNat ∧ n = out.length) ∨
      (s'.disk.failed = true ∧ s.disk.Faulty ∧ s'.vol.outcome = .diskRdErr)) := by
  obtain ⟨s',n,out,run,leafed,result⟩ := readFile_bytes (v.readable h file enough) success nbytes cursor
  rw [contents_node h] at result
  exact ⟨s',n,out,run,leafed.paged v (node_blocks h file),result⟩

theorem read_view {s : Mount} (v : s.Valid) (sound : s.disk.Sound) (path : Path) (nbytes cursor : UInt32) :
    ∃ s' r,read s path nbytes cursor = some (s',r) ∧ Viewed s s' := by
  obtain ⟨s₁,x,p,run,result⟩ := findInode_look v sound path
  rw [read_eq]
  simp only [run,Option.bind_eq_bind,Option.bind_some]
  have fails : ∀ {o : Outcome},Looked s s₁ → s₁.vol.outcome = o → o ≠ .success →
      ∃ s' r,(if s₁.vol.outcome ≠ .success then some (s₁,-1,[])
        else (getIblockC s₁ (x / 32) false false).bind fun s =>
          if s.vol.outcome ≠ .success then some (s,-1,[])
          else if (s.cached x).ftype ≠ ftypeFile then some (s.out .badFtype,-1,[])
          else some (readFile s (s.cached x) nbytes cursor)) = some (s',r) ∧ Viewed s s' := by
    intro o looked outcome plain
    rw [if_pos (by rw [outcome]; exact plain)]
    exact ⟨_,_,rfl,looked.viewed⟩
  cases found : s.image.resolve path.bytes with
  | error e =>
    rw [found] at result
    rcases result with ⟨looked,_,outcome,plain⟩ | stopped
    · exact fails looked outcome plain
    · exact fails stopped.toLooked stopped.outcome (by decide)
  | ok r =>
    obtain ⟨i,q⟩ := r
    rw [found] at result
    rcases result with ⟨success,_,_,_,_,_,s₂,run₂,looked,_,success₂,_,_,_⟩ | stopped
    · rw [if_neg (by simp [success]),run₂]
      simp only [Option.bind_some]
      rw [if_neg (by simp [success₂])]
      split
      · exact ⟨_,_,rfl,looked.viewed.out _⟩
      · exact ⟨_,_,rfl,looked.viewed.trans ((readFile_paged looked.valid.toMid _ _ _).viewed looked.valid)⟩
    · exact fails stopped.toLooked stopped.outcome (by decide)

theorem read_look {s : Mount} (v : s.Valid) (sound : s.disk.Sound) (path : Path) (nbytes cursor : UInt32)
    (enough : ∀ i q,s.image.resolve path.bytes = .ok (i,q) → (s.image.node i).ftype = ftypeFile →
      (s.image.node i).Enough) :
    ∃ s' r,read s path nbytes cursor = some (s',r) ∧
      ((Viewed s s' ∧ s'.disk.failed = s.disk.failed ∧
        (s'.vol.outcome,r) = s.image.read s.data path.bytes nbytes cursor) ∨
      Halted s s') := by
  obtain ⟨s₁,x,p,run,result⟩ := findInode_look v sound path
  rw [read_eq]
  unfold Image.read
  simp only [run,Option.bind_eq_bind,Option.bind_some]
  cases found : s.image.resolve path.bytes with
  | error e =>
    rw [found] at result
    rcases result with ⟨looked,calm,outcome,plain⟩ | stopped
    · rw [if_pos (by rw [outcome]; exact plain)]
      exact ⟨_,_,rfl,.inl ⟨looked.viewed,calm,by rw [outcome]⟩⟩
    · rw [if_pos (by rw [stopped.outcome]; decide)]
      exact ⟨_,_,rfl,.inr stopped.halted⟩
  | ok r =>
    obtain ⟨i,q⟩ := r
    rw [found] at result
    rcases result with ⟨success,_,_,exist,_,_,s₂,run₂,looked,calm,success₂,_,_,cached⟩ | stopped
    · rw [if_neg (by simp [success]),run₂]
      simp only [Option.bind_some]
      have node := s.image_node exist
      have ftype : (s.image.node i).ftype = (s.inode i).ftype := by rw [node]; rfl
      rw [if_neg (by simp [success₂]),cached,ftype]
      by_cases dir : (s.inode i).ftype ≠ ftypeFile
      · rw [if_pos dir,if_pos dir]
        exact ⟨_,_,rfl,.inl ⟨looked.viewed.out _,calm,rfl⟩⟩
      · rw [if_neg dir,if_neg dir]
        have file : (s.inode i).ftype = ftypeFile := by simpa using dir
        have inode : s₂.inode i = s.inode i := v.same_inode looked.valid looked.toSame exist
        have image := looked.image v
        have data : s₂.data i = s.data i := by unfold data; rw [image,looked.at_eq]
        obtain ⟨s',n,out,run',paged,final⟩ := readFile_look (i := i) looked.valid.toMid
          (by rw [looked.hblock]; exact exist) (by rw [inode,file]; decide)
          (by rw [image]; exact enough i q found (by rw [ftype]; exact file)) success₂ nbytes cursor
        rw [inode] at run'
        rw [data] at final
        have viewed := looked.viewed.trans (paged.viewed looked.valid)
        rw [run']
        refine ⟨_,_,rfl,?_⟩
        rcases final with ⟨calm',success',bytes,count⟩ | ⟨loud,faulty,error⟩
        · exact .inl ⟨viewed,calm'.trans calm,by rw [success',count,bytes]⟩
        · exact .inr ⟨viewed,loud,looked.toSame.faulty.mp faulty,error⟩
    · rw [if_pos (by rw [stopped.outcome]; decide)]
      exact ⟨_,_,rfl,.inr stopped.halted⟩

end Mount
end ArchiveOs.Fs2
