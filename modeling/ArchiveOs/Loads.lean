import ArchiveOs.Tables

-- One lemma for each function that reads or writes a block through a cache.
namespace ArchiveOs.Fs2
open Extents Layout

def Access.isFault : Access → Bool
  | .rd _ _ false => true
  | _ => false

-- Some read has failed.
def Disk.failed (d : Disk) : Bool := d.trace.any Access.isFault

-- The device does not fail to write, nor to read inode blocks.
structure Disk.Sound (d : Disk) : Prop where
  inodes : ∀ t, d.rdFails t .icache = false
  writes : ∀ t x, d.wrFails t x = false

def Disk.Faulty (d : Disk) : Prop := ∃ t x, d.rdFails t x = true

namespace Mount

def seen (s : Mount) (a : Access) : Mount := {s with disk := {s.disk with trace := a :: s.disk.trace}}

def stored (s : Mount) (a : UInt32) (x : Buffer) (b : Block) : Mount :=
  {s with disk := {s.disk with
    blk := fun c => if c = s.vol.blk0 + a then b else s.disk.blk c
    trace := .wr (s.vol.blk0 + a) x true :: s.disk.trace}}

@[simp] theorem out_outcome (s : Mount) (o : Outcome) : (s.out o).vol.outcome = o := rfl
@[simp] theorem out_disk (s : Mount) (o : Outcome) : (s.out o).disk = s.disk := rfl
@[simp] theorem out_hblock (s : Mount) (o : Outcome) : (s.out o).vol.hblock = s.vol.hblock := rfl
@[simp] theorem out_at (s : Mount) (o : Outcome) : (s.out o).at = s.at := rfl
@[simp] theorem out_image (s : Mount) (o : Outcome) : (s.out o).image = s.image := rfl
@[simp] theorem out_cached (s : Mount) (o : Outcome) (i : UInt32) : (s.out o).cached i = s.cached i := rfl
@[simp] theorem out_inode (s : Mount) (o : Outcome) (i : Nat) : (s.out o).inode i = s.inode i := rfl
@[simp] theorem out_itable (s : Mount) (o : Outcome) : (s.out o).itable = s.itable := rfl

theorem Same.out (s : Mount) (o : Outcome) : Same s (s.out o) := ⟨rfl,rfl,rfl,rfl,rfl⟩
theorem Same.seen (s : Mount) (a : Access) : Same s (s.seen a) := ⟨rfl,rfl,rfl,rfl,rfl⟩

theorem Valid.out {s : Mount} (v : s.Valid) (o : Outcome) : (s.out o).Valid :=
  ⟨⟨v.ok,v.sep,v.htidy,v.itidy,v.iaddr,v.dclean,v.xclean⟩,v.living,v.saved,v.clean⟩

theorem rblk_ok {s : Mount} {a : UInt32} {x : Buffer} (fine : s.disk.rdFails s.disk.trace.length x = false) :
    rblk s a x = (s.seen (.rd (s.vol.blk0 + a) x true),some (s.disk.blk (s.vol.blk0 + a))) := by
  simp [rblk,Disk.rd,fine,seen]

theorem rblk_fault {s : Mount} {a : UInt32} {x : Buffer} (bad : s.disk.rdFails s.disk.trace.length x = true) :
    rblk s a x = (s.seen (.rd (s.vol.blk0 + a) x false),none) := by
  simp [rblk,Disk.rd,bad,seen]

theorem wblk_ok {s : Mount} (sound : s.disk.Sound) (a : UInt32) (x : Buffer) (b : Block) :
    wblk s a x b = (s.stored a x b,true) := by
  simp [wblk,Disk.wr,sound.writes,stored]

-- The inode cache has got a new index, but not yet the block.
def indexed (s : Mount) (q : UInt32) : Mount := {s with vol := {s.vol with icindex := q}}

theorem cacheIblock_eq (s : Mount) (q : UInt32) (saveH : Bool) : cacheIblock s q saveH =
    (getIblock (s.indexed q) q saveH).map fun r =>
      let t : Mount := {r.1 with vol := {r.1.vol with icaddr := r.2}}
      if t.vol.outcome ≠ .success then t else t.out .success := by
  unfold cacheIblock
  show (getIblock (s.indexed q) q saveH).bind _ = _
  cases getIblock (s.indexed q) q saveH with
  | none => rfl
  | some r =>
      dsimp only [Option.bind_some,Option.map_some]
      split <;> rfl

theorem at_toNat (s : Mount) (a : UInt32) : s.at a.toNat = s.disk.blk (s.vol.blk0 + a) := by
  simp [Mount.at]

theorem stored_at (s : Mount) (a : UInt32) (x : Buffer) (b : Block) (c : Nat) :
    (s.stored a x b).at c = if UInt32.ofNat c = a then b else s.at c := by
  simp [Mount.at,stored]

theorem stored_same (s : Mount) (a : UInt32) (x : Buffer) (b : Block) : (s.stored a x b).at a.toNat = b := by
  rw [stored_at,if_pos UInt32.ofNat_toNat]

theorem stored_other (s : Mount) {a : UInt32} (x : Buffer) (b : Block) {c : Nat} (ne : c ≠ a.toNat)
    (small : c < 4294967296) : (s.stored a x b).at c = s.at c := by
  rw [stored_at,if_neg]
  intro equal
  apply ne
  rw [← equal,UInt32.toNat_ofNat_of_lt' small]

-- What a lookup leaves alone besides header and disk: the general purpose cache.
structure Looked (s s' : Mount) : Prop extends Same s s' where
  valid : s'.Valid
  xcaddr : s'.vol.xcaddr = s.vol.xcaddr
  xcache : s'.vol.xcache = s.vol.xcache
  later : s.disk.trace.length ≤ s'.disk.trace.length

theorem Looked.refl {s : Mount} (v : s.Valid) : Looked s s := ⟨.refl s,v,rfl,rfl,Nat.le_refl _⟩

theorem Looked.trans {s s' s'' : Mount} (a : Looked s s') (b : Looked s' s'') : Looked s s'' :=
  ⟨a.toSame.trans b.toSame,b.valid,b.xcaddr.trans a.xcaddr,b.xcache.trans a.xcache,Nat.le_trans a.later b.later⟩

theorem Looked.out {s s' : Mount} (a : Looked s s') (o : Outcome) : Looked s (s'.out o) :=
  ⟨a.toSame.trans (.out s' o),a.valid.out o,a.xcaddr,a.xcache,a.later⟩

theorem Looked.image {s s' : Mount} (a : Looked s s') (v : s.Valid) : s'.image = s.image :=
  v.same_image a.valid a.toSame

theorem Same.sound {s s' : Mount} (a : Same s s') (sound : s.disk.Sound) : s'.disk.Sound :=
  ⟨by rw [a.rdFails]; exact sound.inodes,by rw [a.wrFails]; exact sound.writes⟩

theorem Same.faulty {s s' : Mount} (a : Same s s') : s'.disk.Faulty ↔ s.disk.Faulty := by
  simp only [Disk.Faulty,a.rdFails]

-- The inode cache stays where it is.
structure SameI (s s' : Mount) : Prop where
  icindex : s'.vol.icindex = s.vol.icindex
  icaddr : s'.vol.icaddr = s.vol.icaddr
  icache : s'.vol.icache = s.vol.icache

theorem SameI.refl (s : Mount) : SameI s s := ⟨rfl,rfl,rfl⟩
theorem SameI.trans {s s' s'' : Mount} (a : SameI s s') (b : SameI s' s'') : SameI s s'' :=
  ⟨b.icindex.trans a.icindex,b.icaddr.trans a.icaddr,b.icache.trans a.icache⟩
theorem SameI.out {s s' : Mount} (a : SameI s s') (o : Outcome) : SameI s (s'.out o) := ⟨a.icindex,a.icaddr,a.icache⟩
theorem SameI.cached {s s' : Mount} (a : SameI s s') (i : UInt32) : s'.cached i = s.cached i := by
  simp [Mount.cached,a.icache]

theorem itable_bounds {s : Mount} (v : s.Mid) {q b : Nat} (found : s.itable[q]? = some b) :
    0 < b ∧ b < s.image.nextBlock := by
  have := v.ok.packed.within none b (List.mem_of_getElem? found)
  omega

theorem nextBlock_lt (s : Mount) : s.image.nextBlock < 4294967296 := s.vol.hblock.nextBlock.toNat_lt

theorem itable_small (s : Mount) : s.itable.length ≤ 204000 := by
  have := total_regions_le s.vol.hblock.rows
  rw [HBlock.length_rows] at this
  unfold itable HBlock.regs
  rw [length_blocks]
  omega

theorem scan_found {s : Mount} (v : s.Mid) {q : UInt32} {b : Nat} (found : s.itable[q.toNat]? = some b) :
    iblockScan s.vol.hblock.rows s.vol.hblock.separator.toNat 0 0 q = .found (UInt32.ofNat b) := by
  have scan := iblockScan_eq s.vol.hblock.rows q (i := 0) (n := 0) (Nat.zero_le _)
  have here : (blocks (regions s.vol.hblock.rows))[q.toNat - 0]? = some b := found
  rw [HBlock.length_rows,here] at scan
  rw [v.sep.separator]
  exact scan

-- The inode block at `a` has been read under the index `q`.
def iblockRead (s : Mount) (q a : UInt32) : Mount where
  vol := {s.vol with outcome := .success,icindex := q,icaddr := a,icache := iblockLayout.symm (s.at a.toNat)}
  disk := {s.disk with trace := .rd (s.vol.blk0 + a) .icache true :: s.disk.trace}

theorem cacheIblock_found {s : Mount} (v : s.Mid) (sound : s.disk.Sound) {q : UInt32} {b : Nat}
    (found : s.itable[q.toNat]? = some b) (saveH : Bool) :
    cacheIblock s q saveH = some (s.iblockRead q (UInt32.ofNat b)) := by
  let s₁ : Mount := {s with vol := {s.vol with icindex := q}}
  have read := rblk_ok (s := s₁) (a := UInt32.ofNat b) (sound.inodes s.disk.trace.length)
  simp only [s₁] at read
  unfold cacheIblock getIblock
  simp only [scan_found v found,read,Option.bind_eq_bind,Option.bind_some]
  unfold iblockRead
  rw [at_toNat]
  rfl

theorem iblockRead_looked {s : Mount} (v : s.Valid) {q : UInt32} {b : Nat} (found : s.itable[q.toNat]? = some b) :
    Looked s (s.iblockRead q (UInt32.ofNat b)) := by
  have addr := UInt32.toNat_ofNat_of_lt' (Nat.lt_trans (itable_bounds v.toMid found).2 s.nextBlock_lt)
  refine ⟨⟨rfl,rfl,rfl,rfl,rfl⟩,v.recache ⟨rfl,rfl,rfl,rfl,rfl⟩ ?_ ?_ v.dclean v.xclean,rfl,rfl,Nat.le_succ _⟩
  · intro _
    show s.itable[q.toNat]? = some (UInt32.ofNat b).toNat
    rw [addr]; exact found
  · intro i _ here
    have here' : i / 32 = q.toNat := here
    show (iblockLayout.symm (s.at (UInt32.ofNat b).toNat))[i % 32] = s.diskInode i
    unfold diskInode
    rw [addr,here',List.getD_eq_getElem?_getD,found]
    rfl

theorem getIblockC_look {s : Mount} (v : s.Valid) (sound : s.disk.Sound) {q : UInt32} {b : Nat}
    (found : s.itable[q.toNat]? = some b) (saveH : Bool) :
    ∃ s', getIblockC s q saveH false = some s' ∧ Looked s s' ∧ s'.vol.icindex = q ∧
      s'.vol.outcome = .success ∧ s'.disk.failed = s.disk.failed ∧
      s'.vol.dcaddr = s.vol.dcaddr ∧ s'.vol.dcache = s.vol.dcache := by
  unfold getIblockC
  by_cases hit : q = s.vol.icindex
  · exact ⟨s.out .success,by simp [hit],(Looked.refl v).out _,hit.symm,rfl,rfl,rfl,rfl⟩
  · rw [if_pos hit]
    exact ⟨_,by simpa using cacheIblock_found v.toMid sound found saveH,iblockRead_looked v found,rfl,rfl,rfl,rfl,rfl⟩

-- Only the directory cache has moved, and it still tells the truth.
structure Slid (s s' : Mount) : Prop extends Same s s', SameI s s' where
  xcaddr : s'.vol.xcaddr = s.vol.xcaddr
  xcache : s'.vol.xcache = s.vol.xcache
  later : s.disk.trace.length ≤ s'.disk.trace.length
  dclean : s'.vol.dcaddr = minusOne ∨
    (s.image.DirBlock s'.vol.dcaddr.toNat ∧ s'.vol.dcache = dblockLayout.symm (s.at s'.vol.dcaddr.toNat))

theorem Slid.inode {s s' : Mount} (a : Slid s s') : s'.inode = s.inode := by
  funext i
  unfold Mount.inode
  rw [a.icindex,a.icache,a.diskInode_eq]

theorem Slid.image {s s' : Mount} (a : Slid s s') : s'.image = s.image :=
  image_congr a.toSame fun i _ => by rw [a.inode]

theorem Slid.mid {s s' : Mount} (a : Slid s s') (v : s.Mid) : s'.Mid := by
  refine ⟨?_,?_,?_,?_,?_,?_,?_⟩
  · rw [a.image]; exact v.ok
  · rw [a.hblock]; exact v.sep
  · rw [a.hblock]; exact v.htidy
  · rw [a.hblock,a.inode]; exact v.itidy
  · rw [a.icindex,a.icaddr,a.itable_eq]; exact v.iaddr
  · rw [a.image,a.at_eq]; exact a.dclean
  · rw [a.image,a.at_eq,a.xcaddr,a.xcache]; exact v.xclean

theorem Slid.looked {s s' : Mount} (a : Slid s s') (v : s.Valid) : Looked s s' := by
  refine ⟨a.toSame,⟨a.mid v.toMid,by rw [a.image]; exact v.living,?_,?_⟩,a.xcaddr,a.xcache,a.later⟩
  · unfold Saved; rw [a.hblock,a.at_eq]; exact v.saved
  · rw [a.hblock,a.icindex,a.icache,a.diskInode_eq]; exact v.clean

theorem Slid.trans {s s' s'' : Mount} (a : Slid s s') (b : Slid s' s'') : Slid s s'' :=
  ⟨a.toSame.trans b.toSame,a.toSameI.trans b.toSameI,b.xcaddr.trans a.xcaddr,b.xcache.trans a.xcache,
    Nat.le_trans a.later b.later,by rw [← a.image,← a.at_eq]; exact b.dclean⟩

theorem Slid.out {s s' : Mount} (a : Slid s s') (o : Outcome) : Slid s (s'.out o) :=
  ⟨a.toSame.trans (.out s' o),a.toSameI.out o,a.xcaddr,a.xcache,a.later,a.dclean⟩

theorem Slid.refl {s : Mount} (v : s.Mid) : Slid s s := ⟨.refl s,.refl s,rfl,rfl,Nat.le_refl _,v.dclean⟩

theorem dumpBlock_slid {s : Mount} (v : s.Mid) (sound : s.disk.Sound) {q : Nat} (inside : q < s.itable.length) :
    ∃ t,dumpBlock s q = some t ∧ Slid s t := by
  have small := s.itable_small
  have word : (UInt32.ofNat q).toNat = q := UInt32.toNat_ofNat_of_lt' (by rw [UInt32.size]; omega)
  have found : s.itable[(UInt32.ofNat q).toNat]? = some s.itable[q] := by rw [word]; exact List.getElem?_eq_getElem inside
  unfold dumpBlock getIblock
  simp only [scan_found v found,rblk_ok (sound.inodes s.disk.trace.length),Option.bind_eq_bind,Option.bind_some]
  exact ⟨_,rfl,⟨rfl,rfl,rfl,rfl,rfl⟩,⟨rfl,rfl,rfl⟩,rfl,rfl,Nat.le_succ _,v.dclean⟩

theorem blockDump_looked {s : Mount} (v : s.Valid) (sound : s.disk.Sound) : ∃ t,blockDump s = some t ∧ Looked s t := by
  have all : ∀ (l : List Nat) (u : Mount),(∀ q ∈ l,q < s.itable.length) → Slid s u →
      ∃ t,l.foldlM dumpBlock u = some t ∧ Slid s t := by
    intro l
    induction l with
    | nil => exact fun u _ slid => ⟨u,rfl,slid⟩
    | cons q rest ih =>
        intro u inside slid
        obtain ⟨t,step,next⟩ := dumpBlock_slid (slid.mid v.toMid) (slid.toSame.sound sound) (q := q)
          (by rw [slid.itable_eq]; exact inside q (.head _))
        obtain ⟨t',last,slid'⟩ := ih t (fun q' member => inside q' (.tail _ member)) (slid.trans next)
        exact ⟨t',by rw [List.foldlM_cons,step]; exact last,slid'⟩
  obtain ⟨t,run,slid⟩ := all (List.range ((s.vol.hblock.nextInode.toNat + 31) / 32)) s
    (fun q member => by
      have less := List.mem_range.mp member
      have room : s.image.nodes.length ≤ 32 * total s.vol.hblock.regs := v.ok.inodes
      rw [image_length] at room
      unfold itable
      rw [length_blocks]
      omega) (.refl v.toMid)
  exact ⟨t,run,slid.looked v⟩

theorem loadDblockC_slid {s : Mount} (v : s.Mid) {b : Nat} (d : s.image.DirBlock b) :
    Slid s (loadDblockC s (UInt32.ofNat b) false) ∧
      (((loadDblockC s (UInt32.ofNat b) false).disk.failed = s.disk.failed ∧
        (loadDblockC s (UInt32.ofNat b) false).vol.outcome = .success ∧
        (loadDblockC s (UInt32.ofNat b) false).vol.dcaddr = UInt32.ofNat b ∧
        (loadDblockC s (UInt32.ofNat b) false).vol.dcache = dblockLayout.symm (s.at b)) ∨
      ((loadDblockC s (UInt32.ofNat b) false).disk.failed = true ∧
        (∃ t x,s.disk.trace.length ≤ t ∧ s.disk.rdFails t x = true) ∧
        (loadDblockC s (UInt32.ofNat b) false).vol.outcome = .diskRdErr)) := by
  have small := Nat.lt_trans d.2.1 s.nextBlock_lt
  have addr := UInt32.toNat_ofNat_of_lt' small
  unfold loadDblockC
  by_cases hit : UInt32.ofNat b = s.vol.dcaddr
  · rw [if_neg (by simpa using hit)]
    refine ⟨(Slid.refl v).out _,.inl ⟨rfl,rfl,hit.symm,?_⟩⟩
    rcases v.dclean with none | ⟨_,right⟩
    · rw [none] at hit
      have : b = minusOne.toNat := by rw [← hit,addr]
      have upper := v.ok.upper
      have room := v.ok.room
      have below := d.2.1
      have top : minusOne.toNat = 4294967295 := rfl
      omega
    · show s.vol.dcache = _
      rw [right,← hit,addr]
  · rw [if_pos (by simpa using hit)]
    simp only [Bool.false_eq_true,if_false]
    cases bad : s.disk.rdFails s.disk.trace.length .dcache with
    | true =>
      rw [rblk_fault bad]
      exact ⟨⟨⟨rfl,rfl,rfl,rfl,rfl⟩,⟨rfl,rfl,rfl⟩,rfl,rfl,Nat.le_succ _,v.dclean⟩,.inr ⟨rfl,⟨_,_,Nat.le_refl _,bad⟩,rfl⟩⟩
    | false =>
      rw [rblk_ok bad]
      refine ⟨⟨⟨rfl,rfl,rfl,rfl,rfl⟩,⟨rfl,rfl,rfl⟩,rfl,rfl,Nat.le_succ _,.inr ?_⟩,.inl ⟨rfl,rfl,rfl,rfl⟩⟩
      show s.image.DirBlock (UInt32.ofNat b).toNat ∧ _ = dblockLayout.symm (s.at (UInt32.ofNat b).toNat)
      rw [addr]
      exact ⟨d,rfl⟩

theorem loadDblockC_look {s : Mount} (v : s.Valid) {b : Nat} (d : s.image.DirBlock b) :
    Looked s (loadDblockC s (UInt32.ofNat b) false) ∧ SameI s (loadDblockC s (UInt32.ofNat b) false) ∧
      (((loadDblockC s (UInt32.ofNat b) false).disk.failed = s.disk.failed ∧
        (loadDblockC s (UInt32.ofNat b) false).vol.outcome = .success ∧
        (loadDblockC s (UInt32.ofNat b) false).vol.dcaddr = UInt32.ofNat b ∧
        (loadDblockC s (UInt32.ofNat b) false).vol.dcache = dblockLayout.symm (s.at b)) ∨
      ((loadDblockC s (UInt32.ofNat b) false).disk.failed = true ∧ s.disk.Faulty ∧
        (loadDblockC s (UInt32.ofNat b) false).vol.outcome = .diskRdErr)) := by
  obtain ⟨slid,loaded⟩ := loadDblockC_slid v.toMid d
  refine ⟨slid.looked v,slid.toSameI,?_⟩
  rcases loaded with fine | ⟨loud,⟨t,x,_,bad⟩,error⟩
  · exact .inl fine
  · exact .inr ⟨loud,⟨t,x,bad⟩,error⟩

end Mount
end ArchiveOs.Fs2
