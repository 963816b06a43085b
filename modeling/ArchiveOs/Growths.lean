import ArchiveOs.Frontiers
import ArchiveOs.Histories
import ArchiveOs.Readings

-- Where fs2_write stores its blocks: what the file and the frontier of the volume come
-- to while it grows, on any mounted volume.
namespace ArchiveOs.Fs2
open Extents Layout

-- Where blocks have been stored from the general purpose cache, latest first.
def Disk.pages (d : Disk) : List UInt32 :=
  d.trace.filterMap fun
    | .wr a .xcache _ => some a
    | _ => none

-- The lengths by which fs2_write grows the file, block after block: for the first one,
-- for full blocks with `wcount` bytes in front of them, and for the rest.
def fullLens (nbytes : UInt32) : (n wcount : Nat) → List Nat
  | 0,_ => []
  | n + 1,wcount => (growLenInt (toInt (nbytes - UInt32.ofNat wcount))).toNat :: fullLens nbytes n (wcount + blockSz)

@[simp] theorem length_fullLens (nbytes : UInt32) (n wcount : Nat) : (fullLens nbytes n wcount).length = n := by
  induction n generalizing wcount with
  | zero => rfl
  | succ n ih => exact congrArg Nat.succ (ih _)

def growths (nbytes cursor : UInt32) (flen : UInt8) : List Nat :=
  let write1 := min nbytes.toNat (blockSz - cursor.toNat % blockSz)
  let full := (nbytes.toNat - write1) / blockSz
  (growLen nbytes).toNat :: fullLens nbytes full write1 ++
    if write1 + blockSz * full = nbytes.toNat then [] else [flen.toNat]

namespace Mount

-- A file and a header that fs2_grow_file can work on.
structure Growable (t : Mount) (inode : Inode) : Prop where
  separator : t.vol.hblock.separator = 800
  tidy : Tidy inode.rows
  lower : 1 ≤ t.vol.hblock.nextBlock.toNat
  upper : t.vol.hblock.nextBlock.toNat ≤ t.vol.hblock.nblocks.toNat
  room : t.vol.hblock.nblocks.toNat + 255 < 4294967296
  within : ∀ b ∈ blocks inode.regs,1 ≤ b ∧ b < t.vol.hblock.nextBlock.toNat

def growing (t : Mount) (x : UInt32) : Growing := ⟨(t.cached x).regs,t.vol.hblock.nextBlock.toNat⟩

-- A write is under way since t; it has stored the blocks `got` so far.
structure Filling (t u : Mount) (x : UInt32) (got : List Nat) : Prop where
  growable : u.Growable (u.cached x)
  works : u.disk.Works
  blk0 : u.vol.blk0 = t.vol.blk0
  nblocks : u.vol.hblock.nblocks = t.vol.hblock.nblocks
  flen : u.vol.hblock.defaultFregLen = t.vol.hblock.defaultFregLen
  pages : u.disk.pages = (got.map fun b => t.vol.blk0 + UInt32.ofNat b).reverse ++ t.disk.pages

section Filling
variable {t u : Mount} {x : UInt32} {got : List Nat}

theorem growing_slots (t : Mount) (x : UInt32) : (t.growing x).regs.length ≤ 23 := by
  have := regions_length_le (t.cached x).rows
  rw [Inode.length_rows] at this
  exact this

theorem Growable.word (growable : t.Growable (t.cached x)) {b : Nat} (member : b ∈ blocks (t.cached x).regs) :
    (UInt32.ofNat b).toNat = b ∧ UInt32.ofNat b ≠ 0 := by
  have bounds := growable.within b member
  have upper := growable.upper
  have room := growable.room
  have same : (UInt32.ofNat b).toNat = b := UInt32.toNat_ofNat_of_lt' (by show b < 4294967296; omega)
  refine ⟨same,fun zero => ?_⟩
  rw [zero] at same
  have : (0 : UInt32).toNat = 0 := rfl
  omega

theorem Filling.out (f : Filling t u x got) (o : Outcome) : Filling t (u.out o) x got :=
  ⟨⟨f.growable.separator,f.growable.tidy,f.growable.lower,f.growable.upper,f.growable.room,f.growable.within⟩,
    f.works,f.blk0,f.nblocks,f.flen,f.pages⟩

theorem findFreeRegion_growable {inode : Inode} (growable : u.Growable inode) (sz : UInt8) (save : Bool) :
    findFreeRegion u sz save = some (
      if u.vol.hblock.nblocks.toNat < u.vol.hblock.nextBlock.toNat + sz.toNat then (u.out .diskFull,0)
      else (if save then saveHblock (u.advance sz) else (u.advance sz).out .success,u.vol.hblock.nextBlock)) := by
  have upper := growable.upper
  have room := growable.room
  have small := sz.toNat_lt
  have next : (u.vol.hblock.nextBlock + sz.toUInt32).toNat = u.vol.hblock.nextBlock.toNat + sz.toNat := by
    rw [UInt32.toNat_add,UInt8.toNat_toUInt32]
    exact Nat.mod_eq_of_lt (by show _ < 4294967296; omega)
  have compare : u.vol.hblock.nextBlock + sz.toUInt32 > u.vol.hblock.nblocks ↔
      u.vol.hblock.nblocks.toNat < u.vol.hblock.nextBlock.toNat + sz.toNat := by
    rw [← next]
    exact UInt32.lt_iff_toNat_lt
  unfold findFreeRegion
  rw [if_neg (by rw [growable.separator]; decide)]
  by_cases short : u.vol.hblock.nblocks.toNat < u.vol.hblock.nextBlock.toNat + sz.toNat
  · rw [if_pos short]
    exact if_pos (compare.mpr short)
  · rw [if_neg short]
    dsimp only
    rw [if_neg fun more => short (compare.mp more)]
    cases save <;> rfl

theorem Filling.grown (f : Filling t u x got) (sz : UInt8) (slot : (u.cached x).regs.length < 23)
    (fits : u.vol.hblock.nextBlock.toNat + sz.toNat ≤ u.vol.hblock.nblocks.toNat) :
    Filling t (((saveHblock (u.advance sz)).setCached x (u.growInode x sz)).out .success) x got ∧
      (((saveHblock (u.advance sz)).setCached x (u.growInode x sz)).out .success).growing x =
        ⟨(u.growing x).regs ++ [⟨(u.growing x).next,sz.toNat⟩],(u.growing x).next + sz.toNat⟩ := by
  have lower := f.growable.lower
  have room := f.growable.room
  have small := sz.toNat_lt
  have next : (u.vol.hblock.nextBlock + sz.toUInt32).toNat = u.vol.hblock.nextBlock.toNat + sz.toNat := by
    rw [UInt32.toNat_add,UInt8.toNat_toUInt32]
    exact Nat.mod_eq_of_lt (by show _ < 4294967296; omega)
  have positive : u.vol.hblock.nextBlock ≠ 0 := by
    intro zero
    rw [zero] at lower
    exact absurd lower (by decide)
  obtain ⟨regs,tidy⟩ := Inode.regs_set (u.growInode x sz) f.growable.tidy rfl slot sz positive rfl rfl
  rw [saveHblock_ok (by exact f.works.sound)]
  have cached : ∀ m : Mount,(m.setCached x (u.growInode x sz)).cached x = u.growInode x sz := fun m =>
    Vector.getElem_set_self _
  have growing : ∀ m : Mount,m.vol.hblock = (u.advance sz).vol.hblock → (m.setCached x (u.growInode x sz)).growing x =
      ⟨(u.growing x).regs ++ [⟨(u.growing x).next,sz.toNat⟩],(u.growing x).next + sz.toNat⟩ := by
    intro m hblock
    unfold Mount.growing
    rw [cached,regs]
    refine congrArg _ ?_
    show m.vol.hblock.nextBlock.toNat = _
    rw [hblock]
    exact next
  refine ⟨⟨?_,⟨f.works.reads,f.works.writes⟩,f.blk0,f.nblocks,f.flen,f.pages⟩,growing _ rfl⟩
  rw [out_cached,cached]
  refine ⟨f.growable.separator,tidy,?_,?_,f.growable.room,?_⟩
  · show 1 ≤ (u.vol.hblock.nextBlock + sz.toUInt32).toNat
    omega
  · show (u.vol.hblock.nextBlock + sz.toUInt32).toNat ≤ u.vol.hblock.nblocks.toNat
    omega
  · intro b member
    show 1 ≤ b ∧ b < (u.vol.hblock.nextBlock + sz.toUInt32).toNat
    rw [regs,blocks_append,List.mem_append] at member
    rcases member with old | new
    · have bounds := f.growable.within b old
      omega
    · obtain ⟨r,here,bounds⟩ := mem_blocks.mp new
      rw [List.mem_singleton.mp here] at bounds
      dsimp only at bounds
      omega

theorem growFile_ask (f : Filling t u x got) {q : Nat} (sz : UInt8) (beyond : total (u.cached x).regs ≤ q) :
    ∃ u' blk,growFile u x sz = some (u',blk) ∧ Filling t u' x got ∧
      match (u.growing x).ask 23 u.vol.hblock.nblocks.toNat q sz.toNat with
      | none => u'.vol.outcome ≠ .success ∧ u'.growing x = u.growing x
      | some (g,b) => u'.vol.outcome = .success ∧ u'.growing x = g ∧ blk = UInt32.ofNat b := by
  have most := growing_slots u x
  have slot : growSlot (u.cached x).rows 0 = (u.cached x).regs.length := by
    rw [growSlot_eq,Nat.zero_add]
    rfl
  have positive : u.vol.hblock.nextBlock ≠ 0 := by
    intro zero
    have lower := f.growable.lower
    rw [zero] at lower
    exact absurd lower (by decide)
  have failed : ∀ {o : Outcome},o ≠ .success → (u.out o).vol.outcome ≠ .success ∧ (u.out o).growing x = u.growing x :=
    fun other => ⟨other,rfl⟩
  rw [Growing.ask_beyond 23 u.vol.hblock.nblocks.toNat sz.toNat beyond]
  unfold growFile
  dsimp only
  rw [slot]
  by_cases full : (u.cached x).regs.length = 23
  · rw [if_pos full,if_pos (.inl full)]
    exact ⟨_,_,rfl,f.out _,failed (by decide)⟩
  · rw [if_neg full,findFreeRegion_growable f.growable]
    simp only [Option.bind_eq_bind,Option.bind_some,if_true]
    by_cases short : u.vol.hblock.nblocks.toNat < u.vol.hblock.nextBlock.toNat + sz.toNat
    · rw [if_pos short,if_pos (.inl rfl),if_pos (.inr short)]
      exact ⟨_,_,rfl,f.out _,failed (by decide)⟩
    · have stop : ¬ ((u.growing x).regs.length = 23 ∨ u.vol.hblock.nblocks.toNat < (u.growing x).next + sz.toNat) :=
        fun stop => stop.elim full short
      have saved : (saveHblock (u.advance sz)).vol.outcome = .success := by
        rw [saveHblock_ok (by exact f.works.sound)]
        rfl
      have room : (u.cached x).regs.length < 23 := Nat.lt_of_le_of_ne most full
      obtain ⟨filling,growing⟩ := f.grown sz room (Nat.not_lt.mp short)
      have cached : (saveHblock (u.advance sz)).cached x = u.cached x := by
        rw [saveHblock_ok (by exact f.works.sound)]
        rfl
      rw [if_neg short,if_neg stop]
      dsimp only
      rw [if_neg (by simp [positive,saved]),cached]
      exact ⟨_,_,rfl,filling,rfl,growing,UInt32.ofNat_toNat.symm⟩

theorem blkOrGrow_ask (f : Filling t u x got) (success : u.vol.outcome = .success) (q : Nat) (sz : UInt8) :
    ∃ u' blk,blkOrGrow u x q sz = some (u',blk) ∧ Filling t u' x got ∧
      match (u.growing x).ask 23 u.vol.hblock.nblocks.toNat q sz.toNat with
      | none => u'.vol.outcome ≠ .success ∧ u'.growing x = u.growing x
      | some (g,b) => u'.vol.outcome = .success ∧ u'.growing x = g ∧ blk = UInt32.ofNat b := by
  unfold blkOrGrow
  dsimp only
  by_cases there : q < total (u.cached x).regs
  · obtain ⟨b,at_q⟩ := Growing.block_there there
    rw [Inode.blk_some at_q,if_neg (f.growable.word (List.mem_of_getElem? at_q)).2,
      Growing.ask_there (g := u.growing x) sz.toNat at_q]
    exact ⟨_,_,rfl,f,success,rfl,rfl⟩
  · rw [Inode.blk_none (Nat.not_lt.mp there),if_pos rfl]
    exact growFile_ask f sz (Nat.not_lt.mp there)

theorem loadGpC_names (works : u.disk.Works) (a : UInt32) (dry : Bool) :
    ∃ c new,loadGpC u a dry = ⟨{u.vol with outcome := .success,xcaddr := a,xcache := c},{u.disk with trace := new ++ u.disk.trace}⟩ ∧
      ∀ y ∈ new,∃ b z done,y = .rd b z done := by
  unfold loadGpC
  by_cases hit : a = u.vol.xcaddr
  · rw [if_neg (not_not.mpr hit),hit]
    exact ⟨u.vol.xcache,[],rfl,fun _ member => (by cases member)⟩
  · rw [if_pos hit]
    cases dry with
    | true => exact ⟨u.vol.xcache,[],rfl,fun _ member => (by cases member)⟩
    | false =>
        rw [if_neg Bool.false_ne_true,rblk_ok (works.reads _ _)]
        exact ⟨_,[_],rfl,fun y member => ⟨_,_,_,List.mem_singleton.mp member⟩⟩

theorem pages_reads {d : Disk} {new : List Access} (reads : ∀ y ∈ new,∃ b z done,y = .rd b z done) :
    Disk.pages {d with trace := new ++ d.trace} = d.pages := by
  unfold Disk.pages
  rw [List.filterMap_append]
  have none : new.filterMap (fun | .wr a .xcache _ => some a | _ => Option.none) = [] := by
    rw [List.filterMap_eq_nil_iff]
    intro y member
    obtain ⟨b,z,done,rfl⟩ := reads y member
    rfl
  rw [none,List.nil_append]

theorem Filling.put (f : Filling t u x got) (b : Nat) (dry : Bool) :
    (loadGpC u (UInt32.ofNat b) dry).vol.outcome = .success ∧
      ∀ c : Block,let v := saveGpC {loadGpC u (UInt32.ofNat b) dry with
          vol := {(loadGpC u (UInt32.ofNat b) dry).vol with xcache := c}}
        v.vol.outcome = .success ∧ v.growing x = u.growing x ∧ v.vol.hblock = u.vol.hblock ∧ Filling t v x (got ++ [b]) := by
  obtain ⟨c₀,new,load,reads⟩ := loadGpC_names f.works (UInt32.ofNat b) dry
  rw [load]
  refine ⟨rfl,fun c => ?_⟩
  have sound : Disk.Sound {u.disk with trace := new ++ u.disk.trace} := ⟨fun _ => f.works.reads _ _,f.works.writes⟩
  dsimp only
  unfold saveGpC
  rw [wblk_ok (by exact sound)]
  refine ⟨rfl,rfl,rfl,⟨f.growable.separator,f.growable.tidy,f.growable.lower,f.growable.upper,f.growable.room,
    f.growable.within⟩,⟨f.works.reads,f.works.writes⟩,f.blk0,f.nblocks,f.flen,?_⟩
  rw [List.map_append,List.reverse_append]
  refine congrArg₂ List.cons ?_ ((pages_reads reads).trans f.pages)
  exact congrArg (· + UInt32.ofNat b) f.blk0

-- The run of a write: what has been asked for, and whether all of it was to be had.
structure Fills (t u u' : Mount) (x : UInt32) (got : List Nat) (lens : List Nat) (q : Nat) (stopped : Bool) : Prop where
  filling : Filling t u' x (got ++ ((u.growing x).fill 23 u.vol.hblock.nblocks.toNat lens q).2)
  growing : u'.growing x = ((u.growing x).fill 23 u.vol.hblock.nblocks.toNat lens q).1
  count : stopped = false ↔ ((u.growing x).fill 23 u.vol.hblock.nblocks.toNat lens q).2.length = lens.length
  success : stopped = false → u'.vol.outcome = .success

theorem Fills.done (f : Filling t u x got) (success : u.vol.outcome = .success) (q : Nat) :
    Fills t u u x got [] q false := by
  refine ⟨?_,rfl,⟨fun _ => rfl,fun _ => rfl⟩,fun _ => success⟩
  exact (List.append_nil got).symm ▸ f

theorem Fills.step {v u' : Mount} {g : Growing} {b len q : Nat} {lens : List Nat} {stopped : Bool}
    (asked : (u.growing x).ask 23 u.vol.hblock.nblocks.toNat q len = some (g,b)) (growing : v.growing x = g)
    (nblocks : v.vol.hblock.nblocks = u.vol.hblock.nblocks) (fills : Fills t v u' x (got ++ [b]) lens (q + 1) stopped) :
    Fills t u u' x got (len :: lens) q stopped := by
  have run := Growing.fill_some lens asked
  have filling := fills.filling
  have more := fills.growing
  have count := fills.count
  rw [growing,nblocks] at filling more count
  constructor
  · rw [run]
    rwa [List.append_assoc,List.singleton_append] at filling
  · rw [run]
    exact more
  · rw [run,count,List.length_cons,List.length_cons]
    exact Nat.succ_inj.symm
  · exact fills.success

theorem Fills.stop {u' : Mount} {len q : Nat} {lens : List Nat}
    (asked : (u.growing x).ask 23 u.vol.hblock.nblocks.toNat q len = none) (growing : u'.growing x = u.growing x)
    (filling : Filling t u' x got) : Fills t u u' x got (len :: lens) q true := by
  have run := Growing.fill_none lens asked
  constructor
  · rw [run,List.append_nil]
    exact filling
  · rw [run]
    exact growing
  · rw [run]
    exact ⟨fun wrong => (by cases wrong),fun wrong => (by cases wrong)⟩
  · exact fun wrong => (by cases wrong)

theorem Fills.halt {u' : Mount} {lens : List Nat} {q : Nat} (fills : Fills t u u' x got lens q true) (more : List Nat) :
    Fills t u u' x got (lens ++ more) q true := by
  have short : ((u.growing x).fill 23 u.vol.hblock.nblocks.toNat lens q).2.length ≠ lens.length :=
    fun all => Bool.noConfusion (fills.count.mpr all)
  have le := Growing.fill_length_le 23 u.vol.hblock.nblocks.toNat (u.growing x) lens q
  have run := Growing.fill_append 23 u.vol.hblock.nblocks.toNat (u.growing x) lens more q
  rw [if_neg short] at run
  constructor
  · rw [run]
    exact fills.filling
  · rw [run]
    exact fills.growing
  · rw [run,List.length_append]
    exact ⟨fun wrong => (by cases wrong),fun all => by omega⟩
  · exact fun wrong => (by cases wrong)

theorem Fills.append {v u' : Mount} {lens more : List Nat} {q : Nat} {stopped : Bool} (fills : Fills t u v x got lens q false)
    (rest : Fills t v u' x (got ++ ((u.growing x).fill 23 u.vol.hblock.nblocks.toNat lens q).2) more (q + lens.length) stopped)
    (nblocks : v.vol.hblock.nblocks = u.vol.hblock.nblocks) : Fills t u u' x got (lens ++ more) q stopped := by
  have all := fills.count.mp rfl
  have run := Growing.fill_append 23 u.vol.hblock.nblocks.toNat (u.growing x) lens more q
  rw [if_pos all] at run
  have filling := rest.filling
  have growing := rest.growing
  have count := rest.count
  rw [fills.growing,nblocks] at filling growing count
  constructor
  · rw [run]
    rwa [List.append_assoc] at filling
  · rw [run]
    exact growing
  · rw [run,count,List.length_append,List.length_append,all]
    exact Nat.add_left_cancel_iff.symm
  · exact rest.success

theorem writeLoop_fills (src : Nat → UInt8) (nbytes : UInt32) (n blkind wcount : Nat) (f : Filling t u x got)
    (success : u.vol.outcome = .success) :
    ∃ u' blkind' wcount' stopped,writeLoop x src nbytes n u blkind wcount = some (u',blkind',wcount',stopped) ∧
      Fills t u u' x got (fullLens nbytes n wcount) (blkind + 1) stopped ∧
      (stopped = false → blkind' = blkind + n ∧ wcount' = wcount + blockSz * n) := by
  induction n generalizing u got blkind wcount with
  | zero =>
      exact ⟨_,_,_,_,rfl,.done f success _,fun _ => ⟨rfl,rfl⟩⟩
  | succ n ih =>
      obtain ⟨v,blk,run,filling,asked⟩ := blkOrGrow_ask f success (blkind + 1) (growLenInt (toInt (nbytes - UInt32.ofNat wcount)))
      unfold writeLoop fullLens
      rw [run]
      simp only [Option.bind_eq_bind,Option.bind_some]
      cases ask : (u.growing x).ask 23 u.vol.hblock.nblocks.toNat (blkind + 1)
          (growLenInt (toInt (nbytes - UInt32.ofNat wcount))).toNat with
      | none =>
          rw [ask] at asked
          rw [if_pos asked.1]
          exact ⟨_,_,_,_,rfl,.stop ask asked.2 filling,fun wrong => (by cases wrong)⟩
      | some r =>
          rw [ask] at asked
          obtain ⟨success',growing,rfl⟩ := asked
          rw [if_neg (not_not.mpr success')]
          obtain ⟨_,put⟩ := filling.put r.2 true
          obtain ⟨success'',same,hblock,filling'⟩ := put (patch (loadGpC v (UInt32.ofNat r.2) true).vol.xcache 0 blockSz
            fun k => src (wcount + k))
          rw [if_neg (not_not.mpr success'')]
          obtain ⟨u',blkind',wcount',stopped,run',fills,ends⟩ := ih (blkind + 1) (wcount + blockSz)
            filling' success''
          refine ⟨u',blkind',wcount',stopped,run',.step ask (same.trans growing) ?_ fills,fun done => ?_⟩
          · rw [hblock,filling.nblocks,f.nblocks]
          · obtain ⟨ind,count⟩ := ends done
            refine ⟨by omega,?_⟩
            rw [count,Nat.mul_succ]
            omega

-- What a write has come to: the file and the frontier, and where the blocks have gone.
structure Grown (t s' : Mount) (x : UInt32) (lens : List Nat) (q : Nat) : Prop where
  blk0 : s'.vol.blk0 = t.vol.blk0
  growing : s'.growing x = ((t.growing x).fill 23 t.vol.hblock.nblocks.toNat lens q).1
  pages : s'.disk.pages = ((((t.growing x).fill 23 t.vol.hblock.nblocks.toNat lens q).2).map
    fun b => t.vol.blk0 + UInt32.ofNat b).reverse ++ t.disk.pages
  word : ∀ b ∈ blocks (s'.cached x).regs,(UInt32.ofNat b).toNat = b ∧ UInt32.ofNat b ≠ 0

theorem Fills.grown {lens : List Nat} {q : Nat} {stopped : Bool} (fills : Fills t t u x [] lens q stopped) :
    Grown t u x lens q :=
  ⟨fills.filling.blk0,fills.growing,fills.filling.pages,fun _ member => fills.filling.growable.word member⟩

-- The end of a write changes neither the regions nor where blocks have been stored.
theorem Filling.finish (f : Filling t u x got) {lens : List Nat} {q : Nat} (grown : Grown t u x lens q) (cursor : UInt32)
    (wcount : Nat) : Grown t (finishWrite u x cursor wcount).1 x lens q := by
  have cached : (finishWrite u x cursor wcount).1.cached x = {u.cached x with eof := cursor + UInt32.ofNat wcount} := by
    unfold finishWrite Fs2.saveIblockC
    rw [wblk_ok (by exact f.works.sound)]
    exact Vector.getElem_set_self _
  have rest : (finishWrite u x cursor wcount).1.vol.blk0 = u.vol.blk0 ∧
      (finishWrite u x cursor wcount).1.vol.hblock = u.vol.hblock ∧
      (finishWrite u x cursor wcount).1.disk.pages = u.disk.pages := by
    unfold finishWrite Fs2.saveIblockC
    rw [wblk_ok (by exact f.works.sound)]
    exact ⟨rfl,rfl,rfl⟩
  obtain ⟨blk0,hblock,pages⟩ := rest
  refine ⟨blk0.trans grown.blk0,?_,pages.trans grown.pages,?_⟩
  · rw [← grown.growing]
    unfold Mount.growing
    rw [cached,hblock]
    rfl
  · rw [cached]
    exact grown.word

theorem writeFile_grown (growable : t.Growable (t.cached x)) (works : t.disk.Works) (success : t.vol.outcome = .success)
    (src : Nat → UInt8) (nbytes cursor : UInt32) :
    ∃ s' r,writeFile t x src nbytes cursor = some (s',r) ∧
      Grown t s' x (growths nbytes cursor t.vol.hblock.defaultFregLen) (cursor.toNat / blockSz) := by
  have start : Filling t t x [] := ⟨growable,works,rfl,rfl,rfl,rfl⟩
  obtain ⟨v,blk,run,filling,asked⟩ := blkOrGrow_ask start success (cursor.toNat / blockSz) (growLen nbytes)
  unfold writeFile growths
  dsimp only
  rw [run]
  simp only [Option.bind_eq_bind,Option.bind_some]
  cases ask : (t.growing x).ask 23 t.vol.hblock.nblocks.toNat (cursor.toNat / blockSz) (growLen nbytes).toNat with
  | none =>
      rw [ask] at asked
      rw [if_pos asked.1]
      exact ⟨_,_,rfl,(Fills.stop ask asked.2 filling).grown⟩
  | some r =>
      rw [ask] at asked
      obtain ⟨success₁,growing,rfl⟩ := asked
      rw [if_neg (not_not.mpr success₁)]
      obtain ⟨loaded,put⟩ := filling.put r.2 false
      rw [if_neg (not_not.mpr loaded)]
      generalize min nbytes.toNat (blockSz - cursor.toNat % blockSz) = write1
      obtain ⟨success₂,same,hblock,filling₂⟩ := put (patch (loadGpC v (UInt32.ofNat r.2) false).vol.xcache
        (cursor.toNat % blockSz) write1 src)
      rw [if_neg (not_not.mpr success₂)]
      obtain ⟨u,blkind,wcount,stopped,run',fills,ends⟩ := writeLoop_fills src nbytes ((nbytes.toNat - write1) / blockSz)
        (cursor.toNat / blockSz) write1 filling₂ success₂
      rw [run']
      simp only [Option.bind_some]
      have fills' := Fills.step ask (same.trans growing) (by rw [hblock,filling.nblocks]) fills
      cases stopped with
      | true =>
          rw [if_pos (.inl rfl)]
          have halted := fills'.halt (if write1 + blockSz * ((nbytes.toNat - write1) / blockSz) = nbytes.toNat then []
            else [t.vol.hblock.defaultFregLen.toNat])
          exact ⟨_,_,rfl,halted.filling.finish halted.grown cursor wcount⟩
      | false =>
          obtain ⟨ind,count⟩ := ends rfl
          rw [← count]
          by_cases done : wcount = nbytes.toNat
          · rw [if_pos (.inr done),if_pos done,List.append_nil]
            exact ⟨_,_,rfl,fills'.filling.finish fills'.grown cursor wcount⟩
          · rw [if_neg (fun stop => stop.elim (fun wrong => (by cases wrong)) done),if_neg done]
            have nblocks : u.vol.hblock.nblocks = t.vol.hblock.nblocks := fills.filling.nblocks
            have place : blkind + 1 = cursor.toNat / blockSz +
                ((growLen nbytes).toNat :: fullLens nbytes ((nbytes.toNat - write1) / blockSz) write1).length := by
              rw [List.length_cons,length_fullLens,ind]
              omega
            obtain ⟨w,blk,run₃,filling₃,asked₃⟩ := blkOrGrow_ask fills'.filling (fills'.success rfl) (blkind + 1)
              u.vol.hblock.defaultFregLen
            rw [run₃]
            simp only [Option.bind_some]
            rw [← fills.filling.flen]
            cases ask₃ : (u.growing x).ask 23 u.vol.hblock.nblocks.toNat (blkind + 1) u.vol.hblock.defaultFregLen.toNat with
            | none =>
                rw [ask₃] at asked₃
                rw [if_pos asked₃.1]
                have stop : Fills t u w x _ [u.vol.hblock.defaultFregLen.toNat] (blkind + 1) true :=
                  .stop ask₃ asked₃.2 filling₃
                rw [place] at stop
                have halted := fills'.append stop nblocks
                exact ⟨_,_,rfl,halted.filling.finish halted.grown cursor wcount⟩
            | some r' =>
                rw [ask₃] at asked₃
                obtain ⟨success₃,growing₃,rfl⟩ := asked₃
                rw [if_neg (not_not.mpr success₃)]
                obtain ⟨_,put₃⟩ := filling₃.put r'.2 true
                obtain ⟨success₄,same₄,hblock₄,filling₄⟩ := put₃ (patch (loadGpC w (UInt32.ofNat r'.2) true).vol.xcache 0
                  (nbytes.toNat - wcount) src)
                have last := Fills.step ask₃ (same₄.trans growing₃) (by rw [hblock₄,filling₃.nblocks,nblocks])
                  (.done filling₄ success₄ (blkind + 1 + 1))
                rw [place] at last
                have whole := fills'.append last nblocks
                exact ⟨_,_,rfl,whole.filling.finish whole.grown cursor _⟩

end Filling

-- The blocks that have been stored since s, for the indexes from the cursor on, are where
-- find_blk finds them on the inode as it is now, none of them lies behind the frontier, and
-- the file has got no region of length zero.
structure Landed (s s' : Mount) (x cursor : UInt32) (inode : Inode) : Prop where
  stores : ∃ k,s'.disk.pages = ((List.range k).map fun j =>
      s.vol.blk0 + (s'.cached x).blk (cursor.toNat / blockSz + j)).reverse ++ s.disk.pages ∧
    ∀ j < k,(s'.cached x).blk (cursor.toNat / blockSz + j) ≠ 0
  below : ∀ new a,s'.disk.pages = new ++ s.disk.pages → a ∈ new → a - s.vol.blk0 < s'.vol.hblock.nextBlock
  positive : ∃ new,(s'.cached x).regs = inode.regs ++ new ∧ ∀ r ∈ new,0 < r.len

section Landed
variable {s t s' : Mount} {x : UInt32}

theorem Grown.astray {len q : Nat} {lens : List Nat} (grown : Grown t s' x (len :: lens) q) (far : total (t.cached x).regs < q)
    (slot : (t.cached x).regs.length ≠ 23) (room : t.vol.hblock.nextBlock.toNat + len ≤ t.vol.hblock.nblocks.toNat)
    (positive : len ≠ 0) {k : Nat} (stores : s'.disk.pages =
      ((List.range k).map fun j => t.vol.blk0 + (s'.cached x).blk (q + j)).reverse ++ t.disk.pages)
    (used : ∀ j < k,(s'.cached x).blk (q + j) ≠ 0) : False := by
  obtain ⟨first,member,other⟩ := Growing.fill_far (g := t.growing x) lens far slot room positive
  have regs : (s'.cached x).regs = _ := congrArg Growing.regs grown.growing
  rw [← regs] at member other
  have same := List.reverse_injective (List.append_cancel_right (stores.symm.trans grown.pages))
  have some : k ≠ 0 := by
    rintro rfl
    have none := congrArg (fun l => l[0]?) same
    rw [List.getElem?_map,List.getElem?_map,first] at none
    cases none
  have here := congrArg (fun l => l[0]?) same
  rw [List.getElem?_map,List.getElem?_map,first,List.getElem?_range (Nat.pos_of_ne_zero some)] at here
  have block : (s'.cached x).blk q = UInt32.ofNat (t.growing x).next := by
    have sum := Option.some.inj here
    exact UInt32.add_right_inj _ |>.mp sum
  have given := used 0 (Nat.pos_of_ne_zero some)
  cases at_q : (blocks (s'.cached x).regs)[q]? with
  | none => exact given (Inode.blk_none (by rw [← length_blocks]; exact List.getElem?_eq_none_iff.mp at_q))
  | some c =>
      have word := (grown.word c (List.mem_of_getElem? at_q)).1
      have equal : c = (t.growing x).next := by
        rw [← word,← (grown.word _ member).1,← block,Inode.blk_some at_q]
      exact other (by rw [at_q,equal])

theorem Grown.landed {len : Nat} {lens : List Nat} {cursor : UInt32} (grown : Grown t s' x (len :: lens) (cursor.toNat / blockSz))
    (growable : t.Growable (t.cached x)) :
    Landed t s' x cursor (t.cached x) ↔ NoEmptyRegion (len :: lens) (cursor.toNat / blockSz) (total (t.cached x).regs)
      (23 - (t.cached x).regs.length) (t.vol.hblock.nblocks.toNat - t.vol.hblock.nextBlock.toNat) ∧
      (cursor.toNat / blockSz ≤ total (t.cached x).regs ∨ (t.cached x).regs.length = 23 ∨
        t.vol.hblock.nblocks.toNat < t.vol.hblock.nextBlock.toNat + len) := by
  have regs : (s'.cached x).regs = _ := congrArg Growing.regs grown.growing
  constructor
  · intro landed
    obtain ⟨new,same,positive⟩ := landed.positive
    have steady := Growing.steady_of_positive (g := t.growing x) growable.upper (regs.symm.trans same) positive
    refine ⟨steady,?_⟩
    by_contra far
    obtain ⟨near,slot,room⟩ := not_or.mp far |>.imp_right not_or.mp
    obtain ⟨k,stores,used⟩ := landed.stores
    have slots : (t.cached x).regs.length ≤ 23 := growing_slots t x
    have upper := growable.upper
    unfold NoEmptyRegion at steady
    rw [if_neg (by show ¬ cursor.toNat / blockSz < total (t.cached x).regs; omega)] at steady
    rcases steady with full | short | ⟨positive,_⟩
    · have full' : 23 - (t.cached x).regs.length = 0 := full
      omega
    · have short' : t.vol.hblock.nblocks.toNat - t.vol.hblock.nextBlock.toNat < len := short
      omega
    · exact grown.astray (Nat.not_le.mp near) slot (Nat.not_lt.mp room) positive stores used
  · rintro ⟨steady,fair⟩
    have upper := growable.upper
    by_cases near : cursor.toNat / blockSz ≤ total (t.cached x).regs
    case neg =>
      -- Nothing is stored.
      have stop : (t.growing x).regs.length = 23 ∨ t.vol.hblock.nblocks.toNat < (t.growing x).next + len := fair.resolve_left near
      have beyond := Growing.ask_beyond (g := t.growing x) 23 t.vol.hblock.nblocks.toNat len (Nat.le_of_not_le near)
      rw [if_pos stop] at beyond
      have growing := grown.growing
      have pages := grown.pages
      rw [Growing.fill_none _ beyond] at growing pages
      refine ⟨⟨0,pages,fun j wrong => absurd wrong (Nat.not_lt_zero j)⟩,fun new a same member => ?_,[],?_,?_⟩
      · rw [pages] at same
        have none : new = [] := (List.append_cancel_right same).symm
        rw [none] at member
        cases member
      · exact (congrArg Growing.regs growing).trans (List.append_nil _).symm
      · exact fun r wrong => (by cases wrong)
    have filled := Growing.filled_of_steady (g := t.growing x) near (fun b member => (growable.within b member).2)
      (growing_slots _ _) growable.upper steady
    have next : s'.vol.hblock.nextBlock.toNat = _ := congrArg Growing.next grown.growing
    have pages := grown.pages
    generalize (t.growing x).fill 23 t.vol.hblock.nblocks.toNat (len :: lens) (cursor.toNat / blockSz) = r at filled pages regs next
    obtain ⟨placed,behind,new,appended,positive⟩ := filled
    rw [← regs] at placed appended
    have found : ∀ (j : Nat) (b : Nat),r.2[j]? = some b → (s'.cached x).blk (cursor.toNat / blockSz + j) = UInt32.ofNat b :=
      fun j b at_j => Inode.blk_some (placed j b at_j)
    refine ⟨⟨r.2.length,?_,?_⟩,?_,new,appended,positive⟩
    · rw [pages]
      congr 2
      apply List.ext_getElem
      · simp
      · intro j bound _
        rw [List.length_map] at bound
        rw [List.getElem_map,List.getElem_map,List.getElem_range,found j _ (List.getElem?_eq_getElem bound)]
    · intro j bound
      have at_j := List.getElem?_eq_getElem bound
      rw [found j _ at_j]
      exact (grown.word _ (List.mem_of_getElem? (placed j _ at_j))).2
    · intro new' a same member
      rw [pages] at same
      rw [← List.append_cancel_right same,List.mem_reverse,List.mem_map] at member
      obtain ⟨b,member,rfl⟩ := member
      obtain ⟨j,at_j⟩ := List.getElem?_of_mem member
      have word := (grown.word _ (List.mem_of_getElem? (placed j b at_j))).1
      rw [UInt32.add_comm,UInt32.add_sub_cancel,UInt32.lt_iff_toNat_lt,word,next]
      exact behind b member

theorem Leading.pages (leading : s.Leading path t x) : t.disk.pages = s.disk.pages := by
  obtain ⟨new,trace,reads⟩ := leading.aside.asked
  unfold Disk.pages
  rw [trace]
  exact pages_reads (d := s.disk) fun y member => by
    obtain ⟨b,z,done,same,_⟩ := reads y member
    exact ⟨b,z,done,same⟩

theorem Landed.after {cursor : UInt32} {inode : Inode} (pages : t.disk.pages = s.disk.pages)
    (blk0 : t.vol.blk0 = s.vol.blk0) : Landed t s' x cursor inode ↔ Landed s s' x cursor inode := by
  constructor
  · intro landed
    exact ⟨by rw [← pages,← blk0]; exact landed.stores,by rw [← pages,← blk0]; exact landed.below,landed.positive⟩
  · intro landed
    exact ⟨by rw [pages,blk0]; exact landed.stores,by rw [pages,blk0]; exact landed.below,landed.positive⟩

-- A write to a file, on a disk that works.
theorem blocks_landed_iff {path : Path} (works : s.disk.Works) (leading : s.Leading path t x)
    (file : (t.cached x).ftype = ftypeFile) (growable : t.Growable (t.cached x)) (src : Nat → UInt8) (nbytes cursor : UInt32) :
    ∃ s' r,write s path src nbytes cursor = some (s',r) ∧
      (Landed s s' x cursor (t.cached x) ↔
        NoEmptyRegion (growths nbytes cursor t.vol.hblock.defaultFregLen) (cursor.toNat / blockSz) (total (t.cached x).regs)
          (23 - (t.cached x).regs.length) (t.vol.hblock.nblocks.toNat - t.vol.hblock.nextBlock.toNat) ∧
        (cursor.toNat / blockSz ≤ total (t.cached x).regs ∨ (t.cached x).regs.length = 23 ∨
          t.vol.hblock.nblocks.toNat < t.vol.hblock.nextBlock.toNat + (growLen nbytes).toNat)) := by
  have aside := leading.aside
  have works' : t.disk.Works :=
    ⟨fun n y => by rw [aside.rdFails]; exact works.reads n y,fun n y => by rw [aside.wrFails]; exact works.writes n y⟩
  obtain ⟨s',r,run,grown⟩ := writeFile_grown growable works' leading.success src nbytes cursor
  refine ⟨s',r,(leading.write file src nbytes cursor).trans run,?_⟩
  rw [← Landed.after leading.pages aside.blk0]
  exact grown.landed growable

theorem Valid.leading (v : s.Valid) (works : s.disk.Works) {path : Path} {i : Nat} {q : Option Nat}
    (found : s.image.resolve path.bytes = .ok (i,q)) :
    ∃ t x,s.Leading path t x ∧ x.toNat = i ∧ t.cached x = s.inode i ∧ t.vol.hblock = s.vol.hblock := by
  obtain ⟨s₁,x,p,run,result⟩ := findInode_look v works.sound path
  rw [found] at result
  rcases result with ⟨success,index,_,_,_,_,s₂,run₂,looked,_,success₂,_,_,cached⟩ | stopped
  · exact ⟨s₂,x,⟨s₁,p,run,success,run₂,success₂⟩,index,cached,looked.hblock⟩
  · exact (Works.not_faulty works stopped.faulty).elim

theorem Valid.growable (v : s.Valid) {i : Nat} (h : i < s.vol.hblock.nextInode.toNat) {t : Mount}
    (hblock : t.vol.hblock = s.vol.hblock) : t.Growable (s.inode i) := by
  have ok := v.ok
  constructor
  · rw [hblock]
    exact v.sep.separator
  · exact v.itidy i h
  · rw [hblock]
    exact ok.lower
  · rw [hblock]
    exact ok.upper
  · rw [hblock]
    exact ok.room
  · intro b member
    rw [hblock]
    have node := s.image_node h
    exact ok.packed.within (some i) b (by show b ∈ blocks (s.image.node i).regs; rw [node]; exact member)

end Landed

theorem fileA_image : ∃ s : Mount,History AnyOp s ∧ s.image = (Op.create ftypeFile fileA).apply (formatImage 100 3 4 1 2) := by
  obtain ⟨s,formatted,image⟩ := formats 3 passes_boot (by decide)
  obtain ⟨t,_,history,after⟩ := (History.format formatted : History AnyOp s).next
    (show Op.Fits s (.create ftypeFile fileA) from trivial) trivial
  exact ⟨t,history,by rw [after,image]⟩

theorem fileA_leading : ∃ (s t : Mount) (x : UInt32),History AnyOp s ∧ s.Leading fileA t x ∧ (t.cached x).ftype = ftypeFile ∧
    (t.cached x).regs = [] ∧ (t.cached x).eof = 0 ∧ t.Growable (t.cached x) := by
  obtain ⟨s,history,image⟩ := fileA_image
  have found : s.image.resolve fileA.bytes = .ok (1,some 0) := by
    rw [image]
    decide +kernel
  have exist : 1 < s.vol.hblock.nextInode.toNat := by
    have count : 1 < s.image.nodes.length := by
      rw [image]
      decide +kernel
    rwa [image_length] at count
  obtain ⟨t,x,leading,_,cached,hblock⟩ := history.valid.1.leading history.valid.2 found
  have node : (s.inode 1).node s.at = ((Op.create ftypeFile fileA).apply (formatImage 100 3 4 1 2)).node 1 := by
    rw [← image]
    exact (s.image_node exist).symm
  have ftype : (s.inode 1).ftype = ftypeFile := (congrArg Node.ftype node).trans (by decide +kernel)
  have regs : (s.inode 1).regs = [] := (congrArg Node.regs node).trans (by decide +kernel)
  have eof : (s.inode 1).eof.toNat = 0 := (congrArg Node.eof node).trans (by decide +kernel)
  refine ⟨s,t,x,history,leading,?_⟩
  rw [cached]
  exact ⟨ftype,regs,UInt32.toNat_inj.mp eof,history.valid.1.growable exist hblock⟩

theorem blocks_astray : ¬ ∀ (s t : Mount) (x : UInt32) (path : Path) (src : Nat → UInt8) (nbytes cursor : UInt32),
    History AnyOp s → s.Leading path t x → (t.cached x).ftype = ftypeFile → cursor.toNat ≤ (t.cached x).eof.toNat →
    ∃ s' r,write s path src nbytes cursor = some (s',r) ∧ Landed s s' x cursor (t.cached x) := by
  intro all
  obtain ⟨s,t,x,history,leading,file,regs,eof,growable⟩ := fileA_leading
  obtain ⟨s',r,run,landed⟩ := all s t x fileA (fun _ => 0) 0 0 history leading file (Nat.zero_le _)
  have works : t.disk.Works :=
    ⟨fun n y => by rw [leading.aside.rdFails]; exact history.valid.2.reads n y,
      fun n y => by rw [leading.aside.wrFails]; exact history.valid.2.writes n y⟩
  obtain ⟨s₁,r₁,run₁,grown⟩ := writeFile_grown growable works leading.success (fun _ => 0) 0 0
  cases run.symm.trans ((leading.write file _ 0 0).trans run₁)
  have steady := ((grown.landed growable).mp ((Landed.after leading.pages leading.aside.blk0).mpr landed)).1
  rw [regs] at steady
  rcases steady with full | short | ⟨positive,_⟩
  · exact absurd full (by decide)
  · exact Nat.not_lt_zero _ short
  · exact positive rfl

-- A write of five bytes to it.
theorem blocks_landed_new : ∃ (s t : Mount) (x : UInt32),History AnyOp s ∧ s.Leading fileA t x ∧
    ∃ s' r,write s fileA (fun _ => 1) 5 0 = some (s',r) ∧ Landed s s' x 0 (t.cached x) := by
  obtain ⟨s,t,x,history,leading,file,regs,_,growable⟩ := fileA_leading
  obtain ⟨s',r,run,landed⟩ := blocks_landed_iff history.valid.2 leading file growable (fun _ => 1) 5 0
  refine ⟨s,t,x,history,leading,s',r,run,landed.mpr ⟨?_,.inl (Nat.zero_le _)⟩⟩
  rw [regs]
  exact .inr (.inr ⟨by decide,trivial⟩)

end Mount
end ArchiveOs.Fs2
