import ArchiveOs.Puts

-- Handing out regions: the frontier of the header, new inode blocks, and the move
-- of the inode cache to another block.
namespace ArchiveOs.Fs2
open Extents Layout

namespace Mount

-- The frontier in memory.
def advance (s : Mount) (len : UInt8) : Mount :=
  s.withHblock {s.vol.hblock with nextBlock := s.vol.hblock.nextBlock + len.toUInt32}

section Advance
variable {s : Mount} {len : UInt8}

theorem advance_toNat (v : s.Mid) (len : UInt8) :
    (s.vol.hblock.nextBlock + len.toUInt32).toNat = s.image.nextBlock + len.toNat := by
  have upper := v.ok.upper
  have room := v.ok.room
  have small := len.toNat_lt
  rw [UInt32.toNat_add,UInt8.toNat_toUInt32]
  exact Nat.mod_eq_of_lt (show s.image.nextBlock + len.toNat < 4294967296 by omega)

theorem advance_image (v : s.Mid) (len : UInt8) :
    (s.advance len).image = {s.image with nextBlock := s.image.nextBlock + len.toNat} := by
  have next := advance_toNat v len
  unfold image
  congr 1

theorem advance_grows (v : s.Mid) : s.image.Grows (s.advance len).image := by
  rw [advance_image v len]
  exact ⟨rfl,Nat.le_add_right _ _,fun _ h => .inl h,fun i _ h t member => .inl ⟨i,h,t,member⟩⟩

theorem advance_mid (v : s.Mid) {len : UInt8} (fits : s.image.nextBlock + len.toNat ≤ s.image.nblocks) : (s.advance len).Mid := by
  refine v.next ?_ (advance_grows v) ⟨v.sep.ident,v.sep.separator⟩ v.htidy v.itidy v.iaddr rfl rfl (fun _ _ => rfl) rfl rfl (fun _ _ => rfl)
  rw [advance_image v len]
  exact v.ok.advance fits

theorem findFreeRegion_spec (v : s.Mid) (len : UInt8) (save : Bool) :
    match s.image.alloc len.toNat with
    | none => findFreeRegion s len save = some (s.out .diskFull,0)
    | some (_,b) => s.image.nextBlock + len.toNat ≤ s.image.nblocks ∧ s.vol.hblock.nextBlock = UInt32.ofNat b ∧
        b = s.image.nextBlock ∧
        findFreeRegion s len save =
          some (if save then saveHblock (s.advance len) else (s.advance len).out .success,UInt32.ofNat b) := by
  have next := advance_toNat v len
  have compare : s.vol.hblock.nextBlock + len.toUInt32 > s.vol.hblock.nblocks ↔
      s.image.nblocks < s.image.nextBlock + len.toNat := by
    rw [← next]; exact UInt32.lt_iff_toNat_lt
  have inside : ¬ s.vol.hblock.separator.toNat < 800 := by rw [v.sep.separator]; decide
  unfold findFreeRegion
  rw [if_neg inside]
  by_cases full : s.image.nblocks < s.image.nextBlock + len.toNat
  · rw [Image.alloc_none.mpr full]
    dsimp only
    rw [if_pos (compare.mpr full)]
  · have taken : s.image.alloc len.toNat =
        some ({s.image with nextBlock := s.image.nextBlock + len.toNat},s.image.nextBlock) := by
      simp [Image.alloc,full]
    have word : s.vol.hblock.nextBlock = UInt32.ofNat s.image.nextBlock := UInt32.ofNat_toNat.symm
    rw [taken]
    dsimp only
    refine ⟨by omega,word,rfl,?_⟩
    rw [if_neg (fun h => full (compare.mp h)),← word]
    cases save <;> rfl

end Advance

theorem frontier_ne_zero {s : Mount} (v : s.Mid) : s.vol.hblock.nextBlock ≠ 0 := by
  intro zero
  have lower := v.ok.lower
  have : s.image.nextBlock = s.vol.hblock.nextBlock.toNat := rfl
  rw [zero] at this
  have : (0 : UInt32).toNat = 0 := rfl
  omega

-- A new inode block, entered into the header under the index q; nothing is read.
def growTable (s : Mount) (q : UInt32) : Mount :=
  let h := s.vol.hblock
  {s with vol := {s.vol with
    icindex := q
    icaddr := h.nextBlock
    hblock := {h with
      nextBlock := h.nextBlock + h.defaultIregLen.toUInt32
      regStart := h.regStart.setIfInBounds h.regs.length h.nextBlock
      regLen := h.regLen.setIfInBounds h.regs.length h.defaultIregLen}}}

section GrowTable
variable {s : Mount}

theorem growTable_regs (v : s.Mid) (room : s.vol.hblock.regs.length < 800) (q : UInt32) :
    (s.growTable q).vol.hblock.regs = s.image.iregs ++ [⟨s.image.nextBlock,s.image.ilen⟩] ∧
      Tidy (s.growTable q).vol.hblock.rows := by
  have rows := rows_set s.vol.hblock.regStart s.vol.hblock.regLen s.vol.hblock.regs.length
    s.vol.hblock.nextBlock s.vol.hblock.defaultIregLen
  have set := regions_set v.htidy _ s.vol.hblock.defaultIregLen (frontier_ne_zero v)
    (by rw [HBlock.length_rows]; exact room)
  have new : (s.growTable q).vol.hblock.rows = s.vol.hblock.rows.set (regions s.vol.hblock.rows).length
      (s.vol.hblock.nextBlock,s.vol.hblock.defaultIregLen) := rows
  unfold HBlock.regs
  rw [new]
  exact set

variable (v : s.Mid) (clean : s.Clean) {q : UInt32} (beyond : s.itable.length ≤ q.toNat)
  (room : s.vol.hblock.regs.length < 800)
include v clean beyond room

theorem growTable_inode {i : Nat} (h : i < s.vol.hblock.nextInode.toNat) : (s.growTable q).inode i = s.inode i := by
  have inside := v.slot h
  have there : i / 32 ≠ (s.growTable q).vol.icindex.toNat := by
    show i / 32 ≠ q.toNat
    omega
  have disk : s.inode i = s.diskInode i := by
    by_cases cached : i / 32 = s.vol.icindex.toNat
    · rw [inode_here cached]; exact clean i h cached
    · exact inode_there cached
  rw [inode_there there,disk]
  unfold diskInode
  have table : (s.growTable q).itable = s.itable ++ blocks [⟨s.image.nextBlock,s.image.ilen⟩] := by
    unfold itable
    rw [(growTable_regs v room q).1,blocks_append]; rfl
  rw [table,List.getD_eq_getElem?_getD,List.getD_eq_getElem?_getD,List.getElem?_append_left inside]
  rfl

theorem growTable_image : (s.growTable q).image =
    {s.image with
      nextBlock := s.image.nextBlock + s.image.ilen
      iregs := s.image.iregs ++ [⟨s.image.nextBlock,s.image.ilen⟩]} := by
  have next : (s.growTable q).vol.hblock.nextBlock.toNat = s.image.nextBlock + s.image.ilen :=
    advance_toNat v s.vol.hblock.defaultIregLen
  have regs := (growTable_regs v room q).1
  have nodes : (s.growTable q).image.nodes = s.image.nodes := by
    unfold image
    apply List.map_congr_left
    intro i member
    unfold node
    rw [growTable_inode v clean beyond room (List.mem_range.mp member)]; rfl
  have whole : (s.growTable q).image = {s.image with
      nextBlock := (s.growTable q).vol.hblock.nextBlock.toNat
      iregs := (s.growTable q).vol.hblock.regs
      nodes := (s.growTable q).image.nodes} := rfl
  rw [whole,nodes,regs,next]

theorem growTable_grows : s.image.Grows (s.growTable q).image := by
  rw [growTable_image v clean beyond room]
  refine ⟨rfl,Nat.le_add_right _ _,?_,fun i _ h t member => .inl ⟨i,h,t,member⟩⟩
  intro b member
  simp only [blocks_append,List.mem_append] at member
  rcases member with old | new
  · exact .inl old
  · obtain ⟨r,here,bounds⟩ := mem_blocks.mp new
    rw [List.mem_singleton.mp here] at bounds
    exact .inr bounds.1

theorem growTable_mid (edge : q.toNat = s.itable.length) (ok : (s.growTable q).image.Ok) :
    (s.growTable q).Mid ∧ (s.growTable q).Clean ∧ (s.growTable q).Placed := by
  have table : (s.growTable q).itable = s.itable ++ blocks [⟨s.image.nextBlock,s.image.ilen⟩] := by
    unfold itable
    rw [(growTable_regs v room q).1,blocks_append]; rfl
  have len := v.ok.ilen.1
  refine ⟨?_,?_,?_⟩
  · refine v.next ok (growTable_grows v clean beyond room) ⟨v.sep.ident,v.sep.separator⟩ (growTable_regs v room q).2 ?_ ?_ rfl rfl
      (fun _ _ => rfl) rfl rfl (fun _ _ => rfl)
    · intro i h
      rw [growTable_inode v clean beyond room h]; exact v.itidy i h
    · intro _
      show (s.growTable q).itable[q.toNat]? = some s.image.nextBlock
      rw [table,List.getElem?_append_right (by omega),edge,Nat.sub_self]
      simp [blocks_cons,Region.blocks,len]
  · intro i h here
    have inside := v.slot h
    have equal : i / 32 = q.toNat := here
    omega
  · unfold Placed
    show q.toNat < _
    rw [table,List.length_append,length_blocks,total_cons,total_nil]
    dsimp only
    omega

end GrowTable

-- What creating files may do to everything else: blocks are taken from the
-- frontier and the blocks of files keep their bytes.
structure Grew (s s' : Mount) : Prop extends Dev s s' where
  grows : s.image.Grows s'.image
  files : ∀ b, s'.image.FileBlock b → s'.at b = s.at b

theorem Grew.refl (s : Mount) : Grew s s := ⟨.refl s,.refl _,fun _ _ => rfl⟩

theorem Grew.trans {s s' s'' : Mount} (a : Grew s s') (b : Grew s' s'') (ok : s''.image.Ok) : Grew s s'' :=
  ⟨a.toDev.trans b.toDev,a.grows.trans b.grows,
    fun k f => (b.files k f).trans (a.files k (b.grows.fileBlock ok f))⟩

theorem Grew.out {s s' : Mount} (a : Grew s s') (o : Outcome) : Grew s (s'.out o) :=
  ⟨a.toDev.out o,a.grows,a.files⟩

theorem Grew.still {s s' : Mount} (dev : Dev s s') (image : s'.image = s.image)
    (files : ∀ b, s.image.FileBlock b → s'.at b = s.at b) : Grew s s' :=
  ⟨dev,by rw [image]; exact .refl _,by rw [image]; exact files⟩

theorem iblockRead_dev (s : Mount) (q a : UInt32) : Dev s (s.iblockRead q a) :=
  ⟨rfl,rfl,rfl,by simp [iblockRead,Disk.failed,Access.isFault],Nat.le_succ _⟩

theorem getIblockC_new {s : Mount} (v : s.Valid) (sound : s.disk.Sound) (placed : s.Placed) :
    ∃ s', getIblockC s (s.vol.hblock.nextInode / 32) true false = some s' ∧ Grew s s' ∧ s'.Valid ∧
      match s.image.needIblock with
      | .error e => s'.image = s.image ∧ s'.vol.outcome = e ∧ e ≠ .success ∧ e ≠ .diskRdErr
      | .ok m => s'.image = m ∧ s'.vol.outcome = .success ∧ s'.Placed ∧
          s'.vol.icindex = s.vol.hblock.nextInode / 32 := by
  have length : s.image.nodes.length / 32 = (s.vol.hblock.nextInode / 32).toNat := by
    rw [image_length,UInt32.toNat_div]; rfl
  have size : total s.image.iregs = s.itable.length := by unfold itable; rw [length_blocks]; rfl
  have clean : s.Clean := v.clean
  unfold getIblockC Image.needIblock
  rw [length,size]
  by_cases hit : s.vol.hblock.nextInode / 32 = s.vol.icindex
  · rw [if_neg (by simpa using hit),if_pos (by rw [hit]; exact placed)]
    exact ⟨_,rfl,(Grew.refl s).out _,v.out _,rfl,rfl,placed,hit.symm⟩
  · rw [if_pos hit]
    simp only [Bool.false_eq_true,if_false]
    by_cases inside : (s.vol.hblock.nextInode / 32).toNat < s.itable.length
    · rw [if_pos inside]
      have found := List.getElem?_eq_getElem inside
      have looked := iblockRead_looked v found
      refine ⟨_,cacheIblock_found v.toMid sound found true,?_,looked.valid,looked.image v,rfl,?_,rfl⟩
      · exact .still (iblockRead_dev _ _ _) (looked.image v) fun b _ => by rw [looked.at_eq]
      · exact inside
    · rw [if_neg inside]
      have scan := iblockScan_eq s.vol.hblock.rows (s.vol.hblock.nextInode / 32) (i := 0) (n := 0)
        (Nat.zero_le _)
      have none : (blocks (regions s.vol.hblock.rows))[(s.vol.hblock.nextInode / 32).toNat - 0]? = none :=
        List.getElem?_eq_none (Nat.le_of_not_lt inside)
      rw [HBlock.length_rows,none] at scan
      have stop : iblockScan s.vol.hblock.rows s.vol.hblock.separator.toNat 0 0 (s.vol.hblock.nextInode / 32) =
          .stop s.vol.hblock.regs.length := by
        rw [v.sep.separator]
        exact scan.trans (by rw [Nat.zero_add]; rfl)
      -- A failure leaves an index that names no block of the table.
      have beyond : ∀ (o : Outcome), ({s with vol := {s.vol with
          icindex := s.vol.hblock.nextInode / 32,icaddr := 0,outcome := o}} : Mount).Valid := by
        intro o
        refine v.recache ⟨rfl,rfl,rfl,rfl,rfl⟩ (fun h => absurd h inside) ?_ v.dclean v.xclean
        intro i h here
        have := v.slot h
        have equal : i / 32 = (s.vol.hblock.nextInode / 32).toNat := here
        omega
      have unchanged : ∀ (o : Outcome), ({s with vol := {s.vol with
          icindex := s.vol.hblock.nextInode / 32,icaddr := 0,outcome := o}} : Mount).image = s.image :=
        fun o => v.same_image (beyond o) ⟨rfl,rfl,rfl,rfl,rfl⟩
      unfold cacheIblock getIblock
      simp only [stop]
      by_cases all : s.image.iregs.length = 800
      · have all' : s.vol.hblock.regs.length = s.vol.hblock.separator.toNat := by rw [v.sep.separator]; exact all
        rw [if_pos all,if_pos all']
        exact ⟨_,rfl,.still ⟨rfl,rfl,rfl,rfl,Nat.le_refl _⟩ (unchanged _) fun _ _ => rfl,beyond _,unchanged _,rfl,
          by decide,by decide⟩
      · have all' : s.vol.hblock.regs.length ≠ s.vol.hblock.separator.toNat := by rw [v.sep.separator]; exact all
        rw [if_neg all,if_neg all']
        let s₁ : Mount := {s with vol := {s.vol with icindex := s.vol.hblock.nextInode / 32}}
        have v₁ : s₁.Valid := by
          refine v.recache ⟨rfl,rfl,rfl,rfl,rfl⟩ (fun h => absurd h inside) ?_ v.dclean v.xclean
          intro i h here
          have := v.slot h
          have equal : i / 32 = (s.vol.hblock.nextInode / 32).toNat := here
          omega
        have region := findFreeRegion_spec v₁.toMid s.vol.hblock.defaultIregLen false
        have ilen : s.image.ilen = s.vol.hblock.defaultIregLen.toNat := rfl
        have alloc₁ : s₁.image.alloc s.vol.hblock.defaultIregLen.toNat =
            (s.image.alloc s.image.ilen).map fun r => ({r.1 with nodes := s₁.image.nodes},r.2) := by
          unfold Image.alloc
          show (if s.image.nblocks < s.image.nextBlock + _ then _ else _) = _
          rw [ilen]
          split <;> rfl
        rw [alloc₁] at region
        cases taken : s.image.alloc s.image.ilen with
        | none =>
          rw [taken] at region
          simp only [s₁,Option.map_none] at region
          simp only [region,Option.bind_eq_bind,Option.bind_some]
          exact ⟨_,rfl,.still ⟨rfl,rfl,rfl,rfl,Nat.le_refl _⟩ (unchanged _) fun _ _ => rfl,beyond _,unchanged _,rfl,
            by decide,by decide⟩
        | some r =>
          obtain ⟨m,b⟩ := r
          obtain ⟨fits,rfl,rfl⟩ := Image.alloc_eq.mp taken
          rw [taken] at region
          simp only [Option.map_some] at region
          have edge : (s.vol.hblock.nextInode / 32).toNat = s.itable.length := by
            have := v.ok.inodes
            omega
          have outside : s.itable.length ≤ (s.vol.hblock.nextInode / 32).toNat := Nat.le_of_not_lt inside
          have few : s.vol.hblock.regs.length < 800 := by
            have := regions_length_le s.vol.hblock.rows
            rw [HBlock.length_rows] at this
            have ne : s.vol.hblock.regs.length ≠ 800 := all
            unfold HBlock.regs at ne ⊢
            omega
          have image := growTable_image v.toMid clean outside few
          have enough : s.image.needIblock = .ok (s.growTable (s.vol.hblock.nextInode / 32)).image := by
            unfold Image.needIblock
            rw [length,size,if_neg inside,if_neg all,taken,image]
          obtain ⟨mid,clean',placed'⟩ := growTable_mid v.toMid clean outside few edge (v.ok.needIblock enough).1
          have saved := saveHblock_saved (s := s.growTable (s.vol.hblock.nextInode / 32))
            ⟨sound.inodes,sound.writes⟩
          have image' := saved.image mid
          refine ⟨saveHblock (s.growTable (s.vol.hblock.nextInode / 32)),?_,⟨?_,?_,?_⟩,⟨saved.mid mid,by rw [image']; exact v.living.needIblock v.ok enough,saved.saved,?_⟩,
            ?_,saved.outcome,saved.placed placed',?_⟩
          · simp only [s₁] at region
            obtain ⟨_,word,_,run⟩ := region
            rw [← word] at run
            simp only [run,Option.bind_eq_bind,Option.bind_some]
            rw [if_neg (frontier_ne_zero v.toMid)]
            simp only [Bool.false_eq_true,if_false,if_true,Option.bind_some]
            rw [saveHblock_ok (by exact sound),saveHblock_ok (by exact sound)]
            rfl
          · have first : Dev s (s.growTable (s.vol.hblock.nextInode / 32)) := ⟨rfl,rfl,rfl,rfl,Nat.le_refl _⟩
            exact first.trans saved.toDev
          · rw [image']; exact growTable_grows v.toMid clean outside few
          · intro k f
            rw [image'] at f
            rw [saved.stay k (mid.fileBlock_small f).1 fun same => mid.ok.zero_not_file (same ▸ f)]; rfl
          · exact saved.clean mid mid.zero_free clean'
          · rw [image',image]
          · exact saved.icindex

-- The inode cache has turned to block q of the table, after saving the old block.
structure Turned (s s' : Mount) (q : UInt32) : Prop extends Dev s s' where
  mid : s'.Mid
  hblock : s'.vol.hblock = s.vol.hblock
  image : s'.image = s.image
  inode : ∀ i, i / 32 < s.itable.length → s'.inode i = s.inode i
  stay : ∀ b, b < 4294967296 → b ∉ s.itable → s'.at b = s.at b
  icindex : s'.vol.icindex = q
  outcome : s'.vol.outcome = .success
  dcaddr : s'.vol.dcaddr = s.vol.dcaddr
  dcache : s'.vol.dcache = s.vol.dcache
  xcaddr : s'.vol.xcaddr = s.vol.xcaddr
  xcache : s'.vol.xcache = s.vol.xcache

theorem Turned.itable_eq {s s' : Mount} {q : UInt32} (a : Turned s s' q) : s'.itable = s.itable := by
  unfold itable; rw [a.hblock]

theorem Turned.files {s s' : Mount} {q : UInt32} (a : Turned s s' q) (v : s.Mid) {b : Nat} (f : s.image.FileBlock b) :
    s'.at b = s.at b := a.stay b (v.fileBlock_small f).1 (v.fileBlock_small f).2

theorem Turned.saved {s s' : Mount} {q : UInt32} (a : Turned s s' q) (v : s.Mid) (saved : s.Saved) : s'.Saved := by
  unfold Saved
  rw [a.hblock,a.stay 0 (by decide) v.zero_free]; exact saved

theorem getIblockC_save {s : Mount} (v : s.Mid) (sound : s.disk.Sound) (placed : s.Placed) {q : UInt32} {b : Nat}
    (found : s.itable[q.toNat]? = some b) (saveH : Bool) :
    ∃ s', getIblockC s q saveH true = some s' ∧ Turned s s' q := by
  unfold getIblockC
  by_cases hit : q = s.vol.icindex
  · rw [if_neg (by simpa using hit)]
    exact ⟨_,rfl,(Dev.refl s).out _,v.out _,rfl,rfl,fun _ _ => rfl,fun _ _ _ => rfl,hit.symm,rfl,rfl,rfl,rfl,rfl⟩
  · rw [if_pos hit]
    simp only [if_true]
    have a := v.saveIblockC sound placed
    have table : (saveIblockC s).itable = s.itable := by unfold itable; rw [a.hblock]
    have found' : (saveIblockC s).itable[q.toNat]? = some b := by rw [table]; exact found
    have addr := UInt32.toNat_ofNat_of_lt' (Nat.lt_trans (itable_bounds v found).2 s.nextBlock_lt)
    rw [if_neg (by simp [a.outcome]),cacheIblock_found a.mid (a.toDev.sound sound) found' saveH]
    have there : ∀ i, i / 32 < s.itable.length →
        ((saveIblockC s).iblockRead q (UInt32.ofNat b)).inode i = s.inode i := by
      intro i inside
      rw [← a.disk i inside]
      by_cases here : i / 32 = q.toNat
      · rw [inode_here (by exact here)]
        symm
        refine diskInode_at (by rw [here]; exact found') ?_
        show _ = iblockLayout (iblockLayout.symm ((saveIblockC s).at (UInt32.ofNat b).toNat))
        rw [addr,Equiv.apply_symm_apply]
      · rw [inode_there (by exact here)]; rfl
    have inodes : ∀ i, i / 32 < s.itable.length →
        ((saveIblockC s).iblockRead q (UInt32.ofNat b)).inode i = (saveIblockC s).inode i :=
      fun i inside => (there i inside).trans (a.inode i inside).symm
    have slots : ∀ i, i < (saveIblockC s).vol.hblock.nextInode.toNat → i / 32 < s.itable.length := by
      intro i h
      have := a.mid.slot h
      rwa [table] at this
    have image : ((saveIblockC s).iblockRead q (UInt32.ofNat b)).image = (saveIblockC s).image :=
      image_congr ⟨rfl,rfl,rfl,rfl,rfl⟩ fun i h => inodes i (slots i h)
    refine ⟨_,rfl,a.toDev.trans (iblockRead_dev _ _ _),?_,a.hblock,image.trans a.image,there,a.stay,rfl,rfl,a.dcaddr,
      a.dcache,a.xcaddr,a.xcache⟩
    refine a.mid.next (by rw [image]; exact a.mid.ok) (by rw [image]; exact .refl _) a.mid.sep a.mid.htidy ?_ ?_ rfl rfl
      (fun _ _ => rfl) rfl rfl (fun _ _ => rfl)
    · intro i h
      rw [inodes i (slots i h)]; exact a.mid.itidy i h
    · intro _
      show (saveIblockC s).itable[q.toNat]? = some (UInt32.ofNat b).toNat
      rw [addr]; exact found'

end Mount
end ArchiveOs.Fs2
