import ArchiveOs.Effects
import ArchiveOs.Finds
import ArchiveOs.Twins

-- What a write leaves alone: other inodes, the blocks of other files and of all
-- directories, and where paths lead.
namespace ArchiveOs.Fs2
open Extents Layout

namespace Image
variable {m m' m'' : Image} {i : Nat}

-- The blocks that a write to file i may store to: its own, and those that are free.
def Reach (m : Image) (i b : Nat) : Prop := b ∈ Extents.blocks (m.node i).regs ∨ m.nextBlock ≤ b

-- A file that takes regions from the frontier reaches no further than before.
def Narrows (m m' : Image) (i : Nat) : Prop := ∀ b,m'.Reach i b → m.Reach i b

theorem Narrows.refl (m : Image) (i : Nat) : m.Narrows m i := fun _ => id

theorem Narrows.trans (a : m.Narrows m' i) (b : m'.Narrows m'' i) : m.Narrows m'' i := fun c reach => a c (b c reach)

theorem growAt_narrows (h : i < m.nodes.length) (sz : Nat) : m.Narrows (m.growAt i sz) i := by
  rintro b (own | free)
  · rw [node_growAt sz h,if_pos rfl] at own
    rw [blocks_append,List.mem_append] at own
    rcases own with old | new
    · exact .inl old
    · obtain ⟨r,member,bounds⟩ := mem_blocks.mp new
      rw [List.mem_singleton.mp member] at bounds
      exact .inr bounds.1
  · exact .inr ((Nat.le_add_right m.nextBlock sz).trans free)

theorem blkOrGrow_reach {q sz b : Nat} (h : i < m.nodes.length) (found : m.blkOrGrow i q sz = .ok (m',b)) :
    m.Reach i b ∧ m.Narrows m' i := by
  cases at_q : (Extents.blocks (m.node i).regs)[q]? with
  | some b' =>
      rw [blkOrGrow_some at_q] at found
      cases found
      exact ⟨.inl (List.mem_of_getElem? at_q),.refl m i⟩
  | none =>
      rw [blkOrGrow_none at_q] at found
      split at found
      · cases found
      · split at found
        · cases found
        · cases found
          exact ⟨.inr (Nat.le_refl _),growAt_narrows h sz⟩

theorem writeLoop_reach (h : i < m.nodes.length) (nbytes : UInt32) (n blkind wcount : Nat) :
    (∀ p ∈ (Image.writeLoop i nbytes n m blkind wcount).1.puts,m.Reach i p.block) ∧
      m.Narrows (Image.writeLoop i nbytes n m blkind wcount).1.image i := by
  induction n generalizing m blkind wcount with
  | zero =>
      refine ⟨fun p member => ?_,.refl m i⟩
      cases member
  | succ n ih =>
      unfold Image.writeLoop
      cases found : m.blkOrGrow i (blkind + 1) (growLenInt (toInt (nbytes - UInt32.ofNat wcount))).toNat with
      | error e =>
          refine ⟨fun p member => ?_,.refl m i⟩
          cases member
      | ok r =>
          obtain ⟨m₁,b⟩ := r
          obtain ⟨reach,narrows⟩ := blkOrGrow_reach h found
          have h₁ : i < m₁.nodes.length := by rw [(Rewritten.blkOrGrow h found).length_eq]; exact h
          obtain ⟨rest,narrows'⟩ := ih h₁ (blkind + 1) (wcount + blockSz)
          refine ⟨fun p member => ?_,narrows.trans narrows'⟩
          rcases List.mem_cons.mp member with rfl | later
          · exact reach
          · exact narrows _ (rest p later)

theorem writeAt_reach {w : Written} {nbytes cursor : UInt32} (h : i < m.nodes.length)
    (wrote : m.writeAt i nbytes cursor = .ok w) : ∀ p ∈ w.puts,m.Reach i p.block := by
  unfold Image.writeAt at wrote
  dsimp only at wrote
  split at wrote
  · cases wrote
  · rename_i m₁ b found
    obtain ⟨reach,narrows⟩ := blkOrGrow_reach h found
    have h₁ : i < m₁.nodes.length := by rw [(Rewritten.blkOrGrow h found).length_eq]; exact h
    obtain ⟨loop,narrows'⟩ := writeLoop_reach h₁ nbytes
      ((nbytes.toNat - min nbytes.toNat (blockSz - cursor.toNat % blockSz)) / blockSz) (cursor.toNat / blockSz)
      (min nbytes.toNat (blockSz - cursor.toNat % blockSz))
    have first : ∀ p ∈ (⟨cursor.toNat / blockSz,b,cursor.toNat % blockSz,0,
        min nbytes.toNat (blockSz - cursor.toNat % blockSz)⟩ : Put) :: (Image.writeLoop i nbytes
        ((nbytes.toNat - min nbytes.toNat (blockSz - cursor.toNat % blockSz)) / blockSz) m₁ (cursor.toNat / blockSz)
        (min nbytes.toNat (blockSz - cursor.toNat % blockSz))).1.puts,m.Reach i p.block := by
      intro p member
      rcases List.mem_cons.mp member with rfl | later
      · exact reach
      · exact narrows _ (loop p later)
    have length := (Rewritten.writeLoop h₁ nbytes
      ((nbytes.toNat - min nbytes.toNat (blockSz - cursor.toNat % blockSz)) / blockSz) (cursor.toNat / blockSz)
      (min nbytes.toNat (blockSz - cursor.toNat % blockSz))).length_eq
    split at wrote
    · cases wrote
      exact first
    · split at wrote
      · cases wrote
        exact first
      · rename_i m₂ b₂ last
        cases wrote
        intro p member
        rcases List.mem_append.mp member with before | last_
        · exact first p before
        · rw [List.mem_singleton.mp last_]
          exact narrows _ (narrows' _ (blkOrGrow_reach (by rw [length]; exact h₁) last).1)

theorem puts_other (src : Nat → UInt8) {b : Nat} (ps : List Put) (c : (Nat → Block) × Block)
    (other : ∀ p ∈ ps,p.block ≠ b) : (puts src ps c).1 b = c.1 b := by
  induction ps generalizing c with
  | nil => rfl
  | cons p rest ih =>
      refine (ih (p.apply src c) fun p' member => other p' (List.mem_cons_of_mem _ member)).trans ?_
      exact Function.update_of_ne (other p List.mem_cons_self).symm _ _

theorem Written.stores_other {w : Written} (src : Nat → UInt8) (rd : Nat → Block) {b : Nat}
    (other : ∀ p ∈ w.puts,p.block ≠ b) : w.stores src rd b = rd b := by
  unfold Written.stores
  cases shape : w.puts with
  | nil => rfl
  | cons p ps =>
      rw [shape] at other
      exact puts_other src (p :: ps) (rd,rd p.block) other

theorem stores_other (ok : m.Ok) {path : List UInt8} (src : Nat → UInt8) (nbytes cursor : UInt32) (rd : Nat → Block) {j b : Nat}
    (exist : ∀ i q,m.resolve path = .ok (i,q) → i < m.nodes.length) (other : ∀ q,m.resolve path ≠ .ok (j,q))
    (own : b ∈ Extents.blocks (m.node j).regs) : m.stores path src nbytes cursor rd b = rd b := by
  unfold stores
  cases found : m.resolve path with
  | error e => rfl
  | ok r =>
      obtain ⟨i,q⟩ := r
      dsimp only
      split
      · rfl
      · cases wrote : m.writeAt i nbytes cursor with
        | error e => rfl
        | ok w =>
            refine Written.stores_other src rd fun p member same => ?_
            rcases writeAt_reach (exist i q found) wrote p member with mine | free
            · have one := ok.packed.apart (some i) (some j) p.block mine (by rw [same]; exact own)
              exact other q (by rw [found,Option.some.inj one])
            · have below := (ok.packed.within (some j) b own).2
              omega

theorem Rewritten.lookup (w : Rewritten m m' i) (file : (m.node i).ftype ≠ ftypeDir) (file' : (m'.node i).ftype ≠ ftypeDir)
    (d : Nat) (name : List UInt8) : m'.lookup d name = m.lookup d name := by
  unfold Image.lookup
  by_cases same : d = i
  · rw [same,if_pos file,if_pos file']
  · rw [w.others d same]

theorem Rewritten.walk (w : Rewritten m m' i) (file : (m.node i).ftype ≠ ftypeDir) (file' : (m'.node i).ftype ≠ ftypeDir)
    (d : Nat) (names : List (List UInt8)) : m'.walk d names = m.walk d names := by
  induction names generalizing d with
  | nil => rfl
  | cons name rest ih =>
      unfold Image.walk
      rw [w.lookup file file']
      split
      · rfl
      · cases m.lookup d name with
        | error e => rfl
        | ok child => simp only [ih]

theorem Rewritten.resolve (w : Rewritten m m' i) (file : (m.node i).ftype ≠ ftypeDir) (exist : i < m.nodes.length)
    (path : List UInt8) : m'.resolve path = m.resolve path := by
  have file' : (m'.node i).ftype ≠ ftypeDir := by rw [(w.node i exist).ftype]; exact file
  unfold Image.resolve
  rw [w.walk file file']

end Image

namespace Mount
variable {s s' : Mount}

-- fs2_find_file gives inode i.
def Resolves (s : Mount) (path : Path) (i : UInt32) : Prop :=
  ∃ t p,findFile s path.bytes = some (t,i,p) ∧ t.vol.outcome = .success

theorem resolves_iff (v : s.Valid) (works : s.disk.Works) (path : Path) (i : UInt32) :
    s.Resolves path i ↔ ∃ q,s.image.resolve path.bytes = .ok (i.toNat,q) := by
  obtain ⟨t,r,p,run,_,_,result⟩ := findFile_look v works.sound path.bytes path.noNul
  have calm := Works.not_faulty works
  constructor
  · rintro ⟨t',p',run',success⟩
    cases run.symm.trans run'
    rcases result with ⟨_,found⟩ | ⟨_,faulty,_⟩
    · cases hit : s.image.resolve path.bytes with
      | error e =>
          rw [hit] at found
          exact ((Image.resolve_error hit).1 (found.2.2.symm.trans success)).elim
      | ok r' =>
          obtain ⟨j,q⟩ := r'
          rw [hit] at found
          exact ⟨q,by rw [found.1]⟩
    · exact (calm faulty).elim
  · rintro ⟨q,hit⟩
    rw [hit] at result
    rcases result with ⟨_,index,_,success⟩ | ⟨_,faulty,_⟩
    · have same : r = i := UInt32.toNat_inj.mp index
      subst same
      exact ⟨t,p,run,success⟩
    · exact (calm faulty).elim

theorem resolves_word (v : s.Valid) (works : s.disk.Works) (path : Path) {i : Nat} {q : Option Nat}
    (found : s.image.resolve path.bytes = .ok (i,q)) : ∃ x : UInt32,x.toNat = i ∧ s.Resolves path x := by
  have exist := ((Image.resolve_attached v.good found).alive v.good).1
  rw [image_length] at exist
  have word := s.vol.hblock.nextInode.toNat_lt
  have same : (UInt32.ofNat i).toNat = i := by
    rw [UInt32.toNat_ofNat']
    exact Nat.mod_eq_of_lt (by omega)
  exact ⟨UInt32.ofNat i,same,(resolves_iff v works path _).mpr ⟨q,by rw [found,same]⟩⟩

-- What a write to a path leaves as it was.
structure Framed (s s' : Mount) (path : Path) : Prop where
  nextInode : s'.vol.hblock.nextInode = s.vol.hblock.nextInode
  inodes : ∀ j : UInt32,j.toNat < s.vol.hblock.nextInode.toNat → ¬ s.Resolves path j → s'.node j.toNat = s.node j.toNat
  contents : ∀ j : UInt32,j.toNat < s.vol.hblock.nextInode.toNat → ¬ s.Resolves path j →
    ∀ b ∈ blocks (s.inode j.toNat).regs,s'.at b = s.at b
  paths : ∀ path' j,s'.Resolves path' j ↔ s.Resolves path' j

theorem write_frames (history : History AnyOp s) (path : Path) (src : Nat → UInt8) (nbytes cursor : UInt32) :
    ∃ s' r,write s path src nbytes cursor = some (s',r) ∧ Framed s s' path := by
  obtain ⟨v,works⟩ := history.valid
  obtain ⟨s',r,run,ended⟩ := write_spec v works.sound path src nbytes cursor fun _ t => works.reads t _
  refine ⟨s',r,run,?_⟩
  rcases ended with ⟨written,_⟩ | ⟨halted,_⟩
  · have nodes : s.vol.hblock.nextInode = s'.vol.hblock.nextInode ∧
        (∀ j,(∀ q,s.image.resolve path.bytes ≠ .ok (j,q)) → s'.image.node j = s.image.node j) ∧
        ∀ path',s'.image.resolve path' = s.image.resolve path' := by
      rcases Image.write_rewritten v.good path.bytes nbytes cursor with same | ⟨i,q,found,exist,file,rewritten⟩
      · rw [← written.image] at same
        exact ⟨(nextInode_eq (by rw [same])).symm,fun _ _ => by rw [same],fun _ => by rw [same]⟩
      · rw [← written.image] at rewritten
        have plain : (s.image.node i).ftype ≠ ftypeDir := by rw [file]; decide
        refine ⟨(nextInode_eq rewritten.length_eq).symm,fun j other => rewritten.others j ?_,
          rewritten.resolve plain exist⟩
        intro same
        exact other q (by rw [same,found])
    obtain ⟨count,same,resolve⟩ := nodes
    have works' := Works.dev works written.toDev
    -- The inode is none that the path leads to.
    have unnamed : ∀ j : UInt32,¬ s.Resolves path j → ∀ q,s.image.resolve path.bytes ≠ .ok (j.toNat,q) :=
      fun j other q found => other ((resolves_iff v works path j).mpr ⟨q,found⟩)
    refine ⟨count.symm,?_,?_,?_⟩
    · intro j exist other
      rw [← image_node s exist,← same j.toNat (unnamed j other)]
      exact (image_node s' (by rw [← count]; exact exist)).symm
    · intro j exist other b member
      have node := image_node s exist
      have length : j.toNat < s.image.nodes.length := by rw [image_length]; exact exist
      have own : b ∈ blocks (s.image.node j.toNat).regs := by rw [node]; exact member
      by_cases dir : (s.image.node j.toNat).ftype = ftypeDir
      · exact written.dirs b (v.ok.dirBlock dir own)
      · rw [written.bytes b (.inl ⟨j.toNat,length,dir,own⟩)]
        exact Image.stores_other v.ok src nbytes cursor s.at
          (fun i q found => ((Image.resolve_attached v.good found).alive v.good).1) (unnamed j other) own
    · intro path' j
      rw [resolves_iff written.valid works',resolves_iff v works,resolve]
  · exact (Works.not_faulty works halted.faulty).elim

-- A new file, and a write to it.
theorem write_frames_formatted : ∃ s s' r,History AnyOp s ∧ write s fileAb (fun _ => 0) 5000 0 = some (s',r) ∧
    Framed s s' fileAb := by
  obtain ⟨s,formatted,_⟩ := formats 3 passes_boot (by decide)
  have fits : Op.Fits s (.create ftypeFile fileAb) := trivial
  obtain ⟨t,_,history,_⟩ := (History.format formatted : History AnyOp s).next fits trivial
  obtain ⟨t',r,run,framed⟩ := write_frames history fileAb (fun _ => 0) 5000 0
  exact ⟨t,t',r,history,run,framed⟩

end Mount
end ArchiveOs.Fs2
