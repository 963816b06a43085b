import ArchiveOs.Histories

-- What the operations that remove nothing may do to the image: nodes, regions and
-- entries are added behind the ones that are there.
namespace ArchiveOs.Fs2
open Extents

structure Node.Extends (n n' : Node) : Prop where
  ftype : n'.ftype = n.ftype
  fperm : n'.fperm = n.fperm
  iparent : n'.iparent = n.iparent
  regs : n.regs <+: n'.regs
  links : n.links <+: n'.links

namespace Node.Extends
variable {n n' n'' : Node}

theorem refl (n : Node) : Extends n n := ⟨rfl,rfl,rfl,List.prefix_refl _,List.prefix_refl _⟩

theorem trans (a : Extends n n') (b : Extends n' n'') : Extends n n'' :=
  ⟨b.ftype.trans a.ftype,b.fperm.trans a.fperm,b.iparent.trans a.iparent,a.regs.trans b.regs,a.links.trans b.links⟩

end Node.Extends

structure Image.Extends (m m' : Image) : Prop where
  nblocks : m'.nblocks = m.nblocks
  perm : m'.perm = m.perm
  ilen : m'.ilen = m.ilen
  flen : m'.flen = m.flen
  dlen : m'.dlen = m.dlen
  nextBlock : m.nextBlock ≤ m'.nextBlock
  iregs : m.iregs <+: m'.iregs
  length : m.nodes.length ≤ m'.nodes.length
  node : ∀ i,i < m.nodes.length → (m.node i).Extends (m'.node i)

namespace Image
variable {m m' m'' : Image}

namespace Extends

theorem refl (m : Image) : Extends m m :=
  ⟨rfl,rfl,rfl,rfl,rfl,Nat.le_refl _,List.prefix_refl _,Nat.le_refl _,fun _ _ => .refl _⟩

theorem trans (a : Extends m m') (b : Extends m' m'') : Extends m m'' where
  nblocks := b.nblocks.trans a.nblocks
  perm := b.perm.trans a.perm
  ilen := b.ilen.trans a.ilen
  flen := b.flen.trans a.flen
  dlen := b.dlen.trans a.dlen
  nextBlock := Nat.le_trans a.nextBlock b.nextBlock
  iregs := a.iregs.trans b.iregs
  length := Nat.le_trans a.length b.length
  node i h := (a.node i h).trans (b.node i (Nat.lt_of_lt_of_le h a.length))

theorem advance (m : Image) (len : Nat) : Extends m {m with nextBlock := m.nextBlock + len} :=
  ⟨rfl,rfl,rfl,rfl,rfl,Nat.le_add_right ..,List.prefix_refl _,Nat.le_refl _,fun _ _ => .refl _⟩

theorem setNode {i : Nat} {n : Node} (h : i < m.nodes.length) (more : (m.node i).Extends n) : Extends m (m.setNode i n) where
  nblocks := rfl
  perm := rfl
  ilen := rfl
  flen := rfl
  dlen := rfl
  nextBlock := Nat.le_refl _
  iregs := List.prefix_refl _
  length := by rw [length_setNode]
  node j _ := by
    rw [node_setNode n j h]
    split
    · rename_i same
      rw [same]
      exact more
    · exact .refl _

theorem push (m : Image) (n : Node) : Extends m (m.push n) where
  nblocks := rfl
  perm := rfl
  ilen := rfl
  flen := rfl
  dlen := rfl
  nextBlock := Nat.le_refl _
  iregs := List.prefix_refl _
  length := by rw [length_push]; exact Nat.le_succ _
  node j h := by
    rw [node_push,if_neg (Nat.ne_of_lt h)]
    exact .refl _

theorem needIblock (enough : m.needIblock = .ok m') : Extends m m' := by
  unfold Image.needIblock at enough
  split at enough
  · cases enough
    exact .refl m
  · split at enough
    · cases enough
    · split at enough
      · cases enough
      · rename_i region
        obtain ⟨_,rfl,rfl⟩ := alloc_eq.mp region
        cases enough
        exact ⟨rfl,rfl,rfl,rfl,rfl,Nat.le_add_right ..,List.prefix_append ..,Nat.le_refl _,fun _ _ => .refl _⟩

end Extends

theorem link_cases {p : Nat} (name : List UInt8) (child : Nat) (h : p < m.nodes.length) :
    ((m.link p name child).2 ≠ .success ∧ (m.link p name child).1 = m) ∨
    ((m.link p name child).2 = .success ∧ m.Extends (m.link p name child).1 ∧
      ((m.link p name child).1.node p).links = (m.node p).links ++ [⟨name.take 28,child⟩] ∧
      ((m.link p name child).1.node p).eof = (m.node p).eof + 1 ∧
      (m.link p name child).1.nodes.length = m.nodes.length ∧
      ∀ j,j ≠ p → (m.link p name child).1.node j = m.node j) := by
  unfold link
  dsimp only
  split
  · refine .inr ⟨rfl,.setNode h ⟨rfl,rfl,rfl,List.prefix_refl _,List.prefix_append ..⟩,?_,?_,length_setNode ..,?_⟩
    · rw [node_setNode _ p h,if_pos rfl]
    · rw [node_setNode _ p h,if_pos rfl]
    · intro j other
      rw [node_setNode _ j h,if_neg other]
  · split
    · exact .inl ⟨fun wrong => (nomatch wrong),rfl⟩
    · cases region : m.alloc m.dlen with
      | none => exact .inl ⟨fun wrong => (nomatch wrong),rfl⟩
      | some r =>
          obtain ⟨m',b⟩ := r
          obtain ⟨_,rfl,rfl⟩ := alloc_eq.mp region
          have h' : p < ({m with nextBlock := m.nextBlock + m.dlen} : Image).nodes.length := h
          dsimp only
          refine .inr ⟨rfl,?_,?_,?_,length_setNode ..,?_⟩
          · refine (Extends.advance m m.dlen).trans (.setNode h' ⟨rfl,rfl,rfl,List.prefix_append ..,List.prefix_append ..⟩)
          · rw [node_setNode _ p h',if_pos rfl]
          · rw [node_setNode _ p h',if_pos rfl]
          · intro j other
            rw [node_setNode _ j h',if_neg other]
            rfl

theorem link_extends {p child : Nat} {name : List UInt8} (h : p < m.nodes.length) :
    m.Extends (m.link p name child).1 := by
  rcases link_cases name child h with ⟨_,same⟩ | ⟨_,more,_⟩
  · rw [same]
    exact .refl m
  · exact more

-- What a directory of before gets by the creation of a file in it.
structure Appended (m m' : Image) (p : Nat) (name : List UInt8) : Prop extends Extends m m' where
  others : ∀ d,d < m.nodes.length → d ≠ p → m'.node d = m.node d
  parent : (m'.node p).links = (m.node p).links ∨ (m'.node p).links = (m.node p).links ++ [⟨name.take 28,m.nodes.length⟩]

theorem Appended.pushed {m₁ : Image} (extends_ : m.Extends m₁) (length : m₁.nodes.length = m.nodes.length)
    (same : ∀ d,m₁.node d = m.node d) (n : Node) {p : Nat} (name : List UInt8) (h : p < m.nodes.length) :
    Appended m ((m₁.push n).link p name m.nodes.length).1 p name := by
  have h' : p < (m₁.push n).nodes.length := by rw [length_push]; omega
  have old : ∀ d,d < m.nodes.length → (m₁.push n).node d = m.node d := by
    intro d hd
    rw [node_push,if_neg (by omega),same]
  refine ⟨(extends_.trans (.push m₁ n)).trans (link_extends h'),?_,?_⟩
  · intro d hd other
    rcases link_cases name m.nodes.length h' with ⟨_,none⟩ | ⟨_,_,_,_,_,others⟩
    · rw [none,old d hd]
    · rw [others d other,old d hd]
  · rcases link_cases name m.nodes.length h' with ⟨_,none⟩ | ⟨_,_,links,_⟩
    · rw [none,old p h]
      exact .inl rfl
    · rw [links,old p h]
      exact .inr rfl

theorem Appended.refl (m : Image) (p : Nat) (name : List UInt8) : Appended m m p name :=
  ⟨.refl m,fun _ _ _ => rfl,.inl rfl⟩

theorem needIblock_nodes (enough : m.needIblock = .ok m') : m'.nodes = m.nodes := by
  unfold Image.needIblock at enough
  split at enough
  · cases enough
    rfl
  · split at enough
    · cases enough
    · split at enough
      · cases enough
      · rename_i region
        obtain ⟨_,rfl,rfl⟩ := alloc_eq.mp region
        cases enough
        rfl

theorem createFile_appended {p : Nat} (name : List UInt8) (ftype : UInt8) (h : p < m.nodes.length) :
    Appended m (m.createFile name p ftype).1 p name := by
  unfold createFile
  dsimp only
  cases need : m.needIblock with
  | error e => exact .refl m p name
  | ok m₁ =>
      have more := Extends.needIblock need
      have nodes := needIblock_nodes need
      have same : ∀ d,m₁.node d = m.node d := fun d => by unfold node; rw [nodes]
      have length : m₁.nodes.length = m.nodes.length := by rw [nodes]
      dsimp only
      split
      · cases region : m₁.alloc m₁.dlen with
        | none => exact ⟨more,fun d _ _ => same d,.inl (by rw [same])⟩
        | some r =>
            obtain ⟨m',b⟩ := r
            obtain ⟨_,rfl,rfl⟩ := alloc_eq.mp region
            exact .pushed (more.trans (.advance m₁ m₁.dlen)) length same _ name h
      · exact .pushed more length same _ name h

-- The name that fs2_create gives to a new file.
def newName (path : List UInt8) : List UInt8 :=
  let split := splitBack path (path.length - 1)
  path.drop (if split = 0 then split else split + 1)

theorem create_appended (good : m.Good) (ftype : UInt8) (path : List UInt8) :
    ∃ p,p < m.nodes.length ∧ Appended m (m.create ftype path).1 p (newName path) := by
  have root := good.root.1
  unfold create
  cases m.resolve path with
  | ok r => exact ⟨0,root,.refl ..⟩
  | error e =>
      cases e with
      | noFile =>
          dsimp only
          unfold createParent
          dsimp only
          split
          · exact ⟨0,root,.refl ..⟩
          · split
            · exact ⟨0,root,createFile_appended _ _ root⟩
            · split
              · exact ⟨0,root,.refl ..⟩
              · rename_i p q found
                have exist := ((resolve_attached good found).alive good).1
                exact ⟨p,exist,createFile_appended _ _ exist⟩
      | _ => exact ⟨0,root,.refl ..⟩

-- Writing: one file may get regions behind its own, and another length.
structure Rewritten (m m' : Image) (i : Nat) : Prop extends Extends m m' where
  length_eq : m'.nodes.length = m.nodes.length
  table : m'.iregs = m.iregs
  others : ∀ j,j ≠ i → m'.node j = m.node j
  links : (m'.node i).links = (m.node i).links

namespace Rewritten
variable {i : Nat}

theorem refl (m : Image) (i : Nat) : Rewritten m m i := ⟨.refl m,rfl,rfl,fun _ _ => rfl,rfl⟩

theorem trans (a : Rewritten m m' i) (b : Rewritten m' m'' i) : Rewritten m m'' i :=
  ⟨a.toExtends.trans b.toExtends,b.length_eq.trans a.length_eq,b.table.trans a.table,
    fun j other => (b.others j other).trans (a.others j other),b.links.trans a.links⟩

theorem growAt (h : i < m.nodes.length) (sz : Nat) : Rewritten m (m.growAt i sz) i := by
  refine ⟨(Extends.advance m sz).trans (.setNode h ⟨rfl,rfl,rfl,List.prefix_append ..,List.prefix_refl _⟩),
    length_setNode ..,rfl,?_,?_⟩
  · intro j other
    rw [node_growAt sz h,if_neg other]
  · rw [node_growAt sz h,if_pos rfl]

theorem blkOrGrow {q sz b : Nat} (h : i < m.nodes.length) (found : m.blkOrGrow i q sz = .ok (m',b)) :
    Rewritten m m' i := by
  cases at_q : (blocks (m.node i).regs)[q]? with
  | some b' =>
      rw [blkOrGrow_some at_q] at found
      cases found
      exact .refl m i
  | none =>
      rw [blkOrGrow_none at_q] at found
      split at found
      · cases found
      · split at found
        · cases found
        · cases found
          exact growAt h sz

theorem writeLoop (h : i < m.nodes.length) (nbytes : UInt32) (n blkind wcount : Nat) :
    Rewritten m (Image.writeLoop i nbytes n m blkind wcount).1.image i := by
  induction n generalizing m blkind wcount with
  | zero => exact .refl m i
  | succ n ih =>
      unfold Image.writeLoop
      cases found : m.blkOrGrow i (blkind + 1) (growLenInt (toInt (nbytes - UInt32.ofNat wcount))).toNat with
      | error e => exact .refl m i
      | ok r =>
          have grown := blkOrGrow h found
          exact grown.trans (ih (by rw [grown.length_eq]; exact h) (blkind + 1) (wcount + blockSz))

theorem writeAt {w : Written} {nbytes cursor : UInt32} (h : i < m.nodes.length)
    (wrote : m.writeAt i nbytes cursor = .ok w) : Rewritten m w.image i := by
  unfold Image.writeAt at wrote
  dsimp only at wrote
  split at wrote
  · cases wrote
  · rename_i m₁ b found
    have first := blkOrGrow h found
    have h₁ : i < m₁.nodes.length := by rw [first.length_eq]; exact h
    have loop := writeLoop h₁ nbytes ((nbytes.toNat - min nbytes.toNat (blockSz - cursor.toNat % blockSz)) / blockSz)
      (cursor.toNat / blockSz) (min nbytes.toNat (blockSz - cursor.toNat % blockSz))
    split at wrote
    · cases wrote
      exact first.trans loop
    · split at wrote
      · cases wrote
        exact first.trans loop
      · rename_i m₂ b₂ last
        cases wrote
        exact (first.trans loop).trans (blkOrGrow (by rw [loop.length_eq]; exact h₁) last)

theorem setEof (h : i < m.nodes.length) (eof : Nat) : Rewritten m (m.setNode i {m.node i with eof := eof}) i := by
  refine ⟨.setNode h ⟨rfl,rfl,rfl,List.prefix_refl _,List.prefix_refl _⟩,length_setNode ..,rfl,?_,?_⟩
  · intro j other
    rw [node_setNode _ j h,if_neg other]
  · rw [node_setNode _ i h,if_pos rfl]

end Rewritten

theorem write_rewritten (good : m.Good) (path : List UInt8) (nbytes cursor : UInt32) :
    (m.write path nbytes cursor).1 = m ∨ ∃ i q,m.resolve path = .ok (i,q) ∧ i < m.nodes.length ∧
      (m.node i).ftype = ftypeFile ∧ Rewritten m (m.write path nbytes cursor).1 i := by
  unfold write
  cases found : m.resolve path with
  | error e => exact .inl rfl
  | ok r =>
      obtain ⟨i,q⟩ := r
      have h := ((resolve_attached good found).alive good).1
      dsimp only
      split
      · exact .inl rfl
      · rename_i file
        cases wrote : m.writeAt i nbytes cursor with
        | error e => exact .inl rfl
        | ok w =>
            have more := Rewritten.writeAt h wrote
            exact .inr ⟨i,q,rfl,h,not_not.mp file,more.trans (.setEof (by rw [more.length_eq]; exact h) _)⟩

theorem apply_extends (good : m.Good) (op : Op) : m.Extends (op.apply m) := by
  cases op with
  | create ftype path =>
      obtain ⟨p,_,appended⟩ := create_appended good ftype path.bytes
      exact appended.toExtends
  | write path src nbytes cursor =>
      rcases write_rewritten good path.bytes nbytes cursor with same | ⟨i,q,_,_,_,more⟩
      · show m.Extends (m.write path.bytes nbytes cursor).1
        rw [same]
        exact .refl m
      · exact more.toExtends
  | read => exact .refl m
  | isftype => exact .refl m
  | ls => exact .refl m

end Image
end ArchiveOs.Fs2
