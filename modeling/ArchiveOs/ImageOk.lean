import ArchiveOs.Image

-- Well-formed images, and that creating, linking and writing keep them so.
namespace ArchiveOs.Fs2
open Extents

-- A removed directory keeps its inode but has no region.
def Node.Alive (n : Node) : Prop := n.ftype = ftypeDir → n.regs ≠ []

structure DirOk (m : Image) (i : Nat) : Prop where
  positive : ∀ r ∈ (m.node i).regs, 0 < r.len
  count : (m.node i).links.length = (m.node i).eof
  fits : (m.node i).eof ≤ 128 * total (m.node i).regs
  self : (m.node i).links[0]? = some ⟨Image.dot,i⟩
  up : (m.node i).links[1]? = some ⟨Image.dotdot,(m.node i).iparent⟩
  parent : (m.node i).iparent ≤ i
  child : ∀ (k : Nat) (l : Link), 2 ≤ k → (m.node i).links[k]? = some l →
    i < l.inode ∧ l.inode < m.nodes.length ∧ (m.node l.inode).iparent = i
  distinct : ∀ (k k' : Nat) (l l' : Link), 2 ≤ k → 2 ≤ k' → (m.node i).links[k]? = some l →
    (m.node i).links[k']? = some l' → l.inode = l'.inode → k = k'

structure Image.Ok (m : Image) : Prop where
  room : m.nblocks + 255 < 4294967296
  lower : 1 ≤ m.nextBlock
  upper : m.nextBlock ≤ m.nblocks
  ilen : 0 < m.ilen ∧ m.ilen < 256
  flen : 0 < m.flen ∧ m.flen < 256
  dlen : 0 < m.dlen ∧ m.dlen < 256
  packed : Packed m.own 1 m.nextBlock
  inodes : m.nodes.length ≤ 32 * total m.iregs
  dirs : ∀ i, i < m.nodes.length → (m.node i).ftype = ftypeDir → (m.node i).regs ≠ [] → DirOk m i
  root : 0 < m.nodes.length ∧ (m.node 0).ftype = ftypeDir ∧ (m.node 0).regs ≠ []

namespace Image

@[simp] theorem alloc_eq {m m' : Image} {len b : Nat} :
    m.alloc len = some (m',b) ↔
      m.nextBlock + len ≤ m.nblocks ∧ m' = {m with nextBlock := m.nextBlock + len} ∧ b = m.nextBlock := by
  unfold alloc
  split
  · constructor
    · intro impossible; cases impossible
    · intro ⟨fits,_⟩; omega
  · rename_i fits
    simp only [Option.some.injEq,Prod.mk.injEq]
    constructor
    · rintro ⟨rfl,rfl⟩; exact ⟨by omega,rfl,rfl⟩
    · rintro ⟨_,rfl,rfl⟩; exact ⟨rfl,rfl⟩

theorem alloc_none {m : Image} {len : Nat} : m.alloc len = none ↔ m.nblocks < m.nextBlock + len := by
  simp [alloc]

theorem node_lt {m : Image} {i : Nat} (h : i < m.nodes.length) : m.node i = m.nodes[i] := by
  simp [node,h]

theorem node_ge {m : Image} {i : Nat} (h : m.nodes.length ≤ i) : m.node i = default := by
  simp [node,List.getD_eq_getElem?_getD,h]

@[simp] theorem length_setNode (m : Image) (i : Nat) (n : Node) :
    (m.setNode i n).nodes.length = m.nodes.length := by simp [setNode]

theorem node_setNode {m : Image} {i : Nat} (n : Node) (j : Nat) (h : i < m.nodes.length) :
    (m.setNode i n).node j = if j = i then n else m.node j := by
  unfold node setNode
  by_cases same : j = i
  · subst same; simp [List.getD_eq_getElem?_getD,h]
  · have other : i ≠ j := fun e => same e.symm
    simp [List.getD_eq_getElem?_getD,List.getElem?_set_ne other,same]

theorem setNode_same {m : Image} {i : Nat} {n : Node} (h : i < m.nodes.length) (same : m.node i = n) :
    m.setNode i n = m := by
  rw [node_lt h] at same
  unfold setNode
  rw [← same,List.set_getElem_self]

theorem node_push (m : Image) (n : Node) (j : Nat) :
    (m.push n).node j = if j = m.nodes.length then n else m.node j := by
  unfold node push
  rcases Nat.lt_trichotomy j m.nodes.length with less | rfl | more
  · have : j ≠ m.nodes.length := by omega
    simp [List.getD_eq_getElem?_getD,List.getElem?_append_left less,this]
  · simp
  · have ne : j ≠ m.nodes.length := by omega
    have beyond : m.nodes.length + 1 ≤ j := by omega
    simp only [List.getD_eq_getElem?_getD,if_neg ne]
    rw [List.getElem?_eq_none (by simp; omega),List.getElem?_eq_none (by omega)]

@[simp] theorem length_push (m : Image) (n : Node) : (m.push n).nodes.length = m.nodes.length + 1 := by
  simp [push]

theorem own_setNode {m : Image} {i : Nat} (n : Node) (h : i < m.nodes.length) :
    (m.setNode i n).own = Function.update m.own (some i) n.regs := by
  funext o
  cases o with
  | none => rfl
  | some j =>
    by_cases same : j = i
    · subst same; rw [Function.update_self]; simp [own,node_setNode n j h]
    · rw [Function.update_of_ne (by simpa using same)]; simp [own,node_setNode n j h,same]

theorem own_push (m : Image) (n : Node) :
    (m.push n).own = Function.update m.own (some m.nodes.length) n.regs := by
  funext o
  cases o with
  | none => rfl
  | some j =>
    by_cases same : j = m.nodes.length
    · subst same; rw [Function.update_self]; simp [own,node_push]
    · rw [Function.update_of_ne (by simpa using same)]; simp [own,node_push,same]

theorem own_fresh (m : Image) : m.own (some m.nodes.length) = [] := by
  simp [own,node_ge (Nat.le_refl _)]; rfl

end Image

namespace DirOk
variable {m : Image}
open Image

theorem link_lt {i k : Nat} {l : Link} (d : DirOk m i) (h : i < m.nodes.length)
    (at_k : (m.node i).links[k]? = some l) : l.inode < m.nodes.length := by
  match k with
  | 0 => rw [d.self] at at_k; cases at_k; exact h
  | 1 => rw [d.up] at at_k; cases at_k; exact Nat.lt_of_le_of_lt d.parent h
  | k + 2 => exact (d.child _ l (by omega) at_k).2.1

-- A directory with one more link at its end, to a node that no link of it leads to.
theorem append {p child : Nat} {n : Node} {name : List UInt8} (d : DirOk m p) (h : p < m.nodes.length)
    (below : p < child) (exist : child < m.nodes.length)
    (parent : (m.node child).iparent = p)
    (fresh : ∀ l ∈ (m.node p).links,l.inode ≠ child) (count : n.eof = (m.node p).eof + 1)
    (links : n.links = (m.node p).links ++ [⟨name,child⟩]) (iparent : n.iparent = (m.node p).iparent)
    (positive : ∀ r ∈ n.regs,0 < r.len) (fits : n.eof ≤ 128 * total n.regs) :
    DirOk (m.setNode p n) p := by
  have old_length := d.count
  have two : 2 ≤ (m.node p).links.length := by
    have := (List.getElem?_eq_some_iff.mp d.up).1
    omega
  have at_p : (m.setNode p n).node p = n := by rw [node_setNode n p h,if_pos rfl]
  have others : ∀ j, j ≠ p → (m.setNode p n).node j = m.node j :=
    fun j ne => by rw [node_setNode n j h,if_neg ne]
  have old : ∀ k, k < (m.node p).links.length → n.links[k]? = (m.node p).links[k]? :=
    fun k less => by rw [links,List.getElem?_append_left less]
  have cases_at : ∀ (k : Nat) (l : Link), n.links[k]? = some l →
      (m.node p).links[k]? = some l ∨ (k = (m.node p).links.length ∧ l = ⟨name,child⟩) := by
    intro k l at_k
    rcases Nat.lt_or_ge k (m.node p).links.length with less | more
    · exact .inl (by rw [← old k less]; exact at_k)
    · rw [links,List.getElem?_append_right more] at at_k
      have zero : k - (m.node p).links.length = 0 := by
        have := (List.getElem?_eq_some_iff.mp at_k).1
        simpa using this
      rw [zero] at at_k
      exact .inr ⟨by omega,by simpa using at_k.symm⟩
  refine ⟨?_,?_,?_,?_,?_,?_,?_,?_⟩
  · rw [at_p]; exact positive
  · rw [at_p,links,count]; simp [old_length]
  · rw [at_p]; exact fits
  · rw [at_p,old 0 (by omega)]; exact d.self
  · rw [at_p,old 1 (by omega),iparent]; exact d.up
  · rw [at_p,iparent]; exact d.parent
  · intro k l two at_k
    rw [at_p] at at_k
    rw [length_setNode]
    rcases cases_at k l at_k with before | ⟨_,rfl⟩
    · obtain ⟨above,lt,parent⟩ := d.child k l two before
      rw [others l.inode (by omega)]
      exact ⟨above,lt,parent⟩
    · rw [others child (by omega)]
      exact ⟨below,exist,parent⟩
  · intro k k' l l' two two' at_k at_k' same
    rw [at_p] at at_k at_k'
    rcases cases_at k l at_k with before | ⟨rfl,rfl⟩
    · rcases cases_at k' l' at_k' with before' | ⟨rfl,rfl⟩
      · exact d.distinct k k' l l' two two' before before' same
      · exact absurd same (fresh l (List.mem_of_getElem? before))
    · rcases cases_at k' l' at_k' with before' | ⟨rfl,rfl⟩
      · exact absurd same.symm (fresh l' (List.mem_of_getElem? before'))
      · rfl

end DirOk

namespace Image.Ok
variable {m m' : Image}

-- Directories other than the one that changes keep their form as long as the
-- nodes their links lead to keep their parent.
theorem frame {i : Nat} (d : DirOk m i) (same : m'.node i = m.node i)
    (length : m.nodes.length ≤ m'.nodes.length)
    (keep : ∀ j, j < m.nodes.length → (m'.node j).iparent = (m.node j).iparent) : DirOk m' i := by
  refine ⟨?_,?_,?_,?_,?_,?_,?_,?_⟩
  · rw [same]; exact d.positive
  · rw [same]; exact d.count
  · rw [same]; exact d.fits
  · rw [same]; exact d.self
  · rw [same]; exact d.up
  · rw [same]; exact d.parent
  · intro k l two at_k
    rw [same] at at_k
    obtain ⟨above,below,parent⟩ := d.child k l two at_k
    exact ⟨above,Nat.lt_of_lt_of_le below length,(keep _ below).trans parent⟩
  · rw [same]; exact d.distinct

theorem advance (ok : m.Ok) {len : Nat} (fits : m.nextBlock + len ≤ m.nblocks) :
    Ok {m with nextBlock := m.nextBlock + len} where
  room := ok.room
  lower := Nat.le_add_right_of_le ok.lower
  upper := fits
  ilen := ok.ilen
  flen := ok.flen
  dlen := ok.dlen
  packed := ok.packed.advance (Nat.le_add_right _ _)
  inodes := ok.inodes
  dirs := fun i h t r => frame (ok.dirs i h t r) rfl (Nat.le_refl _) fun _ _ => rfl
  root := ok.root

theorem needIblock (ok : m.Ok) (enough : m.needIblock = .ok m') :
    m'.Ok ∧ m'.nodes = m.nodes ∧ m.nodes.length < 32 * total m'.iregs := by
  unfold Image.needIblock at enough
  split at enough
  · rename_i inside
    cases enough
    exact ⟨ok,rfl,by omega⟩
  · rename_i outside
    split at enough
    · cases enough
    · split at enough
      · cases enough
      · rename_i m₁ b taken
        obtain ⟨fits,rfl,rfl⟩ := alloc_eq.mp taken
        cases enough
        have next := ok.advance fits
        refine ⟨{next with packed := ?_,inodes := ?_,dirs := ?_,root := ok.root},rfl,?_⟩
        · have grown := ok.packed.grow ok.lower none m.ilen
          refine (congrArg (Packed · 1 (m.nextBlock + m.ilen)) ?_).mp grown
          funext o
          cases o with
          | none => simp [own]
          | some j => rfl
        · have := ok.inodes
          simp only [total_append]; omega
        · exact fun i h t r => frame (ok.dirs i h t r) rfl (Nat.le_refl _) fun _ _ => rfl
        · have := ok.inodes
          have := ok.ilen
          simp only [total_append,total_cons,total_nil]; omega

theorem growNode (ok : m.Ok) (len : Nat) {i : Nat} {n : Node} (h : i < m.nodes.length)
    (regs : n.regs = (m.node i).regs ++ [⟨m.nextBlock,len⟩]) :
    Packed (m.setNode i n).own 1 (m.nextBlock + len) := by
  rw [own_setNode n h,regs]
  exact ok.packed.grow ok.lower (some i) len

theorem keepNode (ok : m.Ok) {i : Nat} {n : Node} (h : i < m.nodes.length)
    (regs : n.regs = (m.node i).regs) : Packed (m.setNode i n).own 1 m.nextBlock := by
  have same : (m.setNode i n).own = m.own := by
    rw [own_setNode n h,regs]; exact Function.update_eq_self (some i) m.own
  rw [same]; exact ok.packed

theorem replace (ok : m.Ok) {i : Nat} {n : Node} (h : i < m.nodes.length)
    (packed : Packed (m.setNode i n).own 1 m.nextBlock) (ftype : n.ftype = (m.node i).ftype)
    (iparent : n.iparent = (m.node i).iparent) (alive : i = 0 → (m.node i).regs ≠ [] → n.regs ≠ [])
    (shape : n.ftype = ftypeDir → n.regs ≠ [] → DirOk (m.setNode i n) i) : (m.setNode i n).Ok where
  room := ok.room
  lower := ok.lower
  upper := ok.upper
  ilen := ok.ilen
  flen := ok.flen
  dlen := ok.dlen
  packed := packed
  inodes := by rw [length_setNode]; exact ok.inodes
  dirs := by
    intro j hj t r
    rw [length_setNode] at hj
    by_cases same : j = i
    · subst same
      rw [node_setNode n j h,if_pos rfl] at t r
      exact shape t r
    · rw [node_setNode n j h,if_neg same] at t r
      refine frame (ok.dirs j hj t r) (by rw [node_setNode n j h,if_neg same]) (by simp) ?_
      intro k below
      rw [node_setNode n k h]
      split
      · rename_i is_i
        subst is_i
        exact iparent
      · rfl
  root := by
    rw [length_setNode,node_setNode n 0 h]
    refine ⟨ok.root.1,?_⟩
    split
    · rename_i is_i
      subst is_i
      exact ⟨ftype.trans ok.root.2.1,alive rfl ok.root.2.2⟩
    · exact ok.root.2

theorem push (ok : m.Ok) {n : Node} (room : m.nodes.length < 32 * total m.iregs)
    (packed : Packed (Function.update m.own (some m.nodes.length) n.regs) 1 m.nextBlock)
    (shape : n.ftype = ftypeDir → n.regs ≠ [] → DirOk (m.push n) m.nodes.length) : (m.push n).Ok where
  room := ok.room
  lower := ok.lower
  upper := ok.upper
  ilen := ok.ilen
  flen := ok.flen
  dlen := ok.dlen
  packed := by rw [own_push]; exact packed
  inodes := by rw [length_push]; exact room
  dirs := by
    intro i h t r
    rw [length_push] at h
    by_cases last : i = m.nodes.length
    · subst last
      rw [node_push,if_pos rfl] at t r
      exact shape t r
    · rw [node_push,if_neg last] at t r
      refine frame (ok.dirs i (by omega) t r) (by rw [node_push,if_neg last]) (by simp) ?_
      intro j below
      rw [node_push,if_neg (by omega)]
  root := by
    have first : 0 ≠ m.nodes.length := by have := ok.root.1; omega
    rw [length_push,node_push,if_neg first]
    exact ⟨by omega,ok.root.2⟩

theorem link (ok : m.Ok) {p child : Nat} {name : List UInt8} (h : p < m.nodes.length)
    (dir : (m.node p).ftype = ftypeDir) (live : (m.node p).regs ≠ []) (below : p < child)
    (exist : child < m.nodes.length) (parent : (m.node child).iparent = p) (fresh : ∀ l ∈ (m.node p).links,l.inode ≠ child) :
    (m.link p name child).1.Ok := by
  have d := ok.dirs p h dir live
  unfold Image.link
  dsimp only
  split
  · rename_i inside
    exact ok.replace h (ok.keepNode h rfl) rfl rfl (fun _ => id) fun _ _ =>
      d.append h below exist parent fresh rfl rfl rfl d.positive inside
  · rename_i full
    split
    · exact ok
    · split
      · exact ok
      · rename_i m' b taken
        obtain ⟨fits,rfl,rfl⟩ := alloc_eq.mp taken
        have next := ok.advance fits
        have len := ok.dlen
        refine next.replace h (ok.growNode _ h rfl) rfl rfl (fun _ _ => by simp) fun _ _ => ?_
        refine (next.dirs p h dir live).append h below exist parent fresh rfl rfl rfl ?_ ?_
        · intro r member
          rcases List.mem_append.mp member with old | new
          · exact d.positive r old
          · rw [List.mem_singleton.mp new]; exact len.1
        · simp only [total_append,total_cons,total_nil]
          have := d.fits
          omega

theorem pushFile (ok : m.Ok) (room : m.nodes.length < 32 * total m.iregs) {ftype : UInt8} (perm : UInt8) {p : Nat}
    (file : ftype ≠ ftypeDir) : (m.push ⟨ftype,perm,0,p,[],[]⟩).Ok := by
  refine ok.push room ?_ fun t => absurd t file
  have same : Function.update m.own (some m.nodes.length) [] = m.own := by
    rw [← own_fresh m]; exact Function.update_eq_self _ _
  rw [same]; exact ok.packed

theorem pushDir (ok : m.Ok) (room : m.nodes.length < 32 * total m.iregs)
    (fits : m.nextBlock + m.dlen ≤ m.nblocks) (ftype perm : UInt8) {p : Nat} (le : p ≤ m.nodes.length) :
    (({m with nextBlock := m.nextBlock + m.dlen} : Image).push
      ⟨ftype,perm,2,p,[⟨m.nextBlock,m.dlen⟩],[⟨dot,m.nodes.length⟩,⟨dotdot,p⟩]⟩).Ok := by
  have len := ok.dlen
  refine (ok.advance fits).push room ?_ ?_
  · have grown := ok.packed.grow ok.lower (some m.nodes.length) m.dlen
    rw [own_fresh] at grown
    exact grown
  · intro _ _
    have at_last : ∀ n : Node, (({m with nextBlock := m.nextBlock + m.dlen} : Image).push n).node
        m.nodes.length = n := fun n => by rw [node_push]; simp
    refine ⟨?_,?_,?_,?_,?_,?_,?_,?_⟩
    all_goals simp only [at_last]
    · intro r member; rw [List.mem_singleton.mp member]; exact len.1
    · rfl
    · simp only [total_cons,total_nil]; omega
    · rfl
    · rfl
    · exact le
    · intro k l two at_k
      have := (List.getElem?_eq_some_iff.mp at_k).1
      simp at this; omega
    · intro k k' l l' two _ at_k _ _
      have := (List.getElem?_eq_some_iff.mp at_k).1
      simp at this; omega

theorem linkPushed (ok : m.Ok) {n : Node} (pushed : (m.push n).Ok) {p : Nat} {name : List UInt8}
    (h : p < m.nodes.length) (dir : (m.node p).ftype = ftypeDir) (live : (m.node p).regs ≠ []) (iparent : n.iparent = p) :
    ((m.push n).link p name m.nodes.length).1.Ok := by
  have old : (m.push n).node p = m.node p := by rw [node_push,if_neg (by omega)]
  refine pushed.link (by simp; omega) (by rw [old]; exact dir) (by rw [old]; exact live) h (by simp) ?_ ?_
  · rw [node_push,if_pos rfl]; exact iparent
  · intro l member
    rw [old] at member
    obtain ⟨k,at_k⟩ := List.getElem?_of_mem member
    have := (ok.dirs p h dir live).link_lt h at_k
    omega

end Image.Ok

-- Between operations every linked directory has its regions; inside of a remove the
-- victim loses them before it is unlinked.
def Image.Living (m : Image) : Prop :=
  ∀ (i k : Nat) (l : Link), i < m.nodes.length → (m.node i).ftype = ftypeDir → (m.node i).regs ≠ [] → 2 ≤ k →
    (m.node i).links[k]? = some l → (m.node l.inode).Alive

namespace Image.Living
variable {m m' : Image}

theorem same_nodes (living : m.Living) (nodes : m'.nodes = m.nodes) : m'.Living := by
  have node : m'.node = m.node := by funext i; simp only [Image.node,nodes]
  unfold Image.Living
  rw [nodes,node]
  exact living

theorem setNode (living : m.Living) {i : Nat} {n : Node} (h : i < m.nodes.length) (alive : (m.node i).Alive → n.Alive)
    (shape : n.ftype = ftypeDir → n.regs ≠ [] → ∀ (k : Nat) (l : Link), 2 ≤ k → n.links[k]? = some l →
      ((m.setNode i n).node l.inode).Alive) : (m.setNode i n).Living := by
  intro j k l hj dir live two at_k
  rw [length_setNode] at hj
  by_cases same : j = i
  · rw [node_setNode n j h,if_pos same] at dir live at_k
    exact shape dir live k l two at_k
  · rw [node_setNode n j h,if_neg same] at dir live at_k
    have old := living j k l hj dir live two at_k
    rw [node_setNode n l.inode h]
    split
    · rename_i is_i
      rw [is_i] at old
      exact alive old
    · exact old

theorem push (living : m.Living) (ok : m.Ok) {n : Node} (few : n.links.length ≤ 2) : (m.push n).Living := by
  intro i k l h dir live two at_k
  rw [length_push] at h
  rw [node_push] at dir live at_k
  by_cases last : i = m.nodes.length
  · rw [if_pos last] at at_k
    have := (List.getElem?_eq_some_iff.mp at_k).1
    omega
  · rw [if_neg last] at dir live at_k
    have below := ((ok.dirs i (by omega) dir live).child k l two at_k).2.1
    rw [node_push,if_neg (by omega)]
    exact living i k l (by omega) dir live two at_k

theorem link (living : m.Living) {p child : Nat} {name : List UInt8} (h : p < m.nodes.length)
    (dir : (m.node p).ftype = ftypeDir) (live : (m.node p).regs ≠ []) (alive : (m.node child).Alive) :
    (m.link p name child).1.Living := by
  -- Every node is as alive as before, and the new link leads to the child.
  have entry : ∀ (m₁ : Image) (n : Node),m₁.nodes = m.nodes → n.links = (m.node p).links ++ [⟨name.take 28,child⟩] →
      n.regs ≠ [] → (m₁.setNode p n).Living := by
    intro m₁ n nodes links regs
    have node : m₁.node = m.node := by funext i; simp only [Image.node,nodes]
    have h₁ : p < m₁.nodes.length := by rw [nodes]; exact h
    refine (living.same_nodes nodes).setNode h₁ (fun _ _ => regs) fun _ _ k l two at_k => ?_
    have keep : ∀ j,(m.node j).Alive → ((m₁.setNode p n).node j).Alive := by
      intro j old
      rw [node_setNode n j h₁]
      split
      · exact fun _ => regs
      · rw [node]; exact old
    rw [links] at at_k
    rcases Nat.lt_or_ge k (m.node p).links.length with less | more
    · rw [List.getElem?_append_left less] at at_k
      exact keep _ (living p k l h dir live two at_k)
    · rw [List.getElem?_append_right more] at at_k
      have zero : k - (m.node p).links.length = 0 := by
        have := (List.getElem?_eq_some_iff.mp at_k).1
        simpa using this
      rw [zero] at at_k
      cases at_k
      exact keep _ alive
  unfold Image.link
  dsimp only
  split
  · exact entry m _ rfl rfl live
  · split
    · exact living
    · split
      · exact living
      · rename_i m' b taken
        obtain ⟨_,rfl,rfl⟩ := alloc_eq.mp taken
        exact entry {m with nextBlock := m.nextBlock + m.dlen} _ rfl rfl (by simp)

theorem linkPushed (living : m.Living) (ok : m.Ok) {n : Node} {p : Nat} {name : List UInt8}
    (h : p < m.nodes.length) (dir : (m.node p).ftype = ftypeDir) (live : (m.node p).regs ≠ []) (few : n.links.length ≤ 2)
    (alive : n.Alive) : ((m.push n).link p name m.nodes.length).1.Living := by
  have old : (m.push n).node p = m.node p := by rw [node_push,if_neg (by omega)]
  refine (living.push ok few).link (by simp; omega) (by rw [old]; exact dir) (by rw [old]; exact live) ?_
  rw [node_push,if_pos rfl]; exact alive

theorem needIblock (living : m.Living) (ok : m.Ok) (enough : m.needIblock = .ok m') : m'.Living :=
  living.same_nodes (ok.needIblock enough).2.1

end Image.Living

structure Image.Good (m : Image) : Prop extends Image.Ok m where
  living : m.Living

namespace Image.Good
variable {m : Image}

theorem advance (good : m.Good) {len : Nat} (fits : m.nextBlock + len ≤ m.nblocks) :
    Good {m with nextBlock := m.nextBlock + len} :=
  ⟨good.toOk.advance fits,good.living.same_nodes rfl⟩

theorem linkPushed (good : m.Good) {n : Node} (pushed : (m.push n).Ok) {p : Nat} (name : List UInt8)
    (h : p < m.nodes.length) (dir : (m.node p).ftype = ftypeDir) (live : (m.node p).regs ≠ []) (iparent : n.iparent = p)
    (few : n.links.length ≤ 2) (alive : n.Alive) : ((m.push n).link p name m.nodes.length).1.Good :=
  ⟨good.toOk.linkPushed pushed h dir live iparent,good.living.linkPushed good.toOk h dir live few alive⟩

end Image.Good

end ArchiveOs.Fs2
