import ArchiveOs.Trails
import ArchiveOs.Rooms

-- Which directories have which inodes as entries, and what each operation does to that.
namespace ArchiveOs.Fs2
open Extents Layout
namespace Image
variable {m m' : Image}

-- An entry of p behind its own two leads to i.
def Lists (m : Image) (p i : Nat) : Prop :=
  p < m.nodes.length ∧ (m.node p).ftype = ftypeDir ∧ (m.node p).regs ≠ [] ∧
    ∃ k l,2 ≤ k ∧ (m.node p).links[k]? = some l ∧ l.inode = i

theorem Lists.dirOk {p i : Nat} (lists : m.Lists p i) (ok : m.Ok) : DirOk m p :=
  ok.dirs p lists.1 lists.2.1 lists.2.2.1

theorem Lists.parent {p i : Nat} (lists : m.Lists p i) (ok : m.Ok) :
    p < i ∧ i < m.nodes.length ∧ (m.node i).iparent = p := by
  have d := lists.dirOk ok
  obtain ⟨_,_,_,k,l,two,at_k,rfl⟩ := lists
  exact d.child k l two at_k

theorem Lists.same {p i : Nat} (lists : m'.Lists p i) (node : m'.node p = m.node p) (h : p < m.nodes.length) : m.Lists p i := by
  obtain ⟨_,rest⟩ := lists
  rw [node] at rest
  exact ⟨h,rest⟩

theorem Lists.same_nodes {p i : Nat} (lists : m'.Lists p i) (same : m'.nodes = m.nodes) : m.Lists p i :=
  lists.same (by simp only [node,same]) (by rw [← same]; exact lists.1)

-- A creation: nothing, or one inode behind the others with an entry in p, if that finds
-- room.
def Adds (m m' : Image) (p : Nat) : Prop :=
  ∃ (m₁ : Image) (n : Node) (name : List UInt8),m₁.nodes = m.nodes ∧ m' = ((m₁.push n).link p name m.nodes.length).1 ∧
    n.links.length ≤ 2 ∧ (n.ftype = ftypeFile → n.Enough)

theorem createFile_adds (m : Image) (name : List UInt8) (p : Nat) (ftype : UInt8) :
    (m.createFile name p ftype).1.nodes = m.nodes ∨ Adds m (m.createFile name p ftype).1 p := by
  unfold Image.createFile
  dsimp only
  split
  · exact .inl rfl
  · rename_i m₁ enough
    have same := needIblock_nodes enough
    split
    · rename_i isDir
      split
      · exact .inl same
      · rename_i m₂ b taken
        have nodes : m₂.nodes = m.nodes := by rw [(alloc_eq.mp taken).2.1]; exact same
        refine .inr ⟨m₂,_,name,nodes,rfl,Nat.le_refl 2,fun file => ?_⟩
        rw [isDir] at file
        cases file
    · exact .inr ⟨m₁,_,name,same,rfl,Nat.zero_le _,fun _ => Nat.zero_le _⟩

theorem create_adds (good : m.Good) (ftype : UInt8) (path : List UInt8) :
    (m.create ftype path).1.nodes = m.nodes ∨
      ∃ p,m.Attached p ∧ (m.node p).ftype = ftypeDir ∧ Adds m (m.create ftype path).1 p := by
  have made : ∀ name p,m.Attached p → (m.node p).ftype = ftypeDir → (m.createFile name p ftype).1.nodes = m.nodes ∨
      ∃ p',m.Attached p' ∧ (m.node p').ftype = ftypeDir ∧ Adds m (m.createFile name p ftype).1 p' := by
    intro name p a dir
    rcases createFile_adds m name p ftype with same | adds
    · exact .inl same
    · exact .inr ⟨p,a,dir,adds⟩
  unfold Image.create
  split
  · exact .inl rfl
  · rename_i missing
    unfold Image.createParent
    dsimp only
    split
    · exact .inl rfl
    · split
      · exact made _ 0 .root good.root.2.1
      · rename_i inner
        have nonempty : path ≠ [] := by
          intro empty
          rw [empty] at missing
          cases missing
        split
        · exact .inl rfl
        · rename_i p q found
          exact made _ p (resolve_attached good found) ((split_pointers nonempty inner).2.parent_dir missing found)
  · exact .inl rfl

theorem link_node (name : List UInt8) (child : Nat) {p : Nat} (h : p < m.nodes.length) (j : Nat) :
    ((m.link p name child).1.node j = m.node j) ∨
      (j = p ∧ ((m.link p name child).1.node j).ftype = (m.node p).ftype ∧
        ((m.link p name child).1.node j).links = (m.node p).links ++ [⟨name.take 28,child⟩]) := by
  have put : ∀ {m' : Image} {n : Node},m'.nodes = m.nodes → n.ftype = (m.node p).ftype →
      n.links = (m.node p).links ++ [⟨name.take 28,child⟩] → ((m'.setNode p n).node j = m.node j) ∨
        (j = p ∧ ((m'.setNode p n).node j).ftype = (m.node p).ftype ∧
          ((m'.setNode p n).node j).links = (m.node p).links ++ [⟨name.take 28,child⟩]) := by
    intro m' n same ftype links
    rw [node_setNode n j (by rw [same]; exact h)]
    split
    · rename_i here
      exact .inr ⟨here,ftype,links⟩
    · exact .inl (by simp only [node,same])
  unfold Image.link
  dsimp only
  split
  · exact put rfl rfl rfl
  · split
    · exact .inl rfl
    · split
      · exact .inl rfl
      · rename_i m₁ b taken
        rw [(alloc_eq.mp taken).2.1]
        exact put rfl rfl rfl

theorem length_link (m : Image) (p : Nat) (name : List UInt8) (child : Nat) :
    (m.link p name child).1.nodes.length = m.nodes.length := by
  unfold Image.link
  dsimp only
  split
  · exact length_setNode _ _ _
  · split
    · rfl
    · split
      · rfl
      · rename_i m₁ b taken
        rw [(alloc_eq.mp taken).2.1]
        exact length_setNode _ _ _

theorem Adds.length {p : Nat} (adds : Adds m m' p) : m'.nodes.length = m.nodes.length + 1 := by
  obtain ⟨m₁,n,name,same,rfl,_⟩ := adds
  rw [length_link,length_push,same]

theorem Adds.node {p j : Nat} (adds : Adds m m' p) (h : p < m.nodes.length) (exist : j < m.nodes.length) :
    m'.node j = m.node j ∨ (j = p ∧ (m'.node j).ftype = (m.node p).ftype) := by
  obtain ⟨m₁,n,name,same,rfl,_⟩ := adds
  have old : ∀ i,i < m.nodes.length → (m₁.push n).node i = m.node i := by
    intro i less
    rw [node_push,if_neg (by rw [same]; omega)]
    simp only [Image.node,same]
  have within : p < (m₁.push n).nodes.length := by
    rw [length_push,same]
    omega
  rcases link_node name m.nodes.length within j with still | ⟨here,ftype,_⟩
  · exact .inl (still.trans (old j exist))
  · exact .inr ⟨here,ftype.trans (by rw [old p h])⟩

theorem Adds.new {p : Nat} (adds : Adds m m' p) (h : p < m.nodes.length) :
    (m'.node m.nodes.length).ftype = ftypeFile → (m'.node m.nodes.length).Enough := by
  obtain ⟨m₁,n,name,same,rfl,_,enough⟩ := adds
  have within : p < (m₁.push n).nodes.length := by
    rw [length_push,same]
    omega
  have node : (m₁.push n).node m.nodes.length = n := by rw [node_push,if_pos (by rw [same])]
  rcases link_node name m.nodes.length within m.nodes.length with still | ⟨here,_⟩
  · rw [still,node]
    exact enough
  · omega

theorem Adds.lists {p q i : Nat} (adds : Adds m m' p) (h : p < m.nodes.length) (live : (m.node p).regs ≠ [])
    (lists : m'.Lists q i) : m.Lists q i ∨ i = m.nodes.length := by
  have length := adds.length
  obtain ⟨m₁,n,name,same,rfl,few,_⟩ := adds
  have within : p < (m₁.push n).nodes.length := by
    rw [length_push,same]
    omega
  have old : ∀ j,j < m.nodes.length → (m₁.push n).node j = m.node j := by
    intro j less
    rw [node_push,if_neg (by rw [same]; omega)]
    simp only [Image.node,same]
  obtain ⟨exist,dir,regs,k,l,two,at_k,rfl⟩ := lists
  rcases link_node name m.nodes.length within q with still | ⟨rfl,ftype,links⟩
  · rw [still] at dir regs at_k
    by_cases less : q < m.nodes.length
    · rw [old q less] at dir regs at_k
      exact .inl ⟨less,dir,regs,k,l,two,at_k,rfl⟩
    · have new : q = m.nodes.length := by omega
      rw [new,node_push,if_pos (by rw [same])] at at_k
      have inside := (List.getElem?_eq_some_iff.mp at_k).1
      omega
  · rw [links,old q h] at at_k
    rw [ftype,old q h] at dir
    by_cases front : k < (m.node q).links.length
    · rw [List.getElem?_append_left front] at at_k
      exact .inl ⟨h,dir,live,k,l,two,at_k,rfl⟩
    · rw [List.getElem?_append_right (by omega)] at at_k
      have last := List.mem_of_getElem? at_k
      rw [List.mem_singleton.mp last]
      exact .inr rfl

theorem Rewritten.lists {i p j : Nat} (w : Rewritten m m' i) (file : (m.node i).ftype ≠ ftypeDir)
    (lists : m'.Lists p j) : m.Lists p j := by
  by_cases here : p = i
  · have dir := lists.2.1
    have exist := lists.1
    rw [w.length_eq,here] at exist
    rw [here,(w.node i exist).ftype] at dir
    exact absurd dir file
  · exact lists.same (w.others p here) (by rw [← w.length_eq]; exact lists.1)

-- A remove takes the entries that lead to its victim, all of which are in one directory.
theorem Victim.lists {path : List UInt8} {x p K q i : Nat} (victim : m.Victim path x p K) (good : m.Good)
    (lists : ((m.wipe x).setNode p ((m.node p).dropLink K)).Lists q i) : m.Lists q i ∧ i ≠ x := by
  obtain ⟨_,below,dir,live,less,exist⟩ := victim.child good
  obtain ⟨l₀,at_K,leads⟩ := victim.entry
  have d := good.dirs p below dir live
  have inside : K < (m.node p).eof := by
    rw [← d.count]
    exact (List.getElem?_eq_some_iff.mp at_K).1
  have within : p < (m.wipe x).nodes.length := by rw [length_wipe]; exact below
  obtain ⟨exist',dir',live',k,l,two,at_k,rfl⟩ := lists
  rw [length_setNode,length_wipe] at exist'
  rw [node_setNode _ q within] at dir' live' at_k
  by_cases here : q = p
  · rw [if_pos here] at dir' live' at_k
    subst here
    rw [Node.dropLink_getElem? d.count inside] at at_k
    split at at_k
    · rename_i early
      have later : 2 ≤ if k = K then (m.node q).eof - 1 else k := by
        split
        · omega
        · exact two
      refine ⟨⟨below,dir,live,_,l,later,at_k,rfl⟩,fun same => ?_⟩
      have hole := d.distinct K _ l₀ l victim.two later at_K at_k (leads.trans same.symm)
      split at hole
      · omega
      · rename_i other
        exact other hole.symm
    · cases at_k
  · rw [if_neg here] at dir' live' at_k
    have other : q ≠ x := by
      rintro rfl
      by_cases inner : q + 1 < m.nodes.length
      · have wiped : m.wipe q = _ := if_pos inner
        rw [wiped,node_setNode _ q exist,if_pos rfl] at live'
        exact live' rfl
      · have kept : m.wipe q = m := if_neg inner
        rw [kept] at live' at_k dir'
        have listed : m.Lists q l.inode := ⟨exist,dir',live',k,l,two,at_k,rfl⟩
        have behind := listed.parent good.toOk
        omega
    rw [node_wipe exist other] at dir' live' at_k
    have listed : m.Lists q l.inode := ⟨exist',dir',live',k,l,two,at_k,rfl⟩
    refine ⟨listed,fun same => here ?_⟩
    have parent := (listed.parent good.toOk).2.2
    have parent' := (d.child K l₀ victim.two at_K).2.2
    rw [same] at parent
    rw [leads] at parent'
    exact parent.symm.trans parent'

-- The files of all directories are as long as their regions allow.
def Spacious (m : Image) : Prop := ∀ p i,m.Lists p i → (m.node i).ftype = ftypeFile → (m.node i).Enough

theorem Spacious.same_nodes (spacious : m.Spacious) (same : m'.nodes = m.nodes) : m'.Spacious := by
  intro p i lists file
  have node : m'.node i = m.node i := by simp only [Image.node,same]
  rw [node] at file ⊢
  exact spacious p i (lists.same_nodes same) file

theorem Spacious.create (spacious : m.Spacious) (good : m.Good) (ftype : UInt8) (path : List UInt8) :
    (m.create ftype path).1.Spacious := by
  rcases create_adds good ftype path with same | ⟨p,a,dir,adds⟩
  · exact spacious.same_nodes same
  · have h := (a.alive good).1
    have live := (a.alive good).2 dir
    intro q i lists file
    rcases adds.lists h live lists with before | new
    · have exist := (before.parent good.toOk).2.1
      rcases adds.node h exist with same | ⟨here,kind⟩
      · rw [same] at file ⊢
        exact spacious q i before file
      · rw [kind,dir] at file
        cases file
    · rw [new] at file ⊢
      exact adds.new h file

theorem Spacious.rm (spacious : m.Spacious) (good : m.Good) {path : List UInt8} {x p K : Nat}
    (victim : m.Victim path x p K) : ((m.wipe x).setNode p ((m.node p).dropLink K)).Spacious := by
  obtain ⟨_,below,dir,_,_,exist⟩ := victim.child good
  intro q i lists file
  obtain ⟨before,other⟩ := victim.lists good lists
  rw [node_setNode _ i (by rw [length_wipe]; exact below)] at file ⊢
  split at file
  · rw [show ((m.node p).dropLink K).ftype = (m.node p).ftype from rfl,dir] at file
    cases file
  · rename_i elsewhere
    rw [if_neg elsewhere]
    rw [node_wipe exist other] at file ⊢
    exact spacious q i before file

theorem Attached.lists (good : m.Good) {i : Nat} (a : m.Attached i) : i = 0 ∨ ∃ p,m.Attached p ∧ m.Lists p i := by
  cases a with
  | root => exact .inl rfl
  | @child p k l above two dir at_k =>
      obtain ⟨exist,alive⟩ := above.alive good
      exact .inr ⟨p,above,exist,dir,alive dir,k,l,two,at_k,rfl⟩

theorem Spacious.enough (spacious : m.Spacious) (good : m.Good) {path : List UInt8} {i : Nat} {q : Option Nat}
    (found : m.resolve path = .ok (i,q)) (file : (m.node i).ftype = ftypeFile) : (m.node i).Enough := by
  rcases (resolve_attached good found).lists good with root | ⟨p,_,lists⟩
  · rw [root,good.root.2.1] at file
    cases file
  · exact spacious p i lists file

theorem Spacious.write (spacious : m.Spacious) (good : m.Good) {path : List UInt8} {nbytes cursor : UInt32}
    (fits : m.Fits path nbytes cursor) : (m.write path nbytes cursor).1.Spacious := by
  unfold Image.write
  split
  · exact spacious
  · rename_i i q found
    split
    · exact spacious
    · rename_i plain
      have file := not_not.mp plain
      have notDir : (m.node i).ftype ≠ ftypeDir := by rw [file]; decide
      have h := ((resolve_attached good found).alive good).1
      split
      · exact spacious
      · rename_i w wrote
        have inside : cursor.toNat ≤ 4096 * m.size i := (fits.2 i q found file).trans (spacious.enough good found file)
        have rewritten := Rewritten.writeAt h wrote
        have bound := writeAt_size good.flen.1 h inside fits.1 wrote
        have h' : i < w.image.nodes.length := by rw [rewritten.length_eq]; exact h
        intro p j lists kind
        have listed : w.image.Lists p j := by
          by_cases here : p = i
          · have dir := lists.2.1
            rw [here,node_setNode _ i h',if_pos rfl] at dir
            rw [show ({w.image.node i with eof := (cursor + UInt32.ofNat w.wcount).toNat} : Node).ftype =
              (w.image.node i).ftype from rfl,(rewritten.node i h).ftype] at dir
            exact absurd dir notDir
          · refine lists.same (by rw [node_setNode _ p h',if_neg here]) ?_
            rw [← length_setNode w.image i]
            exact lists.1
        rw [node_setNode _ j h'] at kind ⊢
        split at kind
        · rename_i same
          rw [if_pos same]
          unfold Node.Enough
          dsimp only
          refine le_trans ?_ bound
          rw [UInt32.toNat_add,UInt32.toNat_ofNat']
          omega
        · rename_i other
          rw [if_neg other]
          rw [rewritten.others j other] at kind ⊢
          exact spacious p j (rewritten.lists notDir listed) kind

end Image
end ArchiveOs.Fs2
