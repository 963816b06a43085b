import ArchiveOs.Growths
import ArchiveOs.Trails
import ArchiveOs.WriteFrames

-- Where fs2_create puts a new inode, and what the paths lead to afterwards.
namespace ArchiveOs.Fs2
open Extents Layout

-- A path by its last component and what is in front of the slash before it.
structure Named (path parent name : List UInt8) : Prop where
  whole : path = if parent = [] then name else parent ++ slash :: name
  last : ∀ some : parent ≠ [],parent.getLast some ≠ slash
  nonempty : name ≠ []
  clean : slash ∉ name
  short : name.length ≤ 28

namespace Named
variable {path parent name : List UInt8}

theorem split (n : Named path parent name) (some : parent ≠ []) : Split path parent name 0 :=
  ⟨by rw [n.whole,if_neg some]; simp,some,n.last some,n.clean⟩

theorem path_ne (n : Named path parent name) : path ≠ [] := by
  rw [n.whole]
  split
  · exact n.nonempty
  · simp

theorem name_getD (n : Named path parent name) {k : Nat} (less : k < name.length) :
    path.getD ((if parent = [] then 0 else parent.length + 1) + k) 0 ≠ slash := by
  have own : path.getD ((if parent = [] then 0 else parent.length + 1) + k) 0 = name[k] := by
    rw [n.whole,List.getD_eq_getElem?_getD]
    split
    · rw [Nat.zero_add,List.getElem?_eq_getElem less]
      rfl
    · rw [List.getElem?_append_right (by omega)]
      have place : parent.length + 1 + k - parent.length = k + 1 := by omega
      rw [place,List.getElem?_cons_succ,List.getElem?_eq_getElem less]
      rfl
  rw [own]
  intro same
  exact n.clean (same ▸ List.getElem_mem less)

theorem length_path (n : Named path parent name) :
    path.length = (if parent = [] then 0 else parent.length + 1) + name.length := by
  rw [n.whole]
  split
  · omega
  · rw [List.length_append,List.length_cons]
    omega

theorem splitBack_eq (n : Named path parent name) : splitBack path (path.length - 1) = parent.length := by
  obtain ⟨le,edge,behind⟩ := splitBack_spec path (path.length - 1)
  have long := n.length_path
  have size : 0 < name.length := List.length_pos_iff.mpr n.nonempty
  by_cases root : parent = []
  · rw [if_pos root] at long
    by_contra wrong
    rw [root,List.length_nil] at wrong
    have at_k := n.name_getD (k := splitBack path (path.length - 1)) (by omega)
    rw [if_pos root,Nat.zero_add] at at_k
    exact at_k (edge wrong)
  · rw [if_neg root] at long
    have sep : path.getD parent.length 0 = slash := by
      rw [n.whole,if_neg root,List.getD_eq_getElem?_getD,List.getElem?_append_right (Nat.le_refl _),Nat.sub_self]
      rfl
    have front : parent.length ≤ splitBack path (path.length - 1) := by
      by_contra before
      exact behind parent.length (by omega) (by omega) sep
    by_contra other
    have at_k := n.name_getD (k := splitBack path (path.length - 1) - (parent.length + 1)) (by omega)
    rw [if_neg root] at at_k
    have place : parent.length + 1 + (splitBack path (path.length - 1) - (parent.length + 1)) = splitBack path (path.length - 1) := by
      omega
    rw [place] at at_k
    exact at_k (edge (by omega))

theorem stripBack_eq (n : Named path parent name) : stripBack path parent.length = parent.length - 1 := by
  obtain ⟨le,edge,between⟩ := stripBack_spec path parent.length
  by_cases root : parent = []
  · rw [root] at le ⊢
    exact Nat.le_zero.mp le
  · have size : 0 < parent.length := List.length_pos_iff.mpr root
    have sep : path.getD parent.length 0 = slash := by
      rw [n.whole,if_neg root,List.getD_eq_getElem?_getD,List.getElem?_append_right (Nat.le_refl _),Nat.sub_self]
      rfl
    have before : path.getD (parent.length - 1) 0 ≠ slash := by
      have last := n.last root
      rw [List.getLast_eq_getElem] at last
      rw [n.whole,if_neg root,List.getD_eq_getElem?_getD,List.getElem?_append_left (by omega),
        List.getElem?_eq_getElem (by omega)]
      exact last
    have inside : stripBack path parent.length ≠ parent.length := by
      intro same
      rw [same] at edge
      exact edge (by omega) sep
    by_contra other
    exact before (between (parent.length - 1) (by omega) (by omega))

end Named

namespace Image
variable {m : Image} {path parent name : List UInt8}

theorem createParent_named (n : Named path parent name) (ftype : UInt8) :
    (parent.length ≤ 1 → m.createParent ftype path = m.createFile name 0 ftype) ∧
      (¬ parent.length ≤ 1 → (∀ e,m.resolve parent = .error e → m.createParent ftype path = (m,e)) ∧
        ∀ p q,m.resolve parent = .ok (p,q) → m.createParent ftype path = m.createFile name p ftype) := by
  have long := n.length_path
  have size : 0 < name.length := List.length_pos_iff.mpr n.nonempty
  have last : ¬ path.getD (path.length - 1) 0 = slash := by
    have at_k := n.name_getD (k := name.length - 1) (by omega)
    have place : (if parent = [] then 0 else parent.length + 1) + (name.length - 1) = path.length - 1 := by omega
    rwa [place] at at_k
  have new : path.drop (if parent.length = 0 then parent.length else parent.length + 1) = name := by
    by_cases root : parent = []
    · rw [n.whole,root]
      rfl
    · have some : ¬ parent.length = 0 := fun wrong => root (List.length_eq_zero_iff.mp wrong)
      rw [if_neg some,n.whole,if_neg root,← List.drop_drop,List.drop_left]
      rfl
  unfold createParent
  dsimp only
  rw [if_neg last,n.splitBack_eq,n.stripBack_eq,new]
  refine ⟨fun few => by rw [if_pos (by omega)],fun few => ?_⟩
  · have whole : path.take (parent.length - 1 + 1) = parent := by
      have back : parent.length - 1 + 1 = parent.length := by omega
      have root : parent ≠ [] := fun wrong => few (by rw [wrong]; exact Nat.zero_le 1)
      rw [back,n.whole,if_neg root,List.take_left]
    rw [if_neg (by omega),whole]
    refine ⟨fun e failed => ?_,fun p q found => ?_⟩
    · rw [failed]
    · rw [found]

theorem resolve_named (n : Named path parent name) :
    (∀ e,m.resolve parent = .error e → m.resolve path = .error e) ∧
      ∀ p q,m.resolve parent = .ok (p,q) → m.resolve path = (m.lookup p name).map fun i => (i,some p) := by
  have short : ¬ name.length > 28 := Nat.not_lt.mpr n.short
  by_cases root : parent = []
  · have whole : path = name := by rw [n.whole,if_pos root]
    subst root
    refine ⟨fun e wrong => (by cases wrong),fun p q found => ?_⟩
    cases found
    unfold resolve
    rw [if_neg n.path_ne,whole,components_name _ n.clean,walk_singleton,if_neg short]
    cases m.lookup 0 name <;> rfl
  · rw [(n.split root).resolve]
    refine ⟨fun e failed => by rw [failed],fun p q found => ?_⟩
    rw [found]
    dsimp only
    rw [walk_singleton,if_neg short]
    cases m.lookup p name <;> rfl

theorem Extends.find {n n' : Node} (more : n.Extends n') {i : Nat} (found : n.find name = some i) : n'.find name = some i := by
  obtain ⟨k,l,at_k,begins,leads,first⟩ := Node.find_first.mp found
  have wide : 128 * (total n.regs - 1) ≤ 128 * (total n'.regs - 1) := by
    obtain ⟨new,regs⟩ := more.regs
    rw [← regs,total_append]
    omega
  obtain ⟨links,rest⟩ := more.links
  have keep : ∀ {k' : Nat} {l' : Link},k' ≤ k → (n'.visible[k']? = some l' ↔ n.visible[k']? = some l') := by
    intro k' l' le
    have inside := (List.getElem?_eq_some_iff.mp at_k).1
    unfold Node.visible at inside ⊢
    rw [List.length_take] at inside
    rw [List.getElem?_take,List.getElem?_take,if_pos (by omega),if_pos (by omega),← rest,List.getElem?_append_left (by omega)]
  refine Node.find_first.mpr ⟨k,l,(keep (Nat.le_refl k)).mpr at_k,begins,leads,fun k' l' less at_k' => ?_⟩
  exact first k' l' less ((keep (Nat.le_of_lt less)).mp at_k')

theorem Extends.lookup {m' : Image} (more : m.Extends m') {d i : Nat} (h : d < m.nodes.length)
    (found : m.lookup d name = .ok i) : m'.lookup d name = .ok i := by
  obtain ⟨dir,first⟩ := lookup_ok.mp found
  exact lookup_ok.mpr ⟨(more.node d h).ftype.trans dir,Extends.find (more.node d h) first⟩

theorem Extends.walk {m' : Image} (more : m.Extends m') (good : m.Good) {d : Nat} {r : Nat × Nat} {names : List (List UInt8)}
    (a : m.Attached d) (found : m.walk d names = .ok r) : m'.walk d names = .ok r := by
  induction names generalizing d with
  | nil => cases found
  | cons name rest ih =>
      unfold Image.walk at found ⊢
      by_cases long : name.length > 28
      · rw [if_pos long] at found
        cases found
      · rw [if_neg long] at found ⊢
        cases hit : m.lookup d name with
        | error e =>
            rw [hit] at found
            cases found
        | ok child =>
            rw [hit] at found
            rw [more.lookup (a.alive good).1 hit]
            dsimp only at found ⊢
            split at found
            · rename_i last
              rw [if_pos last]
              exact found
            · rename_i inner
              rw [if_neg inner]
              exact ih (a.lookup good hit) found

theorem Extends.resolve {m' : Image} (more : m.Extends m') (good : m.Good) {r : Nat × Option Nat}
    (found : m.resolve path = .ok r) : m'.resolve path = .ok r := by
  unfold Image.resolve at found ⊢
  split at found
  · rename_i empty
    rw [if_pos empty]
    exact found
  · rename_i some
    rw [if_neg some]
    cases hit : m.walk 0 (components false path) with
    | error e =>
        rw [hit] at found
        cases found
    | ok w =>
        rw [hit] at found
        rw [more.walk good .root hit]
        exact found

-- The blocks that a new inode takes, and whether it can be had.
def need (m : Image) (ftype : UInt8) : Nat :=
  (if m.nodes.length / 32 < total m.iregs then 0 else m.ilen) + if ftype = ftypeDir then m.dlen else 0

def Begins (m : Image) (ftype : UInt8) : Prop :=
  (m.nodes.length / 32 < total m.iregs ∨ m.iregs.length ≠ 800) ∧ m.nextBlock + m.need ftype ≤ m.nblocks

theorem needIblock_cases (ok : m.Ok) :
    ((m.nodes.length / 32 < total m.iregs ∨ m.iregs.length ≠ 800) ∧
        m.nextBlock + (if m.nodes.length / 32 < total m.iregs then 0 else m.ilen) ≤ m.nblocks ∧
        ∃ m₁,m.needIblock = .ok m₁ ∧ m₁.nodes = m.nodes ∧ m₁.nblocks = m.nblocks ∧ m₁.dlen = m.dlen ∧
          m₁.nextBlock = m.nextBlock + (if m.nodes.length / 32 < total m.iregs then 0 else m.ilen)) ∨
      ¬ ((m.nodes.length / 32 < total m.iregs ∨ m.iregs.length ≠ 800) ∧
        m.nextBlock + (if m.nodes.length / 32 < total m.iregs then 0 else m.ilen) ≤ m.nblocks) ∧
        ∃ e,m.needIblock = .error e ∧ e ≠ .success := by
  have upper := ok.upper
  unfold needIblock
  by_cases there : m.nodes.length / 32 < total m.iregs
  · rw [if_pos there,if_pos there]
    exact .inl ⟨.inl there,upper,m,rfl,rfl,rfl,rfl,rfl⟩
  · rw [if_neg there,if_neg there]
    by_cases full : m.iregs.length = 800
    · rw [if_pos full]
      exact .inr ⟨fun room => room.1.elim there fun free => free full,_,rfl,fun wrong => (by cases wrong)⟩
    · rw [if_neg full]
      unfold alloc
      by_cases short : m.nblocks < m.nextBlock + m.ilen
      · rw [if_pos short]
        exact .inr ⟨fun room => Nat.not_le_of_lt short room.2,_,rfl,fun wrong => (by cases wrong)⟩
      · rw [if_neg short]
        exact .inl ⟨.inr full,Nat.not_lt.mp short,_,rfl,rfl,rfl,rfl,rfl⟩

theorem createFile_begins (ok : m.Ok) {ftype : UInt8} (begins : m.Begins ftype) (name : List UInt8) (p : Nat) :
    ∃ (m₁ : Image) (n : Node),m.createFile name p ftype = (((m₁.push n).link p name m.nodes.length).1,.success) ∧
      m₁.nodes = m.nodes ∧ m₁.nblocks = m.nblocks ∧ m₁.dlen = m.dlen ∧ m₁.nextBlock = m.nextBlock + m.need ftype ∧
      n.ftype = ftype ∧ n.iparent = p := by
  unfold Begins need at begins
  unfold createFile need
  dsimp only
  rcases needIblock_cases ok with ⟨_,_,m₁,enough,nodes,nblocks,dlen,next⟩ | ⟨none,_⟩
  · rw [enough]
    dsimp only
    by_cases dir : ftype = ftypeDir
    · rw [if_pos dir] at begins ⊢
      rw [if_pos dir]
      have room : ¬ m₁.nblocks < m₁.nextBlock + m₁.dlen := by omega
      unfold alloc
      rw [if_neg room]
      exact ⟨{m₁ with nextBlock := m₁.nextBlock + m₁.dlen},_,rfl,nodes,nblocks,dlen,by dsimp only; omega,rfl,rfl⟩
    · rw [if_neg dir,if_neg dir]
      exact ⟨m₁,_,rfl,nodes,nblocks,dlen,next,rfl,rfl⟩
  · exact absurd ⟨begins.1,by omega⟩ none

theorem createFile_stops (ok : m.Ok) {ftype : UInt8} (stops : ¬ m.Begins ftype) (name : List UInt8) (p : Nat) :
    (m.createFile name p ftype).2 ≠ .success ∧ (m.createFile name p ftype).1.nodes = m.nodes := by
  unfold Begins need at stops
  unfold createFile
  dsimp only
  rcases needIblock_cases ok with ⟨slot,room,m₁,enough,nodes,nblocks,dlen,next⟩ | ⟨_,e,failed,error⟩
  · rw [enough]
    dsimp only
    by_cases dir : ftype = ftypeDir
    · rw [if_pos dir] at stops ⊢
      have short : m₁.nblocks < m₁.nextBlock + m₁.dlen := by
        by_contra fits
        exact stops ⟨slot,by omega⟩
      unfold alloc
      rw [if_pos short]
      exact ⟨fun wrong => (by cases wrong),nodes⟩
    · rw [if_neg dir] at stops
      exact absurd ⟨slot,by omega⟩ stops
  · rw [failed]
    exact ⟨error,rfl⟩

-- An entry behind the others is found if it is not in the last block, and if none of the
-- others answers to its name.
theorem find_added {n n' : Node} {child : Nat} (links : n'.links = n.links ++ [⟨name,child⟩])
    (old : ∀ l ∈ n.links,l.inode ≠ child) :
    n'.find name = some child ↔ n.links.length < 128 * (total n'.regs - 1) ∧ ∀ l ∈ n.links,¬ name <+: l.name := by
  have at_visible : ∀ k,k < 128 * (total n'.regs - 1) → n'.visible[k]? = (n.links ++ [(⟨name,child⟩ : Link)])[k]? := by
    intro k less
    unfold Node.visible
    rw [List.getElem?_take,if_pos less,links]
  constructor
  · intro found
    obtain ⟨k,l,at_k,_,leads,first⟩ := Node.find_first.mp found
    have inside : k < 128 * (total n'.regs - 1) := by
      have := (List.getElem?_eq_some_iff.mp at_k).1
      unfold Node.visible at this
      rw [List.length_take] at this
      omega
    rw [at_visible k inside] at at_k
    have last : n.links.length ≤ k := by
      by_contra less
      rw [List.getElem?_append_left (by omega)] at at_k
      exact old l (List.mem_of_getElem? at_k) leads
    refine ⟨by omega,fun l' member begins => ?_⟩
    obtain ⟨k',at_k'⟩ := List.getElem?_of_mem member
    have less := (List.getElem?_eq_some_iff.mp at_k').1
    refine first k' l' (by omega) ?_ begins
    rw [at_visible k' (by omega),List.getElem?_append_left less]
    exact at_k'
  · rintro ⟨inside,none⟩
    refine Node.find_first.mpr ⟨n.links.length,⟨name,child⟩,?_,List.prefix_refl _,rfl,fun k' l' less at_k' => ?_⟩
    · rw [at_visible _ inside,List.getElem?_append_right (Nat.le_refl _),Nat.sub_self]
      rfl
    · rw [at_visible k' (by omega),List.getElem?_append_left less] at at_k'
      exact none l' (List.mem_of_getElem? at_k')

-- Whether a new entry of directory p can be found, when `taken` blocks are taken before.
def Shows (m : Image) (taken p : Nat) (name : List UInt8) : Prop :=
  (m.node p).eof < 128 * (total (m.node p).regs - 1) ∨
  ((m.node p).eof = 128 * total (m.node p).regs ∧ (m.node p).regs.length ≠ 23 ∧
    m.nextBlock + taken + m.dlen ≤ m.nblocks ∧ 2 ≤ m.dlen ∧ ∀ l ∈ (m.node p).links,¬ name <+: l.name)

theorem link_shows {p child : Nat} (h : p < m.nodes.length) (count : (m.node p).links.length = (m.node p).eof)
    (fits : (m.node p).eof ≤ 128 * total (m.node p).regs) (old : ∀ l ∈ (m.node p).links,l.inode ≠ child)
    (short : name.length ≤ 28) (missing : (m.node p).find name = none) :
    ((m.link p name child).1.node p).find name = some child ↔ m.Shows 0 p name := by
  have take : name.take 28 = name := List.take_of_length_le short
  have unseen : (m.node p).eof < 128 * (total (m.node p).regs - 1) → ∀ l ∈ (m.node p).links,¬ name <+: l.name := by
    intro inside l member begins
    unfold Node.find at missing
    have none := List.find?_eq_none.mp (Option.map_eq_none_iff.mp missing) l
    unfold Node.visible at none
    rw [List.take_of_length_le (by omega)] at none
    exact none member (List.isPrefixOf_iff_prefix.mpr begins)
  have lost : ¬ (m.node p).find name = some child := by
    rw [missing]
    exact fun wrong => (by cases wrong)
  unfold link Shows
  dsimp only
  rw [Nat.add_zero,take]
  by_cases room : (m.node p).eof < 128 * total (m.node p).regs
  · rw [if_pos room,node_setNode _ p h,if_pos rfl,find_added (n := m.node p) rfl old]
    dsimp only
    rw [count]
    constructor
    · exact fun found => .inl found.1
    · rintro (inside | ⟨full,_⟩)
      · exact ⟨inside,unseen inside⟩
      · omega
  · rw [if_neg room]
    by_cases slots : (m.node p).regs.length = 23
    · rw [if_pos slots]
      refine ⟨fun wrong => absurd wrong lost,?_⟩
      rintro (inside | ⟨_,free,_⟩)
      · omega
      · exact absurd slots free
    · rw [if_neg slots]
      unfold alloc
      by_cases full : m.nblocks < m.nextBlock + m.dlen
      · rw [if_pos full]
        refine ⟨fun wrong => absurd wrong lost,?_⟩
        rintro (inside | ⟨_,_,free,_⟩)
        · omega
        · omega
      · rw [if_neg full]
        have h' : p < ({m with nextBlock := m.nextBlock + m.dlen} : Image).nodes.length := h
        dsimp only
        rw [node_setNode _ p h',if_pos rfl,find_added (n := m.node p) rfl old]
        dsimp only
        rw [count,total_append,total_cons,total_nil]
        dsimp only
        constructor
        · rintro ⟨inside,others⟩
          exact .inr ⟨by omega,slots,by omega,by omega,others⟩
        · rintro (inside | ⟨_,_,_,wide,others⟩)
          · omega
          · exact ⟨by omega,others⟩

-- What a creation in directory p comes to.
structure Made (m m' : Image) (ftype : UInt8) (p : Nat) (name : List UInt8) : Prop extends Extends m m' where
  new : (m'.node m.nodes.length).ftype = ftype
  others : ∀ d,d < m.nodes.length → d ≠ p → m'.node d = m.node d
  shown : m'.lookup p name = .ok m.nodes.length ↔ m.Shows (m.need ftype) p name
  entry : m'.lookup p name = .ok m.nodes.length → (⟨name,m.nodes.length⟩ : Link) ∈ (m'.node p).links

theorem createFile_made (good : m.Good) {p : Nat} {ftype : UInt8} (a : m.Attached p) (dir : (m.node p).ftype = ftypeDir)
    (missing : m.lookup p name = .error .noFile) (short : name.length ≤ 28) (begins : m.Begins ftype) :
    (m.createFile name p ftype).2 = .success ∧ Made m (m.createFile name p ftype).1 ftype p name := by
  have exist := (a.alive good).1
  have dirOk := a.dirOk good dir
  have appended := createFile_appended name ftype exist
  obtain ⟨m₁,n,made,nodes,nblocks,dlen,next,new,_⟩ := createFile_begins good.toOk begins name p
  rw [made] at appended ⊢
  have length : m₁.nodes.length = m.nodes.length := by rw [nodes]
  have same : (m₁.push n).node p = m.node p := by
    rw [node_push,if_neg (by omega)]
    unfold node
    rw [nodes]
  have exist' : p < (m₁.push n).nodes.length := by rw [length_push]; omega
  have old : ∀ l ∈ ((m₁.push n).node p).links,l.inode ≠ m.nodes.length := by
    rw [same]
    intro l member
    obtain ⟨k,at_k⟩ := List.getElem?_of_mem member
    exact Nat.ne_of_lt (dirOk.link_lt exist at_k)
  have unseen : ((m₁.push n).node p).find name = none := by
    rw [same]
    unfold Image.lookup at missing
    rw [if_neg (not_not.mpr dir)] at missing
    cases first : (m.node p).find name with
    | none => rfl
    | some i =>
        rw [first] at missing
        cases missing
  have shows := @link_shows (m₁.push n) name p m.nodes.length exist' (by rw [same]; exact dirOk.count)
    (by rw [same]; exact dirOk.fits) old short unseen
  have lookup : ∀ i,((m₁.push n).link p name m.nodes.length).1.lookup p name = .ok i ↔
      (((m₁.push n).link p name m.nodes.length).1.node p).find name = some i := by
    intro i
    rw [lookup_ok]
    exact and_iff_right ((appended.node p exist).ftype.trans dir)
  refine ⟨rfl,appended.toExtends,?_,appended.others,?_,?_⟩
  · have last : (m₁.push n).node m.nodes.length = n := by rw [node_push,if_pos length.symm]
    dsimp only
    rcases link_cases name m.nodes.length exist' with ⟨_,none⟩ | ⟨_,_,_,_,_,others⟩
    · rw [none,last,new]
    · rw [others m.nodes.length (by omega),last,new]
  · rw [lookup,shows]
    unfold Shows
    rw [same]
    have blocks : (m₁.push n).nextBlock + 0 + (m₁.push n).dlen ≤ (m₁.push n).nblocks ↔
        m.nextBlock + m.need ftype + m.dlen ≤ m.nblocks := by
      show m₁.nextBlock + 0 + m₁.dlen ≤ m₁.nblocks ↔ _
      rw [nblocks,dlen,next,Nat.add_zero]
    have wide : (m₁.push n).dlen = m.dlen := dlen
    rw [blocks,wide]
  · intro found
    rw [lookup] at found
    rcases link_cases name m.nodes.length exist' with ⟨_,none⟩ | ⟨_,_,links,_⟩
    · rw [none,unseen] at found
      cases found
    · dsimp only
      rw [links,List.take_of_length_le short]
      exact List.mem_append_right _ (List.mem_singleton.mpr rfl)

-- A creation that ends with outcome o is one at the path.
structure Creates (m m' : Image) (o : Outcome) (ftype : UInt8) (path parent name : List UInt8) : Prop where
  entry : o = .success → ∃ p q,m.resolve parent = .ok (p,q) ∧ (m.node p).ftype = ftypeDir ∧
    (⟨name,m.nodes.length⟩ : Link) ∈ (m'.node p).links
  found : o = .success → ∃ q,m'.resolve path = .ok (m.nodes.length,q)
  ftype : o = .success → (m'.node m.nodes.length).ftype = ftype
  kept : o = .success → ∀ path' i q,0 ∉ path' → m.resolve path' = .ok (i,q) → ∃ q',m'.resolve path' = .ok (i,q')
  refused : (∀ p q,m.resolve parent = .ok (p,q) → (m.node p).ftype ≠ ftypeDir) → o ≠ .success ∧ m'.nodes = m.nodes

theorem Creates.still {m' : Image} {o : Outcome} {ftype : UInt8} (failed : o ≠ .success) (same : m'.nodes = m.nodes) :
    Creates m m' o ftype path parent name :=
  ⟨fun wrong => absurd wrong failed,fun wrong => absurd wrong failed,fun wrong => absurd wrong failed,
    fun wrong => absurd wrong failed,fun _ => ⟨failed,same⟩⟩

-- The new name can be found in the directory that the parent is, and a parent of one
-- character is the root.
def Place (m : Image) (ftype : UInt8) (parent name : List UInt8) : Prop :=
  (parent.length = 1 → ∃ q,m.resolve parent = .ok (0,q)) ∧
    ∀ p q,m.resolve parent = .ok (p,q) → m.Shows (m.need ftype) p name

theorem Made.creates_iff {m' : Image} {ftype : UInt8} {p : Nat} {q : Option Nat} (made : Made m m' ftype p name) (good : m.Good)
    (n : Named path parent name) (found : m.resolve parent = .ok (p,q)) (dir : (m.node p).ftype = ftypeDir)
    (own : parent.length = 1 → p = 0) : Creates m m' .success ftype path parent name ↔ m.Place ftype parent name := by
  have back : m'.resolve path = (m'.lookup p name).map fun i => (i,some p) :=
    (resolve_named n).2 p q (made.toExtends.resolve good found)
  constructor
  · intro creates
    refine ⟨fun one => ⟨q,by rw [found,own one]⟩,fun p' q' found' => ?_⟩
    cases found.symm.trans found'
    obtain ⟨q'',there⟩ := creates.found rfl
    rw [back] at there
    cases hit : m'.lookup p name with
    | error e =>
        rw [hit] at there
        cases there
    | ok i =>
        rw [hit] at there
        cases there
        exact made.shown.mp hit
  · rintro ⟨_,shows⟩
    have hit := made.shown.mpr (shows p q found)
    refine ⟨fun _ => ⟨p,q,found,dir,made.entry hit⟩,fun _ => ⟨some p,?_⟩,fun _ => made.new,
      fun _ path' i q' _ before => ⟨q',made.toExtends.resolve good before⟩,fun none => absurd dir (none p q found)⟩
    rw [back,hit]
    rfl

theorem create_named_iff (good : m.Good) (n : Named path parent name) (ftype : UInt8) :
    Creates m (m.create ftype path).1 (m.create ftype path).2 ftype path parent name ↔
      (m.resolve path = .error .noFile → m.Begins ftype → m.Place ftype parent name) := by
  unfold create
  cases there : m.resolve path with
  | ok r => exact ⟨fun _ wrong => (by cases wrong),fun _ => .still (fun wrong => (by cases wrong)) rfl⟩
  | error e =>
      have failed := (resolve_error there).1
      by_cases missing : e = .noFile
      · subst missing
        dsimp only
        obtain ⟨root,below⟩ := createParent_named (m := m) n ftype
        obtain ⟨wrong,step⟩ := resolve_named (m := m) n
        by_cases begins : m.Begins ftype
        · cases found : m.resolve parent with
          | error e =>
              by_cases few : parent.length ≤ 1
              · -- The parent is not there, and the file is made in the root.
                obtain ⟨m₁,node,made,_⟩ := createFile_begins good.toOk begins name 0
                rw [root few,made]
                constructor
                · intro creates
                  exact absurd rfl (creates.refused fun p q wrong => (by rw [found] at wrong; cases wrong)).1
                · intro condition
                  have some : parent.length = 1 := by
                    have nonempty : parent ≠ [] := by
                      intro wrong
                      rw [wrong] at found
                      cases found
                    have := List.length_pos_iff.mpr nonempty
                    omega
                  obtain ⟨q,lead⟩ := (condition rfl begins).1 some
                  rw [found] at lead
                  cases lead
              · rw [(below few).1 e found]
                refine ⟨fun _ _ _ => ⟨fun one => absurd (Nat.le_of_eq one) few,fun p q wrong => ?_⟩,
                  fun _ => .still (resolve_error found).1 rfl⟩
                rw [found] at wrong
                cases wrong
          | ok r =>
              obtain ⟨p,q⟩ := r
              have whole := step p q found
              rw [there] at whole
              have unseen : m.lookup p name = .error .noFile := by
                cases hit : m.lookup p name with
                | error e =>
                    rw [hit] at whole
                    cases whole
                    rfl
                | ok i =>
                    rw [hit] at whole
                    cases whole
              have dir : (m.node p).ftype = ftypeDir := by
                by_contra other
                unfold lookup at unseen
                rw [if_pos other] at unseen
                cases unseen
              have a := resolve_attached good found
              by_cases astray : parent.length = 1 ∧ p ≠ 0
              · -- The parent is there, and yet the file is made in the root.
                obtain ⟨one,other⟩ := astray
                have appended := createFile_appended name ftype good.root.1
                obtain ⟨m₁,node,made,_⟩ := createFile_begins good.toOk begins name 0
                rw [root (Nat.le_of_eq one)]
                constructor
                · intro creates
                  obtain ⟨p',q',found',_,member⟩ := creates.entry (by rw [made])
                  cases found.symm.trans found'
                  rw [appended.others p (a.alive good).1 other] at member
                  obtain ⟨k,at_k⟩ := List.getElem?_of_mem member
                  exact absurd ((a.dirOk good dir).link_lt (a.alive good).1 at_k) (Nat.lt_irrefl _)
                · intro condition
                  obtain ⟨q',lead⟩ := (condition rfl begins).1 one
                  cases found.symm.trans lead
                  exact absurd rfl other
              · obtain ⟨success,made⟩ := createFile_made good a dir unseen n.short begins
                have own : parent.length = 1 → p = 0 := fun one => by
                  by_contra other
                  exact astray ⟨one,other⟩
                have place : m.createParent ftype path = m.createFile name p ftype := by
                  by_cases few : parent.length ≤ 1
                  · have zero : p = 0 := by
                      by_cases empty : parent = []
                      · rw [empty] at found
                        cases found
                        rfl
                      · have := List.length_pos_iff.mpr empty
                        exact own (by omega)
                    rw [root few,zero]
                  · exact (below few).2 p q found
                rw [place,success,made.creates_iff good n found dir own]
                exact ⟨fun right _ _ => right,fun right => right rfl begins⟩
        · refine ⟨fun _ _ wrong => absurd wrong begins,fun _ => ?_⟩
          by_cases few : parent.length ≤ 1
          · have stops := createFile_stops good.toOk begins name 0
            rw [root few]
            exact .still stops.1 stops.2
          · cases found : m.resolve parent with
            | error e =>
                rw [(below few).1 e found]
                exact .still (resolve_error found).1 rfl
            | ok r =>
                have stops := createFile_stops good.toOk begins name r.1
                rw [(below few).2 r.1 r.2 found]
                exact .still stops.1 stops.2
      · cases e with
        | noFile => exact absurd rfl missing
        | _ => exact ⟨fun _ wrong => (by cases wrong),fun _ => .still failed rfl⟩

end Image
namespace Mount
variable {s : Mount}

-- fs2_create makes the inode at the path, in the directory `parent`, or nothing where that
-- is none.
def Creates (s : Mount) (ftype : UInt8) (path parent : Path) (name : List UInt8) : Prop :=
  ∃ s' r,create s ftype path = some (s',r) ∧
    (r = true → (∃ p,s.Resolves parent p ∧ (s.image.node p.toNat).ftype = ftypeDir ∧
        (⟨name,s.vol.hblock.nextInode.toNat⟩ : Link) ∈ (s'.image.node p.toNat).links) ∧
      s'.Resolves path s.vol.hblock.nextInode ∧ (s'.image.node s.vol.hblock.nextInode.toNat).ftype = ftype ∧
      ∀ path' i,s.Resolves path' i → s'.Resolves path' i) ∧
    ((∀ p,s.Resolves parent p → (s.image.node p.toNat).ftype ≠ ftypeDir) → r = false ∧ s'.image.nodes = s.image.nodes)

theorem creates_image (v : s.Valid) (works : s.disk.Works) (ftype : UInt8) (path parent : Path) (name : List UInt8) :
    s.Creates ftype path parent name ↔ Image.Creates s.image (s.image.create ftype path.bytes).1
      (s.image.create ftype path.bytes).2 ftype path.bytes parent.bytes name := by
  obtain ⟨s',r,run,ended⟩ := create_spec v works.sound ftype path
    (createLookups_quiet v works.sound path fun t x => works.reads t x)
  rcases ended with ⟨grew,v',image,outcome,result⟩ | ⟨stopped,_⟩
  · have works' := Works.dev works grew.toDev
    have length := image_length s
    have answer : r = true ↔ (s.image.create ftype path.bytes).2 = .success := by
      rw [result,outcome,decide_eq_true_iff]
    rw [← image]
    constructor
    · rintro ⟨s₁,r₁,run₁,right,none⟩
      cases run.symm.trans run₁
      refine ⟨fun success => ?_,fun success => ?_,fun success => ?_,fun success => ?_,fun other => ?_⟩
      · obtain ⟨⟨p,leads,dir,entry⟩,_⟩ := right (answer.mpr success)
        obtain ⟨q,found⟩ := (resolves_iff v works parent p).mp leads
        exact ⟨p.toNat,q,found,dir,by rw [length]; exact entry⟩
      · obtain ⟨_,leads,_⟩ := right (answer.mpr success)
        rw [length]
        exact (resolves_iff v' works' path _).mp leads
      · obtain ⟨_,_,same,_⟩ := right (answer.mpr success)
        rw [length]
        exact same
      · intro path' i q noNul found
        obtain ⟨_,_,_,kept⟩ := right (answer.mpr success)
        obtain ⟨x,same,leads⟩ := resolves_word v works ⟨path',noNul⟩ found
        obtain ⟨q',found'⟩ := (resolves_iff v' works' ⟨path',noNul⟩ x).mp (kept ⟨path',noNul⟩ x leads)
        exact ⟨q',by rw [found',same]⟩
      · have refused := none fun p leads => by
          obtain ⟨q,found⟩ := (resolves_iff v works parent p).mp leads
          exact other p.toNat q found
        refine ⟨fun success => ?_,refused.2⟩
        rw [answer.mpr success] at refused
        exact Bool.noConfusion refused.1
    · intro creates
      refine ⟨s',r,run,fun true_ => ?_,fun other => ?_⟩
      · have success := answer.mp true_
        obtain ⟨p,q,found,dir,entry⟩ := creates.entry success
        obtain ⟨x,same,leads⟩ := resolves_word v works parent found
        rw [length] at entry
        have there := creates.found success
        rw [length] at there
        have new := creates.ftype success
        rw [length] at new
        refine ⟨⟨x,leads,by rw [same]; exact dir,by rw [same]; exact entry⟩,
          (resolves_iff v' works' path _).mpr there,new,fun path' i before => ?_⟩
        obtain ⟨q',found'⟩ := (resolves_iff v works path' i).mp before
        exact (resolves_iff v' works' path' i).mpr (creates.kept success path'.bytes i.toNat q' path'.noNul found')
      · have refused := creates.refused fun p q found => by
          obtain ⟨x,same,leads⟩ := resolves_word v works parent found
          rw [← same]
          exact other x leads
        refine ⟨?_,refused.2⟩
        cases r with
        | true => exact absurd (answer.mp rfl) refused.1
        | false => rfl
  · exact (Works.not_faulty works stopped.faulty).elim

-- Exactly when fs2_create does what its path says, on every volume that a careful run reaches.
theorem creates_path_iff (trail : Trail Careful s) (ftype : UInt8) {path parent : Path} {name : List UInt8}
    (n : Named path.bytes parent.bytes name) : s.Creates ftype path parent name ↔
      (s.image.resolve path.bytes = .error .noFile → s.image.Begins ftype → s.image.Place ftype parent.bytes name) := by
  obtain ⟨v,works⟩ := trail.valid
  rw [creates_image v works,Image.create_named_iff v.good n]

-- A directory "dd" in a root of two blocks, and a file in it.
def dirDD : Path := ⟨[0x64,0x64],by decide⟩
def pathDDB : Path := ⟨[0x64,0x64,slash,0x62],by decide⟩

theorem pathDDB_named : Named pathDDB.bytes dirDD.bytes [0x62] :=
  ⟨rfl,fun _ => (by show (0x64 : UInt8) ≠ slash; decide),by decide,by decide,by decide⟩

theorem creates_path_below : ∃ s : Mount,Trail Careful s ∧ s.image.resolve dirDD.bytes = .ok (1,some 0) ∧
    s.image.resolve pathDDB.bytes = .error .noFile ∧ s.Creates ftypeFile pathDDB dirDD [0x62] := by
  obtain ⟨s,formatted,image⟩ := formats 3 passes_boot (by decide)
  obtain ⟨t,_,history,after⟩ := (History.format formatted : History AnyOp s).next
    (show Op.Fits s (.create ftypeDir dirDD) from trivial) trivial
  rw [image] at after
  have parent : t.image.resolve dirDD.bytes = .ok (1,some 0) := by
    rw [after]
    decide +kernel
  have missing : t.image.resolve pathDDB.bytes = .error .noFile := by
    rw [after]
    decide +kernel
  have room : (t.image.node 1).eof < 128 * (total (t.image.node 1).regs - 1) := by
    rw [after]
    decide +kernel
  refine ⟨t,history.trail,parent,missing,(creates_path_iff history.trail ftypeFile pathDDB_named).mpr fun _ _ => ⟨fun wrong => ?_,?_⟩⟩
  · exact absurd wrong (by decide)
  · intro p q found
    cases parent.symm.trans found
    exact .inl room

def pathAB : Path := ⟨[0x61,slash,0x62],by decide⟩

theorem pathAB_named : Named pathAB.bytes fileA.bytes [0x62] :=
  ⟨rfl,fun _ => (by show (0x61 : UInt8) ≠ slash; decide),by decide,by decide,by decide⟩

-- "a/b" is made in the root, although there is a directory "a".
theorem made_in_root : ¬ ∀ (s : Mount) (ftype : UInt8) (path parent : Path) (name : List UInt8),History AnyOp s →
    Named path.bytes parent.bytes name → s.Creates ftype path parent name := by
  intro all
  obtain ⟨s,formatted,image⟩ := formats 3 passes_boot (by decide)
  obtain ⟨t,_,history,after⟩ := (History.format formatted : History AnyOp s).next
    (show Op.Fits s (.create ftypeDir fileA) from trivial) trivial
  rw [image] at after
  have creates := all t ftypeFile pathAB fileA [0x62] history pathAB_named
  rw [creates_image history.valid.1 history.valid.2,Image.create_named_iff history.valid.1.good pathAB_named,after] at creates
  have missing : ((Op.create ftypeDir fileA).apply (formatImage 100 3 4 1 2)).resolve pathAB.bytes = .error .noFile := by
    decide +kernel
  have begins : ((Op.create ftypeDir fileA).apply (formatImage 100 3 4 1 2)).Begins ftypeFile := by
    unfold Image.Begins
    decide +kernel
  have parent : ((Op.create ftypeDir fileA).apply (formatImage 100 3 4 1 2)).resolve fileA.bytes = .ok (1,some 0) := by
    decide +kernel
  obtain ⟨q,root⟩ := (creates missing begins).1 rfl
  rw [parent] at root
  cases root

end Mount
end ArchiveOs.Fs2
