import ArchiveOs.Entries
import ArchiveOs.Reads
import Mathlib.Data.List.Perm.Basic

-- Removing a link from a directory: its last entry takes the place of the one that
-- goes. First on images, then the search of fs2_unlink and the store behind it.
namespace ArchiveOs.Fs2
open Extents Layout

def Node.replaceLink (n : Node) (k : Nat) (l : Link) : Node :=
  {n with eof := n.eof - 1,links := (n.links.set k l).take (n.eof - 1)}

def Node.dropLink (n : Node) (k : Nat) : Node :=
  {n with eof := n.eof - 1,links := (n.links.set k (n.links.getD (n.eof - 1) default)).take (n.eof - 1)}

theorem Node.replaceLink_getElem? {n : Node} (count : n.links.length = n.eof) {k : Nat} (inside : k < n.eof) (l : Link) (j : Nat) :
    (n.replaceLink k l).links[j]? = if j < n.eof - 1 then (if j = k then some l else n.links[j]?) else none := by
  unfold replaceLink
  rw [List.getElem?_take]
  split
  · by_cases here : j = k
    · subst here
      rw [if_pos rfl,List.getElem?_set_self (by omega)]
    · rw [if_neg here,List.getElem?_set_ne (fun e => here e.symm)]
  · rfl

theorem Node.dropLink_getElem? {n : Node} (count : n.links.length = n.eof) {k : Nat} (inside : k < n.eof) (j : Nat) :
    (n.dropLink k).links[j]? =
      if j < n.eof - 1 then n.links[if j = k then n.eof - 1 else j]? else none := by
  have replaced := replaceLink_getElem? count inside (n.links.getD (n.eof - 1) default) j
  have last : n.links[n.eof - 1]? = some (n.links.getD (n.eof - 1) default) := by
    rw [List.getD_eq_getElem?_getD,List.getElem?_eq_getElem (by omega)]
    rfl
  refine replaced.trans ?_
  by_cases here : j = k
  · rw [if_pos here,if_pos here,last]
  · rw [if_neg here,if_neg here]

theorem Node.dropLink_length {n : Node} (count : n.links.length = n.eof) (k : Nat) :
    (n.dropLink k).links.length = (n.dropLink k).eof := by
  unfold dropLink
  rw [List.length_take,List.length_set]
  show min (n.eof - 1) _ = n.eof - 1
  omega

section Perm
variable {n : Node} {k : Nat} {l m : Link}

theorem Node.last_perm (count : n.links.length = n.eof) (some : 0 < n.eof) :
    n.links.Perm (n.links.getD (n.eof - 1) default :: n.links.take (n.eof - 1)) := by
  have inside : n.eof - 1 < n.links.length := by omega
  have whole : n.links.take (n.eof - 1) ++ [n.links[n.eof - 1]] = n.links := by
    rw [List.take_append_getElem,List.take_of_length_le (by omega)]
  have last : n.links.getD (n.eof - 1) default = n.links[n.eof - 1] := by
    rw [List.getD_eq_getElem?_getD,List.getElem?_eq_getElem inside]
    rfl
  rw [last]
  conv => lhs; rw [← whole]
  exact List.perm_append_singleton _ _

theorem Node.replaceLink_perm (at_k : n.links[k]? = some l) (before : k < n.eof - 1) :
    (l :: (n.replaceLink k m).links).Perm (m :: n.links.take (n.eof - 1)) := by
  have at_front : (n.links.take (n.eof - 1))[k]?.getD m = l := by
    rw [List.getElem?_take,if_pos before,at_k]
    rfl
  have exchanged := List.getD_set_perm_cons (n.links.take (n.eof - 1)) k m
  rw [at_front,← List.take_set] at exchanged
  exact exchanged

theorem Node.replaceLink_last (after : ¬ k < n.eof - 1) :
    (n.replaceLink k m).links = n.links.take (n.eof - 1) := by
  unfold replaceLink
  dsimp only
  rw [List.take_set_of_le (by omega)]

theorem Node.dropLink_perm (count : n.links.length = n.eof) (at_k : n.links[k]? = some l) :
    n.links.Perm (l :: (n.dropLink k).links) := by
  have inside := (List.getElem?_eq_some_iff.mp at_k).1
  have last := last_perm count (by omega)
  by_cases before : k < n.eof - 1
  · exact last.trans (replaceLink_perm at_k before).symm
  · have is_last : k = n.eof - 1 := by omega
    have same : n.links.getD (n.eof - 1) default = l := by
      rw [List.getD_eq_getElem?_getD,← is_last,at_k]
      rfl
    have front : (n.dropLink k).links = n.links.take (n.eof - 1) := replaceLink_last before
    rw [front,← same]
    exact last
end Perm

namespace Image

-- The victim of a remove loses its regions, unless it is the last inode.
def wipe (m : Image) (i : Nat) : Image :=
  if i + 1 < m.nodes.length then m.setNode i {m.node i with regs := [],links := []} else m

def rm (m : Image) (path : List UInt8) : Image × Outcome :=
  match m.resolve path with
  | .error e => (m,e)
  | .ok (i,p) =>
    if i = 0 then (m,.badPermissions)
    else if (m.node i).ftype = ftypeDir ∧ 2 < (m.node i).eof then (m,.badFtype)
    else
      let p := p.getD 0
      match (m.node p).links.findIdx? fun l => l.inode == i with
      | none => (m,.noFile)
      | some k => ((m.wipe i).setNode p ((m.node p).dropLink k),.success)

end Image

theorem DirOk.dropLink {m : Image} {p k : Nat} (d : DirOk m p) (h : p < m.nodes.length) (two : 2 ≤ k)
    (inside : k < (m.node p).eof) : DirOk (m.setNode p ((m.node p).dropLink k)) p := by
  have at_p : (m.setNode p ((m.node p).dropLink k)).node p = (m.node p).dropLink k := by rw [Image.node_setNode _ p h,if_pos rfl]
  have others : ∀ j,j ≠ p → (m.setNode p ((m.node p).dropLink k)).node j = m.node j :=
    fun j ne => by rw [Image.node_setNode _ j h,if_neg ne]
  have entry := Node.dropLink_getElem? d.count inside
  have old : ∀ (j : Nat) (l : Link),2 ≤ j → ((m.node p).dropLink k).links[j]? = some l →
      j < (m.node p).eof - 1 ∧ (m.node p).links[if j = k then (m.node p).eof - 1 else j]? = some l := by
    intro j l _ at_j
    rw [entry] at at_j
    split at at_j
    · rename_i less
      exact ⟨less,at_j⟩
    · cases at_j
  have low : ∀ j,j < 2 → ((m.node p).dropLink k).links[j]? = (m.node p).links[j]? := by
    intro j less
    rw [entry,if_pos (by omega),if_neg (by omega)]
  refine ⟨?_,?_,?_,?_,?_,?_,?_,?_⟩
  all_goals rw [at_p]
  · exact d.positive
  · exact Node.dropLink_length d.count k
  · have fits := d.fits
    show (m.node p).eof - 1 ≤ _
    exact Nat.le_trans (Nat.sub_le _ _) fits
  · rw [low 0 (by decide)]; exact d.self
  · rw [low 1 (by decide)]; exact d.up
  · exact d.parent
  · intro j l more at_j
    obtain ⟨_,at_old⟩ := old j l more at_j
    obtain ⟨above,below,parent⟩ := d.child _ l (by split <;> omega) at_old
    rw [Image.length_setNode,others l.inode (by omega)]
    exact ⟨above,below,parent⟩
  · intro j j' l l' more more' at_j at_j' same
    obtain ⟨less,at_old⟩ := old j l more at_j
    obtain ⟨less',at_old'⟩ := old j' l' more' at_j'
    have equal := d.distinct _ _ l l' (by split <;> omega) (by split <;> omega) at_old at_old' same
    split at equal <;> split at equal <;> omega

namespace Image.Ok
variable {m : Image}

theorem dropLink (ok : m.Ok) {p k : Nat} (h : p < m.nodes.length) (dir : (m.node p).ftype = ftypeDir)
    (live : (m.node p).regs ≠ []) (two : 2 ≤ k) (inside : k < (m.node p).eof) :
    (m.setNode p ((m.node p).dropLink k)).Ok :=
  ok.replace h (ok.keepNode h rfl) rfl rfl (fun _ => id) fun _ _ => (ok.dirs p h dir live).dropLink h two inside

theorem wipe (ok : m.Ok) {i : Nat} (h : i < m.nodes.length) (other : i ≠ 0) : (m.wipe i).Ok ∧ m.Grows (m.wipe i) := by
  unfold Image.wipe
  split
  · have packed : Packed (m.setNode i {m.node i with regs := [],links := []}).own 1 m.nextBlock := by
      refine ok.packed.shrink fun o => ?_
      rw [own_setNode _ h]
      by_cases same : o = some i
      · subst same
        exact .inr (Function.update_self ..)
      · exact .inl (Function.update_of_ne same ..)
    exact ⟨ok.replace h packed rfl rfl (fun zero => absurd zero other) fun _ live => absurd rfl live,
      .setNode h rfl fun _ member => by simp at member⟩
  · exact ⟨ok,.refl m⟩

end Image.Ok

theorem Image.node_wipe {m : Image} {i : Nat} (h : i < m.nodes.length) {j : Nat} (other : j ≠ i) :
    (m.wipe i).node j = m.node j := by
  unfold Image.wipe
  split
  · rw [node_setNode _ j h,if_neg other]
  · rfl

@[simp] theorem Image.length_wipe (m : Image) (i : Nat) : (m.wipe i).nodes.length = m.nodes.length := by
  unfold Image.wipe
  split <;> simp

theorem Image.Good.unlink {m : Image} (good : m.Good) {p k : Nat} {l : Link} (h : p < m.nodes.length)
    (dir : (m.node p).ftype = ftypeDir) (live : (m.node p).regs ≠ []) (two : 2 ≤ k)
    (at_k : (m.node p).links[k]? = some l) :
    (m.wipe l.inode).Ok ∧ m.Grows (m.wipe l.inode) ∧ ((m.wipe l.inode).setNode p ((m.node p).dropLink k)).Good := by
  have d := good.dirs p h dir live
  obtain ⟨above,below,parent⟩ := d.child k l two at_k
  have inside : k < (m.node p).eof := by
    rw [← d.count]
    exact (List.getElem?_eq_some_iff.mp at_k).1
  obtain ⟨ok,grows⟩ := good.toOk.wipe below (by omega)
  have node : (m.wipe l.inode).node p = m.node p := node_wipe below (by omega)
  have h' : p < (m.wipe l.inode).nodes.length := by rw [length_wipe]; exact h
  have dropped := ok.dropLink h' (by rw [node]; exact dir) (by rw [node]; exact live) two (by rw [node]; exact inside)
  rw [node] at dropped
  refine ⟨ok,grows,dropped,?_⟩
  have keep : ∀ j,j ≠ l.inode → (m.node j).Alive →
      (((m.wipe l.inode).setNode p ((m.node p).dropLink k)).node j).Alive := by
    intro j other alive
    rw [node_setNode _ j h']
    split
    · exact fun _ => live
    · rw [node_wipe below other]; exact alive
  intro j k' l' hj dir' live' two' at_k'
  rw [length_setNode,length_wipe] at hj
  by_cases is_p : j = p
  · rw [node_setNode _ j h',if_pos is_p] at at_k'
    rw [Node.dropLink_getElem? d.count inside] at at_k'
    split at at_k'
    · rename_i less
      refine keep _ ?_ (good.living p _ l' h dir live (by split <;> omega) at_k')
      intro same
      have equal := d.distinct _ _ l' l (by split <;> omega) two at_k' at_k same
      split at equal <;> omega
    · cases at_k'
  · rw [node_setNode _ j h',if_neg is_p] at dir' live' at_k'
    by_cases is_victim : j = l.inode
    · rw [is_victim] at dir' live' at_k' hj
      unfold Image.wipe at dir' live' at_k'
      split at live'
      · rw [node_setNode _ _ below,if_pos rfl] at live'
        exact absurd rfl live'
      · rename_i last
        rw [if_neg last] at at_k' dir'
        have child := (good.dirs _ hj dir' live').child k' l' two' at_k'
        exact keep _ (by omega) (good.living _ k' l' hj dir' live' two' at_k')
    · rw [node_wipe below is_victim] at dir' live' at_k'
      refine keep _ ?_ (good.living j k' l' hj dir' live' two' at_k')
      intro same
      have child := (good.dirs j hj dir' live').child k' l' two' at_k'
      rw [same,parent] at child
      exact is_p child.2.2.symm

namespace Mount

def unlinkAt (s : Mount) (pindex : UInt32) (pinode : Inode) (k : Nat) : Mount :=
  let last := pinode.eof.toNat - 1
  let finish (s : Mount) : Mount := saveDblockC (s.setCached pindex {pinode with eof := pinode.eof - 1})
  if k ≠ last then
    if k / 128 ≠ last / 128 then
      let s := loadGpC s (pinode.blk (last / 128)) false
      if s.vol.outcome ≠ .success then s
      else finish (s.setEntry k ((dblockLayout.symm s.vol.xcache)[last % 128]))
    else finish (s.setEntry k (s.entry last))
  else finish s

-- The comparison of fs2_unlink, which looks at the first quarter of a block only.
def unlinkMatch (pindex xiindex : UInt32) (pinode : Inode) (n : Nat) (s : Mount) (k i j : Nat) : Option Mount :=
  if (s.entry (k % 32)).inodeIndex = xiindex then some (s.unlinkAt pindex pinode k)
  else unlinkLoop pindex xiindex n s (k + 1) i j

theorem unlinkLoop_succ (pindex xiindex : UInt32) (n : Nat) (s : Mount) (k i j : Nat) :
    unlinkLoop pindex xiindex (n + 1) s k i j =
      if k % 128 = 0 then
        match (s.cached pindex).rows[i]? with
        | none => none
        | some (start,len) =>
          let t := loadDblockC s (start + UInt32.ofNat j) false
          if t.vol.outcome ≠ .success then some t
          else if len = 0 then none
          else unlinkMatch pindex xiindex (s.cached pindex) n t k
            (if (j + 1) % len.toNat = 0 then i + 1 else i) ((j + 1) % len.toNat)
      else unlinkMatch pindex xiindex (s.cached pindex) n s k i j := by
  have matched : ∀ (t : Mount) (i j : Nat),unlinkMatch pindex xiindex (s.cached pindex) n t k i j =
      if (t.entry (k % 32)).inodeIndex = xiindex then
        let last := (s.cached pindex).eof.toNat - 1
        let finish (s' : Mount) : Mount :=
          saveDblockC (s'.setCached pindex {s.cached pindex with eof := (s.cached pindex).eof - 1})
        if k ≠ last then
          if k / 128 ≠ last / 128 then
            let t := loadGpC t ((s.cached pindex).blk (last / 128)) false
            if t.vol.outcome ≠ .success then some t
            else some (finish (t.setEntry k ((dblockLayout.symm t.vol.xcache)[last % 128])))
          else some (finish (t.setEntry k (t.entry last)))
        else some (finish t)
      else unlinkLoop pindex xiindex n t (k + 1) i j := by
    intro t i j
    unfold unlinkMatch unlinkAt
    dsimp only
    by_cases found : (t.entry (k % 32)).inodeIndex = xiindex
    · rw [if_pos found,if_pos found]
      by_cases other : k ≠ (s.cached pindex).eof.toNat - 1
      · rw [if_pos other,if_pos other]
        by_cases far : k / 128 ≠ ((s.cached pindex).eof.toNat - 1) / 128
        · rw [if_pos far,if_pos far]
          split <;> rfl
        · rw [if_neg far,if_neg far]
      · rw [if_neg other,if_neg other]
    · rw [if_neg found,if_neg found]
  simp only [matched]
  rfl

-- How a search ends: at the first entry in the first quarter of its block that leads
-- to x, at the end of the directory, or at a failed read.
inductive Searched (s t s' : Mount) (p x : UInt32) : Prop where
  | found (K : Nat) (t' : Mount) (inside : K < (s.inode p.toNat).eof.toNat) (quarter : K % 128 < 32)
      (hit : (linkAt s.at (blocks (s.inode p.toNat).regs) K).inode = x.toNat)
      (slid : Slid s t') (calm : t'.disk.failed = t.disk.failed) (holds : t'.Holds (s.inode p.toNat).regs (K / 128))
      (result : s' = t'.unlinkAt p (s.inode p.toNat) K)
  | missed (slid : Slid s s') (calm : s'.disk.failed = t.disk.failed) (outcome : s'.vol.outcome = .noFile)
      (none : ∀ k,k < (s.inode p.toNat).eof.toNat → k % 128 < 32 →
        (linkAt s.at (blocks (s.inode p.toNat).regs) k).inode ≠ x.toNat)
  | failed (slid : Slid s s') (loud : s'.disk.failed = true)
      (fault : ∃ n y,s.disk.trace.length ≤ n ∧ s.disk.rdFails n y = true) (outcome : s'.vol.outcome = .diskRdErr)

theorem Searched.after {s t t' s' : Mount} {p x : UInt32} (a : Searched s t' s' p x)
    (calm : t'.disk.failed = t.disk.failed) : Searched s t s' p x := by
  cases a with
  | found K t'' inside quarter hit slid calm' holds result => exact .found K t'' inside quarter hit slid (calm'.trans calm) holds result
  | missed slid calm' outcome none => exact .missed slid (calm'.trans calm) outcome none
  | failed slid loud fault outcome => exact .failed slid loud fault outcome

theorem unlinkLoop_look {s : Mount} (v : s.Mid) {p : UInt32} (x : UInt32) (here : s.vol.icindex = p / 32)
    (h : p.toNat < s.vol.hblock.nextInode.toNat) (dir : (s.inode p.toNat).ftype = ftypeDir)
    (live : (s.inode p.toNat).regs ≠ []) (n : Nat) {t : Mount} {k i j : Nat} (slid : Slid s t)
    (left : k + n = (s.inode p.toNat).eof.toNat) (w : t.Walk (s.inode p.toNat).regs k i j)
    (passed : ∀ l,l < k → l % 128 < 32 → (linkAt s.at (blocks (s.inode p.toNat).regs) l).inode ≠ x.toNat) :
    ∃ s',unlinkLoop p x n t k i j = some s' ∧ Searched s t s' p x := by
  induction n generalizing t k i j with
  | zero =>
    refine ⟨_,rfl,.missed (slid.out _) rfl rfl fun l less quarter => passed l (by omega) quarter⟩
  | succ n ih =>
    have cached : t.cached p = s.inode p.toNat := (slid.cached p).trans (cached_inode here)
    -- Comparing with slot k % 32 of the block, which has been compared before when it is not k.
    have step : ∀ (t₁ : Mount) (i' j' : Nat),Slid s t₁ → t₁.disk.failed = t.disk.failed →
        Cursor (s.inode p.toNat).regs (k / 128 + 1) i' j' → t₁.Holds (s.inode p.toNat).regs (k / 128) →
        ∃ s',unlinkMatch p x (s.inode p.toNat) n t₁ k i' j' = some s' ∧ Searched s t s' p x := by
      intro t₁ i' j' slid₁ calm cursor holds
      have slot : (t₁.entry (k % 32)).link =
          linkAt s.at (blocks (s.inode p.toNat).regs) (128 * (k / 128) + k % 32) := by
        have holds' : t₁.Holds (s.inode p.toNat).regs ((128 * (k / 128) + k % 32) / 128) := by
          rw [show (128 * (k / 128) + k % 32) / 128 = k / 128 by omega]; exact holds
        have entry := holds'.entry
        rw [slid₁.at_eq] at entry
        rw [← entry]
        unfold Mount.entry
        simp only [show (128 * (k / 128) + k % 32) % 128 = k % 32 % 128 by omega]
      have compare : (t₁.entry (k % 32)).inodeIndex = x ↔
          (linkAt s.at (blocks (s.inode p.toNat).regs) (128 * (k / 128) + k % 32)).inode = x.toNat := by
        rw [← slot]
        exact UInt32.toNat_inj.symm
      unfold unlinkMatch
      by_cases quarter : k % 128 < 32
      · have same : 128 * (k / 128) + k % 32 = k := by omega
        rw [same] at compare
        by_cases hit : (t₁.entry (k % 32)).inodeIndex = x
        · rw [if_pos hit]
          exact ⟨_,rfl,.found k t₁ (by omega) quarter (compare.mp hit) slid₁ calm holds rfl⟩
        · rw [if_neg hit]
          obtain ⟨s',run,result⟩ := ih slid₁ (k := k + 1) (i := i') (j := j') (by omega) (.next cursor holds) (by
            intro l less q
            rcases Nat.lt_or_ge l k with before | after
            · exact passed l before q
            · have is_k : l = k := by omega
              rw [is_k]
              exact fun equal => hit (compare.mpr equal))
          exact ⟨s',run,result.after calm⟩
      · rw [if_neg fun hit => passed _ (by omega) (by omega) (compare.mp hit)]
        obtain ⟨s',run,result⟩ := ih slid₁ (k := k + 1) (i := i') (j := j') (by omega) (.next cursor holds) (by
          intro l less q
          rcases Nat.lt_or_ge l k with before | after
          · exact passed l before q
          · have is_k : l = k := by omega
            rw [is_k] at q
            exact absurd q quarter)
        exact ⟨s',run,result.after calm⟩
    rw [unlinkLoop_succ,cached]
    unfold Walk at w
    by_cases boundary : k % 128 = 0
    · rw [if_pos boundary] at w ⊢
      obtain ⟨start,len,row,nonzero,slid₁,loaded⟩ := front_load v h dir live (by omega) slid w
      rw [row]
      dsimp only
      rcases loaded with ⟨calm,success₁,holds,cursor⟩ | ⟨loud,fault,error⟩
      · rw [if_neg (by simp [success₁]),if_neg nonzero]
        exact step _ _ _ slid₁ calm cursor holds
      · rw [if_pos (by simp [error])]
        exact ⟨_,rfl,.failed slid₁ loud fault error⟩
    · rw [if_neg boundary] at w ⊢
      exact step t i j slid rfl w.1 w.2

end Mount

theorem Image.setNode_setNode (m : Image) (i : Nat) (n n' : Node) : (m.setNode i n).setNode i n' = m.setNode i n' := by
  unfold setNode
  rw [List.set_set]

theorem Inode.node_replaceLink {n : Inode} {rd rd' : Nat → Block} {k : Nat} {l : Link} (dir : n.ftype = ftypeDir)
    (live : n.regs ≠ []) (inside : k < n.eof.toNat) (entries : ∀ j,j < n.eof.toNat - 1 →
      linkAt rd' (blocks n.regs) j = if j = k then l else linkAt rd (blocks n.regs) j) :
    ({n with eof := n.eof - 1} : Inode).node rd' = (n.node rd).replaceLink k l := by
  have eof : (n.eof - 1).toNat = n.eof.toNat - 1 := by
    have one : (1 : UInt32).toNat = 1 := rfl
    rw [UInt32.toNat_sub_of_le _ _ (UInt32.le_iff_toNat_le.mpr (by omega)),one]
  have count : (n.node rd).links.length = (n.node rd).eof := by
    simp [Inode.node,dir,live]
  have links : (({n with eof := n.eof - 1} : Inode).node rd').links = ((n.node rd).replaceLink k l).links := by
    apply List.ext_getElem?
    intro j
    rw [Node.replaceLink_getElem? count (by exact inside)]
    have new : (({n with eof := n.eof - 1} : Inode).node rd').links =
        (List.range (n.eof - 1).toNat).map (linkAt rd' (blocks n.regs)) := by
      unfold Inode.node
      exact if_pos ⟨dir,live⟩
    have old : (n.node rd).links = (List.range n.eof.toNat).map (linkAt rd (blocks n.regs)) := by
      unfold Inode.node
      exact if_pos ⟨dir,live⟩
    have size : (n.node rd).eof = n.eof.toNat := rfl
    rw [new,old,size,eof]
    rw [List.getElem?_map,List.getElem?_map]
    by_cases less : j < n.eof.toNat - 1
    · rw [if_pos less,List.getElem?_range less,List.getElem?_range (by omega),Option.map_some,Option.map_some,entries j less]
      split <;> rfl
    · rw [if_neg less,List.getElem?_eq_none (by rw [List.length_range]; omega)]
      rfl
  have whole : ({n with eof := n.eof - 1} : Inode).node rd' =
      {({n with eof := n.eof - 1} : Inode).node rd' with
        links := (({n with eof := n.eof - 1} : Inode).node rd').links} := rfl
  rw [whole,links]
  unfold Node.replaceLink
  show Node.mk _ _ (n.eof - 1).toNat _ _ _ = Node.mk _ _ (n.eof.toNat - 1) _ _ _
  rw [eof]
  rfl

namespace Mount

-- The link l has been stored over entry K of a directory, on the disk, and the
-- directory is one entry shorter, in the inode cache.
structure Replaced (s s' : Mount) (p : UInt32) (K : Nat) (l : Link) : Prop extends Dev s s' where
  placed : s'.Placed
  icindex : s'.vol.icindex = p / 32
  icaddr : s'.vol.icaddr = s.vol.icaddr
  hblock : s'.vol.hblock = s.vol.hblock
  image : s'.image = s.image.setNode p.toNat ((s.image.node p.toNat).replaceLink K l)
  grows : s.image.Grows s'.image
  files : ∀ b, s.image.FileBlock b → s'.at b = s.at b
  header : s'.at 0 = s.at 0
  outcome : s'.vol.outcome = .success

structure Unlinked (s s' : Mount) (p : UInt32) (K : Nat) : Prop extends
    Replaced s s' p K ((s.image.node p.toNat).links.getD ((s.image.node p.toNat).eof - 1) default) where
  mid : s'.Mid

section Unlink
variable {s u : Mount} {p : UInt32} {K : Nat}

theorem last_link (h : p.toNat < u.vol.hblock.nextInode.toNat) (dir : (u.inode p.toNat).ftype = ftypeDir)
    (live : (u.inode p.toNat).regs ≠ []) (inside : K < (u.inode p.toNat).eof.toNat) :
    (u.image.node p.toNat).links.getD ((u.image.node p.toNat).eof - 1) default =
      linkAt u.at (blocks (u.inode p.toNat).regs) ((u.inode p.toNat).eof.toNat - 1) := by
  have eof : (u.image.node p.toNat).eof = (u.inode p.toNat).eof.toNat := by rw [u.image_node h]; rfl
  rw [List.getD_eq_getElem?_getD,eof,links_getElem? h dir live (by omega)]
  rfl

theorem unlink_store (v : u.Mid) (sound : u.disk.Sound) (here : u.vol.icindex = p / 32) (placed : u.Placed)
    (h : p.toNat < u.vol.hblock.nextInode.toNat) (dir : (u.inode p.toNat).ftype = ftypeDir)
    (live : (u.inode p.toNat).regs ≠ []) (two : 2 ≤ K) (inside : K < (u.inode p.toNat).eof.toNat)
    (holds : u.Holds (u.inode p.toNat).regs (K / 128)) (e : DirEntry) {s' : Mount}
    (stored : s' = saveDblockC ((u.setEntry K e).setCached p {u.inode p.toNat with eof := (u.inode p.toNat).eof - 1})) :
    Replaced u s' p K e.link ∧ s'.vol.xcaddr = u.vol.xcaddr ∧ s'.vol.xcache = u.vol.xcache ∧
      (e.link = linkAt u.at (blocks (u.inode p.toNat).regs) ((u.inode p.toNat).eof.toNat - 1) → s'.Mid) := by
  have node := u.image_node h
  have length : p.toNat < u.image.nodes.length := by simpa using h
  have dir' : (u.image.node p.toNat).ftype = ftypeDir := by rw [node]; exact dir
  have live' : (u.image.node p.toNat).regs ≠ [] := by rw [node]; exact live
  have eof : (u.image.node p.toNat).eof = (u.inode p.toNat).eof.toNat := by rw [node]; rfl
  obtain ⟨b,at_q,dcaddr,dcache⟩ := holds
  have d : u.image.DirBlock b := v.ok.dirBlock dir' (by rw [node]; exact List.mem_of_getElem? at_q)
  have small := dirBlock_small d
  have nodup : (blocks (u.inode p.toNat).regs).Nodup := by
    have := v.ok.packed.nodup (some p.toNat)
    rw [Image.own,node] at this
    exact this
  have shrunk : ({u.inode p.toNat with eof := (u.inode p.toNat).eof - 1} : Inode).node u.at =
      (u.image.node p.toNat).dropLink ((u.inode p.toNat).eof.toNat - 1) := by
    rw [node]
    refine Inode.node_replaceLink dir live (by omega) fun j less => ?_
    rw [if_neg (by omega)]
  have ok₁ := v.ok.dropLink length dir' live' (k := (u.inode p.toNat).eof.toNat - 1) (by omega) (by rw [eof]; omega)
  have mid₁ : (u.setCached p {u.inode p.toNat with eof := (u.inode p.toNat).eof - 1}).Mid := by
    refine v.setCached_live here h (v.itidy _ h) ?_ ?_
    · rw [shrunk]; exact ok₁
    · rw [shrunk]; exact .setDir length dir'
  have image₁ := image_setCached here {u.inode p.toNat with eof := (u.inode p.toNat).eof - 1}
  rw [if_pos h,shrunk] at image₁
  have grows₁ : u.image.Grows (u.setCached p {u.inode p.toNat with eof := (u.inode p.toNat).eof - 1}).image := by
    rw [image₁]; exact .setDir length dir'
  have put : PutDir (u.setCached p {u.inode p.toNat with eof := (u.inode p.toNat).eof - 1}) s' b
      (u.vol.dcache.set (K % 128) e) := by
    rw [stored]
    exact saveEntry_put (s := u.setCached p {u.inode p.toNat with eof := (u.inode p.toNat).eof - 1}) sound dcaddr small.1 K e
  have d₁ := grows₁.dirBlock d
  have inode₁ : (u.setCached p {u.inode p.toNat with eof := (u.inode p.toNat).eof - 1}).inode p.toNat =
      {u.inode p.toNat with eof := (u.inode p.toNat).eof - 1} := by rw [inode_setCached here,if_pos rfl]
  have dropped : ({u.inode p.toNat with eof := (u.inode p.toNat).eof - 1} : Inode).node s'.at =
      (u.image.node p.toNat).replaceLink K e.link := by
    have fits := v.fits h dir live
    rw [node]
    refine Inode.node_replaceLink dir live inside fun j less => ?_
    have within : j / 128 < (blocks (u.inode p.toNat).regs).length := by rw [length_blocks]; omega
    rw [linkAt_put u.at nodup at_q put.put ?_ within]
    · by_cases block : j / 128 = K / 128
      · rw [if_pos block]
        by_cases same : j = K
        · rw [if_pos same,same]
          simp only [Vector.getElem_set_self]
        · rw [if_neg same,Vector.getElem_set_ne _ _ (by omega),dcache]
          unfold linkAt
          rw [List.getD_eq_getElem?_getD,block,at_q]
          rfl
      · rw [if_neg block,if_neg (by intro same; exact block (by rw [same]))]
    · intro b' member other
      have inside' := v.ok.packed.within (some p.toNat) b' (by rw [Image.own,node]; exact member)
      exact put.stay b' (Nat.lt_trans inside'.2 u.nextBlock_lt) other
  have final : s'.image = u.image.setNode p.toNat ((u.image.node p.toNat).replaceLink K e.link) := by
    have owner := put.toStored.image_owner mid₁ (dirBlock_small d₁).2 (p := p.toNat) ?_
    · rw [if_pos (by exact h),inode₁,dropped,image₁,Image.setNode_setNode] at owner
      exact owner
    · intro i hi other _ member
      have hi' : i < u.vol.hblock.nextInode.toNat := hi
      rw [inode_setCached here,if_neg other] at member
      have owned : b ∈ blocks (u.image.own (some i)) := by
        rw [Image.own,u.image_node hi']; exact member
      have owned' : b ∈ blocks (u.image.own (some p.toNat)) := by
        rw [Image.own,node]; exact List.mem_of_getElem? at_q
      cases v.ok.packed.apart _ _ b owned owned'
      exact other rfl
  have grows : u.image.Grows s'.image := by rw [final]; exact .setDir length dir'
  refine ⟨⟨⟨put.blk0,put.rdFails,put.wrFails,put.failed,put.later⟩,put.placed placed,put.icindex.trans here,put.icaddr,put.hblock,
    final,grows,?_,?_,put.outcome⟩,put.xcaddr,put.xcache,fun last => ?_⟩
  · intro k f
    exact put.stay k (v.fileBlock_small f).1 fun same => d.not_file (same ▸ f)
  · exact put.stay 0 (by decide) (by have := d.1; omega)
  · have ok := v.ok.dropLink length dir' live' two (by rw [eof]; exact inside)
    have grows₂ : (u.setCached p {u.inode p.toNat with eof := (u.inode p.toNat).eof - 1}).image.Grows s'.image := by
      have twice := Image.Grows.setDir (i := p.toNat) (n := (u.image.node p.toNat).replaceLink K e.link)
        (m := u.image.setNode p.toNat ((u.image.node p.toNat).dropLink ((u.inode p.toNat).eof.toNat - 1)))
        (by rw [Image.length_setNode]; exact length) dir'
      rw [Image.setNode_setNode] at twice
      rw [final,image₁]
      exact twice
    have whole : (u.image.node p.toNat).replaceLink K e.link = (u.image.node p.toNat).dropLink K := by
      rw [last,← last_link h dir live inside]
      rfl
    rw [← whole,← final] at ok
    exact put.mid mid₁ d₁ ok grows₂

-- The entry that takes the place of entry K: the last one, as the general purpose
-- cache has it when that cache names its block.
def moved (s : Mount) (p K : Nat) : Link :=
  let last := (s.inode p).eof.toNat - 1
  have slot := dslot_lt last
  if K / 128 ≠ last / 128 ∧ s.vol.xcaddr = (s.inode p).blk (last / 128) then
    ((dblockLayout.symm s.vol.xcache)[last % 128]).link
  else linkAt s.at (blocks (s.inode p).regs) last

-- The general purpose cache has no outdated copy of the last entry of the directory,
-- when a remove needs that entry from another block than the one that it has found.
def Fresh (s : Mount) (p K : Nat) : Prop :=
  s.moved p K = linkAt s.at (blocks (s.inode p).regs) ((s.inode p).eof.toNat - 1)

theorem moved_same {t : Mount} {p : Nat} (h : p < s.vol.hblock.nextInode.toNat) (h' : p < t.vol.hblock.nextInode.toNat)
    (dir : (s.inode p).ftype = ftypeDir) (live : (s.inode p).regs ≠ []) (inside : K < (s.inode p).eof.toNat)
    (inode : t.inode p = s.inode p) (node : t.image.node p = s.image.node p) (xcaddr : t.vol.xcaddr = s.vol.xcaddr)
    (xcache : t.vol.xcache = s.vol.xcache) : t.moved p K = s.moved p K ∧ (t.Fresh p K ↔ s.Fresh p K) := by
  have less : (s.inode p).eof.toNat - 1 < (s.inode p).eof.toNat := by omega
  have old := links_getElem? h dir live less
  have new := links_getElem? h' (by rw [inode]; exact dir) (by rw [inode]; exact live) (by rw [inode]; exact less)
  rw [node,old,inode] at new
  have last := Option.some.inj new
  have same : t.moved p K = s.moved p K := by
    unfold moved
    dsimp only
    rw [inode,xcaddr]
    simp only [xcache,← last]
  refine ⟨same,?_⟩
  unfold Fresh
  rw [same,inode,← last]

def Fetched (s s' : Mount) (p K : Nat) : Prop :=
  let last := (s.inode p).eof.toNat - 1
  have slot := dslot_lt last
  K / 128 ≠ last / 128 → s'.vol.xcaddr = (s.inode p).blk (last / 128) ∧
    ((dblockLayout.symm s'.vol.xcache)[last % 128]).link = s.moved p K

theorem Replaced.after {s' : Mount} {l : Link} (a : Replaced u s' p K l) (dev : Dev s u) (icaddr : u.vol.icaddr = s.vol.icaddr)
    (hblock : u.vol.hblock = s.vol.hblock) (image : u.image = s.image) (at_eq : u.at = s.at) : Replaced s s' p K l := by
  refine ⟨dev.trans a.toDev,a.placed,a.icindex,a.icaddr.trans icaddr,a.hblock.trans hblock,?_,?_,?_,?_,a.outcome⟩
  · rw [← image]; exact a.image
  · rw [← image]; exact a.grows
  · rw [← image,← at_eq]; exact a.files
  · rw [← at_eq]; exact a.header

theorem loadGpC_entry {bs : List Nat} {b k : Nat} (at_q : bs[k / 128]? = some b)
    (success : (loadGpC s (UInt32.ofNat b) false).vol.outcome = .success) :
    have slot := dslot_lt k
    ((dblockLayout.symm (loadGpC s (UInt32.ofNat b) false).vol.xcache)[k % 128]).link =
      if s.vol.xcaddr = UInt32.ofNat b then ((dblockLayout.symm s.vol.xcache)[k % 128]).link else linkAt s.at bs k := by
  intro slot
  unfold loadGpC at success ⊢
  by_cases hit : UInt32.ofNat b = s.vol.xcaddr
  · rw [if_neg (not_not_intro hit),if_pos hit.symm]
    rfl
  · rw [if_pos hit] at success
    rw [if_pos hit,if_neg fun same : s.vol.xcaddr = UInt32.ofNat b => hit same.symm]
    simp only [Bool.false_eq_true,if_false] at success ⊢
    cases bad : s.disk.rdFails s.disk.trace.length .xcache with
    | true =>
      rw [rblk_fault bad] at success
      exact absurd success (by simp)
    | false =>
      rw [rblk_ok bad]
      unfold linkAt
      rw [List.getD_eq_getElem?_getD,at_q]
      rfl

theorem unlinkAt_spec (v : s.Mid) (sound : s.disk.Sound) (here : s.vol.icindex = p / 32) (placed : s.Placed)
    (h : p.toNat < s.vol.hblock.nextInode.toNat) (dir : (s.inode p.toNat).ftype = ftypeDir)
    (live : (s.inode p.toNat).regs ≠ []) (two : 2 ≤ K) (inside : K < (s.inode p.toNat).eof.toNat)
    (holds : s.Holds (s.inode p.toNat).regs (K / 128)) :
    (Replaced s (s.unlinkAt p (s.inode p.toNat) K) p K (s.moved p.toNat K) ∧
      s.Fetched (s.unlinkAt p (s.inode p.toNat) K) p.toNat K ∧
      (s.Fresh p.toNat K → (s.unlinkAt p (s.inode p.toNat) K).Mid)) ∨
    (Slid s (s.unlinkAt p (s.inode p.toNat) K) ∧ (s.unlinkAt p (s.inode p.toNat) K).disk.failed = true ∧
      s.disk.rdFails s.disk.trace.length .xcache = true ∧
      (s.unlinkAt p (s.inode p.toNat) K).vol.outcome = .diskRdErr) := by
  have fits := v.fits h dir live
  have slot := dslot_lt ((s.inode p.toNat).eof.toNat - 1)
  have entry : ∀ k,k / 128 = K / 128 →
      (s.entry k).link = linkAt s.at (blocks (s.inode p.toNat).regs) k :=
    fun k block => Holds.entry (by rw [block]; exact holds)
  unfold unlinkAt
  dsimp only
  by_cases far : K / 128 ≠ ((s.inode p.toNat).eof.toNat - 1) / 128
  · rw [if_pos (fun same => far (by rw [same])),if_pos far]
    have within : ((s.inode p.toNat).eof.toNat - 1) / 128 < (blocks (s.inode p.toNat).regs).length := by
      rw [length_blocks]; omega
    have at_q := List.getElem?_eq_getElem within
    generalize (blocks (s.inode p.toNat).regs)[((s.inode p.toNat).eof.toNat - 1) / 128] = b at at_q
    have small : b < 4294967296 := by
      have owned := v.ok.packed.within (some p.toNat) b (by
        rw [Image.own,s.image_node h]; exact List.mem_of_getElem? at_q)
      exact Nat.lt_trans owned.2 s.nextBlock_lt
    have named := Inode.blk_some at_q
    rw [named]
    obtain ⟨page,loaded⟩ := loadGpC_paged v (UInt32.ofNat b)
    by_cases success : (loadGpC s (UInt32.ofNat b) false).vol.outcome = .success
    · rw [if_neg (by simpa using success)]
      left
      have content : ((dblockLayout.symm (loadGpC s (UInt32.ofNat b) false).vol.xcache)[
          ((s.inode p.toNat).eof.toNat - 1) % 128]).link = s.moved p.toNat K := by
        rw [loadGpC_entry at_q success]
        unfold moved
        dsimp only
        rw [named]
        by_cases hit : s.vol.xcaddr = UInt32.ofNat b
        · rw [if_pos hit,if_pos ⟨far,hit⟩]
        · rw [if_neg hit,if_neg fun both => hit both.2]
      have fetched : (loadGpC s (UInt32.ofNat b) false).disk.failed = s.disk.failed ∧
          (loadGpC s (UInt32.ofNat b) false).vol.xcaddr = UInt32.ofNat b := by
        rcases loaded with ⟨calm,_,address,_⟩ | ⟨_,_,error⟩
        · exact ⟨calm,address⟩
        · rw [success] at error; cases error
      obtain ⟨calm,address⟩ := fetched
      generalize loadGpC s (UInt32.ofNat b) false = u at *
      have inode : u.inode = s.inode := page.inode
      obtain ⟨replaced,xcaddr,xcache,mid⟩ := unlink_store (u := u) (p := p) (K := K) (page.mid v)
        ⟨by rw [page.rdFails]; exact sound.inodes,by rw [page.wrFails]; exact sound.writes⟩ (page.icindex.trans here)
        (page.placed placed) (by rw [page.hblock]; exact h) (by rw [inode]; exact dir) (by rw [inode]; exact live) two
        (by rw [inode]; exact inside)
        (by
          obtain ⟨b',at_K,held,right⟩ := holds
          rw [inode]
          exact ⟨b',at_K,page.dcaddr.trans held,page.dcache.trans (by rw [page.at_eq]; exact right)⟩)
        ((dblockLayout.symm u.vol.xcache)[((s.inode p.toNat).eof.toNat - 1) % 128]) rfl
      rw [inode] at replaced xcaddr xcache mid
      rw [content] at replaced mid
      refine ⟨replaced.after ⟨page.blk0,page.rdFails,page.wrFails,calm,page.later⟩ page.icaddr page.hblock page.image page.at_eq,
        fun _ => ⟨?_,?_⟩,fun fresh => mid ?_⟩
      · rw [xcaddr,named]
        exact address
      · simp only [xcache]
        exact content
      · rw [page.at_eq]
        exact fresh
    · rw [if_pos success]
      right
      have bad : s.disk.rdFails s.disk.trace.length .xcache = true ∧
          loadGpC s (UInt32.ofNat b) false =
            (s.seen (.rd (s.vol.blk0 + UInt32.ofNat b) .xcache false)).out .diskRdErr := by
        unfold loadGpC at success ⊢
        by_cases hit : UInt32.ofNat b = s.vol.xcaddr
        · rw [if_neg (by simpa using hit)] at success
          exact absurd rfl success
        · rw [if_pos hit] at success ⊢
          simp only [Bool.false_eq_true,if_false] at success ⊢
          cases bad : s.disk.rdFails s.disk.trace.length .xcache with
          | true =>
            rw [rblk_fault bad]
            exact ⟨rfl,rfl⟩
          | false =>
            rw [rblk_ok bad] at success
            exact absurd rfl success
      rw [bad.2]
      exact ⟨⟨⟨rfl,rfl,rfl,rfl,rfl⟩,⟨rfl,rfl,rfl⟩,rfl,rfl,Nat.le_succ _,v.dclean⟩,rfl,bad.1,rfl⟩
  · left
    have near : K / 128 = ((s.inode p.toNat).eof.toNat - 1) / 128 := not_not.mp far
    have moved : s.moved p.toNat K = linkAt s.at (blocks (s.inode p.toNat).regs) ((s.inode p.toNat).eof.toNat - 1) :=
      if_neg fun both => far both.1
    have last := entry _ near.symm
    have stored : s.unlinkAt p (s.inode p.toNat) K = saveDblockC ((s.setEntry K (s.entry ((s.inode p.toNat).eof.toNat - 1))).setCached p
        {s.inode p.toNat with eof := (s.inode p.toNat).eof - 1}) := by
      unfold unlinkAt
      dsimp only
      by_cases is_last : K = (s.inode p.toNat).eof.toNat - 1
      · have same : s.setEntry K (s.entry K) = s := by
          unfold setEntry Mount.entry
          rw [Vector.set_getElem_self]
        rw [if_neg (not_not_intro is_last),← is_last,same]
      · rw [if_pos is_last,if_neg far]
    obtain ⟨replaced,_,_,mid⟩ := unlink_store v sound here placed h dir live two inside holds
      (s.entry ((s.inode p.toNat).eof.toNat - 1)) stored
    unfold unlinkAt at replaced mid
    dsimp only at replaced mid
    rw [moved,← last]
    exact ⟨replaced,fun wrong => absurd near wrong,fun _ => mid last⟩

end Unlink
end Mount
end ArchiveOs.Fs2
