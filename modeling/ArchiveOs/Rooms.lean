import ArchiveOs.Effects

-- Files stay as long as their regions allow while every write begins inside of its file
-- and stores at most 255 blocks, so that no length of a region wraps.
namespace ArchiveOs.Fs2
open Extents Layout

-- The bytes that fill the longest region.
def maxWrite : Nat := 255 * 4096

theorem growLen_eq {nbytes : UInt32} (few : nbytes.toNat ≤ maxWrite) :
    (growLen nbytes).toNat = (nbytes.toNat + 4095) / 4096 := by
  have bound : nbytes.toNat ≤ 1044480 := few
  have word : ∀ k : Nat,k < 256 → (UInt8.ofNat k).toNat = k := fun k small => UInt8.toNat_ofNat_of_lt' small
  have quotient := word (nbytes.toNat / 4096) (by omega)
  unfold growLen
  show (UInt8.ofNat (nbytes.toNat / 4096) + if nbytes.toNat % 4096 ≠ 0 then 1 else 0).toNat = _
  by_cases rest : nbytes.toNat % 4096 ≠ 0
  · rw [if_pos rest,UInt8.toNat_add,quotient]
    show (nbytes.toNat / 4096 + 1) % 256 = _
    omega
  · rw [if_neg rest,UInt8.toNat_add,quotient]
    show (nbytes.toNat / 4096 + 0) % 256 = _
    omega

theorem growLenInt_eq {nbytes : UInt32} (few : nbytes.toNat ≤ maxWrite) :
    growLenInt (toInt nbytes) = growLen nbytes := by
  have bound : nbytes.toNat ≤ 1044480 := few
  have plain : toInt nbytes = (nbytes.toNat : Int) := by
    unfold toInt
    rw [if_pos (by omega)]
  have quotient : UInt8.ofInt ((nbytes.toNat : Int).tdiv 4096) = UInt8.ofNat (nbytes.toNat / 4096) := by
    have whole : (nbytes.toNat : Int).tdiv 4096 = ((nbytes.toNat / 4096 : Nat) : Int) := rfl
    rw [whole]
    unfold UInt8.ofInt
    congr 1
    have : nbytes.toNat / 4096 < 256 := by omega
    omega
  have rest : (nbytes.toNat : Int).tmod 4096 = ((nbytes.toNat % 4096 : Nat) : Int) := rfl
  unfold growLenInt growLen
  rw [plain,quotient,rest]
  show UInt8.ofNat (nbytes.toNat / 4096) + (if ((nbytes.toNat % 4096 : Nat) : Int) ≠ 0 then 1 else 0) =
    UInt8.ofNat (nbytes.toNat / 4096) + if nbytes.toNat % 4096 ≠ 0 then 1 else 0
  by_cases zero : nbytes.toNat % 4096 = 0
  · rw [zero]
    rfl
  · rw [if_pos (by omega),if_pos zero]

theorem rest_toNat {nbytes : UInt32} {wcount : Nat} (le : wcount ≤ nbytes.toNat) :
    (nbytes - UInt32.ofNat wcount).toNat = nbytes.toNat - wcount := by
  have bound := nbytes.toNat_lt
  have word : (UInt32.ofNat wcount).toNat = wcount := UInt32.toNat_ofNat_of_lt' (by show wcount < 4294967296; omega)
  rw [UInt32.toNat_sub_of_le _ _ (by rw [UInt32.le_iff_toNat_le,word]; exact le),word]

namespace Image
variable {m m' : Image} {i : Nat}

-- The blocks of file i.
def size (m : Image) (i : Nat) : Nat := total (m.node i).regs

theorem Rewritten.size (w : Rewritten m m' i) (h : i < m.nodes.length) : m.size i ≤ m'.size i := by
  obtain ⟨rest,same⟩ := (w.node i h).regs
  unfold Image.size
  rw [← same,total_append]
  exact Nat.le_add_right _ _

theorem blkOrGrow_size {q sz b : Nat} (h : i < m.nodes.length) (near : q ≤ m.size i) (some : 0 < sz)
    (found : m.blkOrGrow i q sz = .ok (m',b)) : q < m'.size i := by
  cases at_q : (Extents.blocks (m.node i).regs)[q]? with
  | some b' =>
      rw [blkOrGrow_some at_q] at found
      cases found
      have inside := (List.getElem?_eq_some_iff.mp at_q).1
      rwa [length_blocks] at inside
  | none =>
      rw [blkOrGrow_none at_q] at found
      split at found
      · cases found
      · split at found
        · cases found
        · cases found
          unfold size at near ⊢
          rw [node_growAt sz h,if_pos rfl]
          simp only [total_append,total_cons,total_nil]
          omega

theorem writeLoop_size {nbytes cursor : Nat} {count : UInt32} (words : count.toNat = nbytes) (few : nbytes ≤ maxWrite)
    (n : Nat) (h : i < m.nodes.length) {blkind wcount : Nat} (there : blkind < m.size i)
    (place : cursor + wcount = 4096 * (blkind + 1)) (left : wcount + 4096 * n ≤ nbytes) :
    cursor + (Image.writeLoop i count n m blkind wcount).1.wcount ≤
        4096 * (Image.writeLoop i count n m blkind wcount).1.image.size i ∧
      ((Image.writeLoop i count n m blkind wcount).2.2 = false →
        (Image.writeLoop i count n m blkind wcount).2.1 = blkind + n ∧
        (Image.writeLoop i count n m blkind wcount).1.wcount = wcount + 4096 * n ∧
        blkind + n < (Image.writeLoop i count n m blkind wcount).1.image.size i) := by
  induction n generalizing m blkind wcount with
  | zero => exact ⟨by show cursor + wcount ≤ 4096 * m.size i; omega,fun _ => ⟨rfl,rfl,there⟩⟩
  | succ n ih =>
      unfold Image.writeLoop
      have rest := @rest_toNat count wcount (by omega)
      have len : 0 < (growLenInt (toInt (count - UInt32.ofNat wcount))).toNat := by
        have small : (count - UInt32.ofNat wcount).toNat ≤ maxWrite := by omega
        rw [growLenInt_eq small,growLen_eq small]
        omega
      cases found : m.blkOrGrow i (blkind + 1) (growLenInt (toInt (count - UInt32.ofNat wcount))).toNat with
      | error e => exact ⟨by show cursor + wcount ≤ 4096 * m.size i; omega,fun stop => (by cases stop)⟩
      | ok r =>
          obtain ⟨m₁,b⟩ := r
          have there₁ := blkOrGrow_size h there len found
          have h₁ : i < m₁.nodes.length := by rw [(Rewritten.blkOrGrow h found).length_eq]; exact h
          obtain ⟨bound,whole⟩ := @ih m₁ h₁ (blkind + 1) (wcount + 4096) there₁ (by omega) (by omega)
          refine ⟨bound,fun flag => ?_⟩
          obtain ⟨ind,count,inside⟩ := whole flag
          refine ⟨ind.trans (by omega),count.trans (by omega),?_⟩
          have same : blkind + 1 + n = blkind + (n + 1) := by omega
          rw [same] at inside
          exact inside

theorem writeAt_size {w : Written} {nbytes cursor : UInt32} (flen : 0 < m.flen) (h : i < m.nodes.length)
    (inside : cursor.toNat ≤ 4096 * m.size i) (few : nbytes.toNat ≤ maxWrite)
    (wrote : m.writeAt i nbytes cursor = .ok w) : cursor.toNat + w.wcount ≤ 4096 * w.image.size i := by
  unfold Image.writeAt at wrote
  dsimp only at wrote
  split at wrote
  · cases wrote
  · rename_i m₁ b found
    have first := Rewritten.blkOrGrow h found
    have more := first.size h
    have h₁ : i < m₁.nodes.length := by rw [first.length_eq]; exact h
    have unit : blockSz = 4096 := rfl
    have near : cursor.toNat / blockSz ≤ m.size i := by rw [unit]; omega
    generalize write1_def : min nbytes.toNat (blockSz - cursor.toNat % blockSz) = write1 at wrote
    by_cases short : nbytes.toNat ≤ blockSz - cursor.toNat % blockSz
    · -- The write ends in its first block.
      have all : write1 = nbytes.toNat := by omega
      have none : (nbytes.toNat - write1) / blockSz = 0 := by rw [all,Nat.sub_self]; rfl
      rw [none] at wrote
      have ends : cursor.toNat + nbytes.toNat ≤ 4096 * m₁.size i := by
        by_cases zero : nbytes.toNat = 0
        · omega
        · have there := blkOrGrow_size h near (by rw [growLen_eq few]; omega) found
          rw [unit] at there short
          omega
      rw [if_pos (.inr all)] at wrote
      cases wrote
      show cursor.toNat + write1 ≤ 4096 * m₁.size i
      rw [all]
      exact ends
    · have there := blkOrGrow_size h near (by rw [growLen_eq few]; rw [unit] at short; omega) found
      rw [unit] at short write1_def there wrote
      obtain ⟨bound,whole⟩ := @writeLoop_size m₁ i nbytes.toNat cursor.toNat nbytes rfl few ((nbytes.toNat - write1) / 4096) h₁
        (cursor.toNat / 4096) write1 there (by omega) (by omega)
      have loop := Rewritten.writeLoop h₁ nbytes ((nbytes.toNat - write1) / 4096) (cursor.toNat / 4096) write1
      generalize Image.writeLoop i nbytes ((nbytes.toNat - write1) / 4096) m₁ (cursor.toNat / 4096) write1 = l at *
      obtain ⟨wl,blkind,full⟩ := l
      dsimp only at *
      split at wrote
      · cases wrote
        exact bound
      · rename_i more
        obtain ⟨running,_⟩ := not_or.mp more
        obtain ⟨ind,count,within⟩ := whole (by simpa using running)
        split at wrote
        · cases wrote
          exact bound
        · rename_i m₂ b₂ last
          cases wrote
          have flen' : 0 < wl.image.flen := by rw [loop.flen,first.flen]; exact flen
          have behind := blkOrGrow_size (by rw [loop.length_eq]; exact h₁) (by rw [ind]; omega) flen' last
          show cursor.toNat + nbytes.toNat ≤ 4096 * m₂.size i
          omega

-- Every file is as long as its regions allow.
def Roomy (m : Image) : Prop := ∀ i,i < m.nodes.length → (m.node i).ftype = ftypeFile → (m.node i).Enough

theorem Roomy.setNode (roomy : m.Roomy) {n : Node} (h : i < m.nodes.length) (enough : n.ftype = ftypeFile → n.Enough) :
    (m.setNode i n).Roomy := by
  intro j exist file
  rw [length_setNode] at exist
  rw [node_setNode n j h] at file ⊢
  split at file
  · rename_i same
    rw [if_pos same]
    exact enough file
  · rename_i other
    rw [if_neg other]
    exact roomy j exist file

theorem Roomy.push (roomy : m.Roomy) {n : Node} (enough : n.ftype = ftypeFile → n.Enough) : (m.push n).Roomy := by
  intro j exist file
  rw [length_push] at exist
  rw [node_push] at file ⊢
  split at file
  · rename_i same
    rw [if_pos same]
    exact enough file
  · rename_i other
    rw [if_neg other]
    exact roomy j (by omega) file

theorem Roomy.nodes (roomy : m.Roomy) (same : m'.nodes = m.nodes) : m'.Roomy := by
  intro j exist file
  have node : m'.node j = m.node j := by simp only [Image.node,same]
  rw [node] at file ⊢
  exact roomy j (by rw [← same]; exact exist) file

theorem Roomy.link (roomy : m.Roomy) {p child : Nat} {name : List UInt8} (h : p < m.nodes.length)
    (dir : (m.node p).ftype = ftypeDir) : (m.link p name child).1.Roomy := by
  have kept : ∀ {m' : Image} {n : Node},m'.nodes = m.nodes → n.ftype = (m.node p).ftype → (m'.setNode p n).Roomy := by
    intro m' n same ftype
    refine (roomy.nodes same).setNode (by rw [same]; exact h) fun file => ?_
    rw [ftype,dir] at file
    cases file
  unfold Image.link
  dsimp only
  split
  · exact kept rfl rfl
  · split
    · exact roomy
    · split
      · exact roomy
      · rename_i m₁ b taken
        rw [(alloc_eq.mp taken).2.1]
        exact kept rfl rfl

theorem Roomy.createFile (roomy : m.Roomy) {p : Nat} {name : List UInt8} {ftype : UInt8} (h : p < m.nodes.length)
    (dir : (m.node p).ftype = ftypeDir) : (m.createFile name p ftype).1.Roomy := by
  have made : ∀ {m' : Image} {n : Node},m'.nodes = m.nodes → (n.ftype = ftypeFile → n.Enough) →
      ((m'.push n).link p name m.nodes.length).1.Roomy := by
    intro m' n same enough
    have h' : p < m'.nodes.length := by rw [same]; exact h
    refine ((roomy.nodes same).push enough).link (by rw [length_push]; omega) ?_
    rw [node_push,if_neg (by omega)]
    simp only [Image.node,same]
    exact dir
  unfold Image.createFile
  dsimp only
  split
  · exact roomy
  · rename_i m₁ enough
    have same := needIblock_nodes enough
    split
    · rename_i isDir
      split
      · exact roomy.nodes same
      · rename_i m₂ b taken
        rw [(alloc_eq.mp taken).2.1]
        refine made same fun file => ?_
        rw [isDir] at file
        cases file
    · exact made same fun _ => Nat.zero_le _

theorem Roomy.create (roomy : m.Roomy) (good : m.Good) (ftype : UInt8) (path : List UInt8) :
    (m.create ftype path).1.Roomy := by
  unfold Image.create
  split
  · exact roomy
  · rename_i missing
    unfold Image.createParent
    dsimp only
    split
    · exact roomy
    · split
      · exact roomy.createFile good.root.1 good.root.2.1
      · rename_i inner
        have nonempty : path ≠ [] := by
          intro empty
          rw [empty] at missing
          cases missing
        split
        · exact roomy
        · rename_i p q found
          exact roomy.createFile ((resolve_attached good found).alive good).1
            ((split_pointers nonempty inner).2.parent_dir missing found)
  · exact roomy

-- A write that begins inside of its file.
def Fits (m : Image) (path : List UInt8) (nbytes cursor : UInt32) : Prop :=
  nbytes.toNat ≤ maxWrite ∧ ∀ i q,m.resolve path = .ok (i,q) → (m.node i).ftype = ftypeFile → cursor.toNat ≤ (m.node i).eof

theorem Roomy.write (roomy : m.Roomy) (good : m.Good) {path : List UInt8} {nbytes cursor : UInt32}
    (fits : m.Fits path nbytes cursor) : (m.write path nbytes cursor).1.Roomy := by
  unfold Image.write
  split
  · exact roomy
  · rename_i i q found
    split
    · exact roomy
    · rename_i plain
      have file := not_not.mp plain
      have h := ((resolve_attached good found).alive good).1
      have inside : cursor.toNat ≤ 4096 * m.size i := (fits.2 i q found file).trans (roomy i h file)
      split
      · exact roomy
      · rename_i w wrote
        have rewritten := Rewritten.writeAt h wrote
        have bound := writeAt_size good.flen.1 h inside fits.1 wrote
        have h' : i < w.image.nodes.length := by rw [rewritten.length_eq]; exact h
        intro j exist kind
        rw [length_setNode,rewritten.length_eq] at exist
        rw [node_setNode _ j h'] at kind ⊢
        split at kind
        · rename_i same
          rw [if_pos same]
          unfold Node.Enough
          dsimp only
          refine le_trans ?_ bound
          rw [UInt32.toNat_add]
          refine (Nat.mod_le _ _).trans ?_
          have word : (UInt32.ofNat w.wcount).toNat ≤ w.wcount := by
            rw [UInt32.toNat_ofNat']
            exact Nat.mod_le _ _
          omega
        · rename_i other
          rw [rewritten.others j other] at kind ⊢
          rw [if_neg other]
          exact roomy j exist kind

end Image

namespace Op

-- A write begins inside of its file and is not longer than a region.
def Roomy (s : Mount) : Op → Prop
  | .write path _ nbytes cursor => s.image.Fits path.bytes nbytes cursor
  | _ => True

end Op

namespace Mount

theorem Formatted.root {s : Mount} (formatted : s.Formatted) : s.image.nodes.length = 1 := by
  cases formatted with
  | @made before _ _ _ _ _ _ works icindex _ xcaddr room run success =>
      have miss : before.vol.icindex ≠ 0 := by rw [icindex]; decide
      obtain ⟨t,run',_,_,image,_⟩ := format_valid works.sound (Formatted.passes run success) room miss xcaddr
      cases run.symm.trans run'
      rw [image]
      rfl

-- In runs of such writes and of any other operations files never end behind their regions.
theorem History.roomy {s : Mount} (history : History Op.Roomy s) : s.image.Roomy := by
  induction history with
  | @format s formatted =>
      intro i exist file
      rw [formatted.root] at exist
      have zero : i = 0 := by omega
      rw [zero,formatted.valid.1.ok.root.2.1] at file
      cases file
  | @step s t op before fits admitted run ih =>
      obtain ⟨v,works⟩ := before.valid
      obtain ⟨t,run',_,_,_,image⟩ := exec_spec v works fits
      cases run'.symm.trans run
      rw [image]
      cases op with
      | create ftype path => exact ih.create v.good ftype path.bytes
      | write path src nbytes cursor => exact ih.write v.good admitted
      | read => exact ih
      | isftype => exact ih
      | ls => exact ih

end Mount
end ArchiveOs.Fs2
