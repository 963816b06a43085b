import ArchiveOs.Growths
import ArchiveOs.Rooms
import ArchiveOs.WriteFrames

-- The stores of a write as a list: which blocks they go to, in terms of the frontier, and
-- which bytes they take from the source.
namespace ArchiveOs.Fs2
open Extents Layout

namespace Image
variable {m m' : Image} {i : Nat}

def growing (m : Image) (i : Nat) : Growing := ⟨(m.node i).regs,m.nextBlock⟩

theorem blkOrGrow_ask (h : i < m.nodes.length) (q sz : Nat) :
    match (m.growing i).ask 23 m.nblocks q sz with
    | none => ∃ e,m.blkOrGrow i q sz = .error e
    | some (g,b) => ∃ m',m.blkOrGrow i q sz = .ok (m',b) ∧ m'.growing i = g ∧ m'.nblocks = m.nblocks ∧
        m'.flen = m.flen ∧ m'.nodes.length = m.nodes.length := by
  cases at_q : (Extents.blocks (m.node i).regs)[q]? with
  | some b =>
      rw [Growing.ask_there (g := m.growing i) sz at_q]
      exact ⟨m,blkOrGrow_some at_q,rfl,rfl,rfl,rfl⟩
  | none =>
      have beyond : total (m.growing i).regs ≤ q := by
        have short := List.getElem?_eq_none_iff.mp at_q
        rwa [length_blocks] at short
      rw [Growing.ask_beyond 23 m.nblocks sz beyond,blkOrGrow_none at_q]
      have slots : (m.growing i).regs.length = (m.node i).regs.length := rfl
      have next : (m.growing i).next = m.nextBlock := rfl
      rw [slots,next]
      by_cases all : (m.node i).regs.length = 23
      · rw [if_pos (.inl all),if_pos all]
        exact ⟨_,rfl⟩
      · rw [if_neg all]
        by_cases full : m.nblocks < m.nextBlock + sz
        · rw [if_pos (.inr full),if_pos full]
          exact ⟨_,rfl⟩
        · rw [if_neg (not_or.mpr ⟨all,full⟩),if_neg full]
          refine ⟨m.growAt i sz,rfl,?_,rfl,rfl,length_setNode ..⟩
          unfold growing
          rw [node_growAt sz h,if_pos rfl]
          rfl

structure Fulls (puts : List Put) (got : List Nat) (wcount : Nat) : Prop where
  length : puts.length = got.length
  put : ∀ (j : Nat) (p : Put),puts[j]? = some p → got[j]? = some p.block ∧ p.off = 0 ∧ p.src = wcount + 4096 * j ∧ p.len = 4096

theorem Fulls.nil (wcount : Nat) : Fulls [] [] wcount := ⟨rfl,fun _ _ wrong => (by cases wrong)⟩

theorem Fulls.cons {puts : List Put} {got : List Nat} {wcount blkind b : Nat} (rest : Fulls puts got (wcount + 4096)) :
    Fulls (⟨blkind,b,0,wcount,4096⟩ :: puts) (b :: got) wcount := by
  refine ⟨congrArg Nat.succ rest.length,fun j p at_j => ?_⟩
  cases j with
  | zero =>
      cases at_j
      exact ⟨rfl,rfl,rfl,rfl⟩
  | succ j =>
      obtain ⟨block,off,src,len⟩ := rest.put j p at_j
      exact ⟨block,off,src.trans (by omega),len⟩

structure Looped (m : Image) (i : Nat) (r : Growing × List Nat) (w : Written) (n wcount : Nat) (full : Bool) : Prop where
  growing : w.image.growing i = r.1
  nblocks : w.image.nblocks = m.nblocks
  flen : w.image.flen = m.flen
  length : w.image.nodes.length = m.nodes.length
  fulls : Fulls w.puts r.2 wcount
  count : w.wcount = wcount + 4096 * r.2.length
  stops : full = false ↔ r.2.length = n

theorem writeLoop_looped (h : i < m.nodes.length) (nbytes : UInt32) (n blkind wcount : Nat) :
    Looped m i ((m.growing i).fill 23 m.nblocks (fullLens nbytes n wcount) (blkind + 1))
      (Image.writeLoop i nbytes n m blkind wcount).1 n wcount (Image.writeLoop i nbytes n m blkind wcount).2.2 ∧
    ((Image.writeLoop i nbytes n m blkind wcount).2.2 = false →
      (Image.writeLoop i nbytes n m blkind wcount).2.1 = blkind + n) := by
  induction n generalizing m blkind wcount with
  | zero => exact ⟨⟨rfl,rfl,rfl,rfl,.nil wcount,rfl,⟨fun _ => rfl,fun _ => rfl⟩⟩,fun _ => rfl⟩
  | succ n ih =>
      unfold Image.writeLoop fullLens
      have asked := blkOrGrow_ask h (blkind + 1) (growLenInt (toInt (nbytes - UInt32.ofNat wcount))).toNat
      cases ask : (m.growing i).ask 23 m.nblocks (blkind + 1) (growLenInt (toInt (nbytes - UInt32.ofNat wcount))).toNat with
      | none =>
          rw [ask] at asked
          obtain ⟨e,failed⟩ := asked
          rw [failed,Growing.fill_none _ ask]
          exact ⟨⟨rfl,rfl,rfl,rfl,.nil wcount,rfl,⟨fun wrong => (by cases wrong),fun wrong => (by cases wrong)⟩⟩,
            fun wrong => (by cases wrong)⟩
      | some r =>
          obtain ⟨g,b⟩ := r
          rw [ask] at asked
          obtain ⟨m₁,found,growing,nblocks,flen,length⟩ := asked
          rw [found,Growing.fill_some _ ask]
          obtain ⟨looped,place⟩ := ih (m := m₁) (by rw [length]; exact h) (blkind + 1) (wcount + blockSz)
          rw [growing,nblocks] at looped
          dsimp only
          have more : blkind + 1 + n = blkind + (n + 1) := by omega
          have count := looped.count
          have stops := looped.stops
          refine ⟨⟨looped.growing,looped.nblocks.trans nblocks,looped.flen.trans flen,looped.length.trans length,
            looped.fulls.cons,?_,?_⟩,fun flag => (place flag).trans more⟩
          · have unit : blockSz = 4096 := rfl
            rw [List.length_cons]
            dsimp only
            omega
          · rw [List.length_cons,stops]
            exact Nat.succ_inj.symm

def write1 (nbytes cursor : UInt32) : Nat := min nbytes.toNat (4096 - cursor.toNat % 4096)
def fullBlocks (nbytes cursor : UInt32) : Nat := (nbytes.toNat - write1 nbytes cursor) / 4096

-- All stores of a write: the first, the full ones, and the last, which takes its bytes
-- from the start of the source again.
structure Laid (nbytes cursor : UInt32) (puts : List Put) (got : List Nat) : Prop where
  length : puts.length = got.length
  block : ∀ (j : Nat) (p : Put),puts[j]? = some p → got[j]? = some p.block
  first : ∀ p,puts[0]? = some p → p.off = cursor.toNat % 4096 ∧ p.src = 0 ∧ p.len = write1 nbytes cursor
  full : ∀ (j : Nat) (p : Put),puts[j + 1]? = some p → j < fullBlocks nbytes cursor →
    p.off = 0 ∧ p.src = write1 nbytes cursor + 4096 * j ∧ p.len = 4096
  last : ∀ p,puts[fullBlocks nbytes cursor + 1]? = some p →
    p.off = 0 ∧ p.src = 0 ∧ p.len = nbytes.toNat - (write1 nbytes cursor + 4096 * fullBlocks nbytes cursor)

structure Laying (m : Image) (i : Nat) (nbytes cursor : UInt32) (r : Growing × List Nat) (w : Written) : Prop where
  growing : w.image.growing i = r.1
  length : w.image.nodes.length = m.nodes.length
  laid : Laid nbytes cursor w.puts r.2
  count : w.wcount = min nbytes.toNat (write1 nbytes cursor + 4096 * (r.2.length - 1))
  started : 0 < r.2.length

section Laying
variable {nbytes cursor : UInt32} {puts : List Put} {got : List Nat} {b : Nat}

theorem full_le (nbytes cursor : UInt32) :
    write1 nbytes cursor + 4096 * fullBlocks nbytes cursor ≤ nbytes.toNat ∧
      nbytes.toNat < write1 nbytes cursor + 4096 * (fullBlocks nbytes cursor + 1) := by
  have le : write1 nbytes cursor ≤ nbytes.toNat := Nat.min_le_left _ _
  unfold fullBlocks
  omega

theorem Fulls.laid (fulls : Fulls puts got (write1 nbytes cursor)) (few : got.length ≤ fullBlocks nbytes cursor) :
    Laid nbytes cursor (⟨cursor.toNat / 4096,b,cursor.toNat % 4096,0,write1 nbytes cursor⟩ :: puts) (b :: got) := by
  refine ⟨congrArg Nat.succ fulls.length,?_,?_,?_,?_⟩
  · intro j p at_j
    cases j with
    | zero => cases at_j; rfl
    | succ j => exact (fulls.put j p at_j).1
  · intro p at_0
    cases at_0
    exact ⟨rfl,rfl,rfl⟩
  · intro j p at_j _
    exact (fulls.put j p at_j).2
  · intro p at_last
    have inside := (List.getElem?_eq_some_iff.mp at_last).1
    rw [List.length_cons,fulls.length] at inside
    omega

theorem Fulls.laid_last (fulls : Fulls puts got (write1 nbytes cursor)) (all : got.length = fullBlocks nbytes cursor)
    (blkind c : Nat) :
    Laid nbytes cursor (⟨cursor.toNat / 4096,b,cursor.toNat % 4096,0,write1 nbytes cursor⟩ :: (puts ++
      [⟨blkind,c,0,0,nbytes.toNat - (write1 nbytes cursor + 4096 * fullBlocks nbytes cursor)⟩])) (b :: (got ++ [c])) := by
  have before : ∀ j,j < fullBlocks nbytes cursor → ∀ last : Put,(puts ++ [last])[j]? = puts[j]? := fun j less last =>
    List.getElem?_append_left (by rw [fulls.length]; omega)
  refine ⟨by simp [fulls.length],?_,?_,?_,?_⟩
  · intro j p at_j
    cases j with
    | zero => cases at_j; rfl
    | succ j =>
        rw [List.getElem?_cons_succ] at at_j ⊢
        by_cases less : j < fullBlocks nbytes cursor
        · rw [before j less] at at_j
          rw [List.getElem?_append_left (by omega)]
          exact (fulls.put j p at_j).1
        · have inside := (List.getElem?_eq_some_iff.mp at_j).1
          rw [List.length_append,fulls.length,List.length_singleton] at inside
          have end_ : j = got.length := by omega
          rw [end_,List.getElem?_append_right (by rw [fulls.length]),fulls.length,Nat.sub_self] at at_j
          cases at_j
          rw [end_,List.getElem?_append_right (Nat.le_refl _),Nat.sub_self]
          rfl
  · intro p at_0
    cases at_0
    exact ⟨rfl,rfl,rfl⟩
  · intro j p at_j less
    rw [List.getElem?_cons_succ,before j less] at at_j
    exact (fulls.put j p at_j).2
  · intro p at_last
    rw [List.getElem?_cons_succ,List.getElem?_append_right (by rw [fulls.length]; omega),fulls.length,all,Nat.sub_self] at at_last
    cases at_last
    exact ⟨rfl,rfl,rfl⟩

end Laying

theorem writeAt_laying {w : Written} {nbytes cursor : UInt32} {flen : UInt8} (h : i < m.nodes.length)
    (len : m.flen = flen.toNat) (wrote : m.writeAt i nbytes cursor = .ok w) :
    Laying m i nbytes cursor ((m.growing i).fill 23 m.nblocks (growths nbytes cursor flen) (cursor.toNat / 4096)) w := by
  have rest := full_le nbytes cursor
  unfold Image.writeAt at wrote
  dsimp only at wrote
  have asked := blkOrGrow_ask h (cursor.toNat / 4096) (growLen nbytes).toNat
  have shape : growths nbytes cursor flen = (growLen nbytes).toNat :: (fullLens nbytes (fullBlocks nbytes cursor)
      (write1 nbytes cursor) ++ if write1 nbytes cursor + 4096 * fullBlocks nbytes cursor = nbytes.toNat then []
        else [flen.toNat]) := rfl
  rw [shape]
  cases ask : (m.growing i).ask 23 m.nblocks (cursor.toNat / 4096) (growLen nbytes).toNat with
  | none =>
      rw [ask] at asked
      obtain ⟨e,failed⟩ := asked
      have failed' : m.blkOrGrow i (cursor.toNat / blockSz) (growLen nbytes).toNat = .error e := failed
      rw [failed'] at wrote
      cases wrote
  | some r =>
      obtain ⟨g,b⟩ := r
      rw [ask] at asked
      obtain ⟨m₁,found,growing,nblocks,flen₁,length⟩ := asked
      have found' : m.blkOrGrow i (cursor.toNat / blockSz) (growLen nbytes).toNat = .ok (m₁,b) := found
      rw [found'] at wrote
      dsimp only at wrote
      rw [Growing.fill_some _ ask]
      obtain ⟨looped,place⟩ := writeLoop_looped (by rw [length]; exact h) nbytes (fullBlocks nbytes cursor)
        (cursor.toNat / 4096) (write1 nbytes cursor)
      rw [growing,nblocks] at looped
      have fold : Image.writeLoop i nbytes ((nbytes.toNat - min nbytes.toNat (blockSz - cursor.toNat % blockSz)) / blockSz) m₁
          (cursor.toNat / blockSz) (min nbytes.toNat (blockSz - cursor.toNat % blockSz)) =
        Image.writeLoop i nbytes (fullBlocks nbytes cursor) m₁ (cursor.toNat / 4096) (write1 nbytes cursor) := rfl
      rw [fold] at wrote
      have lens := length_fullLens nbytes (fullBlocks nbytes cursor) (write1 nbytes cursor)
      have bound := Growing.fill_length_le 23 m.nblocks g (fullLens nbytes (fullBlocks nbytes cursor) (write1 nbytes cursor))
        (cursor.toNat / 4096 + 1)
      rw [lens] at bound
      rw [Growing.fill_append,lens]
      generalize g.fill 23 m.nblocks (fullLens nbytes (fullBlocks nbytes cursor) (write1 nbytes cursor))
        (cursor.toNat / 4096 + 1) = l at looped bound ⊢
      generalize Image.writeLoop i nbytes (fullBlocks nbytes cursor) m₁ (cursor.toNat / 4096) (write1 nbytes cursor) = t at *
      obtain ⟨wl,blkind,full⟩ := t
      dsimp only at *
      have laid := looped.fulls.laid bound (b := b)
      have count := looped.count
      have length' : wl.image.nodes.length = m.nodes.length := looped.length.trans length
      have ended : Laying m i nbytes cursor (l.1,b :: l.2) {wl with puts :=
          ⟨cursor.toNat / 4096,b,cursor.toNat % 4096,0,write1 nbytes cursor⟩ :: wl.puts} := by
        refine ⟨looped.growing,length',laid,?_,Nat.succ_pos _⟩
        rw [List.length_cons,Nat.add_sub_cancel]
        dsimp only
        omega
      by_cases stop : full = true
      · have short : l.2.length ≠ fullBlocks nbytes cursor := by
          intro all
          rw [stop] at looped
          exact Bool.noConfusion (looped.stops.mpr all)
        rw [if_pos (.inl stop)] at wrote
        cases wrote
        rw [if_neg short]
        exact ended
      · have runs : full = false := by simpa using stop
        have all := looped.stops.mp runs
        rw [if_pos all]
        by_cases done : write1 nbytes cursor + 4096 * fullBlocks nbytes cursor = nbytes.toNat
        · rw [if_pos (.inr (by omega))] at wrote
          cases wrote
          rw [if_pos done]
          show Laying m i nbytes cursor (l.1,b :: (l.2 ++ [])) _
          rw [List.append_nil]
          exact ended
        · rw [if_neg (not_or.mpr ⟨stop,by omega⟩)] at wrote
          rw [if_neg done]
          have h' : i < wl.image.nodes.length := by rw [length']; exact h
          have asked := blkOrGrow_ask h' (blkind + 1) wl.image.flen
          have place' : cursor.toNat / 4096 + 1 + fullBlocks nbytes cursor = blkind + 1 := by rw [place runs]; omega
          have flen' : wl.image.flen = flen.toNat := (looped.flen.trans flen₁).trans len
          rw [looped.growing,looped.nblocks,nblocks,flen'] at asked
          rw [flen'] at wrote
          rw [place']
          cases ask : l.1.ask 23 m.nblocks (blkind + 1) flen.toNat with
          | none =>
              rw [ask] at asked
              obtain ⟨e,failed⟩ := asked
              rw [failed] at wrote
              cases wrote
              rw [Growing.fill_none _ ask]
              show Laying m i nbytes cursor (l.1,b :: (l.2 ++ [])) _
              rw [List.append_nil]
              exact ended
          | some r =>
              obtain ⟨g',c⟩ := r
              rw [ask] at asked
              obtain ⟨m₂,found₂,growing₂,_,_,length₂⟩ := asked
              rw [found₂] at wrote
              cases wrote
              rw [Growing.fill_some _ ask]
              have last := looped.fulls.laid_last all (blkind + 1) c (b := b)
              rw [← all,← count] at last
              refine ⟨growing₂,length₂.trans length',last,?_,Nat.succ_pos _⟩
              have grown : (l.2 ++ c :: (g'.fill 23 m.nblocks [] (blkind + 1 + 1)).2).length = l.2.length + 1 := by
                rw [List.length_append]
                rfl
              rw [List.length_cons,Nat.add_sub_cancel,grown]
              dsimp only
              omega

-- The block of a store holds what the store has put there, when no block is stored to twice.
theorem puts_value (src : Nat → UInt8) {ps : List Put} (c : (Nat → Block) × Block) (nodup : (ps.map Put.block).Nodup)
    {j : Nat} {p : Put} (at_j : ps[j]? = some p) :
    ∃ old,(puts src ps c).1 p.block = patch old p.off p.len (fun k => src (p.src + k)) ∧ (j = 0 → old = c.2) := by
  induction ps generalizing c j with
  | nil => cases at_j
  | cons first rest ih =>
      rw [List.map_cons,List.nodup_cons] at nodup
      cases j with
      | zero =>
          obtain rfl : first = p := Option.some.inj at_j
          refine ⟨c.2,?_,fun _ => rfl⟩
          have other : ∀ p' ∈ rest,p'.block ≠ first.block := fun p' member same =>
            nodup.1 (by rw [← same]; exact List.mem_map_of_mem member)
          exact (puts_other src rest (first.apply src c) other).trans (Function.update_self ..)
      | succ j =>
          obtain ⟨old,value,_⟩ := ih (first.apply src c) nodup.2 at_j
          exact ⟨old,value,fun wrong => (by cases wrong)⟩

theorem stores_value {w : Written} (src : Nat → UInt8) (rd : Nat → Block) (nodup : (w.puts.map Put.block).Nodup)
    {j : Nat} {p : Put} (at_j : w.puts[j]? = some p) :
    ∃ old,w.stores src rd p.block = patch old p.off p.len (fun k => src (p.src + k)) ∧ (j = 0 → old = rd p.block) := by
  unfold Written.stores
  cases shape : w.puts with
  | nil =>
      rw [shape] at at_j
      cases at_j
  | cons first rest =>
      rw [shape] at nodup at_j
      obtain ⟨old,value,start⟩ := puts_value src (rd,rd first.block) nodup at_j
      refine ⟨old,value,fun zero => ?_⟩
      subst zero
      cases at_j
      exact start rfl

end Image

theorem patch_getElem? (b : Block) (off len : Nat) (src : Nat → UInt8) {k : Nat} (inside : k < 4096) :
    (patch b off len src).toList[k]? = if off ≤ k ∧ k < off + len then some (src (k - off)) else b.toList[k]? := by
  unfold patch
  rw [Vector.getElem?_toList,Vector.getElem?_toList,Vector.getElem?_eq_getElem (by exact inside),
    Vector.getElem?_eq_getElem (by exact inside),Vector.getElem_ofFn]
  split <;> rfl

theorem bytesOf_getElem? (rd : Nat → Block) {bs : List Nat} {x b : Nat} (at_x : bs[x / 4096]? = some b) :
    (bytesOf rd bs)[x]? = (rd b).toList[x % 4096]? := by
  have place : x = 4096 * (x / 4096) + x % 4096 := by omega
  conv => lhs; rw [place]
  rw [← List.getElem?_drop,bytesOf_split at_x,List.getElem?_append_left]
  simp only [Vector.length_toList]
  omega

namespace Image
variable {m : Image} {i : Nat}

def sourceOf (nbytes cursor : UInt32) (k : Nat) : Nat :=
  let before := write1 nbytes cursor + 4096 * fullBlocks nbytes cursor
  if k < before then k else k - before

theorem Laying.byte {nbytes cursor : UInt32} {r : Growing × List Nat} {w : Written} (laying : Laying m i nbytes cursor r w)
    (filled : Growing.Filled (m.growing i) r.1 (cursor.toNat / 4096) r.2) (nodup : (Extents.blocks r.1.regs).Nodup)
    (inside : cursor.toNat ≤ 4096 * m.size i) (src : Nat → UInt8) (rd : Nat → Block) {x : Nat}
    (before : x < cursor.toNat + w.wcount) :
    ∃ b,(Extents.blocks r.1.regs)[x / 4096]? = some b ∧ (w.stores src rd b).toList[x % 4096]? =
      if x < cursor.toNat then (bytesOf rd (Extents.blocks (m.node i).regs))[x]?
      else some (src (sourceOf nbytes cursor (x - cursor.toNat))) := by
  have laid := laying.laid
  have count := laying.count
  have some_ := laying.started
  have full := full_le nbytes cursor
  have blocks_eq : w.puts.map Put.block = r.2 := by
    apply List.ext_getElem?
    intro j
    rw [List.getElem?_map]
    cases at_j : w.puts[j]? with
    | none =>
        have short := List.getElem?_eq_none_iff.mp at_j
        rw [laid.length] at short
        exact (List.getElem?_eq_none short).symm
    | some p => exact (laid.block j p at_j).symm
  have apart : ∀ {k k' : Nat} {b : Nat},(Extents.blocks r.1.regs)[k]? = some b → (Extents.blocks r.1.regs)[k']? = some b →
      k = k' := fun {k k' b} here there =>
    (List.getElem?_inj (List.getElem?_eq_some_iff.mp here).1 nodup).mp (here.trans there.symm)
  have nodup' : (w.puts.map Put.block).Nodup := by
    rw [blocks_eq,List.nodup_iff_injective_get]
    intro j j' same
    have at_j := filled.placed j (r.2.get j) (by simp)
    have at_j' := filled.placed j' (r.2.get j') (by simp)
    rw [same] at at_j
    have := apart at_j at_j'
    exact Fin.ext (by omega)
  have reach : cursor.toNat + write1 nbytes cursor ≤ 4096 * (cursor.toNat / 4096 + 1) := by
    unfold write1
    omega
  have keep : ∀ {k b : Nat},(Extents.blocks (m.node i).regs)[k]? = some b → (Extents.blocks r.1.regs)[k]? = some b := by
    intro k b at_k
    obtain ⟨new,regs,_⟩ := filled.positive
    rw [regs]
    exact Growing.blocks_keep new at_k
  have old : ∀ {b : Nat} (new : Block),x < cursor.toNat → (Extents.blocks r.1.regs)[x / 4096]? = some b →
      new.toList[x % 4096]? = (rd b).toList[x % 4096]? →
      new.toList[x % 4096]? = (bytesOf rd (Extents.blocks (m.node i).regs))[x]? := by
    intro b new less at_x same
    have there : x / 4096 < total (m.node i).regs := by
      have := inside
      unfold size at this
      omega
    obtain ⟨b',at_x'⟩ := Growing.block_there there
    have one : b = b' := Option.some.inj (at_x.symm.trans (keep at_x'))
    rw [same,bytesOf_getElem? rd at_x',one]
  by_cases front : x / 4096 < cursor.toNat / 4096
  · -- In front of the first block.
    have less : x < cursor.toNat := by omega
    have there : x / 4096 < total (m.node i).regs := by
      have := inside
      unfold size at this
      omega
    obtain ⟨b,at_x⟩ := Growing.block_there there
    have at_x' := keep at_x
    refine ⟨b,at_x',?_⟩
    rw [if_pos less]
    refine old _ less at_x' ?_
    rw [Written.stores_other src rd fun p member same => ?_]
    obtain ⟨j,at_j⟩ := List.getElem?_of_mem member
    have placed := filled.placed j p.block (laid.block j p at_j)
    rw [same] at placed
    have := apart at_x' placed
    omega
  · obtain ⟨j,place⟩ : ∃ j,x / 4096 = cursor.toNat / 4096 + j := ⟨x / 4096 - cursor.toNat / 4096,by omega⟩
    have less : j < w.puts.length := by
      rw [laid.length]
      omega
    have at_j := List.getElem?_eq_getElem less
    generalize w.puts[j] = p at at_j
    have at_x := filled.placed j p.block (laid.block j p at_j)
    rw [← place] at at_x
    obtain ⟨before_,value,start⟩ := stores_value src rd nodup' at_j
    refine ⟨p.block,at_x,?_⟩
    rw [value,patch_getElem? before_ p.off p.len _ (Nat.mod_lt _ (by decide))]
    have first : write1 nbytes cursor = nbytes.toNat ∨ write1 nbytes cursor = 4096 - cursor.toNat % 4096 := by
      unfold write1
      omega
    have limit : w.wcount ≤ nbytes.toNat := by omega
    have taken : ∀ k,k = sourceOf nbytes cursor (x - cursor.toNat) → ¬ x < cursor.toNat →
        (some (src k) : Option UInt8) = if x < cursor.toNat then (bytesOf rd (Extents.blocks (m.node i).regs))[x]?
          else some (src (sourceOf nbytes cursor (x - cursor.toNat))) := by
      intro k same behind
      rw [if_neg behind,same]
    cases j with
    | zero =>
        obtain ⟨off,source,len⟩ := laid.first p at_j
        rw [off,source,len]
        by_cases within : cursor.toNat % 4096 ≤ x % 4096 ∧ x % 4096 < cursor.toNat % 4096 + write1 nbytes cursor
        · rw [if_pos within]
          refine taken _ ?_ (by omega)
          unfold sourceOf
          dsimp only
          rw [if_pos (by omega)]
          omega
        · rw [if_neg within]
          have less : x < cursor.toNat := by omega
          rw [if_pos less,start rfl]
          exact old (rd p.block) less at_x rfl
    | succ j =>
        by_cases whole : j < fullBlocks nbytes cursor
        · obtain ⟨off,source,len⟩ := laid.full j p at_j whole
          rw [off,source,len,if_pos ⟨Nat.zero_le _,by omega⟩]
          refine taken _ ?_ (by omega)
          unfold sourceOf
          dsimp only
          rw [if_pos (by omega)]
          omega
        · have one : j = fullBlocks nbytes cursor := by omega
          subst one
          obtain ⟨off,source,len⟩ := laid.last p at_j
          rw [off,source,len,if_pos ⟨Nat.zero_le _,by omega⟩]
          refine taken _ ?_ (by omega)
          unfold sourceOf
          dsimp only
          rw [if_neg (by omega)]
          omega

end Image
end ArchiveOs.Fs2
