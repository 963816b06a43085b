import ArchiveOs.Listings

-- Reading a file of any mounted volume: the bytes of its blocks in order, as far as
-- the general purpose cache tells the truth about them.
namespace ArchiveOs.Fs2
open Extents Layout

-- Bytes of consecutive blocks.
def bytesOf (rd : Nat → Block) (bs : List Nat) : List UInt8 := bs.flatMap fun b => (rd b).toList

@[simp] theorem length_bytesOf (rd : Nat → Block) (bs : List Nat) : (bytesOf rd bs).length = 4096 * bs.length := by
  induction bs with
  | nil => rfl
  | cons b bs ih =>
    unfold bytesOf at ih ⊢
    rw [List.flatMap_cons,List.length_append,ih,Vector.length_toList,List.length_cons]
    omega

theorem bytesOf_append (rd : Nat → Block) (bs cs : List Nat) : bytesOf rd (bs ++ cs) = bytesOf rd bs ++ bytesOf rd cs := by
  simp [bytesOf]

theorem bytesOf_split {rd : Nat → Block} {bs : List Nat} {q b : Nat} (at_q : bs[q]? = some b) :
    (bytesOf rd bs).drop (4096 * q) = (rd b).toList ++ (bytesOf rd bs).drop (4096 * (q + 1)) := by
  obtain ⟨inside,value⟩ := List.getElem?_eq_some_iff.mp at_q
  have split : bs = bs.take q ++ b :: bs.drop (q + 1) := by rw [← value]; simp
  have front : (bytesOf rd (bs.take q)).length = 4096 * q := by simp; omega
  have whole : bytesOf rd bs = bytesOf rd (bs.take q) ++ ((rd b).toList ++ bytesOf rd (bs.drop (q + 1))) := by
    conv => lhs; rw [split]
    rw [bytesOf_append]; rfl
  have size : (rd b).toList.length = 4096 := by simp
  rw [whole,List.drop_left' front,← List.append_assoc,List.drop_left' (by rw [List.length_append]; omega)]

theorem slice_bytesOf (rd : Nat → Block) {bs : List Nat} {q b : Nat} (at_q : bs[q]? = some b) (off : Nat) {len : Nat}
    (fits : off + len ≤ 4096) : slice (rd b) off len = ((bytesOf rd bs).drop (4096 * q + off)).take len := by
  have size : (rd b).toList.length = 4096 := by simp
  unfold slice
  rw [← List.drop_drop,bytesOf_split at_q,List.drop_append_of_le_length (by omega),List.take_append_of_le_length]
  rw [List.length_drop]; omega

-- What a file readable.
def Mount.contents (s : Mount) (inode : Inode) : List UInt8 :=
  (bytesOf s.at (blocks inode.regs)).take inode.eof.toNat

namespace Mount

-- The regions of a file hold it, none of its blocks is the header block, and if the
-- general purpose cache is tagged with one of them it has that block.
structure Readable (s : Mount) (inode : Inode) : Prop where
  enough : inode.eof.toNat ≤ 4096 * total inode.regs
  small : inode.eof.toNat < 2147483648
  ondisk : ∀ b ∈ blocks inode.regs,UInt32.ofNat b ≠ 0
  tagged : ∀ b ∈ blocks inode.regs,s.vol.xcaddr = UInt32.ofNat b → s.vol.xcache = s.at b

theorem Readable.length {s : Mount} {inode : Inode} (readable : s.Readable inode) :
    (s.contents inode).length = inode.eof.toNat := by
  have enough := readable.enough
  unfold contents
  rw [List.length_take,length_bytesOf,length_blocks]
  omega

-- Only the general purpose cache has moved, among the blocks bs: one of them is in it
-- if anything has been asked for, and nothing else has been.
structure Leafed (bs : List Nat) (s s' : Mount) : Prop extends Same s s', SameI s s' where
  dcaddr : s'.vol.dcaddr = s.vol.dcaddr
  dcache : s'.vol.dcache = s.vol.dcache
  page : (s'.vol.xcaddr = s.vol.xcaddr ∧ s'.vol.xcache = s.vol.xcache) ∨
    ∃ b ∈ bs,s'.vol.xcaddr = UInt32.ofNat b ∧ s'.vol.xcache = s.at b
  asked : ∃ new,s'.disk.trace = new ++ s.disk.trace ∧
    ∀ a ∈ new,∃ b ∈ bs,∃ done,a = .rd (s.vol.blk0 + UInt32.ofNat b) .xcache done

namespace Leafed
variable {s s' s'' : Mount} {bs : List Nat}

theorem refl (s : Mount) : Leafed bs s s :=
  ⟨.refl s,.refl s,rfl,rfl,.inl ⟨rfl,rfl⟩,[],rfl,fun _ member => (by cases member)⟩

theorem trans (a : Leafed bs s s') (b : Leafed bs s' s'') : Leafed bs s s'' := by
  refine ⟨a.toSame.trans b.toSame,a.toSameI.trans b.toSameI,b.dcaddr.trans a.dcaddr,b.dcache.trans a.dcache,?_,?_⟩
  · rcases b.page with ⟨here,content⟩ | ⟨c,member,here,content⟩
    · rcases a.page with ⟨here',content'⟩ | ⟨c,member,here',content'⟩
      · exact .inl ⟨here.trans here',content.trans content'⟩
      · exact .inr ⟨c,member,here.trans here',content.trans content'⟩
    · exact .inr ⟨c,member,here,content.trans (congrFun a.at_eq c)⟩
  · obtain ⟨new,trace,only⟩ := a.asked
    obtain ⟨new',trace',only'⟩ := b.asked
    refine ⟨new' ++ new,by rw [trace',trace,List.append_assoc],?_⟩
    intro x member
    rcases List.mem_append.mp member with late | early
    · rw [← a.blk0]
      exact only' x late
    · exact only x early

theorem out (a : Leafed bs s s') (o : Outcome) : Leafed bs s (s'.out o) :=
  ⟨a.toSame.trans (.out s' o),a.toSameI.out o,a.dcaddr,a.dcache,a.page,a.asked⟩

theorem later (a : Leafed bs s s') : s.disk.trace.length ≤ s'.disk.trace.length := by
  obtain ⟨new,trace,_⟩ := a.asked
  rw [trace,List.length_append]
  exact Nat.le_add_left _ _

theorem tagged (a : Leafed bs s s') (tagged : ∀ b ∈ bs,s.vol.xcaddr = UInt32.ofNat b → s.vol.xcache = s.at b) {b : Nat}
    (member : b ∈ bs) (here : s'.vol.xcaddr = UInt32.ofNat b) : s'.vol.xcache = s.at b := by
  rcases a.page with ⟨same,content⟩ | ⟨c,_,there,content⟩
  · rw [content]
    exact tagged b member (same.symm.trans here)
  · rw [content]
    unfold Mount.at
    rw [← there,here]

end Leafed

theorem loadGpC_turned {s t : Mount} {bs : List Nat}
    (tagged : ∀ b ∈ bs,s.vol.xcaddr = UInt32.ofNat b → s.vol.xcache = s.at b) (leafed : Leafed bs s t) {b : Nat}
    (member : b ∈ bs) :
    Leafed bs s (loadGpC t (UInt32.ofNat b) false) ∧
      (((loadGpC t (UInt32.ofNat b) false).disk.failed = t.disk.failed ∧
        (loadGpC t (UInt32.ofNat b) false).vol.outcome = .success ∧
        (loadGpC t (UInt32.ofNat b) false).vol.xcache = s.at b) ∨
      ((loadGpC t (UInt32.ofNat b) false).disk.failed = true ∧ s.disk.Faulty ∧
        (loadGpC t (UInt32.ofNat b) false).vol.outcome = .diskRdErr)) := by
  have block : t.disk.blk (t.vol.blk0 + UInt32.ofNat b) = s.at b := congrFun leafed.at_eq b
  unfold loadGpC
  by_cases hit : UInt32.ofNat b = t.vol.xcaddr
  · rw [if_neg (not_not.mpr hit)]
    exact ⟨leafed.out _,.inl ⟨rfl,rfl,leafed.tagged tagged member hit.symm⟩⟩
  · rw [if_pos hit,if_neg Bool.false_ne_true]
    have asks : ∀ done,Leafed bs t (t.seen (.rd (t.vol.blk0 + UInt32.ofNat b) .xcache done)) := fun done =>
      ⟨⟨rfl,rfl,rfl,rfl,rfl⟩,⟨rfl,rfl,rfl⟩,rfl,rfl,.inl ⟨rfl,rfl⟩,[_],rfl,
        fun a only => ⟨b,member,done,List.mem_singleton.mp only⟩⟩
    cases bad : t.disk.rdFails t.disk.trace.length .xcache with
    | true =>
        rw [rblk_fault bad]
        exact ⟨(leafed.trans (asks false)).out _,.inr ⟨rfl,⟨_,_,by rw [← leafed.rdFails]; exact bad⟩,rfl⟩⟩
    | false =>
        rw [rblk_ok bad]
        have next := leafed.trans (asks true)
        have same : Same s (t.seen (.rd (t.vol.blk0 + UInt32.ofNat b) .xcache true)) := next.toSame
        constructor
        · exact ⟨⟨same.blk0,same.hblock,same.blk,same.rdFails,same.wrFails⟩,
            ⟨next.icindex,next.icaddr,next.icache⟩,next.dcaddr,next.dcache,.inr ⟨b,member,rfl,block⟩,next.asked⟩
        · exact .inl ⟨rfl,rfl,block⟩

theorem readLoop_bytes {s : Mount} {inode : Inode} (readable : s.Readable inode)
    (cursor n : Nat) {t : Mount} (blkind rcount : Nat) {out : List UInt8} (leafed : Leafed (blocks inode.regs) s t)
    (success : t.vol.outcome = .success) (inside : blkind + n < total inode.regs)
    (place : cursor + rcount = 4096 * (blkind + 1))
    (sofar : out = ((bytesOf s.at (blocks inode.regs)).drop cursor).take rcount) :
    ∃ t' blkind' rcount' out' stopped,readLoop inode n t blkind rcount out = (t',blkind',rcount',out',stopped) ∧
      Leafed (blocks inode.regs) s t' ∧
      ((stopped = false ∧ t'.disk.failed = t.disk.failed ∧ t'.vol.outcome = .success ∧ blkind' = blkind + n ∧
        rcount' = rcount + 4096 * n ∧
        out' = ((bytesOf s.at (blocks inode.regs)).drop cursor).take (rcount + 4096 * n)) ∨
      (stopped = true ∧ t'.disk.failed = true ∧ s.disk.Faulty ∧ t'.vol.outcome = .diskRdErr)) := by
  induction n generalizing t blkind rcount out with
  | zero => exact ⟨_,_,_,_,_,rfl,leafed,.inl ⟨rfl,rfl,success,rfl,rfl,sofar⟩⟩
  | succ n ih =>
    have within : blkind + 1 < (blocks inode.regs).length := by rw [length_blocks]; omega
    have at_q := List.getElem?_eq_getElem within
    have member := List.getElem_mem within
    generalize (blocks inode.regs)[blkind + 1] = b at at_q member
    unfold readLoop
    dsimp only
    rw [Inode.blk_some at_q,if_neg (readable.ondisk b member)]
    obtain ⟨next,loaded⟩ := loadGpC_turned readable.tagged leafed member
    rcases loaded with ⟨calm,success',content⟩ | ⟨loud,faulty,error⟩
    · rw [if_neg (by simp [success']),content]
      have block : (s.at b).toList = ((bytesOf s.at (blocks inode.regs)).drop (cursor + rcount)).take 4096 := by
        rw [place]
        have whole := slice_bytesOf s.at at_q 0 (show 0 + 4096 ≤ 4096 by decide)
        rw [Nat.add_zero] at whole
        rw [← whole]
        unfold slice
        rw [List.drop_zero,List.take_of_length_le (by simp)]
      have more : out ++ (s.at b).toList = ((bytesOf s.at (blocks inode.regs)).drop cursor).take (rcount + 4096) := by
        rw [sofar,block,List.take_add,List.drop_drop]
      obtain ⟨t',blkind',rcount',out',stopped,run,leafed',result⟩ := ih (blkind + 1) (rcount + blockSz) next success'
        (by omega) (show cursor + (rcount + 4096) = _ by omega) more
      refine ⟨t',blkind',rcount',out',stopped,run,leafed',?_⟩
      rcases result with ⟨running,calm',success'',ind,count,bytes⟩ | halted
      · refine .inl ⟨running,calm'.trans calm,success'',by omega,by rw [count]; show _ + 4096 + _ = _; omega,?_⟩
        rw [bytes]
        congr 1
        show rcount + 4096 + 4096 * n = _
        omega
      · exact .inr halted
    · rw [if_pos (by simp [error])]
      exact ⟨_,_,_,_,_,rfl,next,.inr ⟨rfl,loud,faulty,error⟩⟩

-- fs2_read behind the checks of type and permission.
def readFile (s : Mount) (inode : Inode) (nbytes cursor : UInt32) : Mount × Int × List UInt8 :=
  let maxbytes := toInt (inode.eof - cursor)
  if maxbytes ≤ 0 then (s,0,[])
  else
    let blkind := cursor.toNat / blockSz
    let blk := inode.blk blkind
    if blk = 0 then (s,0,[])
    else
      let rbytes := min nbytes.toNat maxbytes.toNat
      let read1 := min rbytes (blockSz - cursor.toNat % blockSz)
      let s := loadGpC s blk false
      if s.vol.outcome ≠ .success then (s,-1,[])
      else
        let out := slice s.vol.xcache (cursor.toNat % blockSz) read1
        if read1 = rbytes then (s,read1,out)
        else
          let (s,blkind,rcount,out,stopped) := readLoop inode ((rbytes - read1) / blockSz) s blkind read1 out
          if stopped ∨ rcount = rbytes then (s,rcount,out)
          else
            let s := loadGpC s (inode.blk (blkind + 1)) false
            if s.vol.outcome ≠ .success then (s,rcount,out)
            else (s,rbytes,out ++ slice s.vol.xcache 0 (rbytes - rcount))

theorem toInt_sub {eof : UInt32} (cursor : UInt32) (small : eof.toNat < 2147483648) :
    if cursor.toNat < eof.toNat then toInt (eof - cursor) = (eof.toNat - cursor.toNat : Nat)
    else toInt (eof - cursor) ≤ 0 ∨ 2147483648 ≤ cursor.toNat := by
  have bound := cursor.toNat_lt
  have difference : (eof - cursor).toNat = (4294967296 - cursor.toNat + eof.toNat) % 4294967296 := UInt32.toNat_sub _ _
  unfold toInt
  rw [difference]
  split
  · have value : (4294967296 - cursor.toNat + eof.toNat) % 4294967296 = eof.toNat - cursor.toNat := by omega
    rw [value,if_pos (by omega)]
  · by_cases far : 2147483648 ≤ cursor.toNat
    · exact .inr far
    · left
      by_cases same : cursor.toNat = eof.toNat
      · have value : (4294967296 - cursor.toNat + eof.toNat) % 4294967296 = 0 := by omega
        rw [value]; decide
      · have value : (4294967296 - cursor.toNat + eof.toNat) % 4294967296 = 4294967296 - cursor.toNat + eof.toNat := by omega
        rw [value,if_neg (by omega)]
        omega

theorem contents_drop {s : Mount} {inode : Inode} (cursor len : Nat) (inside : cursor + len ≤ inode.eof.toNat) :
    ((bytesOf s.at (blocks inode.regs)).drop cursor).take len = ((s.contents inode).drop cursor).take len := by
  unfold contents
  rw [List.drop_take,List.take_take,Nat.min_eq_left (by omega)]

theorem readFile_bytes {s : Mount} {inode : Inode} (readable : s.Readable inode) (success : s.vol.outcome = .success)
    (nbytes cursor : UInt32) :
    ∃ s' n out,readFile s inode nbytes cursor = (s',n,out) ∧ Leafed (blocks inode.regs) s s' ∧
      ((s'.disk.failed = s.disk.failed ∧ s'.vol.outcome = .success ∧
        out = ((s.contents inode).drop cursor.toNat).take nbytes.toNat ∧ n = out.length) ∨
      (s'.disk.failed = true ∧ s.disk.Faulty ∧ s'.vol.outcome = .diskRdErr)) := by
  have bound := readable.enough
  have size := readable.length
  have short := total_regions_le inode.rows
  rw [Inode.length_rows] at short
  have short' : total inode.regs ≤ 5865 := short
  have room := toInt_sub cursor readable.small
  unfold readFile
  dsimp only
  by_cases inside : cursor.toNat < inode.eof.toNat
  · rw [if_pos inside] at room
    rw [room,if_neg (by omega)]
    have within : cursor.toNat / 4096 < (blocks inode.regs).length := by rw [length_blocks]; omega
    have at_q := List.getElem?_eq_getElem within
    have member := List.getElem_mem within
    generalize (blocks inode.regs)[cursor.toNat / 4096] = b at at_q member
    rw [Inode.blk_some at_q,if_neg (readable.ondisk b member)]
    obtain ⟨next,loaded⟩ := loadGpC_turned readable.tagged (.refl s) member
    rcases loaded with ⟨calm,success₁,content⟩ | ⟨loud,faulty,error⟩
    · rw [if_neg (by simp [success₁]),content]
      have least : (((inode.eof.toNat - cursor.toNat : Nat) : Int)).toNat = inode.eof.toNat - cursor.toNat :=
        Int.toNat_natCast _
      rw [least]
      generalize rbytes_def : min nbytes.toNat (inode.eof.toNat - cursor.toNat) = rbytes
      generalize read1_def : min rbytes (4096 - cursor.toNat % 4096) = read1
      have wanted : ((s.contents inode).drop cursor.toNat).take nbytes.toNat =
          ((s.contents inode).drop cursor.toNat).take rbytes := by
        rw [← rbytes_def,← List.take_take,List.take_of_length_le (i := inode.eof.toNat - cursor.toNat)]
        rw [List.length_drop,size]
      have length : (((s.contents inode).drop cursor.toNat).take rbytes).length = rbytes := by
        rw [List.length_take,List.length_drop,size]; omega
      have split : 4096 * (cursor.toNat / 4096) + cursor.toNat % 4096 = cursor.toNat := Nat.div_add_mod _ _
      have head : slice (s.at b) (cursor.toNat % 4096) read1 =
          ((bytesOf s.at (blocks inode.regs)).drop cursor.toNat).take read1 := by
        rw [slice_bytesOf _ at_q _ (by omega),split]
      rw [head]
      by_cases single : read1 = rbytes
      · rw [if_pos single]
        refine ⟨_,_,_,rfl,next,.inl ⟨calm,success₁,?_,?_⟩⟩
        · rw [wanted,single,contents_drop _ _ (by omega)]
        · rw [single,contents_drop _ _ (by omega),length]
      · rw [if_neg single]
        have aligned : cursor.toNat + read1 = 4096 * (cursor.toNat / 4096 + 1) := by omega
        obtain ⟨t,blkind,rcount,out,stopped,run,leafed,result⟩ := readLoop_bytes readable cursor.toNat
          ((rbytes - read1) / 4096) (cursor.toNat / 4096) read1 next success₁ (by omega) aligned rfl
        rw [run]
        dsimp only
        rcases result with ⟨running,calm₂,success₂,ind,count,bytes⟩ | ⟨halt,loud,faulty,error⟩
        · have calm' := calm₂.trans calm
          by_cases done : rcount = rbytes
          · rw [if_pos (.inr done)]
            have whole : out = ((s.contents inode).drop cursor.toNat).take nbytes.toNat := by
              rw [wanted,bytes,← count,done,contents_drop _ _ (by omega)]
            exact ⟨_,_,_,rfl,leafed,.inl ⟨calm',success₂,whole,by rw [whole,wanted,length,done]⟩⟩
          · rw [if_neg (by simp [running,done])]
            have within' : blkind + 1 < (blocks inode.regs).length := by rw [length_blocks]; omega
            have at_q' := List.getElem?_eq_getElem within'
            have member' := List.getElem_mem within'
            generalize (blocks inode.regs)[blkind + 1] = b' at at_q' member'
            rw [Inode.blk_some at_q']
            obtain ⟨last,loaded⟩ := loadGpC_turned readable.tagged leafed member'
            rcases loaded with ⟨calm₃,success₃,content'⟩ | ⟨loud,faulty,error⟩
            · rw [if_neg (by simp [success₃]),content']
              have whole : out ++ slice (s.at b') 0 (rbytes - rcount) =
                  ((s.contents inode).drop cursor.toNat).take nbytes.toNat := by
                rw [slice_bytesOf _ at_q' _ (by omega),bytes,← count,wanted,← contents_drop _ _ (by omega)]
                have total : rbytes = rcount + (rbytes - rcount) := by omega
                conv => rhs; rw [total,List.take_add,List.drop_drop]
                congr 3
                omega
              exact ⟨_,_,_,rfl,last,.inl ⟨calm₃.trans calm',success₃,whole,by rw [whole,wanted,length]⟩⟩
            · rw [if_pos (by simp [error])]
              exact ⟨_,_,_,rfl,last,.inr ⟨loud,faulty,error⟩⟩
        · rw [if_pos (.inl halt)]
          exact ⟨_,_,_,rfl,leafed,.inr ⟨loud,faulty,error⟩⟩
    · rw [if_pos (by simp [error])]
      exact ⟨_,_,_,rfl,next,.inr ⟨loud,faulty,error⟩⟩
  · rw [if_neg inside] at room
    have empty : [] = ((s.contents inode).drop cursor.toNat).take nbytes.toNat := by
      rw [List.drop_of_length_le (by omega),List.take_nil]
    by_cases past : toInt (inode.eof - cursor) ≤ 0
    · rw [if_pos past]
      exact ⟨_,_,_,rfl,.refl s,.inl ⟨rfl,success,empty,rfl⟩⟩
    · -- The difference has wrapped around, but such a cursor is behind every region.
      rw [if_neg past,Inode.blk_none (q := cursor.toNat / 4096) (by omega),if_pos rfl]
      exact ⟨_,_,_,rfl,.refl s,.inl ⟨rfl,success,empty,rfl⟩⟩

end Mount
end ArchiveOs.Fs2
