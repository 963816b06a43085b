import ArchiveOs.DiskLines

-- The disk over its line: every run of calls of the driver is a run of a store of blocks.
namespace ArchiveOs.Serial
open Duplex Talk

section Blocks

def Server.block (s : Server) (a : Nat) : List UInt8 := (s.file.drop (a * s.blockLen)).take s.blockLen

theorem Server.block_getElem? (s : Server) (a j : Nat) :
    (s.block a)[j]? = if j < s.blockLen then s.file[a * s.blockLen + j]? else none := by
  unfold Server.block
  rw [List.getElem?_take,List.getElem?_drop]

theorem overwrite_getElem? {file xs : List UInt8} {off : Nat} (inside : off + xs.length ≤ file.length) (i : Nat) :
    (overwrite file off xs)[i]? = if off ≤ i ∧ i < off + xs.length then xs[i - off]? else file[i]? := by
  unfold overwrite
  have front : (file.take off).length = off := by rw [List.length_take]; omega
  rw [show off - file.length = 0 by omega,List.replicate_zero,List.append_nil]
  by_cases early : i < off
  · rw [List.getElem?_append_left (by omega),List.getElem?_take_of_lt early,if_neg (by omega)]
  · rw [List.getElem?_append_right (by omega),front]
    by_cases within : i < off + xs.length
    · rw [List.getElem?_append_left (by omega),if_pos ⟨by omega,within⟩]
    · rw [List.getElem?_append_right (by omega),List.getElem?_drop,if_neg (by omega)]
      congr 1
      omega

theorem length_overwrite {file xs : List UInt8} {off : Nat} (inside : off + xs.length ≤ file.length) :
    (overwrite file off xs).length = file.length := by
  unfold overwrite
  rw [show off - file.length = 0 by omega,List.replicate_zero,List.append_nil]
  simp only [List.length_append,List.length_take,List.length_drop]
  omega

-- The program waits for a request, and its file has all blocks.
structure Whole (s : Server) : Prop extends Idle s where
  num : s.blockNum < 2147483648
  len : s.blockLen < 2147483648
  size : s.file.length = s.blockNum * s.blockLen

-- What no request changes.
structure Kept (s s' : Server) : Prop where
  whole : Whole s'
  num : s'.blockNum = s.blockNum
  len : s'.blockLen = s.blockLen
  wrCut : s'.wrCut = s.wrCut
  rdCut : s'.rdCut = s.rdCut

theorem Kept.refl {s : Server} (whole : Whole s) : Kept s s := ⟨whole,rfl,rfl,rfl,rfl⟩

theorem Kept.trans {s s' s'' : Server} (a : Kept s s') (b : Kept s' s'') : Kept s s'' :=
  ⟨b.whole,b.num.trans a.num,b.len.trans a.len,b.wrCut.trans a.wrCut,b.rdCut.trans a.rdCut⟩

-- os.write of some bytes at the start of block a.
def Server.put (s : Server) (a : Nat) (xs : List UInt8) : Server :=
  {s with file := overwrite s.file (a * s.blockLen) xs,writes := s.writes + 1}

section Put
variable {s : Server} {a : Nat} {xs : List UInt8}

theorem block_end (inside : a < s.blockNum) : a * s.blockLen + s.blockLen ≤ s.blockNum * s.blockLen := by
  have le := Nat.mul_le_mul_right s.blockLen (Nat.succ_le_of_lt inside)
  rw [Nat.succ_mul] at le
  exact le

theorem Whole.put (whole : Whole s) (inside : a < s.blockNum) (few : xs.length ≤ s.blockLen) : Kept s (s.put a xs) := by
  have room := block_end inside
  have size := whole.size
  refine ⟨⟨⟨whole.alive,whole.line⟩,whole.num,whole.len,?_⟩,rfl,rfl,rfl,rfl⟩
  exact (length_overwrite (by rw [size]; omega)).trans size

theorem Whole.length_block (whole : Whole s) (inside : a < s.blockNum) : (s.block a).length = s.blockLen := by
  have room := block_end inside
  unfold Server.block
  rw [List.length_take,List.length_drop,whole.size]
  omega

theorem Whole.block_put (whole : Whole s) (inside : a < s.blockNum) (few : xs.length ≤ s.blockLen) {b : Nat} :
    (s.put a xs).block b = if b = a then xs ++ (s.block a).drop xs.length else s.block b := by
  have room := block_end inside
  have size := whole.size
  apply List.ext_getElem?
  intro j
  have here := (s.put a xs).block_getElem? b j
  have within : a * s.blockLen + xs.length ≤ s.file.length := by
    rw [size]
    omega
  have file : (s.put a xs).file[b * s.blockLen + j]? = _ := overwrite_getElem? within (b * s.blockLen + j)
  have len : (s.put a xs).blockLen = s.blockLen := rfl
  rw [here,len,file]
  by_cases same : b = a
  · subst same
    rw [if_pos rfl]
    by_cases early : j < xs.length
    · rw [if_pos (by omega),if_pos (by omega),List.getElem?_append_left early]
      congr 1
      omega
    · rw [List.getElem?_append_right (by omega),List.getElem?_drop,s.block_getElem?,if_neg (show ¬ (_ ∧ _) by omega)]
      rw [show xs.length + (j - xs.length) = j by omega]
  · rw [if_neg same,s.block_getElem?]
    split
    · rename_i less
      rw [if_neg ?_]
      rintro ⟨late,soon⟩
      rcases Nat.lt_or_gt_of_ne same with before | behind
      · have le := Nat.mul_le_mul_right s.blockLen (Nat.succ_le_of_lt before)
        rw [Nat.succ_mul] at le
        omega
      · have le := Nat.mul_le_mul_right s.blockLen (Nat.succ_le_of_lt behind)
        rw [Nat.succ_mul] at le
        omega
    · rfl

end Put
end Blocks

section Attempts
variable {s : Server} {a : UInt32} {x : List UInt8}

theorem toInt_small (small : a.toNat < 2147483648) : Fs2.toInt a = a.toNat := if_pos small

theorem request_inside (fields : List (List UInt8)) : ∀ c ∈ [space].intercalate (fields.map digits),c ≠ newline := by
  intro c member
  induction fields with
  | nil => cases member
  | cons f fs ih =>
      cases fs with
      | nil =>
          simp at member
          exact (digits_plain member).1
      | cons g gs =>
          rw [List.map_cons,List.map_cons,List.intercalate_cons_cons,List.append_assoc] at member
          rcases List.mem_append.mp member with first | later
          · exact (digits_plain first).1
          · rcases List.mem_append.mp later with sep | rest
            · rw [List.mem_singleton.mp sep]
              decide
            · exact ih rest

theorem askWr_converse (whole : Whole s) (filled : x ≠ []) (small : a.toNat < 2147483648) :
    converse Server.react (askWr a x) s [] =
      if s.blockNum ≤ a.toNat ∨ x.length ≠ s.blockLen then some (none,s,[])
      else if s.wrCut s.writes = 0 then some (some [],s.put a.toNat x,[])
      else some (none,s.put a.toNat (x.take (x.length - s.wrCut s.writes)),[]) := by
  have inside := request_inside [[0x01],word a,x]
  have positive : 0 < x.length := List.length_pos_iff.mpr filled
  have address : Fs2.toInt a = a.toNat := toInt_small small
  have sign : ¬ (a.toNat : Int) * s.blockLen < 0 := by
    rw [← Int.natCast_mul]
    exact Int.not_lt.mpr (Int.natCast_nonneg _)
  have served := (serve_wr s a filled).trans (wr_fields s a x (digits [0x01]))
  rw [address,if_neg sign] at served
  rw [askWr_sends]
  by_cases bad : s.blockNum ≤ a.toNat ∨ x.length ≠ s.blockLen
  · rw [if_pos bad]
    have refused : serve s (request [digits [0x01],digits (word a),digits x]) = some (s,[ackFail]) := by
      rw [served]
      rcases bad with far | uneven
      · rw [if_pos (by exact_mod_cast far)]
      · rw [if_pos uneven,ite_self]
    exact (converse_line whole.toIdle inside refused _).trans (converse_fail none)
  · rw [not_or,not_le,not_not] at bad
    rw [if_neg (by omega)]
    rw [if_neg (by omega),if_neg (not_not.mpr bad.2)] at served
    dsimp only at served
    rw [Int.toNat_natCast] at served
    by_cases healthy : s.wrCut s.writes = 0
    · rw [if_pos healthy]
      rw [healthy,Nat.sub_zero,if_neg (not_not.mpr rfl),List.take_length] at served
      exact (converse_line whole.toIdle inside served _).trans converse_done
    · rw [if_neg healthy]
      rw [if_pos (by omega)] at served
      exact (converse_line whole.toIdle inside served _).trans (converse_fail none)

theorem askRd_converse (whole : Whole s) (small : a.toNat < 2147483648) :
    converse Server.react (askRd a s.blockLen) s [] =
      if s.blockNum ≤ a.toNat then some (none,s,[])
      else if s.blockLen - s.rdCut s.reads = s.blockLen then some (some (s.block a.toNat),{s with reads := s.reads + 1},[])
      else some (none,{s with reads := s.reads + 1},[]) := by
  have inside := request_inside [[0x02],word a]
  have address : Fs2.toInt a = a.toNat := toInt_small small
  have sign : ¬ (a.toNat : Int) * s.blockLen < 0 := by
    rw [← Int.natCast_mul]
    exact Int.not_lt.mpr (Int.natCast_nonneg _)
  have served := (serve_rd s a).trans (rd_fields s a (digits [0x02]))
  rw [address,if_neg sign] at served
  rw [askRd_sends]
  by_cases far : s.blockNum ≤ a.toNat
  · rw [if_pos far]
    rw [if_pos (by exact_mod_cast far)] at served
    exact (converse_line whole.toIdle inside served _).trans (converse_fail _)
  · rw [if_neg far]
    rw [if_neg (by omega)] at served
    dsimp only at served
    rw [Int.toNat_natCast] at served
    have room := block_end (Nat.lt_of_not_le far)
    have length : ((s.file.drop (a.toNat * s.blockLen)).take (s.blockLen - s.rdCut s.reads)).length =
        s.blockLen - s.rdCut s.reads := by
      rw [List.length_take,List.length_drop,whole.size]
      omega
    rw [length] at served
    by_cases healthy : s.blockLen - s.rdCut s.reads = s.blockLen
    · rw [if_pos healthy]
      rw [if_neg (not_not.mpr healthy),healthy] at served
      have okay := @converse_okay {s with reads := s.reads + 1} (s.block a.toNat)
      rw [whole.length_block (Nat.lt_of_not_le far)] at okay
      exact (converse_line whole.toIdle inside served _).trans okay
    · rw [if_neg healthy]
      rw [if_pos healthy] at served
      exact (converse_line whole.toIdle inside served _).trans (converse_fail _)

end Attempts

section Calls
variable {s : Server} {a : UInt32} {x : List UInt8}

-- How a write of x to block a ends. One attempt in full is enough; those that are cut
-- short leave the first k bytes.
inductive WrEnds (s : Server) (a : Nat) (x : List UInt8) (turns : Nat) : Option (List UInt8) → Server → Prop where
  | refused (bad : s.blockNum ≤ a ∨ x.length ≠ s.blockLen) : WrEnds s a x turns none s
  | done {s' : Server} (kept : Kept s s') (inside : a < s.blockNum) (full : x.length = s.blockLen)
      (blocks : ∀ b,s'.block b = if b = a then x else s.block b)
      (healthy : ∃ i,i < turns ∧ s.wrCut (s.writes + i) = 0) : WrEnds s a x turns (some []) s'
  | torn {s' : Server} (k : Nat) (kept : Kept s s') (inside : a < s.blockNum) (full : x.length = s.blockLen)
      (blocks : ∀ b,s'.block b = if b = a then x.take k ++ (s.block a).drop k else s.block b)
      (cut : ∀ i,i < turns → 0 < s.wrCut (s.writes + i)) : WrEnds s a x turns none s'

inductive RdEnds (s : Server) (a : Nat) (turns : Nat) : Option (List UInt8) → Server → Prop where
  | refused (far : s.blockNum ≤ a) : RdEnds s a turns none s
  | done (n : Nat) (inside : a < s.blockNum)
      (healthy : ∃ i,i < turns ∧ s.blockLen - s.rdCut (s.reads + i) = s.blockLen) : RdEnds s a turns (some (s.block a)) {s with reads := n}
  | unread (n : Nat) (inside : a < s.blockNum)
      (cut : ∀ i,i < turns → s.blockLen - s.rdCut (s.reads + i) ≠ s.blockLen) :
      RdEnds s a turns none {s with reads := n}

theorem take_over (x old : List UInt8) (j k : Nat) (full : x.length = old.length) :
    x.take k ++ (x.take j ++ old.drop j).drop k = x.take (max j k) ++ old.drop (max j k) := by
  apply List.ext_getElem?
  intro i
  simp only [List.getElem?_append,List.getElem?_drop,List.getElem?_take,List.length_take]
  grind

theorem Whole.reading (whole : Whole s) (n : Nat) : Kept s {s with reads := n} :=
  ⟨⟨⟨whole.alive,whole.line⟩,whole.num,whole.len,whole.size⟩,rfl,rfl,rfl,rfl⟩

theorem retry_wr (filled : x ≠ []) (small : a.toNat < 2147483648) (turns : Nat) {s : Server} (whole : Whole s) :
    ∃ r s',converse Server.react (retry (askWr a x) turns) s [] = some (r,s',[]) ∧ WrEnds s a.toNat x turns r s' := by
  by_cases bad : s.blockNum ≤ a.toNat ∨ x.length ≠ s.blockLen
  · refine ⟨none,s,?_,.refused bad⟩
    have met := askWr_converse whole filled small
    rw [if_pos bad] at met
    induction turns with
    | zero => rfl
    | succ turns ih => exact (converse_retry_none turns met).trans ih
  · induction turns generalizing s with
    | zero =>
        rw [not_or,not_le,not_not] at bad
        refine ⟨none,s,rfl,.torn 0 (.refl whole) bad.1 bad.2 (fun b => ?_) fun i less => absurd less (Nat.not_lt_zero i)⟩
        split
        · rename_i same
          rw [same]
          rfl
        · rfl
    | succ turns ih =>
        have met := askWr_converse whole filled small
        rw [if_neg bad] at met
        rw [not_or,not_le,not_not] at bad
        obtain ⟨inside,full⟩ := bad
        by_cases healthy : s.wrCut s.writes = 0
        · rw [if_pos healthy] at met
          refine ⟨some [],_,converse_retry_some turns met,.done (whole.put inside (by omega)) inside full (fun b => ?_)
            ⟨0,Nat.zero_lt_succ _,healthy⟩⟩
          rw [whole.block_put inside (by omega),List.drop_eq_nil_of_le (by rw [whole.length_block inside,full]),List.append_nil]
        · rw [if_neg healthy] at met
          have few : (x.take (x.length - s.wrCut s.writes)).length ≤ s.blockLen := by
            rw [List.length_take]
            omega
          have kept := whole.put inside few
          have blocks := fun b => @Whole.block_put _ _ _ whole inside few b
          obtain ⟨r,s',run,ended⟩ := ih kept.whole (by rw [kept.num,kept.len]; omega)
          refine ⟨r,s',(converse_retry_none turns met).trans run,?_⟩
          cases ended with
          | refused bad' =>
              rw [kept.num,kept.len] at bad'
              omega
          | done kept' _ _ blocks' healthy' =>
              obtain ⟨i,less,zero⟩ := healthy'
              refine .done (kept.trans kept') inside full (fun b => ?_) ⟨i + 1,Nat.succ_lt_succ less,?_⟩
              · rw [blocks' b]
                split
                · rfl
                · rename_i other
                  rw [blocks b,if_neg other]
              · have count : (s.put a.toNat (x.take (x.length - s.wrCut s.writes))).writes = s.writes + 1 := rfl
                rw [kept.wrCut,count] at zero
                rw [show s.writes + (i + 1) = s.writes + 1 + i by omega]
                exact zero
          | torn k kept' _ _ blocks' cut =>
              refine .torn (max (x.length - s.wrCut s.writes) k) (kept.trans kept') inside full (fun b => ?_) fun i less => ?_
              · rw [blocks' b]
                split
                · rw [blocks a.toNat,if_pos rfl]
                  have taken : (x.take (x.length - s.wrCut s.writes)).length = x.length - s.wrCut s.writes := by
                    rw [List.length_take]
                    omega
                  rw [taken]
                  exact take_over x _ _ k (by rw [whole.length_block inside,full])
                · rename_i other
                  rw [blocks b,if_neg other]
              · cases i with
                | zero => exact Nat.pos_of_ne_zero healthy
                | succ i =>
                    have later := cut i (by omega)
                    have count : (s.put a.toNat (x.take (x.length - s.wrCut s.writes))).writes = s.writes + 1 := rfl
                    rw [kept.wrCut,count] at later
                    rw [show s.writes + (i + 1) = s.writes + 1 + i by omega]
                    exact later

theorem retry_rd (small : a.toNat < 2147483648) (turns : Nat) {s : Server} (whole : Whole s) :
    ∃ r s',converse Server.react (retry (askRd a s.blockLen) turns) s [] = some (r,s',[]) ∧ RdEnds s a.toNat turns r s' := by
  by_cases far : s.blockNum ≤ a.toNat
  · refine ⟨none,s,?_,.refused far⟩
    have met := askRd_converse whole small
    rw [if_pos far] at met
    induction turns with
    | zero => rfl
    | succ turns ih => exact (converse_retry_none turns met).trans ih
  · induction turns generalizing s with
    | zero => exact ⟨none,s,rfl,.unread s.reads (Nat.lt_of_not_le far) fun i less => absurd less (Nat.not_lt_zero i)⟩
    | succ turns ih =>
        have met := askRd_converse whole small
        have inside := Nat.lt_of_not_le far
        rw [if_neg far] at met
        by_cases healthy : s.blockLen - s.rdCut s.reads = s.blockLen
        · rw [if_pos healthy] at met
          exact ⟨_,_,converse_retry_some turns met,.done (s.reads + 1) inside ⟨0,Nat.zero_lt_succ _,healthy⟩⟩
        · rw [if_neg healthy] at met
          obtain ⟨r,s',run,ended⟩ := ih (whole.reading (s.reads + 1)).whole far
          refine ⟨r,s',(converse_retry_none turns met).trans run,?_⟩
          cases ended with
          | refused far' => exact absurd far' far
          | done n _ healthy' =>
              obtain ⟨i,less,full⟩ := healthy'
              refine .done n inside ⟨i + 1,Nat.succ_lt_succ less,?_⟩
              rw [show s.reads + (i + 1) = s.reads + 1 + i by omega]
              exact full
          | unread n _ cut =>
              refine .unread n inside fun i less => ?_
              cases i with
              | zero => exact healthy
              | succ i =>
                  have later := cut i (by omega)
                  rw [show s.reads + (i + 1) = s.reads + 1 + i by omega]
                  exact later

end Calls

section Conf
variable {s : Server}

theorem join_bytes (n : Nat) (small : n < 4294967296) : (UInt8.ofNat n).toUInt32 ||| (UInt8.ofNat (n / 256)).toUInt32 <<< 8 |||
    (UInt8.ofNat (n / 65536)).toUInt32 <<< 16 ||| (UInt8.ofNat (n / 16777216)).toUInt32 <<< 24 = UInt32.ofNat n := by
  apply UInt32.toNat_inj.mp
  have step : ∀ (i a b : Nat),b < 2 ^ i → b ||| a <<< i = b + a * 2 ^ i := by
    intro i a b less
    have sum := Nat.shiftLeft_add_eq_or_of_lt less a
    rw [Nat.or_comm,← sum,Nat.shiftLeft_eq]
    omega
  have shift : ∀ (k : Nat) (i : UInt32) (c : Nat),i.toNat % 32 = k → k ≤ 24 → c < 256 → c <<< (i.toNat % 32) % 2 ^ 32 = c <<< k := by
    intro k i c here few small
    rw [here]
    refine Nat.mod_eq_of_lt ?_
    have le : 2 ^ k ≤ 2 ^ 24 := Nat.pow_le_pow_right (by decide) few
    rw [Nat.shiftLeft_eq]
    calc c * 2 ^ k ≤ 255 * 2 ^ 24 := Nat.mul_le_mul (by omega) le
      _ < 2 ^ 32 := by decide
  simp only [UInt32.toNat_or,UInt32.toNat_shiftLeft,UInt8.toNat_toUInt32,UInt8.toNat_ofNat',UInt32.toNat_ofNat']
  rw [shift 8 8 _ rfl (by decide) (by omega),shift 16 16 _ rfl (by decide) (by omega),shift 24 24 _ rfl (by decide) (by omega)]
  rw [step 8 _ _ (by omega),step 16 _ _ (by omega),step 24 _ _ (by omega)]
  omega

def packed (n : Nat) : List UInt8 := [UInt8.ofNat n,UInt8.ofNat (n / 256),UInt8.ofNat (n / 65536),UInt8.ofNat (n / 16777216)]

theorem askConf_converse (whole : Whole s) :
    converse Server.react askConf s [] = some (some (packed s.blockNum ++ packed s.blockLen),s,[]) := by
  have served : serve s (request [digits [0x00]]) = some (s,[ackOkay,packed s.blockNum ++ packed s.blockLen]) := by
    rw [serve_conf]
    unfold conf pack
    rw [if_pos whole.num,if_pos whole.len]
    rfl
  rw [askConf_sends]
  exact (converse_line whole.toIdle (request_inside [[0x00]]) served _).trans (converse_okay (packed s.blockNum ++ packed s.blockLen))

theorem diskGet_converse (whole : Whole s) :
    converse Server.react diskGetBlockNum s [] = some ((s.blockNum : Int),s,[]) ∧
      converse Server.react diskGetBlockLen s [] = some ((s.blockLen : Int),s,[]) := by
  have met := converse_retry_some 2 (askConf_converse whole)
  have num := join_bytes s.blockNum (by have := whole.num; omega)
  have len := join_bytes s.blockLen (by have := whole.len; omega)
  have value : ∀ n,n < 2147483648 → Fs2.toInt (UInt32.ofNat n) = n := by
    intro n small
    have same : (UInt32.ofNat n).toNat = n := by
      rw [UInt32.toNat_ofNat']
      exact Nat.mod_eq_of_lt (by omega)
    rw [toInt_small (by rw [same]; exact small),same]
  constructor
  · unfold diskGetBlockNum diskGet
    rw [show diskRetry = 2 + 1 from rfl,converse_then met]
    refine congrArg (fun n => some (n,s,([] : List UInt8))) ?_
    rw [← value _ whole.num,← num]
    rfl
  · unfold diskGetBlockLen diskGet
    rw [show diskRetry = 2 + 1 from rfl,converse_then met]
    refine congrArg (fun n => some (n,s,([] : List UInt8))) ?_
    rw [← value _ whole.len,← len]
    rfl

end Conf

-- What the disk is for: blocks of one length by their number.
structure Store where
  num : Nat
  len : Nat
  block : Nat → List UInt8

inductive Request where
  | blockNum | blockLen
  | wr (a : UInt32) (x : List UInt8)
  | rd (a : UInt32) (x : List UInt8)

-- What a call gives back: the result, and the buffer of a read.
abbrev Answer := Int × List UInt8

-- A store that is lossy may refuse any request for a block, and leave a write half done.
inductive Store.Does (lossy : Prop) (st : Store) : Request → Answer → Store → Prop where
  | num : Store.Does lossy st .blockNum (st.num,[]) st
  | len : Store.Does lossy st .blockLen (st.len,[]) st
  | wrote {a : UInt32} {x : List UInt8} (inside : a.toNat < st.num) (full : x.length = st.len) :
      Store.Does lossy st (.wr a x) (diskSuccess,[]) {st with block := Function.update st.block a.toNat x}
  | refused {a : UInt32} {x : List UInt8} (bad : st.num ≤ a.toNat ∨ x.length ≠ st.len) :
      Store.Does lossy st (.wr a x) (diskFailure,[]) st
  | torn {a : UInt32} {x : List UInt8} (k : Nat) (loses : lossy) (inside : a.toNat < st.num) (full : x.length = st.len) :
      Store.Does lossy st (.wr a x) (diskFailure,[])
        {st with block := Function.update st.block a.toNat (x.take k ++ (st.block a.toNat).drop k)}
  | read {a : UInt32} {x : List UInt8} (inside : a.toNat < st.num) :
      Store.Does lossy st (.rd a x) (diskSuccess,st.block a.toNat) st
  | missing {a : UInt32} {x : List UInt8} (far : st.num ≤ a.toNat) : Store.Does lossy st (.rd a x) (diskFailure,x) st
  | unread {a : UInt32} {x : List UInt8} (loses : lossy) (inside : a.toNat < st.num) :
      Store.Does lossy st (.rd a x) (diskFailure,x) st

inductive Store.Runs (lossy : Prop) : Store → List Request → List Answer → Store → Prop where
  | nil {st : Store} : Store.Runs lossy st [] [] st
  | cons {st st' st'' : Store} {r : Request} {rs : List Request} {answer : Answer} {answers : List Answer} :
      Store.Does lossy st r answer st' → Store.Runs lossy st' rs answers st'' →
      Store.Runs lossy st (r :: rs) (answer :: answers) st''

-- The calls of disk.c.
def Request.talk : Request → Talk UInt8 Answer
  | .blockNum => do pure (← diskGetBlockNum,[])
  | .blockLen => do pure (← diskGetBlockLen,[])
  | .wr a x => do pure (← diskWr a x,[])
  | .rd a x => diskRd a x

def session : List Request → Talk UInt8 (List Answer)
  | [] => pure []
  | r :: rs => do
    let answer ← r.talk
    let answers ← session rs
    pure (answer :: answers)

-- Addresses that are not negative for the other side, some data, and buffers for one
-- block.
def Request.Fits (len : Nat) : Request → Prop
  | .wr a x => a.toNat < 2147483648 ∧ x ≠ []
  | .rd a x => a.toNat < 2147483648 ∧ x.length = len
  | _ => True

def Server.store (s : Server) : Store := ⟨s.blockNum,s.blockLen,s.block⟩
def Server.NeverShort (s : Server) : Prop := ∀ n,s.wrCut n = 0 ∧ s.rdCut n = 0

section Runs
variable {s : Server}

theorem Kept.store {s s' : Server} (kept : Kept s s') {f : Nat → List UInt8} (blocks : ∀ b,s'.block b = f b) :
    s'.store = {s.store with block := f} := by
  unfold Server.store
  rw [kept.num,kept.len,funext blocks]

theorem diskWr_converse (whole : Whole s) {a : UInt32} {x : List UInt8} (fits : (Request.wr a x).Fits s.blockLen) :
    ∃ r s',converse Server.react (diskWr a x) s [] = some (r,s',[]) ∧ Kept s s' ∧
      Store.Does (¬ s.NeverShort) s.store (.wr a x) (r,[]) s'.store := by
  obtain ⟨small,filled⟩ := fits
  obtain ⟨r,s',met,ended⟩ := retry_wr filled small diskRetry whole
  unfold diskWr
  rw [converse_then met]
  cases ended with
  | refused bad => exact ⟨diskFailure,s,rfl,.refl whole,.refused bad⟩
  | done kept inside full blocks _ =>
      refine ⟨diskSuccess,s',rfl,kept,?_⟩
      rw [kept.store (f := Function.update s.block a.toNat x) fun b => by rw [blocks b,Function.update_apply]]
      exact .wrote inside full
  | torn k kept inside full blocks cut =>
      refine ⟨diskFailure,s',rfl,kept,?_⟩
      rw [kept.store (f := Function.update s.block a.toNat (x.take k ++ (s.block a.toNat).drop k)) fun b => by
        rw [blocks b,Function.update_apply]]
      refine .torn k (fun steady => ?_) inside full
      have first := cut 0 (by decide)
      rw [(steady _).1] at first
      exact Nat.lt_irrefl 0 first

theorem diskRd_converse (whole : Whole s) {a : UInt32} {x : List UInt8} (fits : (Request.rd a x).Fits s.blockLen) :
    ∃ answer s',converse Server.react (diskRd a x) s [] = some (answer,s',[]) ∧ Kept s s' ∧
      Store.Does (¬ s.NeverShort) s.store (.rd a x) answer s'.store := by
  obtain ⟨small,room⟩ := fits
  obtain ⟨r,s',met,ended⟩ := retry_rd small diskRetry whole
  unfold diskRd
  rw [room,converse_then met]
  cases ended with
  | refused far => exact ⟨(diskFailure,x),s,rfl,.refl whole,.missing far⟩
  | done n inside _ => exact ⟨(diskSuccess,s.block a.toNat),_,rfl,whole.reading n,.read inside⟩
  | unread n inside cut =>
      refine ⟨(diskFailure,x),_,rfl,whole.reading n,.unread (fun steady => ?_) inside⟩
      have first := cut 0 (by decide)
      rw [(steady _).2] at first
      exact first rfl

theorem talk_converse (whole : Whole s) {r : Request} (fits : r.Fits s.blockLen) :
    ∃ answer s',converse Server.react r.talk s [] = some (answer,s',[]) ∧ Kept s s' ∧
      Store.Does (¬ s.NeverShort) s.store r answer s'.store := by
  cases r with
  | blockNum => exact ⟨_,s,converse_then (diskGet_converse whole).1,.refl whole,.num⟩
  | blockLen => exact ⟨_,s,converse_then (diskGet_converse whole).2,.refl whole,.len⟩
  | wr a x =>
      obtain ⟨r,s',met,kept,does⟩ := diskWr_converse whole fits
      exact ⟨(r,[]),s',converse_then met,kept,does⟩
  | rd a x => exact diskRd_converse whole fits

theorem session_converse (rs : List Request) {s : Server} (whole : Whole s) (fits : ∀ r ∈ rs,r.Fits s.blockLen) :
    ∃ answers s',converse Server.react (session rs) s [] = some (answers,s',[]) ∧ Kept s s' ∧
      Store.Runs (¬ s.NeverShort) s.store rs answers s'.store := by
  induction rs generalizing s with
  | nil => exact ⟨[],s,rfl,.refl whole,.nil⟩
  | cons r rs ih =>
      obtain ⟨answer,t,met,kept,does⟩ := talk_converse whole (fits r (.head _))
      obtain ⟨answers,u,met',kept',runs⟩ := ih kept.whole fun r member => by
        rw [kept.len]
        exact fits r (.tail _ member)
      refine ⟨answer :: answers,u,?_,kept.trans kept',.cons does ?_⟩
      · unfold session
        rw [converse_then met,converse_then met']
        rfl
      · have steady : t.NeverShort ↔ s.NeverShort := by
          unfold Server.NeverShort
          rw [kept.wrCut,kept.rdCut]
        rw [steady] at runs
        exact runs

-- Whatever has been sent and answered so far, the calls can go on, and they end with the
-- answers of the store and nothing left on the line.
theorem disk_serves (whole : Whole s) (rs : List Request) (fits : ∀ r ∈ rs,r.Fits s.blockLen) :
    ∃ answers s',Store.Runs (¬ s.NeverShort) s.store rs answers s'.store ∧ Whole s' ∧
      ∀ l,Steps Server.react ⟨session rs,[],s,[]⟩ l → Steps Server.react l ⟨.ret answers,[],s',[]⟩ := by
  obtain ⟨answers,s',met,kept,runs⟩ := session_converse rs whole fits
  exact ⟨answers,s',runs,kept.whole,fun l steps => converse_confluent met steps⟩

-- One good attempt of the three is enough, and nothing but the block is touched.
theorem write_ends (whole : Whole s) {a : UInt32} {x : List UInt8} (small : a.toNat < 2147483648) (filled : x ≠ []) :
    ∃ r s',Whole s' ∧ (∀ l,Steps Server.react ⟨diskWr a x,[],s,[]⟩ l → Steps Server.react l ⟨.ret r,[],s',[]⟩) ∧
      (r = diskSuccess ↔ a.toNat < s.blockNum ∧ x.length = s.blockLen ∧ ∃ i,i < diskRetry ∧ s.wrCut (s.writes + i) = 0) ∧
      (r = diskSuccess → s'.block a.toNat = x) ∧ ∀ b,b ≠ a.toNat → s'.block b = s.block b := by
  obtain ⟨r,s',met,ended⟩ := retry_wr filled small diskRetry whole
  refine ⟨(if r.isSome then diskSuccess else diskFailure),s',?_,fun l steps => converse_confluent ?_ steps,?_⟩
  · cases ended with
    | refused bad => exact whole
    | done kept => exact kept.whole
    | torn k kept => exact kept.whole
  · unfold diskWr
    rw [converse_then met]
    cases r with
    | none => rfl
    | some data => rfl
  cases ended with
  | refused bad =>
      have failed : ¬ diskFailure = diskSuccess := by decide
      exact ⟨iff_of_false failed fun ⟨inside,full,_⟩ => bad.elim (Nat.not_le_of_lt inside) (absurd full),
        fun same => absurd same failed,fun b other => rfl⟩
  | done kept inside full blocks healthy =>
      exact ⟨iff_of_true rfl ⟨inside,full,healthy⟩,fun _ => by rw [blocks,if_pos rfl],fun b other => by rw [blocks,if_neg other]⟩
  | torn k kept inside full blocks cut =>
      have failed : ¬ diskFailure = diskSuccess := by decide
      refine ⟨iff_of_false failed ?_,fun same => absurd same failed,fun b other => by rw [blocks,if_neg other]⟩
      rintro ⟨_,_,i,less,zero⟩
      exact absurd zero (Nat.pos_iff_ne_zero.mp (cut i less))

-- A read needs one good attempt too, and changes no block; the buffer is filled or left
-- alone.
theorem read_ends (whole : Whole s) {a : UInt32} {x : List UInt8} (small : a.toNat < 2147483648) (room : x.length = s.blockLen) :
    ∃ answer s',Whole s' ∧ (∀ l,Steps Server.react ⟨diskRd a x,[],s,[]⟩ l → Steps Server.react l ⟨.ret answer,[],s',[]⟩) ∧
      s'.block = s.block ∧ ((a.toNat < s.blockNum ∧ ∃ i,i < diskRetry ∧ s.blockLen - s.rdCut (s.reads + i) = s.blockLen) →
        answer = (diskSuccess,s.block a.toNat)) ∧
      (¬ (a.toNat < s.blockNum ∧ ∃ i,i < diskRetry ∧ s.blockLen - s.rdCut (s.reads + i) = s.blockLen) →
        answer = (diskFailure,x)) := by
  obtain ⟨r,s',met,ended⟩ := retry_rd small diskRetry whole
  refine ⟨(r.map fun data => (diskSuccess,data)).getD (diskFailure,x),s',?_,fun l steps => converse_confluent ?_ steps,?_⟩
  · cases ended with
    | refused far => exact whole
    | done n => exact (whole.reading n).whole
    | unread n => exact (whole.reading n).whole
  · unfold diskRd
    rw [room,converse_then met]
    cases r with
    | none => rfl
    | some data => rfl
  cases ended with
  | refused far => exact ⟨rfl,fun ⟨inside,_⟩ => absurd inside (Nat.not_lt_of_le far),fun _ => rfl⟩
  | done n inside healthy => exact ⟨rfl,fun _ => rfl,fun bad => absurd ⟨inside,healthy⟩ bad⟩
  | unread n inside cut => exact ⟨rfl,fun ⟨_,i,less,full⟩ => absurd full (cut i less),fun _ => rfl⟩

end Runs

-- A program with two blocks of two bytes, whose second write falls one short.
def smallServer : Server :=
  {blockNum := 2,blockLen := 2,file := [1,2,3,4],line := [],alive := true,writes := 0,reads := 0
   wrCut := fun n => if n = 1 then 1 else 0,rdCut := fun _ => 0}

theorem smallServer_whole : Whole smallServer := ⟨⟨rfl,rfl⟩,by decide,by decide,rfl⟩

theorem disk_serves_small : Whole smallServer ∧ (∀ r ∈ [Request.wr 1 [5,6],.wr 0 [7,8],.rd 1 [0,0]],r.Fits 2) ∧
    ∃ answers s',Store.Runs (¬ smallServer.NeverShort) smallServer.store [.wr 1 [5,6],.wr 0 [7,8],.rd 1 [0,0]] answers s'.store ∧
      Whole s' ∧ ∀ l,Steps Server.react ⟨session [.wr 1 [5,6],.wr 0 [7,8],.rd 1 [0,0]],[],smallServer,[]⟩ l →
        Steps Server.react l ⟨.ret answers,[],s',[]⟩ := by
  have fits : ∀ r ∈ [Request.wr 1 [5,6],.wr 0 [7,8],.rd 1 [0,0]],r.Fits 2 := by
    intro r member
    simp only [List.mem_cons,List.not_mem_nil,or_false] at member
    rcases member with rfl | rfl | rfl
    · exact ⟨by decide,by decide⟩
    · exact ⟨by decide,by decide⟩
    · exact ⟨by decide,rfl⟩
  exact ⟨smallServer_whole,fits,disk_serves smallServer_whole _ fits⟩

theorem write_ends_small : ∃ r s',Whole s' ∧
    (∀ l,Steps Server.react ⟨diskWr 1 [5,6],[],smallServer,[]⟩ l → Steps Server.react l ⟨.ret r,[],s',[]⟩) ∧
      (r = diskSuccess ↔ (1 : UInt32).toNat < 2 ∧ [5,6].length = 2 ∧ ∃ i,i < diskRetry ∧ smallServer.wrCut (0 + i) = 0) ∧
      (r = diskSuccess → s'.block 1 = [5,6]) ∧ ∀ b,b ≠ 1 → s'.block b = smallServer.block b :=
  write_ends smallServer_whole (by decide) (by decide)

theorem read_ends_small : ∃ answer s',Whole s' ∧
    (∀ l,Steps Server.react ⟨diskRd 1 [0,0],[],smallServer,[]⟩ l → Steps Server.react l ⟨.ret answer,[],s',[]⟩) ∧
      s'.block = smallServer.block ∧ (((1 : UInt32).toNat < 2 ∧ ∃ i,i < diskRetry ∧ 2 - smallServer.rdCut (0 + i) = 2) →
        answer = (diskSuccess,smallServer.block 1)) ∧
      (¬ ((1 : UInt32).toNat < 2 ∧ ∃ i,i < diskRetry ∧ 2 - smallServer.rdCut (0 + i) = 2) → answer = (diskFailure,[0,0])) :=
  read_ends smallServer_whole (by decide) rfl

end ArchiveOs.Serial
