import ArchiveOs.Chars

-- strformat.c: hexadecimal digits in the place of '@'. A string is the list of its bytes up
-- to and with the NUL; a read or a store behind it fails (none).
namespace ArchiveOs.StrFormat
open Chars

abbrev atSign : UInt8 := 0x40

def hexChar (value : BitVec 32) : UInt8 :=
  let value := value &&& 0x0F
  if value.toInt < 10 then UInt8.ofNat (0x30 + value.toNat) else UInt8.ofNat (0x41 + value.toNat - 10)

-- The loop of hex on the segment that begins at `segment`; `n` turns are left, and i is
-- length - n. An int is not shifted by 32 bits or more.
def hexLoop (segment length : Nat) (value : BitVec 32) : (n : Nat) → List UInt8 → Option (List UInt8)
  | 0,x => some x
  | n + 1,x => do
    let i := length - (n + 1)
    let shift := 4 * (length - 1 - i)
    if 32 ≤ shift then none
    else hexLoop segment length value n (← store x (segment + i) (hexChar (value.sshiftRight shift)))

def hex (x : List UInt8) (segment length : Nat) (value : BitVec 32) : Option (List UInt8) :=
  hexLoop segment length value length x

theorem hexLoop_length {segment length n : Nat} {value : BitVec 32} {x x' : List UInt8}
    (run : hexLoop segment length value n x = some x') : x'.length = x.length := by
  induction n generalizing x with
  | zero =>
      cases run
      rfl
  | succ n ih =>
      unfold hexLoop at run
      dsimp only at run
      split at run
      · cases run
      · obtain ⟨x₁,stored,rest⟩ := Option.bind_eq_some_iff.mp run
        exact (ih rest).trans (store_length stored)

-- How far `while (string[j] == '@') j++` goes, on the bytes from j on.
def skipAts : List UInt8 → Option Nat
  | [] => none
  | c :: rest => if c = atSign then (skipAts rest).map (· + 1) else some 0

def formatHexLoop (vals : List (BitVec 32)) (x : List UInt8) (i val : Nat) : Option (List UInt8) :=
  match _here : x[i]? with
  | none => none
  | some c =>
    if c = 0 then some x
    else
      match skipAts (x.drop i) with
      | none => none
      | some 0 => formatHexLoop vals x (i + 1) val
      | some n =>
        match vals[val]? with
        | none => none
        | some value =>
          match _run : hex x i n value with
          | none => none
          | some x => formatHexLoop vals x (i + n + 1) (val + 1)
termination_by x.length - i
decreasing_by
  all_goals have inside := (List.getElem?_eq_some_iff.mp _here).1
  · omega
  · rw [hexLoop_length _run]
    omega

def formatHex (string : List UInt8) (vals : List (BitVec 32)) : Option (List UInt8) := formatHexLoop vals string 0 0

-- What it is for: the lengths of the runs of '@', behind n of them, and the string with
-- digits in their place.
def runs : (n : Nat) → List UInt8 → List Nat
  | n,[] => if n = 0 then [] else [n]
  | n,c :: s => if c = atSign then runs (n + 1) s else if n = 0 then runs 0 s else n :: runs 0 s

def digit (d : Nat) : UInt8 := if d < 10 then UInt8.ofNat (0x30 + d) else UInt8.ofNat (0x41 + d - 10)

def lowDigits (value : BitVec 32) : (n : Nat) → List UInt8
  | 0 => []
  | n + 1 => digit (value.toNat / 16 ^ n % 16) :: lowDigits value n

def fill : (n : Nat) → List UInt8 → List (BitVec 32) → List UInt8
  | n,[],vals => lowDigits (vals.headD 0) n
  | n,c :: s,vals =>
    if c = atSign then fill (n + 1) s vals
    else if n = 0 then c :: fill 0 s vals
    else lowDigits (vals.headD 0) n ++ c :: fill 0 s vals.tail

section Digits
variable {value : BitVec 32}

theorem low_bits {n : Nat} (small : n < 8) : ((value.sshiftRight (4 * n)) &&& 0x0F).toNat = value.toNat / 16 ^ n % 16 := by
  have unsigned : (value.sshiftRight (4 * n)) &&& 0x0F = (value >>> (4 * n)) &&& 0x0F := by
    apply BitVec.eq_of_getLsbD_eq
    intro i hi
    rw [BitVec.getLsbD_and,BitVec.getLsbD_and]
    by_cases low : i < 4
    · have inside : 4 * n + i < 32 := by omega
      rw [BitVec.getLsbD_sshiftRight,BitVec.getLsbD_ushiftRight,if_pos inside,decide_eq_false (not_le.mpr hi)]
      rfl
    · have mask : (0x0F : BitVec 32).getLsbD i = false := by
        rw [← BitVec.testBit_toNat]
        exact Nat.testBit_lt_two_pow (Nat.lt_of_lt_of_le (by decide) (Nat.pow_le_pow_right (by decide) (not_lt.mp low)))
      rw [mask,Bool.and_false,Bool.and_false]
  have fifteen : (15 : Nat) = 2 ^ 4 - 1 := rfl
  rw [unsigned,BitVec.toNat_and,BitVec.toNat_ushiftRight]
  show value.toNat >>> (4 * n) &&& 15 = _
  rw [fifteen,Nat.and_two_pow_sub_one_eq_mod,Nat.shiftRight_eq_div_pow,Nat.pow_mul]

theorem hexChar_digit {n : Nat} (small : n < 8) : hexChar (value.sshiftRight (4 * n)) = digit (value.toNat / 16 ^ n % 16) := by
  have bits := @low_bits value n small
  unfold hexChar digit
  dsimp only
  have short : ((value.sshiftRight (4 * n)) &&& 0x0F).toNat < 16 := by rw [bits]; exact Nat.mod_lt _ (by decide)
  rw [BitVec.toInt_eq_toNat_of_lt (by omega),bits]
  norm_cast

theorem lowDigits_length (n : Nat) : (lowDigits value n).length = n := by
  induction n with
  | zero => rfl
  | succ n ih => exact congrArg (· + 1) ih

theorem hexLoop_digits {before seg behind : List UInt8} {segment length : Nat} (small : length ≤ 8)
    (turns : seg.length ≤ length) (place : before.length = segment + (length - seg.length)) :
    hexLoop segment length value seg.length (before ++ seg ++ behind) =
      some (before ++ lowDigits value seg.length ++ behind) := by
  induction seg generalizing before with
  | nil => rfl
  | cons c seg ih =>
      rw [List.length_cons] at turns place
      have shift : length - 1 - (length - (seg.length + 1)) = seg.length := by omega
      have target : segment + (length - (seg.length + 1)) = before.length := place.symm
      rw [List.length_cons]
      unfold hexLoop lowDigits
      dsimp only
      rw [shift,if_neg (by omega),target,hexChar_digit (by omega)]
      have step := @ih (before ++ [digit (value.toNat / 16 ^ seg.length % 16)]) (by omega) (by simp; omega)
      simp only [List.append_assoc,List.cons_append,List.nil_append] at step ⊢
      rw [store_append]
      exact step

theorem hex_digits {before seg behind : List UInt8} (small : seg.length ≤ 8) :
    hex (before ++ seg ++ behind) before.length seg.length value = some (before ++ lowDigits value seg.length ++ behind) :=
  hexLoop_digits small (le_refl _) (by simp)

end Digits

section Runs
variable {s rest : List UInt8} {c : UInt8}

theorem split_run (s : List UInt8) :
    ∃ n rest,s = List.replicate n atSign ++ rest ∧ (rest = [] ∨ ∃ c s',rest = c :: s' ∧ c ≠ atSign) := by
  induction s with
  | nil => exact ⟨0,[],rfl,.inl rfl⟩
  | cons c s ih =>
      by_cases sign : c = atSign
      · obtain ⟨n,rest,split,stops⟩ := ih
        exact ⟨n + 1,rest,by rw [sign,split]; rfl,stops⟩
      · exact ⟨0,c :: s,rfl,.inr ⟨c,s,rfl,sign⟩⟩

theorem skipAts_run (n : Nat) (stops : c ≠ atSign) : skipAts (List.replicate n atSign ++ c :: rest) = some n := by
  induction n with
  | zero => exact if_neg stops
  | succ n ih =>
      show (if atSign = atSign then (skipAts (List.replicate n atSign ++ c :: rest)).map (· + 1) else some 0) = _
      rw [if_pos rfl,ih]
      rfl

theorem runs_run (n k : Nat) : runs n (List.replicate k atSign ++ s) = runs (n + k) s := by
  induction k generalizing n with
  | zero => rfl
  | succ k ih =>
      show (if atSign = atSign then runs (n + 1) (List.replicate k atSign ++ s) else _) = _
      rw [if_pos rfl,ih,Nat.add_assoc,Nat.add_comm 1]

theorem fill_run (n k : Nat) (vals : List (BitVec 32)) :
    fill n (List.replicate k atSign ++ s) vals = fill (n + k) s vals := by
  induction k generalizing n with
  | zero => rfl
  | succ k ih =>
      show (if atSign = atSign then fill (n + 1) (List.replicate k atSign ++ s) vals else _) = _
      rw [if_pos rfl,ih,Nat.add_assoc,Nat.add_comm 1]

theorem runs_plain (stops : c ≠ atSign) : runs 0 (c :: s) = runs 0 s := by
  rw [runs,if_neg stops,if_pos rfl]

theorem runs_stop (n : Nat) (stops : c ≠ atSign) : runs (n + 1) (c :: s) = (n + 1) :: runs 0 s := by
  rw [runs,if_neg stops,if_neg (Nat.succ_ne_zero n)]

theorem fill_plain (stops : c ≠ atSign) (vals : List (BitVec 32)) : fill 0 (c :: s) vals = c :: fill 0 s vals := by
  rw [fill,if_neg stops,if_pos rfl]

theorem fill_stop (n : Nat) (stops : c ≠ atSign) (vals : List (BitVec 32)) :
    fill (n + 1) (c :: s) vals = lowDigits (vals.headD 0) (n + 1) ++ c :: fill 0 s vals.tail := by
  rw [fill,if_neg stops,if_neg (Nat.succ_ne_zero n)]

theorem getLast_text (stops : c ≠ atSign) (signs : List UInt8) :
    (signs ++ c :: s).getLast? = some atSign ↔ s.getLast? = some atSign := by
  rw [List.getLast?_append,List.getLast?_cons]
  cases s.getLast? with
  | none => simp [stops]
  | some d => simp

end Runs

-- One turn of the loop.
section Turn
variable {vals : List (BitVec 32)} {x x' : List UInt8} {i val n : Nat} {c : UInt8} {value : BitVec 32}

theorem loop_outside (here : x[i]? = none) : formatHexLoop vals x i val = none := by
  unfold formatHexLoop
  split
  · rfl
  · rename_i there
    cases here.symm.trans there

theorem loop_ends (here : x[i]? = some 0) : formatHexLoop vals x i val = some x := by
  unfold formatHexLoop
  split
  · rename_i there
    cases here.symm.trans there
  · rename_i there
    cases here.symm.trans there
    exact if_pos rfl

theorem loop_plain (here : x[i]? = some c) (more : c ≠ 0) (plain : skipAts (x.drop i) = some 0) :
    formatHexLoop vals x i val = formatHexLoop vals x (i + 1) val := by
  rw [formatHexLoop]
  split
  · rename_i there
    cases here.symm.trans there
  · rename_i there
    cases here.symm.trans there
    rw [if_neg more,plain]
    rfl

theorem loop_run (here : x[i]? = some c) (more : c ≠ 0) (signs : skipAts (x.drop i) = some (n + 1))
    (given : vals[val]? = some value) (run : hex x i (n + 1) value = some x') :
    formatHexLoop vals x i val = formatHexLoop vals x' (i + (n + 1) + 1) (val + 1) := by
  rw [formatHexLoop]
  split
  · rename_i there
    cases here.symm.trans there
  · rename_i there
    cases here.symm.trans there
    rw [if_neg more]
    simp only [signs,given]
    split
    · rename_i failed
      cases run.symm.trans failed
    · rename_i stored
      cases run.symm.trans stored
      rfl

theorem loop_text {done behind : List UInt8} (more : c ≠ 0) (plain : c ≠ atSign) :
    formatHexLoop vals (done ++ c :: behind) done.length val = formatHexLoop vals (done ++ c :: behind) (done.length + 1) val := by
  apply loop_plain (c := c)
  · simp
  · exact more
  · rw [List.drop_left]
    exact skipAts_run 0 plain

theorem loop_signs {done behind : List UInt8} (given : vals[val]? = some value) (short : n + 1 ≤ 8) (stops : c ≠ atSign) :
    formatHexLoop vals (done ++ (List.replicate (n + 1) atSign ++ c :: behind)) done.length val =
      formatHexLoop vals (done ++ (lowDigits value (n + 1) ++ c :: behind)) (done.length + (n + 1) + 1) (val + 1) := by
  have digits := @hex_digits value done (List.replicate (n + 1) atSign) (c :: behind) (by rw [List.length_replicate]; exact short)
  rw [List.length_replicate,List.append_assoc,List.append_assoc] at digits
  refine loop_run (c := atSign) ?_ (by decide) ?_ given digits
  · simp [List.replicate_succ]
  · rw [List.drop_left]
    exact skipAts_run (n + 1) stops

end Turn

-- The loop at the start of a run or of other text; `done` is behind it. A run at the end
-- makes it step over the NUL.
theorem formatHexLoop_spec {vals : List (BitVec 32)} {done s : List UInt8} {val : Nat} (noNul : 0 ∉ s)
    (short : ∀ n ∈ runs 0 s,n ≤ 8) (enough : (runs 0 s).length = (vals.drop val).length) :
    formatHexLoop vals (done ++ (s ++ [0])) done.length val =
      if s.getLast? = some atSign then none else some (done ++ (fill 0 s (vals.drop val) ++ [0])) := by
  induction size : s.length using Nat.strong_induction_on generalizing done s val with
  | _ size ih =>
      obtain ⟨n,rest,rfl,stops⟩ := split_run s
      rw [runs_run,Nat.zero_add] at short enough
      rw [fill_run,Nat.zero_add,List.append_assoc]
      rw [List.mem_append,not_or] at noNul
      rw [List.length_append,List.length_replicate] at size
      cases n with
      | zero =>
          rcases stops with rfl | ⟨c,s,rfl,plain⟩
          · exact loop_ends (by simp)
          · rw [runs_plain plain] at short enough
            rw [List.mem_cons,not_or] at noNul
            have next := @ih s.length (by rw [List.length_cons] at size; omega) (done ++ [c]) s val noNul.2.2 short enough rfl
            rw [List.append_assoc,List.length_append] at next
            rw [fill_plain plain]
            simp only [getLast_text plain]
            exact (loop_text (Ne.symm noNul.2.1) plain).trans (by simpa using next)
      | succ n =>
          rcases stops with rfl | ⟨c,s,rfl,stops⟩
          · have inside : val < vals.length := by
              rw [List.length_drop] at enough
              have one : (runs (n + 1) []).length = 1 := rfl
              omega
            have turn := @loop_signs vals val n 0 vals[val] done [] (List.getElem?_eq_getElem inside)
              (short (n + 1) List.mem_cons_self) (by decide)
            rw [if_pos (by simp [List.getLast?_replicate])]
            refine turn.trans (loop_outside (List.getElem?_eq_none ?_))
            simp [lowDigits_length]
            omega
          · rw [runs_stop n stops] at short enough
            rw [List.mem_cons,not_or] at noNul
            have inside : val < vals.length := by
              rw [List.length_cons,List.length_drop] at enough
              omega
            have values : vals.drop val = vals[val] :: vals.drop (val + 1) := List.drop_eq_getElem_cons inside
            rw [values,List.length_cons,List.length_cons,Nat.add_right_cancel_iff] at enough
            have turn := @loop_signs vals val n c vals[val] done (s ++ [0]) (List.getElem?_eq_getElem inside)
              (short (n + 1) List.mem_cons_self) stops
            have next := @ih s.length (by rw [List.length_cons] at size; omega) (done ++ (lowDigits vals[val] (n + 1) ++ [c])) s
              (val + 1) noNul.2.2 (fun k member => short k (List.mem_cons_of_mem _ member)) enough rfl
            rw [values,fill_stop n stops,List.headD_cons,List.tail_cons]
            simp only [getLast_text stops]
            refine turn.trans ?_
            simpa [lowDigits_length,Nat.add_assoc] using next

-- format_hex does what it is for if and only if the string does not end with '@'.
theorem format_hex_iff {s : List UInt8} {vals : List (BitVec 32)} (noNul : 0 ∉ s) (short : ∀ n ∈ runs 0 s,n ≤ 8)
    (enough : vals.length = (runs 0 s).length) :
    formatHex (s ++ [0]) vals = some (fill 0 s vals ++ [0]) ↔ s.getLast? ≠ some atSign := by
  have loop : formatHex (s ++ [0]) vals = if s.getLast? = some atSign then none else some (fill 0 s vals ++ [0]) :=
    @formatHexLoop_spec vals [] s 0 noNul short enough.symm
  rw [loop]
  by_cases last : s.getLast? = some atSign
  · rw [if_pos last]
    simp [last]
  · rw [if_neg last]
    simp [last]

-- "@@:@" with 0x17 and 0xC, and a string that ends with a placeholder.
theorem format_hex_text : formatHex [0x40,0x40,0x3A,0x40,0x2E,0] [0x17,0xC] = some [0x31,0x37,0x3A,0x43,0x2E,0] :=
  (@format_hex_iff [0x40,0x40,0x3A,0x40,0x2E] [0x17,0xC] (by decide) (by decide) rfl).mpr (by decide)

theorem format_hex_overruns : runs 0 [0x40] = [1] ∧ fill 0 [0x40] [0xC] = [0x43] ∧ formatHex [0x40,0] [0xC] = none := by
  refine ⟨rfl,by decide +kernel,?_⟩
  exact @formatHexLoop_spec [0xC] [] [0x40] 0 (by decide) (by decide) rfl

end ArchiveOs.StrFormat
