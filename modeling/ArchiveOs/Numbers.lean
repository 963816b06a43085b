import ArchiveOs.Chars

-- libc.c: ints as text. What leaves the 32 bits of an int, a store behind the buffer and a
-- read behind the string are not defined (none).
namespace ArchiveOs.Numbers
open Chars

abbrev minus : UInt8 := 0x2D
abbrev plus : UInt8 := 0x2B

def int (n : Int) : Option Int := if -2147483648 ≤ n ∧ n < 2147483648 then some n else none

def atoiLoop (s : Bool) : List UInt8 → Int → Option Int
  | [],_ => none
  | c :: p,r =>
    if c = 0 then some r
    else do
      let t ← int (r * 10)
      let r ← int (if s then t - ((c.toNat : Int) - 0x30) else t + ((c.toNat : Int) - 0x30))
      atoiLoop s p r

def atoi : List UInt8 → Option Int
  | [] => none
  | c :: p => if c = minus then atoiLoop true p 0 else if c = plus then atoiLoop false p 0 else atoiLoop false (c :: p) 0

-- do { p++; n /= 10; } while( n )
def places (n : Nat) : Nat := if n / 10 = 0 then 1 else places (n / 10) + 1

-- *p-- = c, where p places lie up to and with *p.
def putBack (r : List UInt8) (p : Nat) (c : UInt8) : Option (List UInt8 × Nat) :=
  match p with
  | 0 => none
  | p + 1 => (store r p c).map fun r => (r,p)

def digit (n : Nat) : UInt8 := UInt8.ofNat (0x30 + n % 10)

-- do { *p-- = '0' + ( t % 10 ); t /= 10; } while( t )
def digitLoop (r : List UInt8) (p t : Nat) : Option (List UInt8 × Nat) := do
  let (r,p) ← putBack r p (digit t)
  if t / 10 = 0 then some (r,p) else digitLoop r p (t / 10)
termination_by t

def itoa (r : List UInt8) (x : Int) : Option (List UInt8) := do
  let t ← if x < 0 then int (-x) else some x
  let t := t.toNat
  let p := (if x < 0 then 1 else 0) + places t
  let (r,p) ← putBack r (p + 1) 0
  let (r,p) ← digitLoop r p t
  if x < 0 then (putBack r p minus).map Prod.fst else some r

-- What it is for: decimal digits without a zero in front, behind a sign if there is one.
def decimal (n : Nat) : List UInt8 := (if n / 10 = 0 then [] else decimal (n / 10)) ++ [digit n]

def text (x : Int) : List UInt8 := (if x < 0 then [minus] else []) ++ decimal x.natAbs

section Digits

theorem places_pos (n : Nat) : 0 < places n := by
  unfold places
  split <;> omega

theorem decimal_length (n : Nat) : (decimal n).length = places n := by
  induction n using decimal.induct with
  | case1 n ih =>
      rw [decimal,places,List.length_append]
      split
      · rfl
      · rename_i more
        rw [ih more]
        rfl

theorem decimal_more {n : Nat} (more : ¬ n / 10 = 0) : decimal n = decimal (n / 10) ++ [digit n] := by
  rw [decimal,if_neg more]

theorem decimal_last {n : Nat} (last : n / 10 = 0) : decimal n = [digit n] := by
  rw [decimal,if_pos last]
  rfl

theorem digit_toNat (n : Nat) : (digit n).toNat = 0x30 + n % 10 := by
  have small := Nat.mod_lt n (show 10 > 0 by decide)
  unfold digit
  rw [UInt8.toNat_ofNat',Nat.mod_eq_of_lt (by omega)]

theorem digit_other (n : Nat) {c : UInt8} (low : c.toNat < 0x30) : digit n ≠ c := by
  intro same
  have value := digit_toNat n
  rw [same] at value
  omega

theorem decimal_head (n : Nat) : ∃ k rest,decimal n = digit k :: rest := by
  induction n using decimal.induct with
  | case1 n ih =>
      rw [decimal]
      split
      · exact ⟨n,[],rfl⟩
      · rename_i more
        obtain ⟨k,rest,begins⟩ := ih more
        exact ⟨k,rest ++ [digit n],by rw [begins]; rfl⟩

end Digits

section Itoa

theorem putBack_append (before behind : List UInt8) (c d : UInt8) :
    putBack (before ++ c :: behind) (before.length + 1) d = some (before ++ d :: behind,before.length) := by
  show (store (before ++ c :: behind) before.length d).map _ = _
  rw [store_append]
  rfl

theorem digitLoop_decimal (before behind : List UInt8) {t : Nat} {seg : List UInt8} (room : seg.length = places t) :
    digitLoop (before ++ seg ++ behind) (before.length + places t) t = some (before ++ decimal t ++ behind,before.length) := by
  induction t using decimal.induct generalizing seg behind with
  | case1 t ih =>
      have some : seg ≠ [] := by
        rintro rfl
        have pos := places_pos t
        rw [← room] at pos
        exact absurd pos (Nat.lt_irrefl 0)
      obtain ⟨front,last,rfl⟩ : ∃ front last,seg = front ++ [last] := ⟨_,_,(List.dropLast_append_getLast some).symm⟩
      rw [List.length_append,List.length_singleton] at room
      have put : putBack (before ++ (front ++ [last]) ++ behind) (before.length + places t) (digit t) =
          Option.some (before ++ front ++ digit t :: behind,before.length + front.length) := by
        have at_front := putBack_append (before ++ front) behind last (digit t)
        rw [List.length_append,Nat.add_assoc,room] at at_front
        rw [← at_front]
        simp
      rw [digitLoop,put,Option.bind_eq_bind,Option.bind_some]
      dsimp only
      by_cases done : t / 10 = 0
      · have one : places t = 1 := by rw [places,if_pos done]
        have empty : front = [] := List.length_eq_zero_iff.mp (by omega)
        subst empty
        rw [if_pos done,decimal_last done]
        simp
      · have fewer : front.length = places (t / 10) := by
          have more : places t = places (t / 10) + 1 := by rw [places,if_neg done]
          omega
        rw [if_neg done,fewer,ih done (digit t :: behind) fewer,decimal_more done]
        simp

theorem splits {r : List UInt8} {n : Nat} (inside : n < r.length) :
    ∃ front c,r = front ++ c :: r.drop (n + 1) ∧ front.length = n := by
  refine ⟨r.take n,r[n],?_,?_⟩
  · rw [← List.drop_eq_getElem_cons inside,List.take_append_drop]
  · rw [List.length_take]
    omega

theorem text_pos {x : Int} (pos : ¬ x < 0) : text x = decimal x.natAbs := by
  unfold text
  rw [if_neg pos]
  rfl

theorem text_neg {x : Int} (neg : x < 0) : text x = minus :: decimal x.natAbs := by
  unfold text
  rw [if_pos neg]
  rfl

theorem itoa_text {r : List UInt8} {x : Int} (small : -2147483648 < x) (room : (text x).length < r.length) :
    itoa r x = some (text x ++ 0 :: r.drop ((text x).length + 1)) := by
  obtain ⟨front,c,same,length⟩ := splits room
  generalize r.drop ((text x).length + 1) = behind at same ⊢
  subst same
  have ended := putBack_append front behind c 0
  unfold itoa
  by_cases neg : x < 0
  · rw [text_neg neg,List.length_cons,decimal_length] at length
    obtain ⟨a,seg,rfl⟩ := List.exists_cons_of_length_eq_add_one length
    have shorter : seg.length = places x.natAbs := by
      rw [List.length_cons] at length
      omega
    have digits := digitLoop_decimal [a] (0 :: behind) shorter
    have sign := putBack_append [] (decimal x.natAbs ++ 0 :: behind) a minus
    have fits : int (-x) = some (-x) := if_pos ⟨by omega,by omega⟩
    have value : (-x).toNat = x.natAbs := by omega
    have end_place : 1 + places x.natAbs + 1 = (a :: seg).length + 1 := by
      rw [length]
      omega
    rw [if_pos neg,fits,Option.bind_eq_bind,Option.bind_some]
    dsimp only
    rw [value,if_pos neg,end_place,ended,Option.bind_eq_bind,Option.bind_some]
    dsimp only
    have start : (a :: seg).length = [a].length + places x.natAbs := by
      rw [length]
      exact Nat.add_comm ..
    rw [start]
    change digitLoop (a :: seg ++ 0 :: behind) _ _ = _ at digits
    rw [digits,Option.bind_some,if_pos neg]
    change (putBack (a :: (decimal x.natAbs ++ 0 :: behind)) (0 + 1) minus).map Prod.fst = _
    change putBack (a :: (decimal x.natAbs ++ 0 :: behind)) (0 + 1) minus = _ at sign
    rw [sign,text_neg neg]
    rfl
  · rw [text_pos neg,decimal_length] at length
    have digits := digitLoop_decimal [] (0 :: behind) length
    have value : x.toNat = x.natAbs := by omega
    rw [if_neg neg,Option.bind_eq_bind,Option.bind_some]
    dsimp only
    rw [value,if_neg neg,Nat.zero_add,← length,ended,Option.bind_eq_bind,Option.bind_some]
    dsimp only
    rw [List.nil_append,List.length_nil,Nat.zero_add,← length] at digits
    rw [digits,Option.bind_some,if_neg neg,text_pos neg]
    rfl

theorem itoa_none {r : List UInt8} {x : Int} (bad : x = -2147483648 ∨ r.length ≤ (text x).length) : itoa r x = none := by
  unfold itoa
  by_cases neg : x < 0
  · rw [if_pos neg]
    rcases bad with rfl | short
    · rfl
    · rw [text_neg neg,List.length_cons,decimal_length] at short
      cases fits : int (-x) with
      | none => rfl
      | some t =>
          have value : t.toNat = x.natAbs := by
            unfold int at fits
            split at fits
            · cases fits
              omega
            · cases fits
          rw [Option.bind_eq_bind,Option.bind_some]
          dsimp only
          rw [value,if_pos neg]
          have outside : putBack r (1 + places x.natAbs + 1) 0 = none := by
            show (store r (1 + places x.natAbs) 0).map _ = none
            unfold store
            rw [if_neg (by omega)]
            rfl
          rw [outside]
          rfl
  · rw [if_neg neg]
    have short : r.length ≤ places x.natAbs := by
      rcases bad with rfl | short
      · exact absurd (by decide) neg
      · rw [text_pos neg,decimal_length] at short
        exact short
    have value : x.toNat = x.natAbs := by omega
    rw [Option.bind_eq_bind,Option.bind_some]
    dsimp only
    rw [value,if_neg neg]
    have outside : putBack r (0 + places x.natAbs + 1) 0 = none := by
      show (store r (0 + places x.natAbs) 0).map _ = none
      unfold store
      rw [if_neg (by omega)]
      rfl
    rw [outside]
    rfl

end Itoa

section Atoi

theorem int_some {n : Int} (low : -2147483648 ≤ n) (high : n < 2147483648) : int n = some n := if_pos ⟨low,high⟩

def signed (s : Bool) (n : Nat) : Int := if s then -n else n

theorem atoiLoop_digit {s : Bool} {n : Nat} (low : -2147483648 ≤ signed s n) (high : signed s n < 2147483648) (p : List UInt8) :
    atoiLoop s (digit n :: p) (signed s (n / 10)) = atoiLoop s p (signed s n) := by
  have value := digit_toNat n
  rw [atoiLoop,if_neg (digit_other n (by decide))]
  cases s with
  | true =>
      change -2147483648 ≤ -(n : Int) at low
      have tens : int (-((n / 10 : Nat) : Int) * 10) = some (-((n / 10 : Nat) : Int) * 10) := int_some (by omega) (by omega)
      have all : -((n / 10 : Nat) : Int) * 10 - (((digit n).toNat : Int) - 0x30) = -(n : Int) := by omega
      show (int (-((n / 10 : Nat) : Int) * 10) >>= _) = _
      rw [tens,Option.bind_eq_bind,Option.bind_some,if_pos rfl,all,int_some low (by omega)]
      rfl
  | false =>
      change (n : Int) < 2147483648 at high
      have tens : int (((n / 10 : Nat) : Int) * 10) = some (((n / 10 : Nat) : Int) * 10) := int_some (by omega) (by omega)
      have all : ((n / 10 : Nat) : Int) * 10 + (((digit n).toNat : Int) - 0x30) = n := by omega
      show (int (((n / 10 : Nat) : Int) * 10) >>= _) = _
      rw [tens,Option.bind_eq_bind,Option.bind_some,if_neg (by decide),all,int_some (by omega) high]
      rfl

theorem atoiLoop_decimal {s : Bool} {n : Nat} (low : -2147483648 ≤ signed s n) (high : signed s n < 2147483648) (p : List UInt8) :
    atoiLoop s (decimal n ++ p) 0 = atoiLoop s p (signed s n) := by
  induction n using decimal.induct generalizing p with
  | case1 n ih =>
      have step := atoiLoop_digit low high p
      by_cases done : n / 10 = 0
      · have nothing : signed s 0 = 0 := by cases s <;> rfl
        rw [done,nothing] at step
        rw [decimal_last done]
        exact step
      · have lower : -2147483648 ≤ signed s (n / 10) ∧ signed s (n / 10) < 2147483648 := by
          unfold signed at *
          split at low
          · rw [if_pos ‹_›]
            omega
          · rw [if_neg ‹_›] at high ⊢
            omega
        rw [decimal_more done,List.append_assoc,List.singleton_append,ih done lower.1 lower.2]
        exact step

theorem atoi_text {x : Int} (low : -2147483648 ≤ x) (high : x < 2147483648) (p : List UInt8) :
    atoi (text x ++ 0 :: p) = some x := by
  by_cases neg : x < 0
  · have value : signed true x.natAbs = x := by
      show -(x.natAbs : Int) = x
      omega
    rw [text_neg neg]
    show atoiLoop true (decimal x.natAbs ++ 0 :: p) 0 = some x
    rw [atoiLoop_decimal (by rw [value]; exact low) (by rw [value]; exact high),value]
    rfl
  · have value : signed false x.natAbs = x := by
      show (x.natAbs : Int) = x
      omega
    rw [text_pos neg]
    obtain ⟨k,rest,begins⟩ := decimal_head x.natAbs
    have plain : atoi (decimal x.natAbs ++ 0 :: p) = atoiLoop false (decimal x.natAbs ++ 0 :: p) 0 := by
      rw [begins,List.cons_append,atoi,if_neg (digit_other k (by decide)),if_neg (digit_other k (by decide))]
    rw [plain,atoiLoop_decimal (by rw [value]; exact low) (by rw [value]; exact high),value]
    rfl

end Atoi

-- itoa stores the text of an int and nothing else, unless there is no room for it or -x is
-- no int, and atoi reads the text of every int back.
theorem atoi_itoa (x : BitVec 32) (r : List UInt8) :
    (itoa r x.toInt = if x.toInt = -2147483648 ∨ r.length ≤ (text x.toInt).length then none
      else some (text x.toInt ++ 0 :: r.drop ((text x.toInt).length + 1))) ∧
      ∀ p,atoi (text x.toInt ++ 0 :: p) = some x.toInt := by
  have low : -2147483648 ≤ x.toInt := x.le_toInt
  have high : x.toInt < 2147483648 := x.toInt_lt
  refine ⟨?_,atoi_text low high⟩
  split
  · rename_i bad
    exact itoa_none bad
  · rename_i good
    rw [not_or] at good
    exact itoa_text (by omega) (Nat.lt_of_not_le good.2)

end ArchiveOs.Numbers
