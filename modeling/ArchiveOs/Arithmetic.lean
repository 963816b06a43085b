import Mathlib

-- The functions that P4.c and P5.c compute on 32-bit words.
namespace ArchiveOs.Arithmetic

-- `turns` calls are left.
def gcd : (turns : Nat) → (x y : UInt32) → Option UInt32
  | 0,_,_ => none
  | turns + 1,x,y => if x = y then some x else if x > y then gcd turns (x - y) y else gcd turns x (y - x)

section Gcd
variable {x y r : UInt32}

theorem sub_toNat (less : y ≤ x) : (x - y).toNat = x.toNat - y.toNat := UInt32.toNat_sub_of_le _ _ less

theorem gcd_some {turns : Nat} (ends : gcd turns x y = some r) : (x = y ∨ 0 < x.toNat ∧ 0 < y.toNat) ∧
    r.toNat = Nat.gcd x.toNat y.toNat := by
  induction turns generalizing x y with
  | zero => cases ends
  | succ turns ih =>
      rw [gcd] at ends
      by_cases same : x = y
      · rw [if_pos same] at ends
        cases ends
        subst same
        exact ⟨.inl rfl,(Nat.gcd_self _).symm⟩
      rw [if_neg same] at ends
      by_cases greater : x > y
      · rw [if_pos greater] at ends
        have less := UInt32.lt_iff_toNat_lt.mp greater
        obtain ⟨both,value⟩ := ih ends
        rw [sub_toNat (UInt32.le_of_lt greater),Nat.gcd_sub_self_left (Nat.le_of_lt less)] at value
        refine ⟨.inr ⟨by omega,?_⟩,value⟩
        rcases both with equal | ⟨_,pos⟩
        · have half := congrArg UInt32.toNat equal
          rw [sub_toNat (UInt32.le_of_lt greater)] at half
          omega
        · exact pos
      · rw [if_neg greater] at ends
        have le : x.toNat ≤ y.toNat := Nat.le_of_not_lt fun wrong => greater (UInt32.lt_iff_toNat_lt.mpr wrong)
        have apart : x.toNat ≠ y.toNat := fun equal => same (UInt32.toNat_inj.mp equal)
        obtain ⟨both,value⟩ := ih ends
        rw [sub_toNat (UInt32.le_iff_toNat_le.mpr le),Nat.gcd_sub_self_right le] at value
        refine ⟨.inr ⟨?_,by omega⟩,value⟩
        rcases both with equal | ⟨pos,_⟩
        · have half := congrArg UInt32.toNat equal
          rw [sub_toNat (UInt32.le_iff_toNat_le.mpr le)] at half
          omega
        · exact pos

theorem gcd_more {turns turns' : Nat} (le : turns ≤ turns') (ends : gcd turns x y = some r) : gcd turns' x y = some r := by
  induction turns generalizing turns' x y with
  | zero => cases ends
  | succ turns ih =>
      obtain ⟨turns',rfl⟩ := Nat.exists_eq_succ_of_ne_zero (show turns' ≠ 0 by omega)
      rw [gcd] at ends ⊢
      by_cases same : x = y
      · rw [if_pos same] at ends ⊢
        exact ends
      rw [if_neg same] at ends ⊢
      by_cases greater : x > y
      · rw [if_pos greater] at ends ⊢
        exact ih (by omega) ends
      · rw [if_neg greater] at ends ⊢
        exact ih (by omega) ends

theorem gcd_ends {n : Nat} (sum : x.toNat + y.toNat = n) (left : 0 < x.toNat) (right : 0 < y.toNat) :
    ∃ r,gcd n x y = some r := by
  induction n using Nat.strong_induction_on generalizing x y with
  | _ n ih =>
      obtain ⟨turns,rfl⟩ := Nat.exists_eq_succ_of_ne_zero (show n ≠ 0 by omega)
      rw [gcd]
      by_cases same : x = y
      · exact ⟨x,if_pos same⟩
      rw [if_neg same]
      by_cases greater : x > y
      · have less := UInt32.lt_iff_toNat_lt.mp greater
        have value := sub_toNat (UInt32.le_of_lt greater)
        obtain ⟨r,ends⟩ := @ih ((x - y).toNat + y.toNat) (by omega) (x - y) y rfl (by omega) right
        exact ⟨r,(if_pos greater).trans (gcd_more (by omega) ends)⟩
      · have le : x.toNat ≤ y.toNat := Nat.le_of_not_lt fun wrong => greater (UInt32.lt_iff_toNat_lt.mpr wrong)
        have apart : x.toNat ≠ y.toNat := fun equal => same (UInt32.toNat_inj.mp equal)
        have value := sub_toNat (UInt32.le_iff_toNat_le.mpr le)
        obtain ⟨r,ends⟩ := @ih (x.toNat + (y - x).toNat) (by omega) x (y - x) rfl left (by omega)
        exact ⟨r,(if_neg greater).trans (gcd_more (by omega) ends)⟩

-- gcd returns if and only if the words are equal or both positive, and it returns the
-- greatest common divisor.
theorem gcd_iff (x y r : UInt32) : (∃ turns,gcd turns x y = some r) ↔
    (x = y ∨ 0 < x.toNat ∧ 0 < y.toNat) ∧ r.toNat = Nat.gcd x.toNat y.toNat := by
  constructor
  · rintro ⟨turns,ends⟩
    exact gcd_some ends
  · rintro ⟨both,value⟩
    have some : ∃ turns r,gcd turns x y = some r := by
      rcases both with rfl | ⟨left,right⟩
      · exact ⟨1,x,if_pos rfl⟩
      · exact ⟨_,gcd_ends rfl left right⟩
    obtain ⟨turns,r',ends⟩ := some
    have same : r' = r := UInt32.toNat_inj.mp ((gcd_some ends).2.trans value.symm)
    exact ⟨turns,same ▸ ends⟩

end Gcd

-- is_prime, which the philosophers eat with. The squares are taken modulo 2^32.
-- `turns` of the loop are left: d = x is the last that it can come to.
def isPrimeLoop (x : UInt32) : (turns : Nat) → (d : UInt32) → Option Int
  | 0,_ => none
  | turns + 1,d =>
    if d * d ≤ x then
      if x % d = 0 then some 0 else isPrimeLoop x turns (d + 2)
    else some 1

def isPrime (x : UInt32) : Option Int :=
  if x &&& 1 = 0 ∨ x < 2 then some (if x = 2 then 1 else 0) else isPrimeLoop x x.toNat 3

-- The square of d, as the loop sees it, is behind x.
def Behind (n d : Nat) : Prop := n < d * d % 2 ^ 32

section Loop
variable {x : UInt32} {d : Nat}

theorem square_le (small : d < 2 ^ 32) : UInt32.ofNat d * UInt32.ofNat d ≤ x ↔ ¬ Behind x.toNat d := by
  unfold Behind
  rw [UInt32.le_iff_toNat_le,UInt32.toNat_mul,UInt32.toNat_ofNat',Nat.mod_eq_of_lt small,Nat.not_lt]

theorem divides (small : d < 2 ^ 32) : x % UInt32.ofNat d = 0 ↔ d ∣ x.toNat := by
  rw [← UInt32.toNat_inj,UInt32.toNat_mod,UInt32.toNat_ofNat',Nat.mod_eq_of_lt small,Nat.dvd_iff_mod_eq_zero]
  rfl

-- k turns in front of d = x: the loop ends with 1 when it comes to a square behind x
-- before it comes to a divisor.
theorem loop_iff {turns k : Nat} (reach : d + 2 * k = x.toNat) (enough : k < turns) :
    (isPrimeLoop x turns (UInt32.ofNat d) = some 1 ∨ isPrimeLoop x turns (UInt32.ofNat d) = some 0) ∧
      (isPrimeLoop x turns (UInt32.ofNat d) = some 1 ↔
        ∃ j,j ≤ k ∧ Behind x.toNat (d + 2 * j) ∧ ∀ i,i < j → ¬ (d + 2 * i) ∣ x.toNat) := by
  induction k generalizing d turns with
  | zero =>
      obtain ⟨turns,rfl⟩ := Nat.exists_eq_succ_of_ne_zero (Nat.ne_of_gt enough)
      have small : d < 2 ^ 32 := by
        have word := x.toNat_lt
        omega
      have own : d ∣ x.toNat := by
        rw [← reach]
        exact Nat.dvd_refl d
      by_cases behind : Behind x.toNat d
      · have result : isPrimeLoop x (turns + 1) (UInt32.ofNat d) = some 1 := if_neg fun wrong => (square_le small).mp wrong behind
        rw [result]
        exact ⟨.inl rfl,fun _ => ⟨0,le_refl 0,behind,fun i wrong => absurd wrong (Nat.not_lt_zero i)⟩,fun _ => rfl⟩
      · have result : isPrimeLoop x (turns + 1) (UInt32.ofNat d) = some 0 :=
          (if_pos ((square_le small).mpr behind)).trans (if_pos ((divides small).mpr own))
        rw [result]
        refine ⟨.inr rfl,fun wrong => absurd wrong (by decide),fun ⟨j,few,there,_⟩ => ?_⟩
        rw [Nat.le_zero.mp few] at there
        exact absurd there behind
  | succ k ih =>
      obtain ⟨turns,rfl⟩ := Nat.exists_eq_succ_of_ne_zero (Nat.ne_of_gt (Nat.lt_of_le_of_lt (Nat.zero_le _) enough))
      have small : d < 2 ^ 32 := by
        have word := x.toNat_lt
        omega
      by_cases behind : Behind x.toNat d
      · have result : isPrimeLoop x (turns + 1) (UInt32.ofNat d) = some 1 := if_neg fun wrong => (square_le small).mp wrong behind
        rw [result]
        exact ⟨.inl rfl,fun _ => ⟨0,Nat.zero_le _,behind,fun i wrong => absurd wrong (Nat.not_lt_zero i)⟩,fun _ => rfl⟩
      have inner : isPrimeLoop x (turns + 1) (UInt32.ofNat d) =
          if x % UInt32.ofNat d = 0 then some 0 else isPrimeLoop x turns (UInt32.ofNat d + 2) :=
        if_pos ((square_le small).mpr behind)
      by_cases divisor : d ∣ x.toNat
      · rw [inner,if_pos ((divides small).mpr divisor)]
        refine ⟨.inr rfl,fun wrong => absurd wrong (by decide),fun ⟨j,_,there,free⟩ => ?_⟩
        cases j with
        | zero => exact absurd there behind
        | succ j => exact absurd divisor (free 0 (Nat.succ_pos j))
      · have next : UInt32.ofNat d + 2 = UInt32.ofNat (d + 2) := (UInt32.ofNat_add d 2).symm
        rw [inner,if_neg fun wrong => divisor ((divides small).mp wrong),next]
        obtain ⟨ends,iff⟩ := @ih (d + 2) turns (by omega) (by omega)
        refine ⟨ends,iff.trans ⟨fun ⟨j,few,there,free⟩ => ?_,fun ⟨j,few,there,free⟩ => ?_⟩⟩
        · refine ⟨j + 1,Nat.succ_le_succ few,?_,fun i less => ?_⟩
          · rw [show d + 2 * (j + 1) = d + 2 + 2 * j by omega]
            exact there
          · cases i with
            | zero => exact divisor
            | succ i =>
                rw [show d + 2 * (i + 1) = d + 2 + 2 * i by omega]
                exact free i (by omega)
        · cases j with
          | zero => exact absurd there behind
          | succ j =>
              refine ⟨j,Nat.le_of_succ_le_succ few,?_,fun i less => ?_⟩
              · rw [show d + 2 + 2 * j = d + 2 * (j + 1) by omega]
                exact there
              · rw [show d + 2 + 2 * i = d + 2 * (i + 1) by omega]
                exact free (i + 1) (Nat.succ_lt_succ less)

end Loop

theorem odd_prime {n j : Nat} (odd : n % 2 = 1) (more : 1 < n) (behind : Behind n (3 + 2 * j))
    (free : ∀ i,i < j → ¬ (3 + 2 * i) ∣ n) : n.Prime := by
  by_contra composite
  have least : n.minFac * n.minFac ≤ n := by
    have square := Nat.minFac_sq_le_self (by omega) composite
    rwa [Nat.pow_two] at square
  have prime := Nat.minFac_prime (show n ≠ 1 by omega)
  have divisor := Nat.minFac_dvd n
  have odd' : n.minFac % 2 = 1 := by
    rcases Nat.mod_two_eq_zero_or_one n.minFac with even | odd'
    · have two : 2 ∣ n := Nat.dvd_trans (Nat.dvd_of_mod_eq_zero even) divisor
      omega
    · exact odd'
  have three : 3 ≤ n.minFac := by
    have two := prime.two_le
    omega
  have below : n < (3 + 2 * j) * (3 + 2 * j) := Nat.lt_of_lt_of_le behind (Nat.mod_le _ _)
  have front : n.minFac < 3 + 2 * j := Nat.mul_self_lt_mul_self_iff.mp (Nat.lt_of_le_of_lt least below)
  have place : 3 + 2 * ((n.minFac - 3) / 2) = n.minFac := by omega
  exact free ((n.minFac - 3) / 2) (by omega) (by rw [place]; exact divisor)

theorem isPrime_odd {x : UInt32} (odd : x.toNat % 2 = 1) (more : 1 < x.toNat) :
    (isPrime x = some 1 ∨ isPrime x = some 0) ∧
      (isPrime x = some 1 ↔ x.toNat.Prime ∧ ∃ d,d % 2 = 1 ∧ 3 ≤ d ∧ d ≤ x.toNat ∧ Behind x.toNat d) := by
  have bit : ¬ (x &&& 1 = 0 ∨ x < 2) := by
    rintro (even | small)
    · have zero := congrArg UInt32.toNat even
      rw [UInt32.toNat_and] at zero
      change x.toNat &&& 1 = 0 at zero
      rw [Nat.and_one_is_mod] at zero
      omega
    · have few : x.toNat < 2 := UInt32.lt_iff_toNat_lt.mp small
      omega
  have loop : isPrime x = isPrimeLoop x x.toNat (UInt32.ofNat 3) := if_neg bit
  obtain ⟨ends,iff⟩ := @loop_iff x 3 x.toNat ((x.toNat - 3) / 2) (by omega) (by omega)
  rw [loop]
  refine ⟨ends,iff.trans ⟨fun ⟨j,few,behind,free⟩ => ?_,fun ⟨prime,d,odd',three,le,behind⟩ => ?_⟩⟩
  · exact ⟨odd_prime odd more behind free,3 + 2 * j,by omega,by omega,by omega,behind⟩
  · have place : 3 + 2 * ((d - 3) / 2) = d := by omega
    refine ⟨(d - 3) / 2,by omega,by rw [place]; exact behind,fun i less divisor => ?_⟩
    rcases (Nat.dvd_prime prime).mp divisor with one | own
    · omega
    · omega

theorem isPrime_even {x : UInt32} (even : x.toNat % 2 = 0 ∨ x.toNat < 2) : isPrime x = some (if x = 2 then 1 else 0) := by
  refine if_pos ?_
  rcases even with even | small
  · left
    apply UInt32.toNat_inj.mp
    rw [UInt32.toNat_and]
    show x.toNat &&& 1 = 0
    rw [Nat.and_one_is_mod]
    exact even
  · exact .inr (UInt32.lt_iff_toNat_lt.mpr small)

theorem even_prime {x : UInt32} (even : x.toNat % 2 = 0 ∨ x.toNat < 2) : x.toNat.Prime ↔ x = 2 := by
  constructor
  · intro prime
    have two := prime.two_le
    have divisor : 2 ∣ x.toNat := Nat.dvd_of_mod_eq_zero (by omega)
    apply UInt32.toNat_inj.mp
    exact ((Nat.prime_dvd_prime_iff_eq Nat.prime_two prime).mp divisor).symm
  · rintro rfl
    exact Nat.prime_two

theorem behind_small {n : Nat} (odd : n % 2 = 1) (more : 1 < n) (small : n < 65535 * 65535) :
    ∃ d,d % 2 = 1 ∧ 3 ≤ d ∧ d ≤ n ∧ Behind n d := by
  by_cases few : n ≤ 65535
  · refine ⟨n,odd,by omega,le_refl n,?_⟩
    have square : n * n ≤ 65535 * 65535 := Nat.mul_le_mul few few
    have grows : n * 2 ≤ n * n := Nat.mul_le_mul_left n more
    unfold Behind
    rw [Nat.mod_eq_of_lt (by omega)]
    omega
  · refine ⟨65535,by decide,by decide,by omega,?_⟩
    unfold Behind
    rw [Nat.mod_eq_of_lt (by decide)]
    exact small

-- is_prime returns for every word. It says 1 of primes only, of those that have the square of
-- an odd number up to them behind them; below 65535^2 these are all.
theorem isPrime_iff (x : UInt32) : (isPrime x = some 1 ∨ isPrime x = some 0) ∧
    (isPrime x = some 1 ↔ x.toNat.Prime ∧ (x = 2 ∨ ∃ d,d % 2 = 1 ∧ 3 ≤ d ∧ d ≤ x.toNat ∧ Behind x.toNat d)) ∧
    (x.toNat < 65535 * 65535 → (isPrime x = some 1 ↔ x.toNat.Prime)) := by
  by_cases even : x.toNat % 2 = 0 ∨ x.toNat < 2
  · have result := isPrime_even even
    have prime := even_prime even
    by_cases two : x = 2
    · rw [if_pos two] at result
      exact ⟨.inl result,⟨fun _ => ⟨prime.mpr two,.inl two⟩,fun _ => result⟩,fun _ => ⟨fun _ => prime.mpr two,fun _ => result⟩⟩
    · rw [if_neg two] at result
      have no : isPrime x ≠ some 1 := by
        rw [result]
        decide
      exact ⟨.inr result,⟨fun yes => absurd yes no,fun both => absurd (prime.mp both.1) two⟩,
        fun _ => ⟨fun yes => absurd yes no,fun yes => absurd (prime.mp yes) two⟩⟩
  · rw [not_or] at even
    have odd : x.toNat % 2 = 1 := by omega
    have more : 1 < x.toNat := by omega
    have other : x ≠ 2 := by
      rintro rfl
      exact absurd odd (by decide)
    obtain ⟨ends,iff⟩ := isPrime_odd odd more
    refine ⟨ends,?_,fun small => iff.trans (and_iff_left (behind_small odd more small))⟩
    rw [iff,or_iff_right other]

end ArchiveOs.Arithmetic
