import Mathlib.Data.Fin.Basic
import Mathlib.Algebra.Group.Fin.Basic
import Mathlib.Algebra.GroupWithZero.Nat

-- Going around the places of a table, one by one.
namespace ArchiveOs.Cycle
variable {n : Nat} [NeZero n]

theorem step_val (p : Fin n) : (p + 1).val = (p.val + 1) % n := by
  rw [Fin.val_add,Fin.val_one']
  exact Nat.add_mod_mod ..

theorem step_cases (p : Fin n) : p.val + 1 = n ∧ (p + 1).val = 0 ∨ p.val + 1 < n ∧ (p + 1).val = p.val + 1 := by
  have bound := p.isLt
  by_cases last : p.val + 1 = n
  · refine .inl ⟨last,?_⟩
    rw [step_val,last,Nat.mod_self]
  · refine .inr ⟨by omega,?_⟩
    rw [step_val,Nat.mod_eq_of_lt (by omega)]

-- The first place from i on that passes the test, before `current` is met.
def scan (pass : Fin n → Bool) (current : Fin n) : (turns : Nat) → (i : Fin n) → Option (Fin n)
  | 0,_ => none
  | turns + 1,i =>
    if i = current then none
    else if pass i then some i
    else scan pass current turns (i + 1)

-- One round, which starts behind `current`.
def around (pass : Fin n → Bool) (current : Fin n) : Option (Fin n) := scan pass current n (current + 1)

theorem scan_some {pass : Fin n → Bool} {current j : Fin n} {turns : Nat} {i : Fin n}
    (found : scan pass current turns i = some j) : j ≠ current ∧ pass j = true := by
  induction turns generalizing i with
  | zero => cases found
  | succ turns ih =>
      unfold scan at found
      split at found
      · cases found
      · rename_i other
        split at found
        · rename_i passes
          cases Option.some.inj found
          exact ⟨other,passes⟩
        · exact ih found

theorem around_some {pass : Fin n → Bool} {current j : Fin n} (found : around pass current = some j) :
    j ≠ current ∧ pass j = true := scan_some found

theorem scan_none {pass : Fin n → Bool} {current : Fin n} {turns : Nat} {i : Fin n} (behind : 0 < (i - current).val)
    (enough : n ≤ turns + (i - current).val) (none : scan pass current turns i = none) (j : Fin n)
    (later : (i - current).val ≤ (j - current).val) : pass j = false := by
  induction turns generalizing i with
  | zero =>
      have bound := (i - current).isLt
      omega
  | succ turns ih =>
      have other : i ≠ current := by
        rintro rfl
        rw [sub_self] at behind
        exact absurd behind (Nat.lt_irrefl 0)
      unfold scan at none
      rw [if_neg other] at none
      split at none
      · cases none
      · rename_i fails
        by_cases same : (j - current).val = (i - current).val
        · have equal : j = i := sub_left_injective (Fin.ext same)
          rw [equal]
          exact Bool.eq_false_iff.mpr fails
        · have next : i + 1 - current = i - current + 1 := add_sub_right_comm i 1 current
          have bound := (j - current).isLt
          rcases step_cases (i - current) with ⟨last,_⟩ | ⟨_,step⟩
          · omega
          · rw [← next] at step
            exact ih (by omega) (by omega) none (by omega)

theorem gap_step (i current : Fin n) :
    (i - current).val + 1 = n ∧ i + 1 = current ∨ (i + 1 - current).val = (i - current).val + 1 := by
  have next : i + 1 - current = i - current + 1 := add_sub_right_comm i 1 current
  rcases step_cases (i - current) with ⟨last,around⟩ | ⟨_,step⟩
  · rw [← next] at around
    exact .inl ⟨last,sub_eq_zero.mp (Fin.ext around)⟩
  · rw [← next] at step
    exact .inr step

theorem gap_inj {i j current : Fin n} (same : (i - current).val = (j - current).val) : i = j :=
  sub_left_injective (Fin.ext same)

theorem gap_pos {i current : Fin n} (other : i ≠ current) : 0 < (i - current).val :=
  Nat.pos_of_ne_zero fun zero => other (sub_eq_zero.mp (Fin.ext zero))

theorem scan_first {pass : Fin n → Bool} {current j : Fin n} {turns : Nat} {i : Fin n}
    (found : scan pass current turns i = some j) (l : Fin n) (from_i : (i - current).val ≤ (l - current).val)
    (before : (l - current).val < (j - current).val) : pass l = false := by
  induction turns generalizing i with
  | zero => cases found
  | succ turns ih =>
      unfold scan at found
      split at found
      · cases found
      · split at found
        · cases Option.some.inj found
          omega
        · rename_i fails
          by_cases here : (l - current).val = (i - current).val
          · rw [gap_inj here]
            exact Bool.eq_false_iff.mpr fails
          · rcases gap_step i current with ⟨_,stop⟩ | step
            · cases turns with
              | zero => cases found
              | succ turns =>
                  unfold scan at found
                  rw [if_pos stop] at found
                  cases found
            · exact ih found (by omega)

theorem one_val (current l : Fin n) (other : l ≠ current) : (1 : Fin n).val = 1 := by
  have gap := gap_pos other
  have size := (l - current).isLt
  rw [Fin.val_one']
  exact Nat.mod_eq_of_lt (by omega)

theorem around_first {pass : Fin n → Bool} {current j : Fin n} (found : around pass current = some j) (l : Fin n)
    (other : l ≠ current) (before : (l - current).val < (j - current).val) : pass l = false := by
  refine scan_first found l ?_ before
  rw [add_sub_cancel_left,one_val current l other]
  exact gap_pos other

theorem around_none {pass : Fin n → Bool} {current : Fin n} (none : around pass current = none) (j : Fin n)
    (other : j ≠ current) : pass j = false := by
  have start : current + 1 - current = 1 := add_sub_cancel_left current 1
  have one := one_val current j other
  refine scan_none ?_ ?_ none j ?_ <;> rw [start,one]
  · exact Nat.one_pos
  · exact Nat.le_add_right n 1
  · exact gap_pos other

theorem around_iff {pass : Fin n → Bool} {current j : Fin n} : around pass current = some j ↔
    j ≠ current ∧ pass j = true ∧ ∀ l,l ≠ current → (l - current).val < (j - current).val → pass l = false := by
  constructor
  · intro found
    obtain ⟨other,passes⟩ := around_some found
    exact ⟨other,passes,around_first found⟩
  · rintro ⟨other,passes,first⟩
    cases found : around pass current with
    | none =>
        have fails := around_none found j other
        rw [passes] at fails
        cases fails
    | some l =>
        obtain ⟨other',passes'⟩ := around_some found
        rcases Nat.lt_trichotomy (l - current).val (j - current).val with less | same | more
        · have fails := first l other' less
          rw [passes'] at fails
          cases fails
        · rw [gap_inj same]
        · have fails := around_first found j other more
          rw [passes] at fails
          cases fails

-- j is the next member behind i, going around.
structure Follows (member : Fin n → Prop) (i j : Fin n) : Prop where
  joined : member j
  other : j ≠ i
  next : ∀ l,member l → l ≠ i → (j - i).val ≤ (l - i).val

theorem Follows.unique {member : Fin n → Prop} {i j l : Fin n} (one : Follows member i j) (two : Follows member i l) :
    j = l :=
  gap_inj (Nat.le_antisymm (one.next l two.joined two.other) (two.next j one.joined one.other))

theorem around_follows {pass : Fin n → Bool} {member : Fin n → Prop} {i j : Fin n} (found : around pass i = some j)
    (same : ∀ l,l ≠ i → (pass l = true ↔ member l)) : Follows member i j := by
  obtain ⟨other,passes,first⟩ := around_iff.mp found
  refine ⟨(same j other).mp passes,other,fun l here away => Nat.le_of_not_lt fun before => ?_⟩
  have fails := first l away before
  rw [(same l away).mpr here] at fails
  cases fails

end ArchiveOs.Cycle
