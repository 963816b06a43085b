import ArchiveOs.Cycles
import Mathlib.Logic.Function.Basic

-- Counting semaphores for n processes: one that finds too few units waits with its
-- demand, and a post looks around for one waiter whose demand it covers.
namespace ArchiveOs

structure Sems (n k : Nat) where
  value : Fin k → UInt32
  asks : Fin n → Option (Fin k × UInt32)

namespace Sems
variable {n k : Nat} {v : Sems n k} {i j : Fin n} {s t : Fin k} {x y : UInt32}

def wait (v : Sems n k) (i : Fin n) (s : Fin k) (x : UInt32) : Sems n k :=
  if x ≤ v.value s then {v with value := Function.update v.value s (v.value s - x)}
  else {v with asks := Function.update v.asks i (some (s,x))}

def covers (v : Sems n k) (s : Fin k) (x : UInt32) (j : Fin n) : Bool :=
  match v.asks j with
  | some (t,y) => decide (t = s) && decide (y ≤ x)
  | none => false

theorem covers_iff : v.covers s x j = true ↔ ∃ y,v.asks j = some (s,y) ∧ y ≤ x := by
  unfold covers
  split
  · rename_i t y asks
    rw [Bool.and_eq_true,decide_eq_true_iff,decide_eq_true_iff,asks]
    constructor
    · rintro ⟨rfl,less⟩
      exact ⟨y,rfl,less⟩
    · rintro ⟨z,same,less⟩
      cases same
      exact ⟨rfl,less⟩
  · rename_i asks
    rw [asks]
    simp

def demand (v : Sems n k) (j : Fin n) : UInt32 :=
  match v.asks j with
  | some (_,y) => y
  | none => 0

variable [NeZero n]

def post (v : Sems n k) (i : Fin n) (s : Fin k) (x : UInt32) : Sems n k :=
  match Cycle.around (v.covers s x) i with
  | some j => ⟨Function.update v.value s (v.value s + (x - v.demand j)),Function.update v.asks j none⟩
  | none => {v with value := Function.update v.value s (v.value s + x)}

-- A post pays one waiter or the semaphore.
inductive Paid (v : Sems n k) (i : Fin n) (s : Fin k) (x : UInt32) : Sems n k → Prop where
  | waiter (j : Fin n) (y : UInt32) : j ≠ i → v.asks j = some (s,y) → y ≤ x →
      Paid v i s x ⟨Function.update v.value s (v.value s + (x - y)),Function.update v.asks j none⟩
  | kept : (∀ j y,j ≠ i → v.asks j = some (s,y) → ¬ y ≤ x) →
      Paid v i s x {v with value := Function.update v.value s (v.value s + x)}

theorem post_paid (v : Sems n k) (i : Fin n) (s : Fin k) (x : UInt32) : Paid v i s x (v.post i s x) := by
  unfold post
  split
  · rename_i j found
    obtain ⟨other,covered⟩ := Cycle.around_some found
    obtain ⟨y,asks,less⟩ := covers_iff.mp covered
    have demand : v.demand j = y := by
      unfold demand
      rw [asks]
    rw [demand]
    exact .waiter j y other asks less
  · rename_i found
    refine .kept fun j y other asks less => ?_
    have none := Cycle.around_none found j other
    rw [covers_iff.mpr ⟨y,asks,less⟩] at none
    cases none

omit [NeZero n] in
theorem wait_value (other : t ≠ s) : (v.wait i s x).value t = v.value t := by
  unfold wait
  split
  · exact Function.update_of_ne other ..
  · rfl

omit [NeZero n] in
theorem wait_asks (other : j ≠ i) : (v.wait i s x).asks j = v.asks j := by
  unfold wait
  split
  · rfl
  · exact Function.update_of_ne other ..

theorem post_value (other : t ≠ s) : (v.post i s x).value t = v.value t := by
  generalize after : v.post i s x = w
  have paid := v.post_paid i s x
  rw [after] at paid
  cases paid <;> exact Function.update_of_ne other ..

theorem post_asks : (v.post i s x).asks j = v.asks j ∨
    (v.post i s x).asks j = none ∧ ∃ y,v.asks j = some (s,y) := by
  generalize after : v.post i s x = w
  have paid := v.post_paid i s x
  rw [after] at paid
  cases paid with
  | kept => exact .inl rfl
  | waiter l y _ asks _ =>
      by_cases here : j = l
      · subst here
        exact .inr ⟨Function.update_self ..,y,asks⟩
      · exact .inl (Function.update_of_ne here ..)

end Sems
end ArchiveOs
