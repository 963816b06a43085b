import Mathlib.Data.Fintype.Card
import Mathlib.Data.Fintype.Basic

-- Scheduling by values that grow: at each tick those who wait become one older, and
-- the one with the highest value goes on, with its age taken away.
namespace ArchiveOs.Aging

structure State (n : Nat) where
  current : Fin n
  age : Fin n → Int

variable {n : Nat}

def State.value (base : Fin n → Int) (s : State n) (i : Fin n) : Int := base i + s.age i

inductive Step (base : Fin n → Int) (takes : Fin n → Prop) (s s' : State n) : Prop where
  | stays : (∀ j,takes j → j ≠ s.current → s.value base j + 1 ≤ s.value base s.current) →
      s'.current = s.current → s'.age s.current = s.age s.current →
      (∀ j,takes j → j ≠ s.current → s'.age j = s.age j + 1) → Step base takes s s'
  | moves : takes s'.current → s'.current ≠ s.current →
      (∀ j,takes j → j ≠ s.current → s.value base j ≤ s.value base s'.current) →
      s'.age s'.current = 0 → s'.age s.current = s.age s.current →
      (∀ j,takes j → j ≠ s.current → j ≠ s'.current → s'.age j = s.age j + 1) → Step base takes s s'

section Runs
variable {base : Fin n → Int} {takes : Fin n → Prop} {s s' : State n} {i : Fin n} {top v : Int}

-- Process i has got to the value v and waits, while one of no more than `top` runs.
structure Waits (base : Fin n → Int) (takes : Fin n → Prop) (top : Int) (i : Fin n) (v : Int) (s : State n) : Prop where
  takes : takes i
  waits : i ≠ s.current
  value : s.value base i = v
  runs : s.value base s.current ≤ top

theorem Waits.step (w : Waits base takes top i v s) (bases : ∀ j,takes j → base j ≤ top) (step : Step base takes s s') :
    s'.current = i ∨ Waits base takes top i (v + 1) s' := by
  have value := w.value
  have runs := w.runs
  unfold State.value at value runs
  cases step with
  | stays _ current frozen older =>
      refine .inr ⟨w.takes,?_,?_,?_⟩
      · rw [current]
        exact w.waits
      · unfold State.value
        rw [older i w.takes w.waits]
        omega
      · unfold State.value
        rw [current,frozen]
        exact runs
  | moves taker _ _ reset _ older =>
      by_cases here : i = s'.current
      · exact .inl here.symm
      · refine .inr ⟨w.takes,here,?_,?_⟩
        · unfold State.value
          rw [older i w.takes w.waits here]
          omega
        · unfold State.value
          rw [reset]
          have bound := bases _ taker
          omega

-- Those who may still come before process i.
open Classical in
noncomputable def rivals (base : Fin n → Int) (takes : Fin n → Prop) (i : Fin n) (s : State n) : Finset (Fin n) :=
  Finset.univ.filter fun j => takes j ∧ j ≠ i ∧ j ≠ s.current ∧ s.value base i ≤ s.value base j

theorem mem_rivals {j : Fin n} : j ∈ rivals base takes i s ↔
    takes j ∧ j ≠ i ∧ j ≠ s.current ∧ s.value base i ≤ s.value base j := by
  classical
  exact Finset.mem_filter.trans (and_iff_right (Finset.mem_univ j))

-- Above `top`, each tick goes to process i or to one of its rivals, which is no rival
-- any more; and nobody becomes one.
theorem Waits.rivals_less (w : Waits base takes top i v s) (above : top < v) (step : Step base takes s s') :
    s'.current = i ∨ (rivals base takes i s').card < (rivals base takes i s).card := by
  have value := w.value
  have runs := w.runs
  unfold State.value at value runs
  cases step with
  | stays high _ _ _ =>
      have beaten := high i w.takes w.waits
      unfold State.value at beaten
      omega
  | moves taker other high reset frozen older =>
      by_cases here : i = s'.current
      · exact .inl here.symm
      · right
        have gone : s'.current ∈ rivals base takes i s :=
          mem_rivals.mpr ⟨taker,fun same => here same.symm,other,high i w.takes w.waits⟩
        refine Finset.card_lt_card (Finset.ssubset_iff_of_subset ?_ |>.mpr ⟨_,gone,fun still => ?_⟩)
        · intro j rival
          obtain ⟨takes_j,other_i,other_new,above⟩ := mem_rivals.mp rival
          unfold State.value at above
          rw [older i w.takes w.waits here] at above
          by_cases old : j = s.current
          · rw [old,frozen] at above
            omega
          · rw [older j takes_j old other_new] at above
            refine mem_rivals.mpr ⟨takes_j,other_i,old,?_⟩
            unfold State.value
            omega
        · exact (mem_rivals.mp still).2.2.1 rfl

variable {run : Nat → State n}

theorem Waits.served (bases : ∀ j,takes j → base j ≤ top) (steps : ∀ t,Step base takes (run t) (run (t + 1))) (k : Nat)
    {t : Nat} (w : Waits base takes top i v (run t)) (above : top < v) (few : (rivals base takes i (run t)).card ≤ k) :
    ∃ l,l ≤ t + k + 1 ∧ (run l).current = i := by
  induction k generalizing t v with
  | zero =>
      rcases w.rivals_less above (steps t) with here | less
      · exact ⟨t + 1,by omega,here⟩
      · omega
  | succ k ih =>
      rcases w.rivals_less above (steps t) with here | less
      · exact ⟨t + 1,by omega,here⟩
      · rcases w.step bases (steps t) with here | w'
        · exact ⟨t + 1,by omega,here⟩
        · obtain ⟨l,bound,here⟩ := ih w' (by omega) (by omega)
          exact ⟨l,by omega,here⟩

theorem Waits.grows (bases : ∀ j,takes j → base j ≤ top) (steps : ∀ t,Step base takes (run t) (run (t + 1)))
    (w : Waits base takes top i v (run 0)) (t : Nat) :
    (∃ l,l ≤ t ∧ (run l).current = i) ∨ Waits base takes top i (v + t) (run t) := by
  induction t with
  | zero => exact .inr (by simpa using w)
  | succ t ih =>
      rcases ih with ⟨l,bound,here⟩ | w'
      · exact .inl ⟨l,by omega,here⟩
      · rcases w'.step bases (steps t) with here | w''
        · exact .inl ⟨t + 1,by omega,here⟩
        · refine .inr ?_
          have sum : v + ((t + 1 : Nat) : Int) = v + t + 1 := by push_cast; omega
          rw [sum]
          exact w''

theorem Waits.within (bases : ∀ j,takes j → base j ≤ top) (steps : ∀ t,Step base takes (run t) (run (t + 1)))
    (w : Waits base takes top i v (run 0)) : ∃ l,l ≤ (top - v + 1).toNat + n ∧ (run l).current = i := by
  rcases w.grows bases steps (top - v + 1).toNat with ⟨l,bound,here⟩ | w'
  · exact ⟨l,by omega,here⟩
  · have room : (rivals base takes i (run (top - v + 1).toNat)).card < n := by
      have less := Finset.card_lt_univ_of_notMem (fun mine => (mem_rivals.mp mine).2.1 rfl :
        i ∉ rivals base takes i (run (top - v + 1).toNat))
      rwa [Fintype.card_fin] at less
    obtain ⟨l,bound,here⟩ := w'.served bases steps (n - 1) (by omega) (by omega)
    exact ⟨l,by omega,here⟩

end Runs
end ArchiveOs.Aging
