import Mathlib.Algebra.BigOperators.Group.Finset.Basic
import Mathlib.Algebra.Order.BigOperators.Group.Finset
import Mathlib.Data.Fintype.Basic
import Mathlib.Tactic.Common

-- Owners with slots, each of which may name something. How often a thing is named, by one
-- owner and by all that count, and how the numbers change.
namespace ArchiveOs.References
section Counts
variable {ι σ β : Type} [Fintype σ] [DecidableEq β]

def uses (f : σ → β) (b : β) : Nat := (Finset.univ.filter fun s => f s = b).card

theorem uses_pos {f : σ → β} {b : β} : 0 < uses f b ↔ ∃ s,f s = b := by
  unfold uses
  rw [Finset.card_pos]
  constructor
  · rintro ⟨s,member⟩
    exact ⟨s,(Finset.mem_filter.mp member).2⟩
  · rintro ⟨s,here⟩
    exact ⟨s,Finset.mem_filter.mpr ⟨Finset.mem_univ _,here⟩⟩

theorem uses_change [DecidableEq σ] {f g : σ → β} {s : σ} (other : ∀ t,t ≠ s → g t = f t) (b : β) :
    uses g b + (if f s = b then 1 else 0) = uses f b + (if g s = b then 1 else 0) := by
  have split : ∀ h : σ → β,uses h b = ((Finset.univ.erase s).filter fun t => h t = b).card + (if h s = b then 1 else 0) := by
    intro h
    unfold uses
    rw [← Finset.insert_erase (Finset.mem_univ s),Finset.filter_insert,Finset.erase_insert_eq_erase,Finset.erase_idem]
    by_cases here : h s = b
    · rw [if_pos here,if_pos here,Finset.card_insert_of_notMem]
      simp
    · rw [if_neg here,if_neg here,Nat.add_zero]
  have rest : ((Finset.univ.erase s).filter fun t => g t = b) = (Finset.univ.erase s).filter fun t => f t = b := by
    refine Finset.filter_congr fun t member => ?_
    rw [other t (Finset.ne_of_mem_erase member)]
  rw [split g,split f,rest]
  omega

theorem uses_permute {f g : σ → β} (order : Equiv.Perm σ) (same : ∀ s,g s = f (order s)) (b : β) : uses g b = uses f b := by
  unfold uses
  refine Finset.card_bij (fun s _ => order s) (fun s member => ?_) (fun s _ t _ equal => order.injective equal) fun s member => ?_
  · rw [Finset.mem_filter] at member ⊢
    exact ⟨Finset.mem_univ _,(same s).symm.trans member.2⟩
  · refine ⟨order.symm s,?_,order.apply_symm_apply s⟩
    rw [Finset.mem_filter] at member ⊢
    refine ⟨Finset.mem_univ _,?_⟩
    rw [same,order.apply_symm_apply]
    exact member.2

variable [Fintype ι] {live live' : ι → Bool} {f g : ι → σ → β} {i : ι}

def count (live : ι → Bool) (f : ι → σ → β) (b : β) : Nat := ∑ i with live i = true,uses (f i) b

theorem count_pos {b : β} : 0 < count live f b ↔ ∃ i s,live i = true ∧ f i s = b := by
  unfold count
  rw [Finset.sum_pos_iff]
  constructor
  · rintro ⟨i,member,used⟩
    obtain ⟨s,here⟩ := uses_pos.mp used
    exact ⟨i,s,(Finset.mem_filter.mp member).2,here⟩
  · rintro ⟨i,s,counts,here⟩
    exact ⟨i,Finset.mem_filter.mpr ⟨Finset.mem_univ _,counts⟩,uses_pos.mpr ⟨s,here⟩⟩

theorem count_congr (same : ∀ i,live i = true → g i = f i) (b : β) : count live g b = count live f b := by
  refine Finset.sum_congr rfl fun i member => ?_
  rw [same i (Finset.mem_filter.mp member).2]

variable [DecidableEq ι]

theorem count_join (new : live i = false) (lives : ∀ j,live' j = true ↔ live j = true ∨ j = i)
    (same : ∀ j,live j = true → g j = f j) (b : β) : count live' g b = count live f b + uses (g i) b := by
  have all : (Finset.univ.filter fun j => live' j = true) = insert i (Finset.univ.filter fun j => live j = true) := by
    ext j
    simp only [Finset.mem_filter,Finset.mem_univ,true_and,Finset.mem_insert,lives]
    exact or_comm
  have absent : i ∉ Finset.univ.filter fun j => live j = true := by
    simp [new]
  unfold count
  rw [all,Finset.sum_insert absent,Nat.add_comm]
  congr 1
  exact count_congr same b

theorem count_leave (here : live i = true) (lives : ∀ j,live' j = true ↔ live j = true ∧ j ≠ i)
    (same : ∀ j,live' j = true → g j = f j) (b : β) : count live' g b + uses (f i) b = count live f b := by
  have gone : live' i = false := by
    rw [Bool.eq_false_iff]
    exact fun wrong => ((lives i).mp wrong).2 rfl
  have back : ∀ j,live j = true ↔ live' j = true ∨ j = i := by
    intro j
    rw [lives]
    constructor
    · intro counts
      by_cases this : j = i
      · exact .inr this
      · exact .inl ⟨counts,this⟩
    · rintro (⟨counts,_⟩ | rfl)
      · exact counts
      · exact here
  exact (count_join gone back (fun j counts => (same j counts).symm) b).symm

theorem count_change (here : live i = true) (other : ∀ j,live j = true → j ≠ i → g j = f j) (b : β) :
    count live g b + uses (f i) b = count live f b + uses (g i) b := by
  have rest : ∀ h : ι → σ → β,count (fun j => live j && j != i) h b + uses (h i) b = count live h b := by
    intro h
    refine count_leave here (fun j => ?_) (fun _ _ => rfl) b
    simp
  have same : count (fun j => live j && j != i) g b = count (fun j => live j && j != i) f b := by
    refine count_congr (fun j counts => ?_) b
    rw [Bool.and_eq_true,bne_iff_ne] at counts
    exact other j counts.1 counts.2
  rw [← rest g,← rest f,same]
  omega

end Counts
end ArchiveOs.References
