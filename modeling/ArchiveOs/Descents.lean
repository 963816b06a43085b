import Mathlib.Data.List.Induction
import Mathlib.Logic.Function.Iterate

-- Nodes that have other nodes under keys. Where everything that can be reached has one
-- place, there is one way to each node, and it leads back.
namespace ArchiveOs.Descents

section Kids
variable {α κ : Type} (kid : α → κ → Option α)

def descend : α → List κ → Option α
  | a,[] => some a
  | a,k :: ks => (kid a k).bind fun b => descend b ks

inductive Reach (root : α) : α → Prop where
  | root : Reach root root
  | kid {a b : α} {k : κ} : Reach root a → kid a k = some b → Reach root b

-- What is below the root has one parent, and that has it under one key.
structure Placed (root : α) (parent : α → α) : Prop where
  parent : ∀ a b k,Reach kid root a → kid a k = some b → b ≠ root ∧ parent b = a
  key : ∀ a b k k',Reach kid root a → kid a k = some b → kid a k' = some b → k = k'

variable {kid} {root : α} {parent : α → α}

theorem descend_snoc (a : α) (ks : List κ) (k : κ) :
    descend kid a (ks ++ [k]) = (descend kid a ks).bind fun b => kid b k := by
  induction ks generalizing a with
  | nil =>
      show (kid a k).bind some = kid a k
      cases kid a k with
      | none => rfl
      | some b => rfl
  | cons k' ks ih =>
      show ((kid a k').bind fun b => descend kid b (ks ++ [k])) = ((kid a k').bind fun b => descend kid b ks).bind _
      cases kid a k' with
      | none => rfl
      | some b => exact ih b

theorem reach_descend {a : α} {ks : List κ} (down : descend kid root ks = some a) : Reach kid root a := by
  induction ks using List.reverseRecOn generalizing a with
  | nil =>
      cases down
      exact .root
  | append_singleton ks k ih =>
      rw [descend_snoc] at down
      obtain ⟨b,above,last⟩ := Option.bind_eq_some_iff.mp down
      exact .kid (ih above) last

theorem Reach.descend {a : α} (reach : Reach kid root a) : ∃ ks,descend kid root ks = some a := by
  induction reach with
  | root => exact ⟨[],rfl⟩
  | @kid a b k _ last ih =>
      obtain ⟨ks,above⟩ := ih
      refine ⟨ks ++ [k],?_⟩
      rw [descend_snoc,above]
      exact last

theorem Placed.unique (placed : Placed kid root parent) {a : α} {ks ks' : List κ} (down : descend kid root ks = some a)
    (down' : descend kid root ks' = some a) : ks = ks' := by
  induction ks using List.reverseRecOn generalizing a ks' with
  | nil =>
      cases down
      rcases List.eq_nil_or_concat ks' with rfl | ⟨js,j,rfl⟩
      · rfl
      · rw [List.concat_eq_append,descend_snoc] at down'
        obtain ⟨b,above,last⟩ := Option.bind_eq_some_iff.mp down'
        exact absurd rfl (placed.parent b root j (reach_descend above) last).1
  | append_singleton ks k ih =>
      rw [descend_snoc] at down
      obtain ⟨b,above,last⟩ := Option.bind_eq_some_iff.mp down
      obtain ⟨other,up⟩ := placed.parent b a k (reach_descend above) last
      rcases List.eq_nil_or_concat ks' with rfl | ⟨js,j,rfl⟩
      · cases down'
        exact absurd rfl other
      · rw [List.concat_eq_append,descend_snoc] at down'
        obtain ⟨c,above',last'⟩ := Option.bind_eq_some_iff.mp down'
        have same : c = b := (placed.parent c a j (reach_descend above') last').2.symm.trans up
        subst same
        rw [List.concat_eq_append,ih above above',placed.key c a k j (reach_descend above) last last']

theorem Placed.back (placed : Placed kid root parent) {a : α} {ks : List κ} (down : descend kid root ks = some a) :
    parent^[ks.length] a = root := by
  induction ks using List.reverseRecOn generalizing a with
  | nil =>
      cases down
      rfl
  | append_singleton ks k ih =>
      rw [descend_snoc] at down
      obtain ⟨b,above,last⟩ := Option.bind_eq_some_iff.mp down
      rw [List.length_append,List.length_singleton,Function.iterate_succ_apply,
        (placed.parent b a k (reach_descend above) last).2]
      exact ih above

end Kids
end ArchiveOs.Descents
