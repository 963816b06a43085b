import ArchiveOs.Lookups

-- The pointer surgery of fs2_create on a path, against the components that a
-- lookup walks over.
namespace ArchiveOs.Fs2
open Extents

theorem components_append (b : Bool) (dir rest : List UInt8) (nonempty : dir ≠ [])
    (last : dir.getLast nonempty ≠ slash) :
    components b (dir ++ slash :: rest) = components b dir ++ components true rest := by
  induction dir generalizing b with
  | nil => exact absurd rfl nonempty
  | cons c dir ih =>
    by_cases more : dir = []
    · subst more
      have ne : c ≠ slash := last
      cases b <;> simp [components,ne,consHead]
    · have inner := fun b => ih b more (by rwa [List.getLast_cons more] at last)
      by_cases h : c = slash
      · cases b <;> simp [components,h,inner]
      · have head : ∀ names : List (List UInt8),components false dir = names → names ≠ [] →
            consHead c (names ++ components true rest) = consHead c names ++ components true rest := by
          intro names _ ne
          cases names with
          | nil => exact absurd rfl ne
          | cons name names => rfl
        cases b <;> simp [components,h,inner,head _ rfl (components_ne_nil _ _)]

theorem components_slashes (k : Nat) (rest : List UInt8) :
    components true (List.replicate k slash ++ rest) = components true rest := by
  induction k with
  | zero => rfl
  | succ k ih => simp [List.replicate_succ,components,ih]

theorem components_name (b : Bool) {name : List UInt8} (clean : slash ∉ name) : components b name = [name] := by
  induction name generalizing b with
  | nil => cases b <;> rfl
  | cons c name ih =>
    simp only [List.mem_cons,not_or] at clean
    have h : c ≠ slash := fun e => clean.1 e.symm
    cases b <;> simp [components,h,ih _ clean.2,consHead]

namespace Image
variable {m : Image}

theorem walk_append {d : Nat} {names : List (List UInt8)} (nonempty : names ≠ []) (name : List UInt8) :
    m.walk d (names ++ [name]) =
      match m.walk d names with
      | .error e => .error e
      | .ok (p,_) => m.walk p [name] := by
  induction names generalizing d with
  | nil => exact absurd rfl nonempty
  | cons first names ih =>
    by_cases more : names = []
    · subst more
      simp only [List.cons_append,List.nil_append]
      rw [walk,walk]
      split
      · rfl
      · split
        · rfl
        · simp
    · rw [List.cons_append,walk,walk]
      split
      · rfl
      · split
        · rfl
        · simp only [List.append_eq_nil_iff,more,false_and,if_false]
          exact ih more

theorem walk_singleton (p : Nat) (name : List UInt8) :
    m.walk p [name] = if name.length > 28 then .error .invalidPath else (m.lookup p name).map fun i => (i,p) := by
  rw [walk]
  split
  · rfl
  · cases m.lookup p name <;> simp [Except.map]

end Image

-- The parts of a path: parent, slashes, name.
structure Split (path parent name : List UInt8) (slashes : Nat) : Prop where
  whole : path = parent ++ List.replicate (slashes + 1) slash ++ name
  nonempty : parent ≠ []
  last : parent.getLast nonempty ≠ slash
  clean : slash ∉ name

theorem Split.components {path parent name : List UInt8} {k : Nat} (s : Split path parent name k) :
    components false path = components false parent ++ [name] := by
  have whole : path = parent ++ slash :: (List.replicate k slash ++ name) := by
    rw [s.whole,List.replicate_succ]; simp
  rw [whole,components_append _ _ _ s.nonempty s.last,components_slashes,components_name _ s.clean]

theorem Split.resolve {m : Image} {path parent name : List UInt8} {k : Nat} (s : Split path parent name k) :
    m.resolve path =
      match m.resolve parent with
      | .error e => .error e
      | .ok (p,_) => (m.walk p [name]).map fun r => (r.1,some r.2) := by
  have ne : path ≠ [] := by rw [s.whole]; simp
  unfold Image.resolve
  rw [if_neg ne,if_neg s.nonempty,s.components,Image.walk_append (components_ne_nil _ _)]
  cases m.walk 0 (ArchiveOs.Fs2.components false parent) <;> rfl

theorem splitBack_spec (path : List UInt8) (i : Nat) : splitBack path i ≤ i ∧
    (splitBack path i ≠ 0 → path.getD (splitBack path i) 0 = slash) ∧
    ∀ k,splitBack path i < k → k ≤ i → path.getD k 0 ≠ slash := by
  induction i with
  | zero => exact ⟨Nat.le_refl _,fun h => absurd rfl h,fun k above below => by simp [splitBack] at above; omega⟩
  | succ i ih =>
    unfold splitBack
    by_cases stop : path.getD (i + 1) 0 ≠ slash
    · rw [if_pos stop]
      refine ⟨by omega,ih.2.1,fun k above below => ?_⟩
      rcases Nat.lt_or_eq_of_le below with less | rfl
      · exact ih.2.2 k above (by omega)
      · exact stop
    · rw [if_neg stop]
      exact ⟨Nat.le_refl _,fun _ => not_not.mp stop,fun k above below => by omega⟩

theorem stripBack_spec (path : List UInt8) (i : Nat) : stripBack path i ≤ i ∧
    (stripBack path i ≠ 0 → path.getD (stripBack path i) 0 ≠ slash) ∧
    ∀ k,stripBack path i < k → k ≤ i → path.getD k 0 = slash := by
  induction i with
  | zero => exact ⟨Nat.le_refl _,fun h => absurd rfl h,fun k above below => by simp [stripBack] at above; omega⟩
  | succ i ih =>
    unfold stripBack
    by_cases more : path.getD (i + 1) 0 = slash
    · rw [if_pos more]
      refine ⟨by omega,ih.2.1,fun k above below => ?_⟩
      rcases Nat.lt_or_eq_of_le below with less | rfl
      · exact ih.2.2 k above (by omega)
      · exact more
    · rw [if_neg more]
      exact ⟨Nat.le_refl _,fun _ => more,fun k above below => by omega⟩

theorem split_pointers {path : List UInt8} (nonempty : path ≠ [])
    (inner : stripBack path (splitBack path (path.length - 1)) ≠ 0) :
    splitBack path (path.length - 1) ≠ 0 ∧
    Split path (path.take (stripBack path (splitBack path (path.length - 1)) + 1))
      (path.drop (splitBack path (path.length - 1) + 1))
      (splitBack path (path.length - 1) - stripBack path (splitBack path (path.length - 1)) - 1) := by
  obtain ⟨le,edge,behind⟩ := splitBack_spec path (path.length - 1)
  obtain ⟨le',edge',between⟩ := stripBack_spec path (splitBack path (path.length - 1))
  generalize stripBack path (splitBack path (path.length - 1)) = q at *
  generalize splitBack path (path.length - 1) = p at *
  have size : 0 < path.length := List.length_pos_iff.mpr nonempty
  have outer : p ≠ 0 := by omega
  have slash_at := edge outer
  have ne : p ≠ q := fun e => edge' inner (e ▸ slash_at)
  refine ⟨outer,?_,?_,?_,?_⟩
  · have middle : List.replicate (p - q - 1 + 1) slash = (path.drop (q + 1)).take (p - q) := by
      symm
      rw [show p - q - 1 + 1 = p - q by omega,List.eq_replicate_iff]
      refine ⟨by simp; omega,fun c member => ?_⟩
      obtain ⟨k,at_k⟩ := List.getElem?_of_mem member
      have less : k < p - q := by
        have := (List.getElem?_eq_some_iff.mp at_k).1
        simp at this; omega
      rw [List.getElem?_take_of_lt less,List.getElem?_drop] at at_k
      have here := between (q + 1 + k) (by omega) (by omega)
      rw [List.getD_eq_getElem?_getD,at_k] at here
      exact here
    have rest : path.drop (p + 1) = (path.drop (q + 1)).drop (p - q) := by
      rw [List.drop_drop]; congr 1; omega
    rw [middle,rest,List.append_assoc,List.take_append_drop,List.take_append_drop]
  · simp [nonempty]
  · have inside : q < path.length := by omega
    have := edge' inner
    rw [List.getD_eq_getElem?_getD,List.getElem?_eq_getElem inside] at this
    rw [List.getLast_take]
    simpa [inside] using this
  · intro member
    obtain ⟨k,at_k⟩ := List.getElem?_of_mem member
    rw [List.getElem?_drop] at at_k
    have inside := (List.getElem?_eq_some_iff.mp at_k).1
    have here := behind (p + 1 + k) (by omega) (by omega)
    rw [List.getD_eq_getElem?_getD,at_k] at here
    exact here rfl

theorem Split.parent_dir {m : Image} {path parent name : List UInt8} {k p : Nat} {q : Option Nat}
    (s : Split path parent name k) (missing : m.resolve path = .error .noFile) (found : m.resolve parent = .ok (p,q)) :
    (m.node p).ftype = ftypeDir := by
  rw [s.resolve,found] at missing
  dsimp only at missing
  rw [Image.walk_singleton] at missing
  split at missing
  · cases missing
  · unfold Image.lookup at missing
    split at missing
    · cases missing
    · rename_i dir
      exact not_not.mp dir

end ArchiveOs.Fs2
