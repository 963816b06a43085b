import Mathlib

-- Characters in a block of memory: stores inside of it, and the strings up to a NUL.
namespace ArchiveOs.Chars

-- A store behind the block fails.
def store (x : List UInt8) (i : Nat) (c : UInt8) : Option (List UInt8) :=
  if i < x.length then some (x.set i c) else none

def cstring (x : List UInt8) (i : Nat) : List UInt8 := (x.drop i).takeWhile (· ≠ 0)

section Store
variable {x x' before behind s : List UInt8} {i : Nat} {c d : UInt8}

theorem store_length (stored : store x i c = some x') : x'.length = x.length := by
  unfold store at stored
  split at stored
  · cases stored
    exact List.length_set
  · cases stored

theorem store_append (before behind : List UInt8) (c d : UInt8) :
    store (before ++ c :: behind) before.length d = some (before ++ d :: behind) := by
  unfold store
  rw [if_pos (by simp)]
  simp

theorem cstring_noNul (x : List UInt8) (i : Nat) : 0 ∉ cstring x i :=
  fun member => absurd (List.mem_takeWhile_imp member) (by decide)

theorem cstring_append (before behind : List UInt8) (noNul : 0 ∉ s) :
    cstring (before ++ (s ++ 0 :: behind)) before.length = s := by
  have text : ∀ c ∈ s,(decide (c ≠ 0)) = true := fun c member => decide_eq_true fun zero => noNul (zero ▸ member)
  unfold cstring
  rw [List.drop_left,List.takeWhile_append_of_pos text,List.takeWhile_cons_of_neg (by decide),List.append_nil]

end Store
end ArchiveOs.Chars
