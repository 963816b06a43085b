import Mathlib

-- Extents: an object is stored in a list of contiguous regions, and its block
-- number q lies somewhere in one of them. Nothing here is about one file system.
namespace ArchiveOs.Extents

structure Region where
  start : Nat
  len : Nat
  deriving DecidableEq, Repr

def Region.blocks (r : Region) : List Nat := List.range' r.start r.len

-- The blocks of an object, in the order of its contents.
def blocks (rs : List Region) : List Nat := rs.flatMap Region.blocks

def total (rs : List Region) : Nat := (rs.map Region.len).sum

@[simp] theorem blocks_nil : blocks [] = [] := rfl
@[simp] theorem total_nil : total [] = 0 := rfl
@[simp] theorem total_cons (r : Region) (rs : List Region) : total (r :: rs) = r.len + total rs := by
  simp [total]
theorem blocks_cons (r : Region) (rs : List Region) : blocks (r :: rs) = r.blocks ++ blocks rs := by
  simp [blocks]
theorem blocks_append (rs ss : List Region) : blocks (rs ++ ss) = blocks rs ++ blocks ss := by
  simp [blocks]
@[simp] theorem total_append (rs ss : List Region) : total (rs ++ ss) = total rs + total ss := by
  simp [total]
@[simp] theorem Region.length_blocks (r : Region) : r.blocks.length = r.len := by simp [Region.blocks]

@[simp] theorem length_blocks (rs : List Region) : (blocks rs).length = total rs := by
  induction rs with
  | nil => rfl
  | cons r rs ih => simp [blocks_cons,ih]

theorem Region.mem_blocks {r : Region} {b : Nat} : b ∈ r.blocks ↔ r.start ≤ b ∧ b < r.start + r.len := by
  simp [Region.blocks,List.mem_range'_1]

theorem mem_blocks {rs : List Region} {b : Nat} :
    b ∈ blocks rs ↔ ∃ r ∈ rs, r.start ≤ b ∧ b < r.start + r.len := by
  simp [blocks,Region.mem_blocks]

-- One step of a scan for block k: either it is in the first region, or in the rest.
theorem getElem?_blocks_cons (r : Region) (rs : List Region) (k : Nat) :
    (blocks (r :: rs))[k]? = if k < r.len then some (r.start + k) else (blocks rs)[k - r.len]? := by
  rw [blocks_cons]
  split
  · rename_i inside
    rw [List.getElem?_append_left (by simpa using inside)]
    simp [Region.blocks,inside]
  · rename_i outside
    rw [List.getElem?_append_right (by simpa using outside)]
    simp

-- The place (i,j) of a sequential walk that is about to visit block q: block j of
-- region i, or behind the last region.
structure Cursor (rs : List Region) (q i j : Nat) : Prop where
  bound : i ≤ rs.length
  passed : q = total (rs.take i) + j
  inside : ∀ h : i < rs.length, j < rs[i].len
  ending : i = rs.length → j = 0

theorem Cursor.start {rs : List Region} (positive : ∀ r ∈ rs, 0 < r.len) : Cursor rs 0 0 0 :=
  ⟨Nat.zero_le _,by simp,fun h => positive _ (List.getElem_mem h),fun _ => rfl⟩

theorem Cursor.block {rs : List Region} {q i j : Nat} (c : Cursor rs q i j) (h : i < rs.length) :
    (blocks rs)[q]? = some (rs[i].start + j) := by
  have split : rs = rs.take i ++ rs[i] :: rs.drop (i + 1) := by simp
  have before : (blocks (rs.take i)).length ≤ q := by rw [length_blocks,c.passed]; omega
  have rest : q - (blocks (rs.take i)).length = j := by rw [length_blocks,c.passed]; omega
  calc (blocks rs)[q]? = (blocks (rs.take i) ++ blocks (rs[i] :: rs.drop (i + 1)))[q]? := by
        rw [← blocks_append,← split]
    _ = (blocks (rs[i] :: rs.drop (i + 1)))[j]? := by rw [List.getElem?_append_right before,rest]
    _ = some (rs[i].start + j) := by rw [getElem?_blocks_cons,if_pos (c.inside h)]

theorem total_take_succ {rs : List Region} {i : Nat} (h : i < rs.length) :
    total (rs.take (i + 1)) = total (rs.take i) + rs[i].len := by
  rw [List.take_succ_eq_append_getElem h,total_append]; simp

theorem total_take_le (rs : List Region) (i : Nat) : total (rs.take i) ≤ total rs := by
  have split := congrArg total (List.take_append_drop i rs)
  rw [total_append] at split
  omega

theorem Cursor.more {rs : List Region} {q i j : Nat} (c : Cursor rs q i j) :
    i < rs.length ↔ q < total rs := by
  constructor
  · intro h
    have inside := c.inside h
    have upper := total_take_le rs (i + 1)
    rw [total_take_succ h] at upper
    have passed := c.passed
    omega
  · intro h
    rcases Nat.lt_or_eq_of_le c.bound with less | done
    · exact less
    · have passed := c.passed
      rw [c.ending done,done,List.take_length] at passed
      omega

theorem Cursor.next {rs : List Region} {q i j : Nat} (positive : ∀ r ∈ rs, 0 < r.len)
    (c : Cursor rs q i j) (h : i < rs.length) :
    if j + 1 = rs[i].len then Cursor rs (q + 1) (i + 1) 0 else Cursor rs (q + 1) i (j + 1) := by
  have inside := c.inside h
  split
  · rename_i last
    refine ⟨h,?_,fun more => positive _ (List.getElem_mem more),fun _ => rfl⟩
    rw [total_take_succ h,c.passed]; omega
  · refine ⟨c.bound,?_,fun _ => by omega,fun done => by omega⟩
    rw [c.passed]; omega

theorem wrap_next {j len : Nat} (inside : j < len) :
    (j + 1) % len = if j + 1 = len then 0 else j + 1 := by
  split
  · rename_i last; rw [last,Nat.mod_self]
  · rw [Nat.mod_eq_of_lt]; omega

-- A family of objects that share blocks [lo,hi): none twice, none outside.
structure Packed {ι : Type} (own : ι → List Region) (lo hi : Nat) : Prop where
  within : ∀ o b, b ∈ blocks (own o) → lo ≤ b ∧ b < hi
  nodup : ∀ o, (blocks (own o)).Nodup
  apart : ∀ o o' b, b ∈ blocks (own o) → b ∈ blocks (own o') → o = o'

section Packed
variable {ι : Type} {own own' : ι → List Region} {lo hi : Nat}

theorem Packed.advance (p : Packed own lo hi) {hi' : Nat} (le : hi ≤ hi') : Packed own lo hi' :=
  ⟨fun o b h => ⟨(p.within o b h).1,Nat.lt_of_lt_of_le (p.within o b h).2 le⟩,p.nodup,p.apart⟩

theorem Packed.shrink (p : Packed own lo hi) (less : ∀ o, own' o = own o ∨ own' o = []) :
    Packed own' lo hi := by
  have inherited : ∀ o b, b ∈ blocks (own' o) → b ∈ blocks (own o) := by
    intro o b h
    rcases less o with same | gone
    · rwa [same] at h
    · rw [gone] at h; cases h
  refine ⟨fun o b h => p.within o b (inherited o b h),?_,
    fun o o' b h h' => p.apart o o' b (inherited o b h) (inherited o' b h')⟩
  intro o
  rcases less o with same | gone
  · rw [same]; exact p.nodup o
  · rw [gone]; exact List.nodup_nil

theorem Packed.grow [DecidableEq ι] (p : Packed own lo hi) (le : lo ≤ hi) (o : ι) (len : Nat) :
    Packed (Function.update own o (own o ++ [⟨hi,len⟩])) lo (hi + len) := by
  have fresh : ∀ b, b ∈ blocks [⟨hi,len⟩] → hi ≤ b ∧ b < hi + len := by
    intro b h
    obtain ⟨r,member,bounds⟩ := mem_blocks.mp h
    rw [List.mem_singleton.mp member] at bounds
    exact bounds
  have cases_of : ∀ o' b, b ∈ blocks (Function.update own o (own o ++ [⟨hi,len⟩]) o') →
      b ∈ blocks (own o') ∨ (o' = o ∧ hi ≤ b ∧ b < hi + len) := by
    intro o' b h
    by_cases same : o' = o
    · subst same
      rw [Function.update_self,blocks_append] at h
      rcases List.mem_append.mp h with old | new
      · exact .inl old
      · exact .inr ⟨rfl,fresh b new⟩
    · rw [Function.update_of_ne same] at h; exact .inl h
  refine ⟨?_,?_,?_⟩
  · intro o' b h
    rcases cases_of o' b h with old | ⟨_,lower,upper⟩
    · have := p.within o' b old; omega
    · omega
  · intro o'
    by_cases same : o' = o
    · subst same
      rw [Function.update_self,blocks_append]
      refine List.nodup_append.mpr ⟨p.nodup o',?_,?_⟩
      · rw [blocks_cons,blocks_nil,List.append_nil]; exact List.nodup_range'
      · intro b old c new equal
        subst equal
        have := p.within o' b old
        have := fresh b new
        omega
    · rw [Function.update_of_ne same]; exact p.nodup o'
  · intro o₁ o₂ b h₁ h₂
    rcases cases_of o₁ b h₁ with old₁ | ⟨rfl,lower₁,_⟩
    · rcases cases_of o₂ b h₂ with old₂ | ⟨_,lower₂,_⟩
      · exact p.apart o₁ o₂ b old₁ old₂
      · have := p.within o₁ b old₁; omega
    · rcases cases_of o₂ b h₂ with old₂ | ⟨rfl,_,_⟩
      · have := p.within o₂ b old₂; omega
      · rfl

theorem Packed.regions_apart (p : Packed own lo hi) {o o' : ι} {k k' : Nat} {r r' : Region} (at_k : (own o)[k]? = some r)
    (at_k' : (own o')[k']? = some r') (other : (o,k) ≠ (o',k')) {b : Nat} (inside : b ∈ r.blocks) : b ∉ r'.blocks := by
  intro inside'
  have mine : b ∈ blocks (own o) := List.mem_flatMap.mpr ⟨r,List.mem_of_getElem? at_k,inside⟩
  have yours : b ∈ blocks (own o') := List.mem_flatMap.mpr ⟨r',List.mem_of_getElem? at_k',inside'⟩
  cases p.apart o o' b mine yours
  have different : k ≠ k' := fun same => other (by rw [same])
  obtain ⟨bound,rfl⟩ := List.getElem?_eq_some_iff.mp at_k
  obtain ⟨bound',rfl⟩ := List.getElem?_eq_some_iff.mp at_k'
  have apart := List.pairwise_iff_getElem.mp (List.nodup_flatMap.mp (p.nodup o)).2
  rcases Nat.lt_or_gt_of_ne different with less | more
  · exact apart k k' bound bound' less inside inside'
  · exact apart k' k bound' bound more inside' inside

theorem Packed.ordered (p : Packed own lo hi) {o o' : ι} {k k' : Nat} {r r' : Region} (at_k : (own o)[k]? = some r)
    (at_k' : (own o')[k']? = some r') (other : (o,k) ≠ (o',k')) (full : 0 < r.len) (full' : 0 < r'.len) :
    r.start + r.len ≤ r'.start ∨ r'.start + r'.len ≤ r.start := by
  by_contra overlap
  rw [not_or] at overlap
  have inside : max r.start r'.start ∈ r.blocks := Region.mem_blocks.mpr (by omega)
  have inside' : max r.start r'.start ∈ r'.blocks := Region.mem_blocks.mpr (by omega)
  exact p.regions_apart at_k at_k' other inside inside'

theorem Packed.bounds (p : Packed own lo hi) {o : ι} {r : Region} (member : r ∈ own o) (full : 0 < r.len) :
    lo ≤ r.start ∧ r.start + r.len ≤ hi := by
  have first := p.within o r.start (List.mem_flatMap.mpr ⟨r,member,Region.mem_blocks.mpr (by omega)⟩)
  have last := p.within o (r.start + r.len - 1) (List.mem_flatMap.mpr ⟨r,member,Region.mem_blocks.mpr (by omega)⟩)
  omega

end Packed
end ArchiveOs.Extents
