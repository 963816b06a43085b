import Mathlib

-- Exact memory layouts: a record of `n` bytes is the same thing as those bytes.
-- Both directions are inverse, so there is no padding and no invalid pattern;
-- a cast of a block to a record loses nothing and invents nothing.
namespace ArchiveOs.Layout

abbrev Bytes (n : Nat) := Vector UInt8 n

end ArchiveOs.Layout

namespace ArchiveOs
open Layout

abbrev Layout (α : Type) (n : Nat) := α ≃ Bytes n

namespace Layout
variable {α β : Type} {n m : Nat}

def byte : Layout UInt8 1 where
  toFun b := #v[b]
  invFun v := v[0]
  left_inv _ := rfl
  right_inv v := by
    ext i bound
    have zero : i = 0 := by omega
    subst zero; rfl

def bytes (n : Nat) : Layout (Bytes n) n := Equiv.refl _

-- Little endian words.
def word16 : Layout UInt16 2 where
  toFun w := #v[UInt8.ofNat w.toNat,UInt8.ofNat (w.toNat / 256)]
  invFun v := UInt16.ofNat (v[0].toNat + 256 * v[1].toNat)
  left_inv w := by
    apply UInt16.toNat_inj.mp
    have bound := w.toNat_lt
    simp
    omega
  right_inv v := by
    have low := v[0].toNat_lt
    have high := v[1].toNat_lt
    ext i bound
    match i,bound with
    | 0,_ => simp
    | 1,_ => simp; omega

def word32 : Layout UInt32 4 where
  toFun w := #v[UInt8.ofNat w.toNat,UInt8.ofNat (w.toNat / 256),
    UInt8.ofNat (w.toNat / 65536),UInt8.ofNat (w.toNat / 16777216)]
  invFun v := UInt32.ofNat
    (v[0].toNat + 256 * v[1].toNat + 65536 * v[2].toNat + 16777216 * v[3].toNat)
  left_inv w := by
    apply UInt32.toNat_inj.mp
    have bound := w.toNat_lt
    simp
    omega
  right_inv v := by
    have b0 := v[0].toNat_lt
    have b1 := v[1].toNat_lt
    have b2 := v[2].toNat_lt
    have b3 := v[3].toNat_lt
    ext i bound
    match i,bound with
    | 0,_ => simp; omega
    | 1,_ => simp; omega
    | 2,_ => simp; omega
    | 3,_ => simp; omega

theorem word_pos : 0 < 4 := by decide

-- Fields follow one another.
def pair (a : Layout α n) (b : Layout β m) : Layout (α × β) (n + m) where
  toFun x := a x.1 ++ b x.2
  invFun v := (a.symm (Vector.ofFn fun i : Fin n => v[i.val]),
    b.symm (Vector.ofFn fun i : Fin m => v[n + i.val]))
  left_inv x := by
    have first : (Vector.ofFn fun i : Fin n => (a x.1 ++ b x.2)[i.val]) = a x.1 := by
      ext i bound; simp
    have second : (Vector.ofFn fun i : Fin m => (a x.1 ++ b x.2)[n + i.val]) = b x.2 := by
      ext i bound; simp
    dsimp only
    rw [first,second]; simp
  right_inv v := by
    ext i bound
    by_cases inFirst : i < n
    · simp [inFirst]
    · have back : n + (i - n) = i := by omega
      simp [Vector.getElem_append,inFirst,back]

private theorem slot_lt {i j : Nat} (hi : i < m) (hj : j < n) : i * n + j < m * n := by
  have step : (i + 1) * n ≤ m * n := Nat.mul_le_mul_right n hi
  rw [Nat.succ_mul] at step
  omega

private theorem row_lt {k : Nat} (hk : k < m * n) : k / n < m :=
  Nat.div_lt_of_lt_mul (Nat.mul_comm m n ▸ hk)

-- Elements of a table follow one another.
def array (a : Layout α n) (m : Nat) (pos : 0 < n) : Layout (Vector α m) (m * n) where
  toFun v := Vector.ofFn fun k : Fin (m * n) =>
    have row : k.val / n < m := row_lt k.isLt
    have column : k.val % n < n := Nat.mod_lt _ pos
    (a v[k.val / n])[k.val % n]
  invFun w := Vector.ofFn fun i : Fin m =>
    a.symm (Vector.ofFn fun j : Fin n =>
      have slot : i.val * n + j.val < m * n := slot_lt i.isLt j.isLt
      w[i.val * n + j.val])
  left_inv v := by
    ext i bound
    have element : (Vector.ofFn fun j : Fin n => (a v[i])[j.val]) = a v[i] := by
      ext j hj; simp
    have divided : ∀ j, j < n → (i * n + j) / n = i := by
      intro j hj
      rw [Nat.mul_comm,Nat.mul_add_div pos,Nat.div_eq_of_lt hj,Nat.add_zero]
    have rest : ∀ j, j < n → (i * n + j) % n = j := by
      intro j hj
      rw [Nat.mul_comm,Nat.mul_add_mod,Nat.mod_eq_of_lt hj]
    have same : (Vector.ofFn fun j : Fin n =>
        have row : (i * n + j.val) / n < m := row_lt (slot_lt bound j.isLt)
        have column : (i * n + j.val) % n < n := Nat.mod_lt _ pos
        (a v[(i * n + j.val) / n])[(i * n + j.val) % n]) = a v[i] := by
      ext j hj
      simp only [Vector.getElem_ofFn,divided j hj,rest j hj]
    simp only [Vector.getElem_ofFn] at same ⊢
    rw [same]; simp
  right_inv w := by
    ext k bound
    have back : k / n * n + k % n = k := by rw [Nat.mul_comm]; exact Nat.div_add_mod k n
    simp [back]

end Layout
end ArchiveOs
