import ArchiveOs.Cycles
import Mathlib.Data.Vector.Basic

-- Ring buffers with a flag that tells a full ring from an empty one, as queues.
namespace ArchiveOs
variable {α : Type} {size : Nat}

structure Ring (α : Type) (size : Nat) where
  buffer : Vector α size
  reader : Fin size
  writer : Fin size
  full : Bool

namespace Ring

-- A full ring is one whose writer has caught up with its reader.
def Aligned (r : Ring α size) : Prop := r.full = true → r.writer = r.reader

-- The number of elements between the reader and the writer.
def held (r : Ring α size) : Nat :=
  if r.full then size
  else if r.reader ≤ r.writer then r.writer.val - r.reader.val
  else r.writer.val + size - r.reader.val

section Window
variable [NeZero size]

-- The `n` elements from place `start` on, going around.
def window (table : Vector α size) : (start : Fin size) → Nat → List α
  | _,0 => []
  | start,n + 1 => table.get start :: window table (start + 1) n

theorem window_length (table : Vector α size) (start : Fin size) (n : Nat) :
    (window table start n).length = n := by
  induction n generalizing start with
  | zero => rfl
  | succ n ih => exact congrArg (· + 1) (ih (start + 1))

theorem place_step (p start : Fin size) (n : Nat) (place : p.val = (start.val + (n + 1)) % size) :
    p.val = ((start + 1).val + n) % size := by
  rw [place,Cycle.step_val,Nat.mod_add_mod]
  congr 1
  omega

theorem window_snoc (table : Vector α size) (start p : Fin size) (n : Nat) (place : p.val = (start.val + n) % size) :
    window table start (n + 1) = window table start n ++ [table.get p] := by
  induction n generalizing start with
  | zero =>
      have same : p = start := Fin.ext (by rw [place]; exact Nat.mod_eq_of_lt start.isLt)
      rw [same]
      rfl
  | succ n ih =>
      have tail := ih (start + 1) (place_step p start n place)
      exact congrArg (table.get start :: ·) tail

theorem window_set (table : Vector α size) (p : Fin size) (x : α) (start : Fin size) (n room : Nat)
    (place : p.val = (start.val + n + room) % size) (fits : n + room < size) :
    window (table.set p.val x p.isLt) start n = window table start n := by
  induction n generalizing start with
  | zero => rfl
  | succ n ih =>
      have other : p.val ≠ start.val := by
        intro same
        have bound := start.isLt
        rw [same] at place
        by_cases h : start.val + (n + 1) + room < size
        · rw [Nat.mod_eq_of_lt h] at place; omega
        · rw [Nat.mod_eq_sub_mod (by omega),Nat.mod_eq_of_lt (by omega)] at place; omega
      have head : (table.set p.val x p.isLt).get start = table.get start := by
        exact Vector.getElem_set_ne p.isLt start.isLt other
      have tail := ih (start + 1) (by
        rw [Nat.add_assoc] at place ⊢
        rw [Nat.add_right_comm n 1 room] at place
        exact place_step p start (n + room) place) (by omega)
      show _ :: _ = _ :: _
      rw [head,tail]

end Window

section Queue
variable [NeZero size]

-- The queue that the ring stands for.
def contents (r : Ring α size) : List α := window r.buffer r.reader r.held

def empty (table : Vector α size) : Ring α size := ⟨table,0,0,false⟩
def CanRead (r : Ring α size) : Prop := r.full = true ∨ r.writer ≠ r.reader
def pop (r : Ring α size) : Ring α size := {r with reader := r.reader + 1,full := false}
def push (r : Ring α size) (x : α) : Ring α size :=
  {r with
    buffer := r.buffer.set r.writer.val x r.writer.isLt,writer := r.writer + 1
    full := decide (r.writer + 1 = r.reader)}

theorem contents_length (r : Ring α size) : r.contents.length = r.held := window_length ..

omit [NeZero size] in
theorem held_full {r : Ring α size} (full : r.full = true) : r.held = size := if_pos full

omit [NeZero size] in
theorem held_gap {r : Ring α size} (room : r.full = false) :
    r.reader.val ≤ r.writer.val ∧ r.held = r.writer.val - r.reader.val ∨
      r.writer.val < r.reader.val ∧ r.held = r.writer.val + size - r.reader.val := by
  simp only [held,room,Bool.false_eq_true,if_false]
  split
  case isTrue ahead => exact .inl ⟨ahead,rfl⟩
  case isFalse behind => exact .inr ⟨Nat.lt_of_not_le behind,rfl⟩

omit [NeZero size] in
theorem held_lt {r : Ring α size} (room : r.full = false) : r.held < size := by
  have reader := r.reader.isLt
  have writer := r.writer.isLt
  rcases held_gap room with ⟨_,gap⟩ | ⟨_,gap⟩ <;> omega

omit [NeZero size] in
theorem held_le (r : Ring α size) : r.held ≤ size := by
  cases full : r.full with
  | true => exact Nat.le_of_eq (held_full full)
  | false => exact Nat.le_of_lt (held_lt full)

theorem contents_empty (table : Vector α size) : (empty table).contents = [] := by
  apply List.length_eq_zero_iff.mp
  rw [contents_length]
  rcases held_gap (show (empty table).full = false from rfl) with ⟨_,gap⟩ | ⟨behind,_⟩
  · rw [gap]; exact Nat.sub_self _
  · exact absurd behind (Nat.lt_irrefl _)

omit [NeZero size] in
theorem held_zero (r : Ring α size) (stuck : ¬ r.CanRead) : r.held = 0 := by
  have room : r.full = false := Bool.eq_false_iff.mpr fun full => stuck (.inl full)
  have same : r.writer.val = r.reader.val := by
    by_contra other
    exact stuck (.inr fun equal => other (congrArg Fin.val equal))
  rcases held_gap room with ⟨_,gap⟩ | ⟨_,gap⟩ <;> omega

theorem held_pop {r : Ring α size} (aligned : r.Aligned) (can : r.CanRead) : r.held = r.pop.held + 1 := by
  have reader := r.reader.isLt
  have writer := r.writer.isLt
  have after := held_gap (show r.pop.full = false from rfl)
  have next := Cycle.step_cases r.reader
  change ((r.reader + 1).val ≤ r.writer.val ∧ r.pop.held = r.writer.val - (r.reader + 1).val) ∨
    (r.writer.val < (r.reader + 1).val ∧ r.pop.held = r.writer.val + size - (r.reader + 1).val) at after
  cases full : r.full with
  | true =>
      have same := congrArg Fin.val (aligned full)
      rw [held_full full]
      omega
  | false =>
      have before := held_gap full
      have other : r.writer.val ≠ r.reader.val := fun same =>
        can.elim (fun full' => by rw [full] at full'; cases full') fun ne => ne (Fin.ext same)
      omega

theorem aligned_pop (r : Ring α size) : r.pop.Aligned := fun full => nomatch full

theorem contents_pop {r : Ring α size} (aligned : r.Aligned) (can : r.CanRead) :
    r.contents = r.buffer.get r.reader :: r.pop.contents := by
  unfold contents
  rw [held_pop aligned can]
  rfl

omit [NeZero size] in
theorem writer_place {r : Ring α size} (room : r.full = false) :
    r.writer.val = (r.reader.val + r.held) % size := by
  have reader := r.reader.isLt
  have writer := r.writer.isLt
  rcases held_gap room with ⟨ahead,gap⟩ | ⟨behind,gap⟩
  · rw [gap,Nat.mod_eq_of_lt (by omega)]; omega
  · rw [gap,show r.reader.val + (r.writer.val + size - r.reader.val) = r.writer.val + size by omega,
      Nat.add_mod_right,Nat.mod_eq_of_lt writer]

theorem held_push {r : Ring α size} (room : r.full = false) (x : α) : (r.push x).held = r.held + 1 := by
  have reader := r.reader.isLt
  have writer := r.writer.isLt
  have next := Cycle.step_cases r.writer
  have before := held_gap room
  by_cases meets : r.writer + 1 = r.reader
  · have same := congrArg Fin.val meets
    have after : (r.push x).held = size := held_full (decide_eq_true meets)
    omega
  · have other : (r.writer + 1).val ≠ r.reader.val := fun same => meets (Fin.ext same)
    have after := held_gap (show (r.push x).full = false from decide_eq_false meets)
    change (r.reader.val ≤ (r.writer + 1).val ∧ (r.push x).held = (r.writer + 1).val - r.reader.val) ∨
      ((r.writer + 1).val < r.reader.val ∧ (r.push x).held = (r.writer + 1).val + size - r.reader.val) at after
    omega

theorem aligned_push (r : Ring α size) (x : α) : (r.push x).Aligned := fun full => of_decide_eq_true full

theorem contents_push {r : Ring α size} (room : r.full = false) (x : α) : (r.push x).contents = r.contents ++ [x] := by
  have place := writer_place room
  have bound := held_lt room
  unfold contents
  rw [held_push room]
  show window (r.buffer.set r.writer.val x r.writer.isLt) r.reader (r.held + 1) = _
  rw [window_snoc _ _ r.writer _ place,window_set r.buffer r.writer x r.reader r.held 0 place bound]
  congr 2
  exact Vector.getElem_set_self r.writer.isLt

end Queue

end Ring

-- A queue that takes `input` in at its end and gives `output` out at its front.
def Passes (before input output after : List α) : Prop := before ++ input = output ++ after

namespace Passes
variable {before middle after input output input' output' : List α}

theorem trans (first : Passes before input output middle) (next : Passes middle input' output' after) :
    Passes before (input ++ input') (output ++ output') after := by
  unfold Passes at *
  rw [← List.append_assoc,first,List.append_assoc,next,List.append_assoc]

theorem in_order (all : Passes [] input output after) : output <+: input := ⟨after,all.symm⟩

theorem balance (all : Passes [] input output after) : output.length + after.length = input.length := by
  have lengths := congrArg List.length all
  simpa using lengths.symm

end Passes

end ArchiveOs
