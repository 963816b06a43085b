import ArchiveOs.Tables

-- find_blk on a table of any length. Its totals n and j are ints: the tables of a volume
-- (23 and 800 rows) stay far below their limit, longer ones can pass it, and what a sum
-- behind the limit is, is not defined (none).
namespace ArchiveOs.Fs2
open Extents

def intMax : Nat := 2147483647

def findBlkInt : List (UInt32 × UInt8) → (bindex n : Nat) → Option UInt32
  | [],_,_ => some 0
  | (start,len) :: rows,bindex,n =>
    if start ≠ 0 then
      if intMax < n + len.toNat then none
      else
        let j := n + len.toNat
        if bindex < j then some (start + UInt32.ofNat bindex - UInt32.ofNat n) else findBlkInt rows bindex j
    else some 0

-- The leading rows that are used, and the addresses in them.
def usedRows (rows : List (UInt32 × UInt8)) : List (UInt32 × UInt8) := rows.takeWhile fun r => r.1 ≠ 0

def rowBlocks (r : UInt32 × UInt8) : List UInt32 := (List.range r.2.toNat).map fun k => r.1 + UInt32.ofNat k

def tableBlocks (rows : List (UInt32 × UInt8)) : List UInt32 := (usedRows rows).flatMap rowBlocks

def tableTotal (rows : List (UInt32 × UInt8)) : Nat := ((usedRows rows).map fun r => r.2.toNat).sum

def RowsApart (rows : List (UInt32 × UInt8)) : Prop :=
  (usedRows rows).Pairwise fun r r' => List.Disjoint (rowBlocks r) (rowBlocks r')

-- find_blk goes through the blocks of the table, each once and in their order.
structure FindsBlocks (rows : List (UInt32 × UInt8)) : Prop where
  block : ∀ b,b ≤ intMax → b < tableTotal rows → ∃ blk,findBlkInt rows b 0 = some blk ∧ (tableBlocks rows)[b]? = some blk
  distinct : ∀ b b',b ≤ intMax → b' ≤ intMax → b < tableTotal rows → b' < tableTotal rows →
    findBlkInt rows b 0 = findBlkInt rows b' 0 → b = b'
  each : ∀ r ∈ usedRows rows,∀ blk ∈ rowBlocks r,∃! b,b ≤ intMax ∧ b < tableTotal rows ∧ findBlkInt rows b 0 = some blk
  beyond : ∀ b,b ≤ intMax → tableTotal rows ≤ b → findBlkInt rows b 0 = some 0

section FindBlocks
variable {rows : List (UInt32 × UInt8)} {b n : Nat}

theorem usedRows_cons {start : UInt32} (len : UInt8) (rows : List (UInt32 × UInt8)) (used : start ≠ 0) :
    usedRows ((start,len) :: rows) = (start,len) :: usedRows rows := by
  simp [usedRows,used]

theorem usedRows_zero (len : UInt8) (rows : List (UInt32 × UInt8)) : usedRows ((0,len) :: rows) = [] := by
  simp [usedRows]

theorem tableTotal_cons {start : UInt32} (len : UInt8) (rows : List (UInt32 × UInt8)) (used : start ≠ 0) :
    tableTotal ((start,len) :: rows) = len.toNat + tableTotal rows := by
  unfold tableTotal
  rw [usedRows_cons len rows used]
  rfl

theorem tableTotal_regions (rows : List (UInt32 × UInt8)) : tableTotal rows = total (regions rows) := by
  unfold tableTotal total regions usedRows
  rw [List.map_map]
  rfl

theorem rowBlocks_region (r : UInt32 × UInt8) :
    rowBlocks r = (Region.blocks ⟨r.1.toNat,r.2.toNat⟩).map UInt32.ofNat := by
  unfold rowBlocks Region.blocks
  rw [List.range'_eq_map_range,List.map_map]
  apply List.map_congr_left
  intro k _
  show _ = UInt32.ofNat (r.1.toNat + k)
  rw [UInt32.ofNat_add,UInt32.ofNat_toNat]

theorem tableBlocks_regions (rows : List (UInt32 × UInt8)) : tableBlocks rows = (blocks (regions rows)).map UInt32.ofNat := by
  unfold tableBlocks blocks regions usedRows
  rw [List.map_flatMap,List.flatMap_map]
  congr 1
  funext r
  exact rowBlocks_region r

theorem length_tableBlocks (rows : List (UInt32 × UInt8)) : (tableBlocks rows).length = tableTotal rows := by
  rw [tableBlocks_regions,List.length_map,length_blocks,tableTotal_regions]

-- As long as the totals are ints, it is the search that the model has for volumes.
theorem findBlkInt_some (fits : n + tableTotal rows ≤ intMax) : findBlkInt rows b n = some (findBlk rows b n) := by
  induction rows generalizing n with
  | nil => rfl
  | cons row rows ih =>
      obtain ⟨start,len⟩ := row
      unfold findBlkInt findBlk
      by_cases used : start = 0
      · subst used
        rfl
      · rw [tableTotal_cons len rows used] at fits
        rw [if_pos used,if_pos used,if_neg (by omega)]
        dsimp only
        split
        · rfl
        · exact ih (by omega)

theorem findBlkInt_last (small : n ≤ intMax) (long : intMax < n + tableTotal rows) : findBlkInt rows intMax n = none := by
  induction rows generalizing n with
  | nil => exact absurd long (not_lt.mpr small)
  | cons row rows ih =>
      obtain ⟨start,len⟩ := row
      unfold findBlkInt
      by_cases used : start = 0
      · subst used
        unfold tableTotal at long
        rw [usedRows_zero] at long
        exact absurd long (not_lt.mpr small)
      · rw [tableTotal_cons len rows used] at long
        rw [if_pos used]
        by_cases past : intMax < n + len.toNat
        · rw [if_pos past]
        · rw [if_neg past]
          dsimp only
          rw [if_neg past]
          exact ih (not_lt.mp past) (by omega)

theorem findBlkInt_inside (fits : tableTotal rows ≤ intMax) (inside : b < tableTotal rows) :
    ∃ blk,findBlkInt rows b 0 = some blk ∧ (tableBlocks rows)[b]? = some blk := by
  have there : b < (blocks (regions rows)).length := by rw [length_blocks,← tableTotal_regions]; exact inside
  refine ⟨_,findBlkInt_some (by omega),?_⟩
  rw [findBlk_eq rows (Nat.zero_le b),Nat.sub_zero,tableBlocks_regions,List.getElem?_map,List.getElem?_eq_getElem there]
  rfl

theorem findBlkInt_beyond (small : b ≤ intMax) (outside : tableTotal rows ≤ b) : findBlkInt rows b 0 = some 0 := by
  rw [findBlkInt_some (by omega),findBlk_eq rows (Nat.zero_le b),Nat.sub_zero,
    List.getElem?_eq_none (by rw [length_blocks,← tableTotal_regions]; exact outside)]
  rfl

theorem rowBlocks_nodup (r : UInt32 × UInt8) : (rowBlocks r).Nodup := by
  refine List.Nodup.map_on ?_ List.nodup_range
  intro k hk k' hk' same
  have short := r.2.toNat_lt
  have offset : UInt32.ofNat k = UInt32.ofNat k' := UInt32.add_right_inj r.1 |>.mp same
  have value := congrArg UInt32.toNat offset
  rw [List.mem_range] at hk hk'
  rwa [UInt32.toNat_ofNat_of_lt' (by simp [UInt32.size]; omega),
    UInt32.toNat_ofNat_of_lt' (by simp [UInt32.size]; omega)] at value

theorem tableBlocks_nodup (apart : RowsApart rows) : (tableBlocks rows).Nodup :=
  List.nodup_flatMap.mpr ⟨fun r _ => rowBlocks_nodup r,apart⟩

theorem finds_short (long : intMax < tableTotal rows) : ¬ FindsBlocks rows := by
  intro finds
  obtain ⟨blk,found,_⟩ := finds.block intMax (le_refl _) long
  rw [findBlkInt_last (Nat.zero_le _) (by omega)] at found
  cases found

-- find_blk finds every block if and only if the total length is an int.
theorem find_blk_bijection (apart : RowsApart rows) : FindsBlocks rows ↔ tableTotal rows ≤ intMax := by
  constructor
  · intro finds
    by_contra long
    exact finds_short (not_le.mp long) finds
  · intro fits
    have nodup := tableBlocks_nodup apart
    have unique : ∀ b b' blk,b < tableTotal rows → (tableBlocks rows)[b]? = some blk → (tableBlocks rows)[b']? = some blk →
        b = b' := by
      intro b b' blk inside here here'
      exact (List.getElem?_inj (by rw [length_tableBlocks]; exact inside) nodup).mp (here.trans here'.symm)
    refine ⟨fun b _ inside => findBlkInt_inside fits inside,?_,?_,fun b small outside => findBlkInt_beyond small outside⟩
    · intro b b' _ _ inside inside' same
      obtain ⟨blk,found,here⟩ := findBlkInt_inside fits inside
      obtain ⟨blk',found',here'⟩ := findBlkInt_inside fits inside'
      cases found.symm.trans (same.trans found')
      exact unique b b' blk inside here here'
    · intro r member blk at_r
      have listed : blk ∈ tableBlocks rows := List.mem_flatMap.mpr ⟨r,member,at_r⟩
      obtain ⟨b,inside,here⟩ := List.getElem_of_mem listed
      have at_b : (tableBlocks rows)[b]? = some blk := by rw [List.getElem?_eq_getElem inside,here]
      rw [length_tableBlocks] at inside
      obtain ⟨blk',found,here'⟩ := findBlkInt_inside fits inside
      cases at_b.symm.trans here'
      refine ⟨b,⟨by omega,inside,found⟩,?_⟩
      rintro b' ⟨_,inside',found'⟩
      obtain ⟨_,found'',here''⟩ := findBlkInt_inside fits inside'
      cases found'.symm.trans found''
      exact unique b' b blk inside' here'' at_b

end FindBlocks

-- Two regions of a table of three rows.
def pairTable : List (UInt32 × UInt8) := [(5,2),(9,0),(7,1),(0,4)]

theorem find_blk_bijection_pair : FindsBlocks pairTable ∧ tableBlocks pairTable = [5,6,7] :=
  ⟨(find_blk_bijection (List.nodup_flatMap.mp (show (tableBlocks pairTable).Nodup by decide)).2).mpr (by decide),by decide⟩

-- Regions of 255 blocks one behind the other.
def wideTable (n : Nat) : List (UInt32 × UInt8) := (List.range n).map fun k => (UInt32.ofNat (1 + 255 * k),255)

section Wide
variable {n : Nat}

theorem wide_start {k : Nat} (room : 255 * n < 4294967296) (h : k < n) (i : Nat) (inside : i < 255) :
    (UInt32.ofNat (1 + 255 * k) + UInt32.ofNat i).toNat = 1 + 255 * k + i := by
  rw [← UInt32.ofNat_add]
  exact UInt32.toNat_ofNat_of_lt' (by simp [UInt32.size]; omega)

theorem wide_used (room : 255 * n < 4294967296) : usedRows (wideTable n) = wideTable n := by
  refine List.takeWhile_eq_self_iff.mpr fun r member => ?_
  obtain ⟨k,h,rfl⟩ := List.mem_map.mp member
  have value := wide_start room (List.mem_range.mp h) 0 (by decide)
  have start : UInt32.ofNat (1 + 255 * k) + UInt32.ofNat 0 = UInt32.ofNat (1 + 255 * k) := UInt32.add_zero _
  rw [start] at value
  simp only [decide_eq_true_eq]
  intro zero
  rw [zero] at value
  have none : (0 : UInt32).toNat = 0 := rfl
  omega

theorem wide_total (room : 255 * n < 4294967296) : tableTotal (wideTable n) = 255 * n := by
  unfold tableTotal
  rw [wide_used room]
  unfold wideTable
  rw [List.map_map]
  show ((List.range n).map fun _ => 255).sum = 255 * n
  simp [Nat.mul_comm]

theorem wide_apart (room : 255 * n < 4294967296) : RowsApart (wideTable n) := by
  unfold RowsApart
  rw [wide_used room]
  refine List.pairwise_map.mpr (List.Pairwise.imp_of_mem ?_ List.pairwise_lt_range)
  intro k k' hk hk' less blk member member'
  obtain ⟨i,inside,rfl⟩ := List.mem_map.mp member
  obtain ⟨i',inside',same⟩ := List.mem_map.mp member'
  have place := wide_start room (List.mem_range.mp hk) i (List.mem_range.mp inside)
  have place' := wide_start room (List.mem_range.mp hk') i' (List.mem_range.mp inside')
  have small : i < 255 := List.mem_range.mp inside
  have value := congrArg UInt32.toNat same
  dsimp only at value
  omega

end Wide

theorem wide_table_lost : RowsApart (wideTable 8421505) ∧ ¬ FindsBlocks (wideTable 8421505) := by
  have room : 255 * 8421505 < 4294967296 := by decide
  refine ⟨wide_apart room,finds_short ?_⟩
  rw [wide_total room]
  decide

end ArchiveOs.Fs2
