import ArchiveOs.Mounted

-- The scans of the source over region tables, in terms of the regions they hold.
namespace ArchiveOs.Fs2
open Extents

@[simp] theorem regions_nil : regions [] = [] := rfl
theorem regions_zero (len : UInt8) (rows : List (UInt32 × UInt8)) : regions ((0,len) :: rows) = [] := by
  simp [regions]
theorem regions_cons {start : UInt32} (len : UInt8) (rows : List (UInt32 × UInt8)) (used : start ≠ 0) :
    regions ((start,len) :: rows) = ⟨start.toNat,len.toNat⟩ :: regions rows := by
  simp [regions,used]

theorem regions_length_le (rows : List (UInt32 × UInt8)) : (regions rows).length ≤ rows.length := by
  simp only [regions,List.length_map]
  exact (List.takeWhile_prefix _).length_le

theorem total_regions_le (rows : List (UInt32 × UInt8)) : total (regions rows) ≤ 255 * rows.length := by
  induction rows with
  | nil => simp
  | cons row rows ih =>
    obtain ⟨start,len⟩ := row
    have bound := len.toNat_lt
    by_cases used : start = 0
    · subst used; rw [regions_zero]; simp
    · rw [regions_cons len rows used,total_cons,List.length_cons]; dsimp only; omega

theorem rows_used (rows : List (UInt32 × UInt8)) {i : Nat} (h : i < (regions rows).length) :
    ∃ start len, rows[i]? = some (start,len) ∧ start ≠ 0 ∧ (regions rows)[i] = ⟨start.toNat,len.toNat⟩ := by
  induction rows generalizing i with
  | nil => simp at h
  | cons row rows ih =>
    obtain ⟨start,len⟩ := row
    by_cases used : start = 0
    · subst used; rw [regions_zero] at h; simp at h
    · cases i with
      | zero => exact ⟨start,len,rfl,used,by simp [regions_cons len rows used]⟩
      | succ i =>
        have inner : i < (regions rows).length := by
          rw [regions_cons len rows used] at h; simpa using h
        obtain ⟨start',len',at_i,used',equal⟩ := ih inner
        exact ⟨start',len',by simpa using at_i,used',by simp [regions_cons len rows used,equal]⟩

theorem rows_end (rows : List (UInt32 × UInt8)) :
    rows[(regions rows).length]? = none ∨ ∃ len, rows[(regions rows).length]? = some (0,len) := by
  induction rows with
  | nil => simp
  | cons row rows ih =>
    obtain ⟨start,len⟩ := row
    by_cases used : start = 0
    · subst used; rw [regions_zero]; simp
    · rw [regions_cons len rows used]; simpa using ih

theorem regions_row {rows : List (UInt32 × UInt8)} (tidy : Tidy rows) {k : Nat} {r : UInt32 × UInt8}
    (at_k : rows[k]? = some r) (used : r.1 ≠ 0) : (regions rows)[k]? = some ⟨r.1.toNat,r.2.toNat⟩ := by
  have inside : k < (regions rows).length := by
    by_contra far
    have later : (rows.drop (regions rows).length)[k - (regions rows).length]? = some r := by
      rw [List.getElem?_drop,Nat.add_sub_cancel' (by omega)]
      exact at_k
    exact used (tidy r (List.mem_of_getElem? later))
  unfold regions at inside ⊢
  rw [List.length_map] at inside
  rw [List.getElem?_map,List.getElem?_eq_getElem inside,(List.takeWhile_prefix _).getElem inside,Option.map_some,
    (List.getElem?_eq_some_iff.mp at_k).2]

theorem regions_set {rows : List (UInt32 × UInt8)} (tidy : Tidy rows) (start : UInt32) (len : UInt8)
    (used : start ≠ 0) (room : (regions rows).length < rows.length) :
    regions (rows.set (regions rows).length (start,len)) = regions rows ++ [⟨start.toNat,len.toNat⟩] ∧
      Tidy (rows.set (regions rows).length (start,len)) := by
  induction rows with
  | nil => simp at room
  | cons row rows ih =>
    obtain ⟨start',len'⟩ := row
    by_cases used' : start' = 0
    · subst used'
      unfold Tidy at tidy
      rw [regions_zero] at tidy ⊢
      have rest : regions rows = [] := by
        cases rows with
        | nil => rfl
        | cons next rows =>
          have zero := tidy next (by simp)
          obtain ⟨start'',len''⟩ := next
          dsimp only at zero
          subst zero; exact regions_zero _ _
      simp only [List.length_nil,List.set_cons_zero,List.nil_append]
      refine ⟨by rw [regions_cons len rows used,rest],?_⟩
      unfold Tidy
      rw [regions_cons len rows used,rest]
      intro r member
      exact tidy r (by simpa using Or.inr member)
    · have inner : Tidy rows := by
        unfold Tidy at tidy ⊢
        rw [regions_cons len' rows used'] at tidy
        simpa using tidy
      have less : (regions rows).length < rows.length := by
        rw [regions_cons len' rows used'] at room; simpa using room
      obtain ⟨equal,next⟩ := ih inner less
      rw [regions_cons len' rows used']
      simp only [List.length_cons,List.set_cons_succ]
      refine ⟨by rw [regions_cons len' _ used',equal]; rfl,?_⟩
      unfold Tidy at next ⊢
      rw [regions_cons len' _ used']
      simpa using next

theorem regions_replicate (n : Nat) (lens : List UInt8) : regions ((List.replicate n 0).zip lens) = [] := by
  cases n with
  | zero => rfl
  | succ n =>
    cases lens with
    | nil => rfl
    | cons len lens => simp [List.replicate_succ,regions_zero]

theorem tidy_replicate (n : Nat) (lens : List UInt8) : Tidy ((List.replicate n 0).zip lens) := by
  intro r member
  obtain ⟨start,len⟩ := r
  exact List.eq_of_mem_replicate (List.of_mem_zip (List.mem_of_mem_drop member)).1

theorem address (start : UInt32) {b n : Nat} (le : n ≤ b) :
    start + UInt32.ofNat b - UInt32.ofNat n = UInt32.ofNat (start.toNat + (b - n)) := by
  have split : UInt32.ofNat b = UInt32.ofNat (b - n) + UInt32.ofNat n := by
    rw [← UInt32.ofNat_add]; congr 1; omega
  rw [UInt32.ofNat_add,UInt32.ofNat_toNat,split,← UInt32.add_assoc,UInt32.add_sub_cancel]

theorem findBlk_eq (rows : List (UInt32 × UInt8)) {b n : Nat} (le : n ≤ b) :
    findBlk rows b n = (((blocks (regions rows))[b - n]?).map UInt32.ofNat).getD 0 := by
  induction rows generalizing n with
  | nil => simp [findBlk]
  | cons row rows ih =>
    obtain ⟨start,len⟩ := row
    unfold findBlk
    by_cases used : start = 0
    · subst used; rw [regions_zero]; simp
    · rw [if_pos used,regions_cons len rows used,getElem?_blocks_cons]
      dsimp only
      by_cases inside : b < n + len.toNat
      · rw [if_pos inside,if_pos (by omega),address start le]; rfl
      · rw [if_neg inside,if_neg (by omega),ih (by omega)]
        congr 3
        omega

theorem iblockScan_eq (rows : List (UInt32 × UInt8)) (ibindex : UInt32) {i n : Nat} (le : n ≤ ibindex.toNat) :
    iblockScan rows (i + rows.length) i n ibindex =
      match (blocks (regions rows))[ibindex.toNat - n]? with
      | some b => .found (UInt32.ofNat b)
      | none => .stop (i + (regions rows).length) := by
  induction rows generalizing i n with
  | nil => simp [iblockScan]
  | cons row rows ih =>
    obtain ⟨start,len⟩ := row
    unfold iblockScan
    by_cases used : start = 0
    · subst used; rw [regions_zero]; simp
    · have below : i < i + ((start,len) :: rows).length := by simp
      rw [if_pos ⟨below,used⟩,regions_cons len rows used,getElem?_blocks_cons]
      dsimp only
      by_cases inside : ibindex.toNat < n + len.toNat
      · rw [if_pos inside,if_pos (by omega)]
        have equal := address start le
        rw [UInt32.ofNat_toNat] at equal
        simp only [equal]
      · rw [if_neg inside,if_neg (by omega)]
        have step := ih (i := i + 1) (n := n + len.toNat) (by omega)
        have length : i + 1 + rows.length = i + ((start,len) :: rows).length := by simp; omega
        have place : i + 1 + (regions rows).length = i + (⟨start.toNat,len.toNat⟩ :: regions rows).length := by
          simp; omega
        have rest : ibindex.toNat - (n + len.toNat) = ibindex.toNat - n - len.toNat := by omega
        rw [length,rest,place] at step
        exact step

theorem growSlot_eq (rows : List (UInt32 × UInt8)) (i : Nat) : growSlot rows i = i + (regions rows).length := by
  induction rows generalizing i with
  | nil => rfl
  | cons row rows ih =>
    obtain ⟨start,len⟩ := row
    unfold growSlot
    by_cases used : start = 0
    · subst used; rw [regions_zero]; simp
    · rw [if_pos used,ih,regions_cons len rows used]; simp; omega

-- The place of entry `eof` in a directory that starts to be scanned behind n blocks.
theorem slotScan_eq (rows : List (UInt32 × UInt8)) (eof : UInt32) (i : Nat) (n : UInt32)
    (le : 128 * n.toNat ≤ eof.toNat) (small : n.toNat + 255 * rows.length < 33554432) :
    match (blocks (regions rows))[eof.toNat / 128 - n.toNat]? with
    | some b => ∃ k m start len, slotScan rows eof i n = .found (i + k) m ∧ rows[k]? = some (start,len) ∧
        start + eof / 128 - m = UInt32.ofNat b
    | none => slotScan rows eof i n = .stop (i + (regions rows).length) := by
  induction rows generalizing i n with
  | nil => simp [slotScan]
  | cons row rows ih =>
    obtain ⟨start,len⟩ := row
    have len_lt := len.toNat_lt
    simp only [List.length_cons] at small
    by_cases used : start = 0
    · subst used; rw [regions_zero]; simp [slotScan]
    · have b_eq : (n + len.toUInt32).toNat = n.toNat + len.toNat := by
        rw [UInt32.toNat_add,UInt8.toNat_toUInt32,Nat.mod_eq_of_lt (by omega)]
      have scaled : ((n + len.toUInt32) * 128).toNat = (n.toNat + len.toNat) * 128 := by
        rw [UInt32.toNat_mul,b_eq]
        exact Nat.mod_eq_of_lt (by show _ * 128 < 4294967296; omega)
      rw [regions_cons len rows used,getElem?_blocks_cons]
      unfold slotScan
      rw [if_pos used]
      dsimp only
      by_cases inside : eof < (n + len.toUInt32) * 128
      · have under : eof.toNat < (n.toNat + len.toNat) * 128 := by
          rw [← scaled]; exact UInt32.lt_iff_toNat_lt.mp inside
        rw [if_pos (show eof.toNat / 128 - n.toNat < len.toNat by omega),if_pos inside]
        refine ⟨0,n,start,len,rfl,rfl,?_⟩
        have quotient : eof / 128 = UInt32.ofNat (eof.toNat / 128) := by
          apply UInt32.toNat_inj.mp
          have := eof.toNat_lt
          rw [UInt32.toNat_div]
          simp only [UInt32.toNat_ofNat',UInt32.reduceToNat]
          omega
        have whole := address start (b := eof.toNat / 128) (n := n.toNat) (by omega)
        rw [UInt32.ofNat_toNat] at whole
        rw [quotient,whole]
      · have more : (n.toNat + len.toNat) * 128 ≤ eof.toNat := by
          rw [← scaled]
          exact Nat.le_of_not_lt fun h => inside (UInt32.lt_iff_toNat_lt.mpr h)
        rw [if_neg (show ¬ eof.toNat / 128 - n.toNat < len.toNat by omega),if_neg inside]
        have step := ih (i + 1) (n + len.toUInt32) (by rw [b_eq]; omega) (by rw [b_eq]; omega)
        rw [b_eq] at step
        have rest : eof.toNat / 128 - (n.toNat + len.toNat) = eof.toNat / 128 - n.toNat - len.toNat := by omega
        rw [rest] at step
        split at step <;> rename_i found
        · obtain ⟨k,m,start',len',scan,at_k,equal⟩ := step
          exact ⟨k + 1,m,start',len',by rw [scan]; congr 1; omega,by simpa using at_k,equal⟩
        · rw [step]
          simp; omega

theorem Inode.rows_getElem? (n : Inode) {i : Nat} (h : i < 23) : n.rows[i]? = some (n.regStart[i],n.regLen[i]) := by
  simp [Inode.rows,h]

@[simp] theorem Inode.length_rows (n : Inode) : n.rows.length = 23 := by simp [Inode.rows]
@[simp] theorem HBlock.length_rows (h : HBlock) : h.rows.length = 800 := by simp [HBlock.rows]

theorem rows_set {m : Nat} (starts : Vector UInt32 m) (lens : Vector UInt8 m) (i : Nat) (start : UInt32) (len : UInt8) :
    ((starts.setIfInBounds i start).zip (lens.setIfInBounds i len)).toList =
      ((starts.zip lens).toList).set i (start,len) := by
  apply List.ext_getElem
  · simp
  · intro k h₁ h₂
    simp only [Vector.getElem_toList,Vector.getElem_zip,List.getElem_set,Vector.getElem_setIfInBounds]
    split <;> rfl

theorem Inode.blk_some {n : Inode} {q b : Nat} (at_q : (blocks n.regs)[q]? = some b) : n.blk q = UInt32.ofNat b := by
  have found := findBlk_eq n.rows (b := q) (n := 0) (Nat.zero_le _)
  have at_q' : (blocks (regions n.rows))[q - 0]? = some b := at_q
  rw [at_q'] at found
  exact found

theorem Inode.blk_none {n : Inode} {q : Nat} (beyond : total n.regs ≤ q) : n.blk q = 0 := by
  have found := findBlk_eq n.rows (b := q) (n := 0) (Nat.zero_le _)
  have none : (blocks (regions n.rows))[q - 0]? = none := by
    refine List.getElem?_eq_none ?_
    rw [length_blocks]; exact beyond
  rw [none] at found
  exact found

end ArchiveOs.Fs2
