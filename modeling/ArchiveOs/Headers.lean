import ArchiveOs.Formats

-- What fs2_load_volume lets in. It looks at the first eight bytes of block 0 only, and
-- the loops over the header trust the rest.
namespace ArchiveOs.Fs2
open Layout

-- The loop of fs2_find_free_region: the indices that it looks at from i on, if it has
-- ended after so many rounds.
def freeScan : (rounds : Nat) → (i : Int) → Option (List Int)
  | 0,_ => none
  | rounds + 1,i => if i < 800 then (freeScan rounds (i - 1)).map (i :: ·) else some []

-- The loop of fs2_get_iblock: the indices that its condition looks at. `row` is what
-- the memory holds as row i, in the table and behind it.
def iblockLooks (row : Nat → UInt32 × UInt8) (separator : Nat) (ibindex : UInt32) : (rounds i n : Nat) → List Nat
  | 0,_,_ => []
  | rounds + 1,i,n =>
    if i < separator then
      i :: if (row i).1 = 0 ∨ ibindex.toNat < n + (row i).2.toNat then []
        else iblockLooks row separator ibindex rounds (i + 1) (n + (row i).2.toNat)
    else []

def HBlock.row (h : HBlock) (behind : Nat → UInt32 × UInt8) (i : Nat) : UInt32 × UInt8 := h.rows[i]?.getD (behind i)

theorem iblockScan_outside (rows : List (UInt32 × UInt8)) (behind : Nat → UInt32 × UInt8) (separator : Nat)
    (ibindex : UInt32) (rounds : Nat) {i : Nat} (n : Nat) (enough : separator ≤ i + rounds) (inside : i ≤ rows.length) :
    iblockScan (rows.drop i) separator i n ibindex = .outside ↔
      ∃ k ∈ iblockLooks (fun i => rows[i]?.getD (behind i)) separator ibindex rounds i n,rows.length ≤ k := by
  induction rounds generalizing i n with
  | zero =>
      have past : ¬ i < separator := by omega
      have stops : iblockScan (rows.drop i) separator i n ibindex = .stop i := by
        cases rows.drop i with
        | nil => exact if_neg past
        | cons r rest => exact if_neg fun all => past all.1
      rw [stops]
      constructor
      · intro wrong
        cases wrong
      · rintro ⟨k,member,_⟩
        cases member
  | succ rounds ih =>
      unfold iblockLooks
      by_cases before : i < separator
      · rw [if_pos before]
        rcases Nat.lt_or_eq_of_le inside with less | last
        · have row : rows[i]?.getD (behind i) = rows[i] := by rw [List.getElem?_eq_getElem less,Option.getD_some]
          rw [List.drop_eq_getElem_cons less]
          simp only [row]
          unfold iblockScan
          by_cases used : rows[i].1 = 0
          · rw [if_neg fun all => all.2 used,if_pos (.inl used)]
            constructor
            · intro wrong
              cases wrong
            · rintro ⟨k,member,far⟩
              rw [List.mem_singleton] at member
              omega
          · rw [if_pos ⟨before,used⟩]
            by_cases found : ibindex.toNat < n + rows[i].2.toNat
            · rw [if_pos found,if_pos (.inr found)]
              constructor
              · intro wrong
                cases wrong
              · rintro ⟨k,member,far⟩
                rw [List.mem_singleton] at member
                omega
            · have goes : ¬ (rows[i].1 = 0 ∨ ibindex.toNat < n + rows[i].2.toNat) := fun either => either.elim used found
              rw [if_neg found,if_neg goes]
              rw [ih (n + rows[i].2.toNat) (by omega) less]
              constructor
              · rintro ⟨k,member,far⟩
                exact ⟨k,List.mem_cons_of_mem i member,far⟩
              · rintro ⟨k,member,far⟩
                rcases List.mem_cons.mp member with rfl | later
                · omega
                · exact ⟨k,later,far⟩
        · subst last
          rw [List.drop_length]
          exact ⟨fun _ => ⟨rows.length,List.mem_cons_self ..,Nat.le_refl _⟩,fun _ => if_pos before⟩
      · rw [if_neg before]
        have stops : iblockScan (rows.drop i) separator i n ibindex = .stop i := by
          cases rows.drop i with
          | nil => exact if_neg before
          | cons r rest => exact if_neg fun all => before all.1
        rw [stops]
        constructor
        · intro wrong
          cases wrong
        · rintro ⟨k,member,_⟩
          cases member

theorem iblockScan_full (rows : List (UInt32 × UInt8)) {separator : Nat} (full : ∀ r ∈ rows,r.1 ≠ 0) (i n : Nat)
    (past : i + rows.length < separator) {ibindex : UInt32}
    (none : n + (rows.map fun r => r.2.toNat).sum ≤ ibindex.toNat) :
    iblockScan rows separator i n ibindex = .outside := by
  induction rows generalizing i n with
  | nil => exact if_pos past
  | cons r rows ih =>
      rw [List.length_cons] at past
      rw [List.map_cons,List.sum_cons] at none
      unfold iblockScan
      rw [if_pos ⟨by omega,full r (List.mem_cons_self ..)⟩,if_neg (by omega)]
      exact ih (fun r' member => full r' (List.mem_cons_of_mem r member)) (i + 1) _ (by omega) (by omega)

theorem iblockScan_inside (rows : List (UInt32 × UInt8)) {separator i : Nat} (n : Nat) (ibindex : UInt32)
    (ends : separator ≤ i + rows.length ∨ ∃ r ∈ rows,r.1 = 0) :
    iblockScan rows separator i n ibindex ≠ .outside := by
  induction rows generalizing i n with
  | nil =>
      rcases ends with short | ⟨r,member,_⟩
      · unfold iblockScan
        rw [if_neg (by rw [List.length_nil] at short; omega)]
        exact fun wrong => (by cases wrong)
      · cases member
  | cons r rows ih =>
      unfold iblockScan
      by_cases goes : i < separator ∧ r.1 ≠ 0
      · rw [if_pos goes]
        by_cases found : ibindex.toNat < n + r.2.toNat
        · rw [if_pos found]
          exact fun wrong => (by cases wrong)
        · rw [if_neg found]
          refine ih (n + r.2.toNat) ?_
          rcases ends with short | ⟨r',member,unused⟩
          · rw [List.length_cons] at short
            exact .inl (by omega)
          · rcases List.mem_cons.mp member with rfl | later
            · exact (goes.2 unused).elim
            · exact .inr ⟨r',later,unused⟩
      · rw [if_neg goes]
        exact fun wrong => (by cases wrong)

namespace Mount

-- Both functions end, and use no index outside of the tables.
structure Safe (s : Mount) : Prop where
  free : ∃ rounds looks,freeScan rounds s.vol.hblock.separator.toNat = some looks ∧ ∀ i ∈ looks,0 ≤ i ∧ i < 800
  looks : ∀ behind ibindex,∀ i ∈ iblockLooks (s.vol.hblock.row behind) s.vol.hblock.separator.toNat ibindex
    s.vol.hblock.separator.toNat 0 0,i < 800
  region : ∀ rsz save,findFreeRegion s rsz save ≠ none
  iblock : ∀ ibindex saveH,getIblock s ibindex saveH ≠ none

end Mount

def HBlock.Closed (h : HBlock) : Prop := h.separator = 800 ∨ 800 < h.separator ∧ ∃ r ∈ h.rows,r.1 = 0

namespace Mount
variable {s : Mount}

theorem findFreeRegion_ends (rsz : UInt8) (save : Bool) :
    findFreeRegion s rsz save ≠ none ↔ 800 ≤ s.vol.hblock.separator.toNat := by
  unfold findFreeRegion
  by_cases below : s.vol.hblock.separator.toNat < 800
  · rw [if_pos below]
    exact ⟨fun wrong => (wrong rfl).elim,fun above => by omega⟩
  · rw [if_neg below]
    refine ⟨fun _ => by omega,fun _ => ?_⟩
    dsimp only
    split
    · exact fun wrong => (by cases wrong)
    · cases save <;> exact fun wrong => (by cases wrong)

theorem getIblock_ends (ibindex : UInt32) (saveH : Bool) (above : 800 ≤ s.vol.hblock.separator.toNat)
    (inside : iblockScan s.vol.hblock.rows s.vol.hblock.separator.toNat 0 0 ibindex ≠ .outside) :
    getIblock s ibindex saveH ≠ none := by
  cases scan : iblockScan s.vol.hblock.rows s.vol.hblock.separator.toNat 0 0 ibindex with
  | outside => exact (inside scan).elim
  | found ibaddr =>
      unfold getIblock
      simp only [scan]
      split <;> exact fun wrong => (by cases wrong)
  | stop i =>
      unfold getIblock
      simp only [scan]
      split
      · exact fun wrong => (by cases wrong)
      · obtain ⟨r,found⟩ := Option.ne_none_iff_exists'.mp
          ((findFreeRegion_ends s.vol.hblock.defaultIregLen false).mpr above)
        rw [found]
        dsimp only [Option.bind_eq_bind,Option.bind_some]
        split
        · exact fun wrong => (by cases wrong)
        · cases saveH <;> exact fun wrong => (by cases wrong)

theorem safe_iff : s.Safe ↔ s.vol.hblock.Closed := by
  have length := HBlock.length_rows s.vol.hblock
  have limit : (800 : UInt16).toNat = 800 := rfl
  constructor
  · intro safe
    have above := (findFreeRegion_ends 0 false).mp (safe.region 0 false)
    rcases Nat.lt_or_eq_of_le above with larger | equal
    · refine .inr ⟨UInt16.lt_iff_toNat_lt.mpr larger,?_⟩
      by_contra full
      have outside : iblockScan s.vol.hblock.rows s.vol.hblock.separator.toNat 0 0 minusOne = .outside := by
        refine iblockScan_full _ (fun r member zero => full ⟨r,member,zero⟩) 0 0 (by omega) ?_
        have most : (s.vol.hblock.rows.map fun r => r.2.toNat).sum ≤ s.vol.hblock.rows.length * 255 := by
          refine le_of_le_of_eq (List.sum_le_card_nsmul _ 255 ?_) (by rw [List.length_map,smul_eq_mul])
          intro x member
          obtain ⟨r,_,rfl⟩ := List.mem_map.mp member
          exact Nat.le_of_lt_succ r.2.toNat_lt
        have top : minusOne.toNat = 4294967295 := rfl
        omega
      refine safe.iblock minusOne false ?_
      unfold getIblock
      simp only [outside]
    · exact .inl (UInt16.toNat_inj.mp equal.symm)
  · intro closed
    have above : 800 ≤ s.vol.hblock.separator.toNat := by
      rcases closed with equal | ⟨larger,_⟩
      · rw [equal,limit]
      · exact Nat.le_of_lt (UInt16.lt_iff_toNat_lt.mp larger)
    have inside : ∀ ibindex,iblockScan s.vol.hblock.rows s.vol.hblock.separator.toNat 0 0 ibindex ≠ .outside := by
      intro ibindex
      refine iblockScan_inside _ 0 ibindex ?_
      rcases closed with equal | ⟨_,unused⟩
      · exact .inl (by rw [equal,limit]; omega)
      · exact .inr unused
    refine ⟨⟨1,[],if_neg (by omega),fun i member => (by cases member)⟩,?_,fun rsz save => (findFreeRegion_ends rsz save).mpr above,
      fun ibindex saveH => getIblock_ends ibindex saveH above (inside ibindex)⟩
    intro behind ibindex i member
    by_contra far
    have scan := iblockScan_outside s.vol.hblock.rows behind s.vol.hblock.separator.toNat ibindex
      s.vol.hblock.separator.toNat 0 (i := 0) (by omega) (Nat.zero_le _)
    exact inside ibindex (scan.mpr ⟨i,member,by omega⟩)

theorem loaded_safe_iff (s : Mount) : (loadVolume s).Safe ↔ (loadVolume s).vol.hblock.Closed := safe_iff

def bareDisk : Disk := {zeroDisk with blk := fun _ => headerLayout {zeroHeader with ident := cwfsIdent}}

theorem accepted_not_safe : ¬ ∀ s,(loadVolume s).vol.outcome = .success → (loadVolume s).Safe := by
  intro all
  have loaded : loadVolume ⟨zeroVolume,bareDisk⟩ = ⟨{zeroVolume with
      hblock := {zeroHeader with ident := cwfsIdent},icindex := minusOne,dcaddr := minusOne,xcaddr := minusOne},
      {bareDisk with trace := [.rd 0 .hblock true]}⟩ := by
    simp [loadVolume,rblk,Disk.rd,bareDisk,zeroDisk,zeroVolume,withHblock,out]
  have safe := all ⟨zeroVolume,bareDisk⟩ (by rw [loaded]; rfl)
  rw [loaded] at safe
  exact safe.region 0 false rfl

end Mount
end ArchiveOs.Fs2
