import ArchiveOs.Stores

-- Writing bytes to a file and reading them back.
namespace ArchiveOs.Fs2
open Extents Layout

namespace Image
variable {m : Image} {i : Nat}

theorem writeAt_error {nbytes cursor : UInt32} {flen : UInt8} {e : Outcome} (h : i < m.nodes.length)
    (failed : m.writeAt i nbytes cursor = .error e) :
    (m.growing i).fill 23 m.nblocks (growths nbytes cursor flen) (cursor.toNat / 4096) = (m.growing i,[]) := by
  have asked := blkOrGrow_ask h (cursor.toNat / 4096) (growLen nbytes).toNat
  cases ask : (m.growing i).ask 23 m.nblocks (cursor.toNat / 4096) (growLen nbytes).toNat with
  | none => exact Growing.fill_none _ ask
  | some r =>
      obtain ⟨g,b⟩ := r
      rw [ask] at asked
      obtain ⟨m₁,found,_⟩ := asked
      have found' : m.blkOrGrow i (cursor.toNat / blockSz) (growLen nbytes).toNat = .ok (m₁,b) := found
      unfold Image.writeAt at failed
      dsimp only at failed
      rw [found'] at failed
      dsimp only at failed
      split at failed
      · cases failed
      · split at failed
        · cases failed
        · cases failed

theorem length_growths (nbytes cursor : UInt32) (flen : UInt8) : (growths nbytes cursor flen).length =
    1 + fullBlocks nbytes cursor + if write1 nbytes cursor + 4096 * fullBlocks nbytes cursor = nbytes.toNat then 0 else 1 := by
  have shape : growths nbytes cursor flen = (growLen nbytes).toNat :: (fullLens nbytes (fullBlocks nbytes cursor)
    (write1 nbytes cursor) ++ if write1 nbytes cursor + 4096 * fullBlocks nbytes cursor = nbytes.toNat then []
      else [flen.toNat]) := rfl
  rw [shape,List.length_cons,List.length_append,length_fullLens]
  split
  · simp only [List.length_nil]; omega
  · simp only [List.length_singleton]; omega

theorem Laying.ends {nbytes cursor : UInt32} {flen : UInt8} {g : Growing} {got : List Nat} {w : Written}
    (laying : Laying m i nbytes cursor (g,got) w) (le : got.length ≤ (growths nbytes cursor flen).length)
    (some : 0 < nbytes.toNat) : 0 < w.wcount ∧ cursor.toNat + w.wcount ≤ 4096 * (cursor.toNat / 4096 + got.length) ∧
      4096 * (cursor.toNat / 4096 + got.length - 1) < cursor.toNat + w.wcount := by
  have count := laying.count
  have started := laying.started
  have full := full_le nbytes cursor
  have first : write1 nbytes cursor = nbytes.toNat ∨ write1 nbytes cursor = 4096 - cursor.toNat % 4096 := by
    unfold write1
    omega
  have reach : write1 nbytes cursor ≤ 4096 - cursor.toNat % 4096 := Nat.min_le_right _ _
  rw [length_growths] at le
  dsimp only at count started
  split at le
  · refine ⟨by omega,by omega,by omega⟩
  · refine ⟨by omega,by omega,by omega⟩

end Image

namespace Mount

-- fs2_write and fs2_read agree on the file i of a path: what has been written stands behind
-- the first `cursor` bytes, ends the file and is read back.
def RoundTrip (s : Mount) (path : Path) (i : Nat) (src : Nat → UInt8) (nbytes cursor : UInt32) : Prop :=
  ∀ (s' : Mount) (m : Nat),write s path src nbytes cursor = some (s',(m : Int)) → 0 < m →
    s'.data i = (s.data i).take cursor.toNat ++ (List.range m).map src ∧
    (s'.image.node i).eof = cursor.toNat + m ∧
    ∃ s'',read s' path (UInt32.ofNat m) cursor = some (s'',(m : Int),(List.range m).map src)

def NoWaste (s : Mount) (i : Nat) (nbytes cursor : UInt32) : Prop :=
  NoEmptyRegion (growths nbytes cursor s.vol.hblock.defaultFregLen) (cursor.toNat / 4096) (s.image.size i)
    (23 - (s.image.node i).regs.length) (s.image.nblocks - s.image.nextBlock)

def Room (s : Mount) (i : Nat) (nbytes cursor : UInt32) : Prop :=
  Granted (growths nbytes cursor s.vol.hblock.defaultFregLen) (cursor.toNat / 4096) (s.image.size i)
    (23 - (s.image.node i).regs.length) (s.image.nblocks - s.image.nextBlock)

end Mount

def beforeLast (nbytes cursor : UInt32) : Nat := Image.write1 nbytes cursor + 4096 * Image.fullBlocks nbytes cursor

def TailRepeats (src : Nat → UInt8) (nbytes cursor : UInt32) : Prop :=
  ∀ k,beforeLast nbytes cursor + k < nbytes.toNat → src k = src (beforeLast nbytes cursor + k)

namespace Mount

structure Target (s : Mount) (path : Path) (i : Nat) (cursor : UInt32) : Prop where
  valid : s.Valid
  works : s.disk.Works
  found : ∃ q,s.image.resolve path.bytes = .ok (i,q)
  file : (s.image.node i).ftype = ftypeFile
  enough : (s.image.node i).Enough
  inside : cursor.toNat ≤ (s.image.node i).eof

section Target
variable {s : Mount} {path : Path} {i : Nat} {nbytes cursor : UInt32}

theorem Target.exist (target : s.Target path i cursor) : i < s.image.nodes.length := by
  obtain ⟨q,found⟩ := target.found
  exact ((Image.resolve_attached target.valid.good found).alive target.valid.good).1

theorem Target.bound (target : s.Target path i cursor) : cursor.toNat ≤ 4096 * s.image.size i :=
  target.inside.trans target.enough

theorem Target.near (target : s.Target path i cursor) : cursor.toNat / 4096 ≤ total (s.image.growing i).regs := by
  have bound := target.bound
  have same : s.image.size i = total (s.image.growing i).regs := rfl
  omega

theorem Target.slot (target : s.Target path i cursor) : (s.image.growing i).regs.length ≤ 23 := by
  have exist := target.exist
  rw [image_length] at exist
  have short := regions_length_le (s.inode i).rows
  rw [Inode.length_rows] at short
  have regs : (s.image.growing i).regs = (s.inode i).regs := by
    show (s.image.node i).regs = _
    rw [image_node s exist]
    rfl
  rw [regs]
  exact short

theorem Target.behind (target : s.Target path i cursor) : (s.image.growing i).Behind := fun b member =>
  (target.valid.ok.packed.within (some i) b member).2

theorem Target.writes (target : s.Target path i cursor) (nbytes : UInt32) (src : Nat → UInt8) :
    ∃ s' r,write s path src nbytes cursor = some (s',r) ∧
      match s.image.writeAt i nbytes cursor with
      | .error _ => r = 0
      | .ok w => r = w.wcount ∧ s'.Valid ∧ s'.disk.Works ∧ s.image.Grows s'.image ∧
          s'.image = w.image.setNode i {w.image.node i with eof := (cursor + UInt32.ofNat w.wcount).toNat} ∧
          ∀ b,s.image.FileBlock b → s'.at b = w.stores src s.at b := by
  obtain ⟨q,found⟩ := target.found
  obtain ⟨s',r,run,ended⟩ := write_spec target.valid target.works.sound path src nbytes cursor fun _ t => target.works.reads t _
  refine ⟨s',r,run,?_⟩
  have plain : ¬ (s.image.node i).ftype ≠ ftypeFile := not_not.mpr target.file
  rcases ended with ⟨written,result,_⟩ | ⟨halted,_⟩
  · have image := written.image
    have bytes := written.bytes
    unfold Image.write at image result
    unfold Image.stores at bytes
    rw [found] at image result bytes
    dsimp only at image result bytes
    rw [if_neg plain] at image result
    cases wrote : s.image.writeAt i nbytes cursor with
    | error e =>
        rw [wrote] at result
        exact congrArg Prod.snd result
    | ok w =>
        rw [wrote] at image result
        refine ⟨congrArg Prod.snd result,written.valid,Works.dev target.works written.toDev,written.grows,image,?_⟩
        intro b f
        have byte := bytes b f
        rw [if_neg plain,wrote] at byte
        exact byte
  · exact (Works.not_faulty target.works halted.faulty).elim

-- Without waste: the blocks of the file and what stands in them afterwards.
structure Lands (s s' : Mount) (i : Nat) (nbytes cursor : UInt32) (src : Nat → UInt8) (m : Nat) : Prop where
  eof : (s'.image.node i).eof = cursor.toNat + m
  enough : (s'.image.node i).Enough
  byte : ∀ x,x < cursor.toNat + m → (s'.data i)[x]? = if x < cursor.toNat then (s.data i)[x]?
    else some (src (Image.sourceOf nbytes cursor (x - cursor.toNat)))

theorem Target.filled (target : s.Target path i cursor) (nowaste : s.NoWaste i nbytes cursor) :
    Growing.Filled (s.image.growing i)
      ((s.image.growing i).fill 23 s.image.nblocks (growths nbytes cursor s.vol.hblock.defaultFregLen) (cursor.toNat / 4096)).1
      (cursor.toNat / 4096)
      ((s.image.growing i).fill 23 s.image.nblocks (growths nbytes cursor s.vol.hblock.defaultFregLen) (cursor.toNat / 4096)).2 :=
  Growing.filled_of_steady target.near target.behind target.slot target.valid.ok.upper nowaste

theorem Target.laying (target : s.Target path i cursor) {w : Image.Written} (wrote : s.image.writeAt i nbytes cursor = .ok w) :
    Image.Laying s.image i nbytes cursor
      ((s.image.growing i).fill 23 s.image.nblocks (growths nbytes cursor s.vol.hblock.defaultFregLen) (cursor.toNat / 4096)) w :=
  Image.writeAt_laying target.exist rfl wrote

theorem Target.ended (target : s.Target path i cursor) {w : Image.Written} {eof : Nat} {m : Image}
    (wrote : s.image.writeAt i nbytes cursor = .ok w) (image : m = w.image.setNode i {w.image.node i with eof := eof}) :
    (m.node i).eof = eof ∧ Image.Rewritten s.image m i ∧ (m.node i).regs = (Growing.fill 23 s.image.nblocks (s.image.growing i)
      (growths nbytes cursor s.vol.hblock.defaultFregLen) (cursor.toNat / 4096)).1.regs := by
  have exist := target.exist
  have laying := target.laying wrote
  have more := Image.Rewritten.writeAt exist wrote
  have exist' : i < w.image.nodes.length := by rw [laying.length]; exact exist
  refine ⟨?_,by rw [image]; exact more.trans (.setEof exist' eof),?_⟩
  · rw [image,Image.node_setNode _ i exist',if_pos rfl]
  · rw [image,Image.node_setNode _ i exist',if_pos rfl]
    exact congrArg Growing.regs laying.growing

theorem Target.own (target : s.Target path i cursor) {m : Image} (rewritten : Image.Rewritten s.image m i) {b : Nat}
    (own : b ∈ blocks (m.node i).regs) : m.FileBlock b := by
  refine .inl ⟨i,?_,?_,own⟩
  · rw [rewritten.length_eq]
    exact target.exist
  · rw [(rewritten.node i target.exist).ftype,target.file]
    decide

theorem size_small {s : Mount} {i : Nat} (h : i < s.image.nodes.length) : total (s.image.node i).regs ≤ 5865 := by
  rw [image_length] at h
  have bound := total_regions_le (s.inode i).rows
  rw [Inode.length_rows] at bound
  rw [image_node s h]
  exact bound

theorem Target.lands (target : s.Target path i cursor) (nowaste : s.NoWaste i nbytes cursor) (some : 0 < nbytes.toNat)
    {w : Image.Written} (wrote : s.image.writeAt i nbytes cursor = .ok w) (src : Nat → UInt8) {s' : Mount} (v' : s'.Valid)
    (grows : s.image.Grows s'.image)
    (image : s'.image = w.image.setNode i {w.image.node i with eof := (cursor + UInt32.ofNat w.wcount).toNat})
    (bytes : ∀ b,s.image.FileBlock b → s'.at b = w.stores src s.at b) : Lands s s' i nbytes cursor src w.wcount := by
  have laying := target.laying wrote
  have filled := target.filled nowaste
  have le := Growing.fill_length_le 23 s.image.nblocks (s.image.growing i) (growths nbytes cursor s.vol.hblock.defaultFregLen)
    (cursor.toNat / 4096)
  obtain ⟨eof,rewritten,regs⟩ := target.ended wrote image
  generalize (s.image.growing i).fill 23 s.image.nblocks (growths nbytes cursor s.vol.hblock.defaultFregLen)
    (cursor.toNat / 4096) = r at laying filled le regs
  have room : cursor.toNat + w.wcount ≤ 4096 * total r.1.regs := by
    obtain ⟨_,reach,_⟩ := Image.Laying.ends (show Image.Laying s.image i nbytes cursor (r.1,r.2) w from laying) le some
    have started : 0 < r.2.length := laying.started
    have last := List.getElem?_eq_getElem (l := r.2) (i := r.2.length - 1) (by omega)
    have placed := (List.getElem?_eq_some_iff.mp (filled.placed _ _ last)).1
    rw [length_blocks] at placed
    omega
  have small := size_small (s := s') (i := i) (by rw [rewritten.length_eq]; exact target.exist)
  rw [regs] at small
  have eof : (s'.image.node i).eof = cursor.toNat + w.wcount := by
    rw [eof,UInt32.toNat_add,UInt32.toNat_ofNat',Nat.mod_eq_of_lt (a := w.wcount) (by omega)]
    exact Nat.mod_eq_of_lt (by omega)
  have enough : (s'.image.node i).Enough := by
    unfold Node.Enough
    rw [eof,regs]
    exact room
  refine ⟨eof,enough,fun x before => ?_⟩
  have nodup : (blocks r.1.regs).Nodup := by
    rw [← regs]
    exact v'.ok.packed.nodup (Option.some i)
  obtain ⟨b,at_x,byte⟩ := laying.byte filled nodup target.bound src s.at before
  have file' : s'.image.FileBlock b := target.own rewritten (by rw [regs]; exact List.mem_of_getElem? at_x)
  have value : (s'.data i)[x]? = (s'.at b).toList[x % 4096]? := by
    unfold Mount.data
    rw [List.getElem?_take,eof,if_pos before,regs,bytesOf_getElem? s'.at at_x]
  rw [value,bytes b (grows.fileBlock v'.ok file'),byte]
  by_cases front : x < cursor.toNat
  · have inside := target.inside
    rw [if_pos front,if_pos front]
    unfold Mount.data
    rw [List.getElem?_take,if_pos (by omega)]
  · rw [if_neg front,if_neg front]

theorem Lands.data_iff {m : Nat} {src : Nat → UInt8} (lands : Lands s s' i nbytes cursor src m) (enough : (s.image.node i).Enough)
    (inside : cursor.toNat ≤ (s.image.node i).eof) :
    s'.data i = (s.data i).take cursor.toNat ++ (List.range m).map src ↔
      ∀ k,k < m → src (Image.sourceOf nbytes cursor k) = src k := by
  have front : ((s.data i).take cursor.toNat).length = cursor.toNat := by
    rw [List.length_take,length_data enough]
    exact Nat.min_eq_left inside
  constructor
  · intro same k less
    have byte := lands.byte (cursor.toNat + k) (by omega)
    rw [if_neg (by omega),Nat.add_sub_cancel_left,same,List.getElem?_append_right (by omega),front,Nat.add_sub_cancel_left,
      List.getElem?_map,List.getElem?_range less] at byte
    exact (Option.some.inj byte).symm
  · intro same
    apply List.ext_getElem?
    intro x
    by_cases less : x < cursor.toNat + m
    · rw [lands.byte x less]
      by_cases early : x < cursor.toNat
      · rw [if_pos early,List.getElem?_append_left (by omega),List.getElem?_take,if_pos early]
      · rw [if_neg early,List.getElem?_append_right (by omega),front,List.getElem?_map,List.getElem?_range (by omega),
          same _ (by omega)]
        rfl
    · rw [List.getElem?_eq_none (by rw [length_data lands.enough,lands.eof]; omega)]
      refine (List.getElem?_eq_none ?_).symm
      rw [List.length_append,front,List.length_map,List.length_range]
      omega

theorem Target.repeats (target : s.Target path i cursor) {w : Image.Written} (wrote : s.image.writeAt i nbytes cursor = .ok w)
    (src : Nat → UInt8) : (∀ k,k < w.wcount → src (Image.sourceOf nbytes cursor k) = src k) ↔
      (s.Room i nbytes cursor → TailRepeats src nbytes cursor) := by
  have room : s.Room i nbytes cursor ↔ _ := Growing.granted_iff (g := s.image.growing i) target.slot target.valid.ok.upper
  have count := (target.laying wrote).count
  have started : 0 < _ := (target.laying wrote).started
  have full := Image.full_le nbytes cursor
  have le := Growing.fill_length_le 23 s.image.nblocks (s.image.growing i) (growths nbytes cursor s.vol.hblock.defaultFregLen)
    (cursor.toNat / 4096)
  rw [Image.length_growths] at room le
  generalize (s.image.growing i).fill 23 s.image.nblocks (growths nbytes cursor s.vol.hblock.defaultFregLen)
    (cursor.toNat / 4096) = r at room count started le
  unfold Image.sourceOf TailRepeats beforeLast
  dsimp only
  constructor
  · intro same all k less
    rw [room] at all
    have back := same (Image.write1 nbytes cursor + 4096 * Image.fullBlocks nbytes cursor + k) (by split at all <;> omega)
    rw [if_neg (by omega),Nat.add_sub_cancel_left] at back
    exact back
  · intro tail k less
    by_cases early : k < Image.write1 nbytes cursor + 4096 * Image.fullBlocks nbytes cursor
    · rw [if_pos early]
    · have all : s.Room i nbytes cursor := by
        rw [room]
        split at le <;> split <;> omega
      have back := tail all (k - (Image.write1 nbytes cursor + 4096 * Image.fullBlocks nbytes cursor)) (by omega)
      rw [if_neg early,back]
      congr 1
      omega

theorem Target.reads (target : s.Target path i cursor) {m : Nat} {src : Nat → UInt8} {w : Image.Written}
    (wrote : s.image.writeAt i nbytes cursor = .ok w) {s' : Mount} (v' : s'.Valid) (works' : s'.disk.Works)
    (image : s'.image = w.image.setNode i {w.image.node i with eof := (cursor + UInt32.ofNat w.wcount).toNat})
    (lands : Lands s s' i nbytes cursor src m)
    (data : s'.data i = (s.data i).take cursor.toNat ++ (List.range m).map src) (few : m < 4294967296) :
    ∃ s'',read s' path (UInt32.ofNat m) cursor = some (s'',(m : Int),(List.range m).map src) := by
  obtain ⟨q,found⟩ := target.found
  have exist := target.exist
  have plain : (s.image.node i).ftype ≠ ftypeDir := by rw [target.file]; decide
  obtain ⟨_,rewritten,_⟩ := target.ended wrote image
  have found' : s'.image.resolve path.bytes = .ok (i,q) := (rewritten.resolve plain exist path.bytes).trans found
  have file' : (s'.image.node i).ftype = ftypeFile := (rewritten.node i exist).ftype.trans target.file
  have count : (UInt32.ofNat m).toNat = m := by
    rw [UInt32.toNat_ofNat']
    exact Nat.mod_eq_of_lt few
  have front : ((s.data i).take cursor.toNat).length = cursor.toNat := by
    rw [List.length_take,length_data target.enough]
    exact Nat.min_eq_left target.inside
  have enough : ∀ j p,s'.image.resolve path.bytes = .ok (j,p) → (s'.image.node j).ftype = ftypeFile →
      (s'.image.node j).Enough := by
    intro j p there _
    cases found'.symm.trans there
    exact lands.enough
  obtain ⟨s'',⟨n,out⟩,run,ended⟩ := read_look v' works'.sound path (UInt32.ofNat m) cursor enough
  refine ⟨s'',?_⟩
  rw [run]
  rcases ended with ⟨_,_,result⟩ | halted
  · unfold Image.read at result
    rw [found'] at result
    dsimp only at result
    rw [if_neg (not_not.mpr file'),data,count,List.drop_append_of_le_length (by omega),List.drop_of_length_le (by omega),
      List.nil_append,List.take_of_length_le (by simp)] at result
    obtain ⟨number,bytes⟩ := Prod.mk.inj (Prod.mk.inj result).2
    rw [number,bytes,List.length_map,List.length_range]
  · exact (Works.not_faulty works' halted.faulty).elim

theorem Target.trip_iff (target : s.Target path i cursor) (nowaste : s.NoWaste i nbytes cursor) (some : 0 < nbytes.toNat)
    (src : Nat → UInt8) :
    s.RoundTrip path i src nbytes cursor ↔ (s.Room i nbytes cursor → TailRepeats src nbytes cursor) := by
  obtain ⟨s',r,run,ended⟩ := target.writes nbytes src
  cases wrote : s.image.writeAt i nbytes cursor with
  | error e =>
      rw [wrote] at ended
      dsimp only at ended
      constructor
      · intro _ room
        have all := (Growing.granted_iff (g := s.image.growing i) target.slot target.valid.ok.upper).mp room
        rw [Image.writeAt_error target.exist wrote,Image.length_growths,List.length_nil] at all
        omega
      · intro _ s₁ m run' positive
        rw [run] at run'
        obtain ⟨rfl,count⟩ := Prod.mk.inj (Option.some.inj run')
        omega
  | ok w =>
      rw [wrote] at ended
      obtain ⟨count,v',works',grows,image,bytes⟩ := ended
      have lands := target.lands nowaste some wrote src v' grows image bytes
      rw [← target.repeats wrote src,← lands.data_iff target.enough target.inside]
      have few : w.wcount ≤ nbytes.toNat := by
        have := (target.laying wrote).count
        omega
      have word := nbytes.toNat_lt
      have le := Growing.fill_length_le 23 s.image.nblocks (s.image.growing i)
        (growths nbytes cursor s.vol.hblock.defaultFregLen) (cursor.toNat / 4096)
      have started : 0 < w.wcount := (Image.Laying.ends (target.laying wrote) le some).1
      constructor
      · intro trip
        exact (trip s' w.wcount (by rw [run,count]) started).1
      · intro data s₁ m run' _
        rw [run] at run'
        obtain ⟨rfl,same⟩ := Prod.mk.inj (Option.some.inj run')
        have one : m = w.wcount := by omega
        subst one
        exact ⟨data,lands.eof,target.reads wrote v' works' image lands data (by omega)⟩

-- A write that was handed fewer blocks than it covers leaves one of them as it was.
theorem missed {bs got : List Nat} {q : Nat} (nodup : bs.Nodup) (twice : ¬ got.Nodup) (inside : q + got.length ≤ bs.length) :
    ∃ j b,j < got.length ∧ bs[q + j]? = some b ∧ b ∉ got := by
  by_contra none
  have covered : (bs.drop q).take got.length ⊆ got := by
    intro b member
    obtain ⟨j,at_j⟩ := List.getElem?_of_mem member
    rw [List.getElem?_take] at at_j
    split at at_j
    · rename_i less
      rw [List.getElem?_drop] at at_j
      by_contra other
      exact none ⟨j,b,less,at_j,other⟩
    · cases at_j
  have apart : ((bs.drop q).take got.length).Nodup :=
    (nodup.sublist (List.drop_sublist q bs)).sublist (List.take_sublist _ _)
  have length : ((bs.drop q).take got.length).length = got.length := by
    rw [List.length_take,List.length_drop]
    omega
  have perm := (List.subperm_of_subset apart covered).perm_of_length_le (by omega)
  exact twice (perm.nodup_iff.mp apart)

-- After waste no string of that length is in its place, unless the bytes of a block that was
-- missed were the right ones before.
theorem Target.nowaste_of_trips (target : s.Target path i cursor) (some : 0 < nbytes.toNat)
    (trips : ∀ src,s.RoundTrip path i src nbytes cursor) : s.NoWaste i nbytes cursor := by
  by_contra unsteady
  have wasted := Growing.wasted_of_not_steady (g := s.image.growing i) target.near target.valid.ok.upper target.slot unsteady
  cases wrote : s.image.writeAt i nbytes cursor with
  | error e =>
      rw [Image.writeAt_error target.exist wrote] at wasted
      have near := target.near
      rcases wasted with short | twice
      · dsimp only [List.length_nil] at short
        omega
      · exact twice List.nodup_nil
  | ok w =>
      have laying := target.laying wrote
      have le := Growing.fill_length_le 23 s.image.nblocks (s.image.growing i) (growths nbytes cursor s.vol.hblock.defaultFregLen)
        (cursor.toNat / 4096)
      have written : ∀ src,∃ s' : Mount,s'.Valid ∧ (s'.image.node i).regs = (Growing.fill 23 s.image.nblocks (s.image.growing i)
            (growths nbytes cursor s.vol.hblock.defaultFregLen) (cursor.toNat / 4096)).1.regs ∧
          (∀ b ∈ blocks (s'.image.node i).regs,s'.at b = w.stores src s.at b) ∧
          s'.data i = (s.data i).take cursor.toNat ++ (List.range w.wcount).map src := by
        intro src
        obtain ⟨s',r,run,ended⟩ := target.writes nbytes src
        rw [wrote] at ended
        obtain ⟨count,v',_,grows,image,bytes⟩ := ended
        obtain ⟨_,rewritten,regs⟩ := target.ended wrote image
        have started := (Image.Laying.ends laying le some).1
        exact ⟨s',v',regs,fun b own => bytes b (grows.fileBlock v'.ok (target.own rewritten own)),
          (trips src s' w.wcount (by rw [run,count]) started).1⟩
      generalize (s.image.growing i).fill 23 s.image.nblocks (growths nbytes cursor s.vol.hblock.defaultFregLen)
        (cursor.toNat / 4096) = r at laying le wasted written
      obtain ⟨started,_,reach⟩ := Image.Laying.ends (show Image.Laying s.image i nbytes cursor (r.1,r.2) w from laying) le some
      have front : ((s.data i).take cursor.toNat).length = cursor.toNat := by
        rw [List.length_take,length_data target.enough]
        exact Nat.min_eq_left target.inside
      have first : 0 < r.2.length := laying.started
      have covered : cursor.toNat / 4096 + r.2.length ≤ total r.1.regs := by
        obtain ⟨s',_,regs,_,data⟩ := written fun _ => 0
        have bound : (s'.data i).length ≤ 4096 * total r.1.regs := by
          unfold Mount.data
          rw [List.length_take,length_bytesOf,length_blocks,regs]
          exact Nat.min_le_right _ _
        rw [data,List.length_append,front,List.length_map,List.length_range] at bound
        omega
      rcases wasted with short | twice
      · exact absurd covered (Nat.not_le_of_lt short)
      · have apart : (blocks r.1.regs).Nodup := by
          obtain ⟨s',v',regs,_⟩ := written fun _ => 0
          rw [← regs]
          exact v'.ok.packed.nodup (Option.some i)
        obtain ⟨j,b,less,at_j,other⟩ := missed apart twice (by rw [length_blocks]; exact covered)
        -- The string differs from what stands there in the block that is missed.
        have place : ∃ x,cursor.toNat ≤ x ∧ x < cursor.toNat + w.wcount ∧ x / 4096 = cursor.toNat / 4096 + j :=
          ⟨max cursor.toNat (4096 * (cursor.toNat / 4096 + j)),by omega,by omega,by omega⟩
        obtain ⟨x,behind,before,block⟩ := place
        have old : ∃ o,(s.at b).toList[x % 4096]? = Option.some o :=
          ⟨_,List.getElem?_eq_getElem (by rw [Vector.length_toList]; exact Nat.mod_lt _ (by decide))⟩
        obtain ⟨o,old⟩ := old
        obtain ⟨s',_,regs,bytes,data⟩ := written fun _ => o + 1
        have kept : s'.at b = s.at b := by
          rw [bytes b (by rw [regs]; exact List.mem_of_getElem? at_j)]
          refine Image.Written.stores_other _ s.at fun p member same => ?_
          obtain ⟨k,at_k⟩ := List.getElem?_of_mem member
          have there := laying.laid.block k p at_k
          rw [same] at there
          exact other (List.mem_of_getElem? there)
        have now : (s'.data i)[x]? = Option.some (o + 1) := by
          rw [data,List.getElem?_append_right (by omega),front,List.getElem?_map,List.getElem?_range (by omega)]
          rfl
        have was : (s'.data i)[x]? = Option.some o := by
          unfold Mount.data at now ⊢
          rw [List.getElem?_take] at now ⊢
          split at now
          · rename_i inside
            rw [if_pos inside,regs,bytesOf_getElem? s'.at (by rw [block]; exact at_j),kept]
            exact old
          · cases now
        have same : o + 1 = o := Option.some.inj (now.symm.trans was)
        have wrong : (o + 1).toNat = o.toNat := congrArg UInt8.toNat same
        rw [UInt8.toNat_add] at wrong
        have word := o.toNat_lt
        have one : (1 : UInt8).toNat = 1 := rfl
        omega

-- Writing and reading give back what was written, except for the last block of a write
-- that ends in a partial one.
theorem write_read_iff (target : s.Target path i cursor) (nbytes : UInt32) :
    (nbytes.toNat = 0 ∨ s.NoWaste i nbytes cursor → ∀ src,s.RoundTrip path i src nbytes cursor ↔
      nbytes.toNat = 0 ∨ (s.Room i nbytes cursor → TailRepeats src nbytes cursor)) ∧
    ((∀ src,s.RoundTrip path i src nbytes cursor) ↔
      nbytes.toNat = 0 ∨ (s.NoWaste i nbytes cursor ∧ (s.Room i nbytes cursor → beforeLast nbytes cursor = nbytes.toNat))) := by
  by_cases empty : nbytes.toNat = 0
  · have trips : ∀ src,s.RoundTrip path i src nbytes cursor := by
      intro src s₁ m run' positive
      obtain ⟨s',r,run,ended⟩ := target.writes nbytes src
      rw [run] at run'
      obtain ⟨rfl,count⟩ := Prod.mk.inj (Option.some.inj run')
      cases wrote : s.image.writeAt i nbytes cursor with
      | error e =>
          rw [wrote] at ended
          dsimp only at ended
          omega
      | ok w =>
          rw [wrote] at ended
          have few := (target.laying wrote).count
          have length : r = w.wcount := ended.1
          omega
    exact ⟨fun _ src => ⟨fun _ => .inl empty,fun _ => trips src⟩,⟨fun _ => .inl empty,fun _ => trips⟩⟩
  · have some : 0 < nbytes.toNat := Nat.pos_of_ne_zero empty
    have full := Image.full_le nbytes cursor
    have first : 0 < Image.write1 nbytes cursor := by
      unfold Image.write1
      omega
    refine ⟨fun nowaste src => ?_,?_⟩
    · rw [target.trip_iff (nowaste.resolve_left empty) some src]
      exact ⟨.inr,fun tail => tail.resolve_left empty⟩
    · constructor
      · intro trips
        have nowaste := target.nowaste_of_trips some trips
        refine .inr ⟨nowaste,fun room => ?_⟩
        have tail := (target.trip_iff nowaste some fun k => if k = 0 then 1 else 0).mp (trips _) room
        by_contra partial_
        have wrong := tail 0 (by unfold beforeLast at *; omega)
        dsimp only at wrong
        rw [if_pos rfl,if_neg (by unfold beforeLast; omega)] at wrong
        exact absurd wrong (by decide)
      · intro condition src
        obtain ⟨nowaste,whole⟩ := condition.resolve_left empty
        rw [target.trip_iff nowaste some src]
        intro room k less
        have ends := whole room
        omega

end Target

theorem fileA_target : ∃ s : Mount,History AnyOp s ∧ s.Target fileA 1 0 ∧
    s.image = (Op.create ftypeFile fileA).apply (formatImage 100 3 4 1 2) := by
  obtain ⟨s,history,image⟩ := fileA_image
  refine ⟨s,history,⟨history.valid.1,history.valid.2,⟨some 0,?_⟩,?_,?_,Nat.zero_le _⟩,image⟩
  · rw [image]
    decide +kernel
  · rw [image]
    decide +kernel
  · unfold Node.Enough
    rw [image]
    decide +kernel

theorem write_read_new : ∃ s : Mount,History AnyOp s ∧
    (((4097 : UInt32).toNat = 0 ∨ s.NoWaste 1 4097 0 → ∀ src,s.RoundTrip fileA 1 src 4097 0 ↔
      (4097 : UInt32).toNat = 0 ∨ (s.Room 1 4097 0 → TailRepeats src 4097 0)) ∧
    ((∀ src,s.RoundTrip fileA 1 src 4097 0) ↔
      (4097 : UInt32).toNat = 0 ∨ (s.NoWaste 1 4097 0 ∧ (s.Room 1 4097 0 → beforeLast 4097 0 = (4097 : UInt32).toNat)))) := by
  obtain ⟨s,history,target,_⟩ := fileA_target
  exact ⟨s,history,write_read_iff target 4097⟩

-- The last of 4097 bytes is not what was written.
theorem tail_repeats : ¬ ∀ (s : Mount) (path : Path) (i : Nat) (src : Nat → UInt8) (nbytes cursor : UInt32),
    History AnyOp s → s.Target path i cursor → s.RoundTrip path i src nbytes cursor := by
  intro all
  obtain ⟨s,history,target,image⟩ := fileA_target
  have trip := all s fileA 1 (fun k => if k = 0 then 1 else 0) 4097 0 history target
  have regs : (s.image.node 1).regs = [] := by
    rw [image]
    decide +kernel
  have flen : s.vol.hblock.defaultFregLen = 1 := by
    have flen : s.image.flen = 1 := by
      rw [image]
      decide +kernel
    exact UInt8.toNat_inj.mp flen
  have space : 2 ≤ s.image.nblocks - s.image.nextBlock := by
    rw [image]
    decide +kernel
  have lens : growths 4097 0 1 = [2,1] := by decide +kernel
  have nowaste : s.NoWaste 1 4097 0 := by
    unfold NoWaste Image.size
    rw [flen,lens,regs]
    exact .inr (.inr ⟨by decide,trivial⟩)
  have room : s.Room 1 4097 0 := by
    unfold Room Image.size
    rw [flen,lens,regs]
    exact ⟨by decide,space,trivial⟩
  have tail := (target.trip_iff nowaste (by decide) _).mp trip room 0 (by decide +kernel)
  exact absurd tail (by decide +kernel)

end Mount
end ArchiveOs.Fs2
