import ArchiveOs.Histories
import ArchiveOs.Removes

-- What a lookup by name may take for the name, and which entries it can find at all.
namespace ArchiveOs.Fs2
open Extents Layout

-- The same device without its faults.
def Disk.calm (d : Disk) : Disk := {d with rdFails := fun _ _ => false,wrFails := fun _ _ => false}

theorem Disk.calm_works (d : Disk) : d.calm.Works := ⟨fun _ _ => rfl,fun _ _ => rfl⟩
namespace Mount

def calm (s : Mount) : Mount := ⟨s.vol,s.disk.calm⟩

-- A lookup that ends with success has met no fault.
section Calm
variable {s t : Mount}

theorem rblk_calm {a : UInt32} {x : Buffer} {b : Block} (read : rblk s a x = (t,some b)) :
    rblk s.calm a x = (t.calm,some b) := by
  by_cases bad : s.disk.rdFails s.disk.trace.length x = true
  · rw [rblk_fault bad] at read
    cases read
  · rw [rblk_ok (Bool.eq_false_iff.mpr bad)] at read
    cases read
    exact rblk_ok rfl

theorem loadDblockC_calm {a : UInt32} (success : (loadDblockC s a false).vol.outcome = .success) :
    loadDblockC s.calm a false = (loadDblockC s a false).calm := by
  by_cases miss : a ≠ s.vol.dcaddr
  · have miss' : a ≠ s.calm.vol.dcaddr := miss
    unfold loadDblockC at success ⊢
    rw [if_pos miss,if_neg Bool.false_ne_true] at success
    rw [if_pos miss,if_pos miss',if_neg Bool.false_ne_true,if_neg Bool.false_ne_true]
    cases read : rblk s a .dcache with
    | mk u found =>
        cases found with
        | none =>
            rw [read] at success
            cases success
        | some b =>
            rw [rblk_calm read]
            rfl
  · have hit : ¬ a ≠ s.calm.vol.dcaddr := miss
    unfold loadDblockC
    rw [if_neg miss,if_neg hit]
    rfl

theorem findFreeRegion_calm (s : Mount) (rsz : UInt8) :
    findFreeRegion s.calm rsz false = (findFreeRegion s rsz false).map fun r => (r.1.calm,r.2) := by
  unfold findFreeRegion
  rw [show s.calm.vol = s.vol from rfl]
  by_cases below : s.vol.hblock.separator.toNat < 800
  · rw [if_pos below,if_pos below]
    rfl
  · rw [if_neg below,if_neg below]
    by_cases full : s.vol.hblock.nextBlock + rsz.toUInt32 > s.vol.hblock.nblocks
    · rw [if_pos full,if_pos full]
      rfl
    · rw [if_neg full,if_neg full]
      rfl

theorem getIblock_calm {q : UInt32} {a : UInt32} (run : getIblock s q false = some (t,a))
    (success : t.vol.outcome = .success) : getIblock s.calm q false = some (t.calm,a) := by
  unfold getIblock at run ⊢
  simp only [show s.calm.vol = s.vol from rfl] at run ⊢
  split at run
  · cases run
  · rename_i ibaddr _
    split at run
    · cases run
      cases success
    · rename_i read
      cases run
      rw [rblk_calm read]
      rfl
  · rename_i i _
    by_cases full : i = s.vol.hblock.separator.toNat
    · rw [if_pos full] at run
      cases run
      cases success
    · rw [if_neg full] at run
      rw [if_neg full,findFreeRegion_calm]
      cases region : findFreeRegion s s.vol.hblock.defaultIregLen false with
      | none =>
          rw [region] at run
          cases run
      | some r =>
          rw [region] at run
          simp only [Option.bind_eq_bind,Option.bind_some,Bool.false_eq_true,if_false] at run
          simp only [Option.bind_eq_bind,Option.map_some,Option.bind_some,Bool.false_eq_true,if_false]
          split at run
          · rename_i zero
            cases run
            rw [if_pos zero]
          · rename_i used
            cases run
            rw [if_neg used]
            rfl

theorem getIblockC_calm {q : UInt32} (run : getIblockC s q false false = some t) (success : t.vol.outcome = .success) :
    getIblockC s.calm q false false = some t.calm := by
  unfold getIblockC at run ⊢
  simp only [show s.calm.vol = s.vol from rfl,Bool.false_eq_true,if_false] at run ⊢
  split at run
  · rename_i miss
    rw [if_pos miss]
    rw [cacheIblock_eq] at run ⊢
    obtain ⟨r,block,rfl⟩ := Option.map_eq_some_iff.mp run
    by_cases failed : r.1.vol.outcome ≠ .success
    · dsimp only at success
      rw [if_pos failed] at success
      exact (failed success).elim
    · rw [show s.calm.indexed q = (s.indexed q).calm from rfl,getIblock_calm block (not_not.mp failed)]
      dsimp only [Option.map_some]
      rw [if_neg failed]
      exact congrArg some (if_neg failed)
  · rename_i hit
    rw [if_neg hit]
    cases run
    rfl

theorem findInDirLoop_calm {dinode : Inode} {name : List UInt8} {x : UInt32} {len : Nat} (n : Nat) {k i j : Nat}
    (run : findInDirLoop dinode name len n s k i j = some (t,x)) (success : t.vol.outcome = .success) :
    findInDirLoop dinode name len n s.calm k i j = some (t.calm,x) := by
  induction n generalizing s k i j with
  | zero =>
      cases run
      cases success
  | succ n ih =>
      unfold findInDirLoop at run ⊢
      have next : ∀ {u : Mount} {i j : Nat},
          (if strncmpEq (u.entry k).name.toList name len then some (u.out .success,(u.entry k).inodeIndex)
            else findInDirLoop dinode name len n u (k + 1) i j) = some (t,x) →
          (if strncmpEq (u.calm.entry k).name.toList name len then some (u.calm.out .success,(u.calm.entry k).inodeIndex)
            else findInDirLoop dinode name len n u.calm (k + 1) i j) = some (t.calm,x) := by
        intro u i j found
        simp only [show u.calm.entry k = u.entry k from rfl]
        split at found
        · rename_i hit
          cases found
          rw [if_pos hit]
          rfl
        · rename_i miss
          rw [if_neg miss]
          exact ih found
      dsimp only at run ⊢
      by_cases boundary : k % 128 = 0
      · rw [if_pos boundary] at run ⊢
        cases row : dinode.rows[i]? with
        | none =>
            rw [row] at run
            cases run
        | some r =>
            rw [row] at run
            dsimp only at run ⊢
            by_cases failed : (loadDblockC s (r.1 + UInt32.ofNat j) false).vol.outcome ≠ .success
            · rw [if_pos failed] at run
              cases run
              exact (failed success).elim
            · rw [if_neg failed] at run
              rw [loadDblockC_calm (not_not.mp failed)]
              have fine : ¬ (loadDblockC s (r.1 + UInt32.ofNat j) false).calm.vol.outcome ≠ .success := failed
              rw [if_neg fine]
              cases after : dinode.rows[(if j + 1 = r.2.toNat then (i + 1,0) else (i,j + 1)).1]? with
              | none =>
                  rw [after] at run
                  cases run
                  cases success
              | some r' =>
                  rw [after] at run
                  dsimp only at run ⊢
                  by_cases ends : r'.1 = 0
                  · rw [if_pos ends] at run
                    cases run
                    cases success
                  · rw [if_neg ends] at run ⊢
                    exact next run
      · rw [if_neg boundary] at run ⊢
        exact next run

end Calm
end Mount

-- An entry that a lookup sees has a longer name, but the lookup has come to another one
-- before, or the inode has an entry of exactly this name too.
def Node.Distinct (n : Node) (name : List UInt8) : Prop :=
  ∀ (k : Nat) (l : Link),n.visible[k]? = some l → name <+: l.name → l.name ≠ name →
    (∃ (k' : Nat) (l' : Link),k' < k ∧ n.visible[k']? = some l' ∧ name <+: l'.name) ∨
      ∃ l' ∈ n.links,l'.name = name ∧ l'.inode = l.inode

theorem Node.find_first {n : Node} {name : List UInt8} {i : Nat} : n.find name = some i ↔
    ∃ (k : Nat) (l : Link),n.visible[k]? = some l ∧ name <+: l.name ∧ l.inode = i ∧
      ∀ (k' : Nat) (l' : Link),k' < k → n.visible[k']? = some l' → ¬ name <+: l'.name := by
  unfold Node.find
  rw [Option.map_eq_some_iff]
  constructor
  · rintro ⟨l,found,rfl⟩
    obtain ⟨hit,k,bound,here,before⟩ := List.find?_eq_some_iff_getElem.mp found
    refine ⟨k,l,List.getElem?_eq_some_iff.mpr ⟨bound,here⟩,List.isPrefixOf_iff_prefix.mp hit,rfl,?_⟩
    intro k' l' less there prefixes
    obtain ⟨bound',equal⟩ := List.getElem?_eq_some_iff.mp there
    have miss := before k' less
    rw [equal,List.isPrefixOf_iff_prefix.mpr prefixes] at miss
    cases miss
  · rintro ⟨k,l,here,hit,rfl,before⟩
    obtain ⟨bound,equal⟩ := List.getElem?_eq_some_iff.mp here
    refine ⟨l,List.find?_eq_some_iff_getElem.mpr ⟨List.isPrefixOf_iff_prefix.mpr hit,k,bound,equal,?_⟩,rfl⟩
    intro k' less
    have miss := before k' _ less (List.getElem?_eq_getElem (by omega))
    rw [Bool.not_eq_true_eq_eq_false]
    exact Bool.eq_false_iff.mpr fun yes => miss (List.isPrefixOf_iff_prefix.mp yes)

namespace Image
variable {m : Image}

theorem lookup_ok {d i : Nat} {name : List UInt8} :
    m.lookup d name = .ok i ↔ (m.node d).ftype = ftypeDir ∧ (m.node d).find name = some i := by
  unfold lookup
  by_cases dir : (m.node d).ftype = ftypeDir
  · rw [if_neg (not_not.mpr dir)]
    cases (m.node d).find name with
    | none => exact ⟨fun wrong => (nomatch wrong),fun wrong => (nomatch wrong.2)⟩
    | some j => exact ⟨fun same => ⟨dir,congrArg some (Except.ok.inj same)⟩,fun same => congrArg Except.ok (Option.some.inj same.2)⟩
  · rw [if_pos dir]
    exact ⟨fun wrong => (nomatch wrong),fun wrong => (dir wrong.1).elim⟩

theorem lookup_exact_iff {d : Nat} {name : List UInt8} (dir : (m.node d).ftype = ftypeDir) :
    (∀ i,m.lookup d name = .ok i → ∃ l ∈ (m.node d).links,l.name = name ∧ l.inode = i) ↔ (m.node d).Distinct name := by
  constructor
  · intro exact_ k l here hit longer
    by_cases first : ∃ (k' : Nat) (l' : Link),k' < k ∧ (m.node d).visible[k']? = some l' ∧ name <+: l'.name
    · exact .inl first
    · refine .inr (exact_ l.inode (lookup_ok.mpr ⟨dir,Node.find_first.mpr ⟨k,l,here,hit,rfl,?_⟩⟩))
      exact fun k' l' less there prefixes => first ⟨k',l',less,there,prefixes⟩
  · intro distinct i found
    obtain ⟨k,l,here,hit,rfl,before⟩ := Node.find_first.mp (lookup_ok.mp found).2
    by_cases longer : l.name = name
    · exact ⟨l,List.mem_of_mem_take (List.mem_of_getElem? here),longer,rfl⟩
    · rcases distinct k l here hit longer with ⟨k',l',less,there,prefixes⟩ | found'
      · exact (before k' l' less there prefixes).elim
      · exact found'

end Image

namespace Mount
variable {s : Mount}

theorem findInDirR_calm {t : Mount} {d x : UInt32} {name : List UInt8} {nchars : Nat}
    (run : findInDirR s d name nchars = some (t,x)) (success : t.vol.outcome = .success) :
    findInDirR s.calm d name nchars = some (t.calm,x) := by
  unfold findInDirR at run ⊢
  cases load : getIblockC s (d / 32) false false with
  | none =>
      rw [load] at run
      cases run
  | some u =>
      rw [load] at run
      simp only [Option.bind_eq_bind,Option.bind_some] at run
      by_cases failed : u.vol.outcome ≠ .success
      · rw [if_pos failed] at run
        cases run
        exact (failed success).elim
      · rw [if_neg failed] at run
        rw [getIblockC_calm load (not_not.mp failed)]
        simp only [Option.bind_eq_bind,Option.bind_some]
        rw [if_neg (show ¬ u.calm.vol.outcome ≠ .success from failed)]
        by_cases file : (u.cached d).ftype ≠ ftypeDir
        · rw [if_pos file] at run
          cases run
          cases success
        · rw [if_neg file] at run
          rw [if_neg (show ¬ (u.calm.cached d).ftype ≠ ftypeDir from file)]
          exact findInDirLoop_calm _ run success

theorem findInDirR_works (v : s.Valid) (works : s.disk.Works) {d : UInt32} (a : s.image.Attached d.toNat)
    (name : List UInt8) (nchars : Nat) (long : nchars ≤ name.length) (noNul : 0 ∉ name.take nchars) :
    ∃ s' r,findInDirR s d name nchars = some (s',r) ∧
      match s.image.lookup d.toNat (name.take nchars) with
      | .ok i => r.toNat = i ∧ s'.vol.outcome = .success
      | .error e => r = minusOne ∧ s'.vol.outcome = e := by
  obtain ⟨s',r,run,_,_,found⟩ := findInDirR_look v works.sound a long noNul
  rcases found with ⟨_,found⟩ | ⟨_,⟨t,x,faulty⟩,_⟩
  · exact ⟨s',r,run,found⟩
  · rw [works.reads] at faulty
    cases faulty

-- fs2_find_in_dir_r returns only indices that an entry of exactly this name has, whatever
-- fails on the way.
def FindsOnly (s : Mount) (d : UInt32) (name : List UInt8) (nchars : Nat) : Prop :=
  ∀ (disk : Disk) (s' : Mount) (x : UInt32),disk.blk = s.disk.blk →
    findInDirR ⟨s.vol,disk⟩ d name nchars = some (s',x) → s'.vol.outcome = .success →
    ∃ (k : Nat) (l : Link),k < (s.image.node d.toNat).eof ∧ (s.image.node d.toNat).links[k]? = some l ∧
      l.inode = x.toNat ∧ l.name = name.take nchars

theorem file_links {d : Nat} (file : (s.image.node d).ftype ≠ ftypeDir) : (s.image.node d).links = [] := by
  by_cases h : d < s.vol.hblock.nextInode.toNat
  · rw [s.image_node h] at file ⊢
    exact if_neg fun both => file both.1
  · rw [Image.node_ge (by rw [image_length]; omega)]
    rfl

theorem findsOnly_iff (v : s.Valid) {d : UInt32} (a : s.image.Attached d.toNat) {name : List UInt8} {nchars : Nat}
    (long : nchars ≤ name.length) (noNul : 0 ∉ name.take nchars) :
    s.FindsOnly d name nchars ↔ (s.image.node d.toNat).Distinct (name.take nchars) := by
  have calm : ∀ disk : Disk,disk.blk = s.disk.blk → ∃ s' r,findInDirR ⟨s.vol,disk.calm⟩ d name nchars = some (s',r) ∧
      match s.image.lookup d.toNat (name.take nchars) with
      | .ok i => r.toNat = i ∧ s'.vol.outcome = .success
      | .error e => r = minusOne ∧ s'.vol.outcome = e := by
    intro disk blk
    have image : (⟨s.vol,disk.calm⟩ : Mount).image = s.image := image_device s blk
    have found := findInDirR_works (v.device (d := disk.calm) blk) disk.calm_works (by rw [image]; exact a) name nchars long noNul
    rw [image] at found
    exact found
  by_cases dir : (s.image.node d.toNat).ftype = ftypeDir
  · rw [← Image.lookup_exact_iff dir]
    constructor
    · intro only i found
      obtain ⟨s',r,run,result⟩ := calm s.disk rfl
      rw [found] at result
      obtain ⟨k,l,_,here,leads,named⟩ := only s.disk.calm s' r rfl run result.2
      exact ⟨l,List.mem_of_getElem? here,named,leads.trans result.1⟩
    · intro exact_ disk s' x blk run success
      obtain ⟨t,r,run',result⟩ := calm disk blk
      have same := (findInDirR_calm run success).symm.trans run'
      cases same
      cases found : s.image.lookup d.toNat (name.take nchars) with
      | error e =>
          rw [found] at result
          have plain := Image.lookup_error found
          rw [← result.2,show s'.calm.vol = s'.vol from rfl,success] at plain
          rcases plain with wrong | wrong <;> cases wrong
      | ok i =>
          rw [found] at result
          obtain ⟨l,member,named,leads⟩ := exact_ i found
          obtain ⟨k,bound,here⟩ := List.mem_iff_getElem.mp member
          have count := (a.dirOk v.good dir).count
          exact ⟨k,l,by omega,List.getElem?_eq_some_iff.mpr ⟨bound,here⟩,leads.trans result.1.symm,named⟩
  · constructor
    · intro _ k l here
      have none := List.mem_of_mem_take (List.mem_of_getElem? here)
      rw [file_links dir] at none
      cases none
    · intro _ disk s' x blk run success
      obtain ⟨t,r,run',result⟩ := calm disk blk
      have same := (findInDirR_calm run success).symm.trans run'
      cases same
      unfold Image.lookup at result
      rw [if_pos dir] at result
      have wrong : s'.vol.outcome = .badFtype := result.2
      rw [success] at wrong
      cases wrong

-- Only a path that leads somewhere makes fs2_create say that there is such a file.
theorem createFile_outcome (m : Image) (name : List UInt8) (p : Nat) (ftype : UInt8) :
    (m.createFile name p ftype).2 ≠ .unexpectedFile := by
  unfold Image.createFile
  dsimp only
  cases need : m.needIblock with
  | error e =>
      unfold Image.needIblock at need
      split at need
      · cases need
      · split at need
        · cases need
          exact fun wrong => nomatch wrong
        · split at need
          · cases need
            exact fun wrong => nomatch wrong
          · cases need
  | ok m' =>
      dsimp only
      split
      · split <;> exact fun wrong => nomatch wrong
      · exact fun wrong => nomatch wrong

theorem create_unexpected {m : Image} {ftype : UInt8} {path : List UInt8}
    (outcome : (m.create ftype path).2 = .unexpectedFile) : ∃ r,m.resolve path = .ok r := by
  unfold Image.create at outcome
  cases found : m.resolve path with
  | ok r => exact ⟨r,rfl⟩
  | error e =>
      rw [found] at outcome
      have plain : ∀ path' e',m.resolve path' = .error e' → e' ≠ .unexpectedFile := by
        intro path' e' failed wrong
        unfold Image.resolve at failed
        split at failed
        · cases failed
        · cases walk : m.walk 0 (components false path') with
          | ok r =>
              rw [walk] at failed
              cases failed
          | error e'' =>
              rw [walk] at failed
              cases failed
              rcases Image.walk_error walk with same | same | same <;> rw [same] at wrong <;> cases wrong
      cases e with
      | noFile =>
          dsimp only at outcome
          unfold Image.createParent at outcome
          dsimp only at outcome
          split at outcome
          · cases outcome
          · split at outcome
            · exact (createFile_outcome _ _ _ _ outcome).elim
            · split at outcome
              · rename_i failed
                exact (plain _ _ failed outcome).elim
              · exact (createFile_outcome _ _ _ _ outcome).elim
      | _ => exact (plain _ _ found outcome).elim

-- A file "ab" answers to the name "a".
def fileAb : Path := ⟨[0x61,0x62],by decide⟩

theorem found_by_prefix : ¬ ∀ (s : Mount) (d : UInt32) (name : List UInt8) (nchars : Nat),History AnyOp s →
    s.image.Attached d.toNat → nchars ≤ name.length → nchars ≤ 28 → 0 ∉ name.take nchars → s.FindsOnly d name nchars := by
  intro all
  obtain ⟨s,formatted,image⟩ := formats 3 passes_boot (by decide)
  have start : History AnyOp s := .format formatted
  obtain ⟨t,_,history,after⟩ := start.next (show Op.Fits s (.create ftypeFile fileAb) from trivial) trivial
  have only := all t 0 [0x61] 1 history .root (by decide) (by decide) (by decide)
  have distinct := (findsOnly_iff history.valid.1 .root (by decide) (by decide)).mp only
  rw [after,image] at distinct
  rcases distinct 2 ⟨[0x61,0x62],1⟩ (by decide +kernel) (by decide) (by decide) with ⟨k,l,less,here,hit⟩ | ⟨l,member,named,_⟩
  · have first : ∀ k < 2,∀ l ∈ (((Op.create ftypeFile fileAb).apply (formatImage 100 3 4 1 2)).node 0).visible[k]?,
        ¬ [0x61] <+: l.name := by decide +kernel
    exact first k less l here hit
  · have none : ∀ l ∈ (((Op.create ftypeFile fileAb).apply (formatImage 100 3 4 1 2)).node 0).links,
        l.name ≠ [0x61] := by decide +kernel
    exact none l member named

-- fs2_find_in_dir_r finds something under the name of an entry.
def Finds (s : Mount) (d : UInt32) (name : List UInt8) : Prop :=
  ∀ behind,∃ s' x,findInDirR s d (name ++ behind) name.length = some (s',x) ∧ s'.vol.outcome ≠ .noFile

theorem finds_iff (v : s.Valid) (works : s.disk.Works) {d : UInt32} (a : s.image.Attached d.toNat)
    (dir : (s.image.node d.toNat).ftype = ftypeDir) {name : List UInt8} (noNul : 0 ∉ name) :
    s.Finds d name ↔ ∃ (j : Nat) (l : Link),j < 128 * (total (s.image.node d.toNat).regs - 1) ∧
      (s.image.node d.toNat).links[j]? = some l ∧ name <+: l.name := by
  have lookup : ∀ behind,∃ s' r,findInDirR s d (name ++ behind) name.length = some (s',r) ∧
      match s.image.lookup d.toNat name with
      | .ok i => r.toNat = i ∧ s'.vol.outcome = .success
      | .error e => r = minusOne ∧ s'.vol.outcome = e := by
    intro behind
    have found := findInDirR_works v works a (name ++ behind) name.length (by simp)
      (by rw [List.take_left]; exact noNul)
    rw [List.take_left] at found
    exact found
  constructor
  · intro finds
    obtain ⟨s',x,run,outcome⟩ := finds []
    obtain ⟨t,r,run',result⟩ := lookup []
    cases run.symm.trans run'
    cases found : s.image.lookup d.toNat name with
    | error e =>
        rw [found] at result
        rcases Image.lookup_error found with file | missing
        · unfold Image.lookup at found
          rw [if_neg (not_not.mpr dir)] at found
          split at found
          · cases found
            cases file
          · cases found
        · exact (outcome (result.2.trans missing)).elim
    | ok i =>
        obtain ⟨j,l,here,hit,_⟩ := Node.find_first.mp (Image.lookup_ok.mp found).2
        unfold Node.visible at here
        rw [List.getElem?_take] at here
        split at here
        · rename_i before
          exact ⟨j,l,before,here,hit⟩
        · cases here
  · rintro ⟨j,l,before,here,hit⟩ behind
    obtain ⟨s',r,run,result⟩ := lookup behind
    refine ⟨s',r,run,?_⟩
    have visible : (s.image.node d.toNat).visible[j]? = some l := by
      unfold Node.visible
      rw [List.getElem?_take_of_lt before]
      exact here
    cases found : (s.image.node d.toNat).find name with
    | none =>
        unfold Node.find at found
        rw [Option.map_eq_none_iff,List.find?_eq_none] at found
        exact (found l (List.mem_of_getElem? visible) (List.isPrefixOf_iff_prefix.mpr hit)).elim
    | some i =>
        rw [Image.lookup_ok.mpr ⟨dir,found⟩] at result
        rw [result.2]
        exact fun wrong => nomatch wrong

theorem link_noNul (s : Mount) {d k : Nat} {l : Link} (at_k : (s.image.node d).links[k]? = some l) : 0 ∉ l.name := by
  by_cases h : d < s.vol.hblock.nextInode.toNat
  · rw [s.image_node h] at at_k
    unfold node Inode.node at at_k
    dsimp only at at_k
    split at at_k
    · rw [List.getElem?_map,Option.map_eq_some_iff] at at_k
      obtain ⟨q,_,rfl⟩ := at_k
      intro member
      have nonzero := List.mem_takeWhile_imp member
      simp at nonzero
    · cases at_k
  · rw [Image.node_ge (by rw [image_length]; omega)] at at_k
    cases at_k

-- Entry k is found under its name, or another entry in its place.
theorem entries_found_iff (v : s.Valid) (works : s.disk.Works) {d : UInt32} (a : s.image.Attached d.toNat)
    (dir : (s.image.node d.toNat).ftype = ftypeDir) {k : Nat} {l : Link}
    (at_k : (s.image.node d.toNat).links[k]? = some l) :
    s.Finds d l.name ↔ ∃ (j : Nat) (l' : Link),j < 128 * (total (s.image.node d.toNat).regs - 1) ∧
      (s.image.node d.toNat).links[j]? = some l' ∧ l.name <+: l'.name :=
  finds_iff v works a dir (s.link_noNul at_k)

-- The file "ab" is entry 2 of a root of two blocks.
theorem entries_found_made : ∃ s : Mount,History AnyOp s ∧ (s.image.node 0).links[2]? = some ⟨fileAb.bytes,1⟩ ∧
    s.Finds 0 fileAb.bytes := by
  obtain ⟨s,formatted,image⟩ := formats 3 passes_boot (by decide)
  obtain ⟨t,_,history,after⟩ := (History.format formatted : History AnyOp s).next
    (show Op.Fits s (.create ftypeFile fileAb) from trivial) trivial
  rw [image] at after
  have dir : (t.image.node 0).ftype = ftypeDir := by
    rw [after]
    decide +kernel
  have entry : (t.image.node 0).links[2]? = some ⟨fileAb.bytes,1⟩ := by
    rw [after]
    decide +kernel
  have early : 2 < 128 * (total (t.image.node 0).regs - 1) := by
    rw [after]
    decide +kernel
  obtain ⟨v,works⟩ := history.valid
  exact ⟨t,history,entry,(entries_found_iff v works (d := 0) .root dir entry).mpr
    ⟨2,⟨fileAb.bytes,1⟩,early,entry,List.prefix_refl _⟩⟩

-- With one block for a directory nothing is ever found in it.
theorem entries_not_found : ¬ ∀ (s : Mount) (d : UInt32) (k : Nat) (l : Link),History AnyOp s →
    s.image.Attached d.toNat → (s.image.node d.toNat).ftype = ftypeDir → (s.image.node d.toNat).links[k]? = some l →
    s.Finds d l.name := by
  intro all
  obtain ⟨s,formatted,image⟩ := formats 3 (show Passes 100 4 1 1 from ⟨by decide,by decide,by decide,by decide⟩) (by decide)
  have dir : (s.image.node 0).ftype = ftypeDir := by rw [image]; rfl
  have at_k : (s.image.node 0).links[0]? = some ⟨Image.dot,0⟩ := by rw [image]; rfl
  have finds := all s 0 0 ⟨Image.dot,0⟩ (.format formatted) .root dir at_k
  obtain ⟨j,_,before,_⟩ := (finds_iff formatted.valid.1 formatted.valid.2 (d := 0) .root dir (by decide)).mp finds
  rw [image] at before
  exact absurd before (Nat.not_lt_zero j)

end Mount
end ArchiveOs.Fs2
