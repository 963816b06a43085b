import ArchiveOs.Readings

-- Creating leaves the general purpose cache alone.
namespace ArchiveOs.Fs2
open Layout
namespace Mount

-- The general purpose cache: the block that it names and what it holds.
def gp (s : Mount) : UInt32 × Block := (s.vol.xcaddr,s.vol.xcache)

@[simp] theorem out_gp (s : Mount) (o : Outcome) : (s.out o).gp = s.gp := rfl
@[simp] theorem withHblock_gp (s : Mount) (h : HBlock) : (s.withHblock h).gp = s.gp := rfl
@[simp] theorem setCached_gp (s : Mount) (i : UInt32) (n : Inode) : (s.setCached i n).gp = s.gp := rfl
@[simp] theorem setEntry_gp (s : Mount) (k : Nat) (e : DirEntry) : (s.setEntry k e).gp = s.gp := rfl

@[simp] theorem wrOutcome_gp (r : Mount × Bool) : (Mount.wrOutcome r).gp = r.1.gp := by
  obtain ⟨s,done⟩ := r
  cases done <;> rfl

@[simp] theorem saveIblockC_gp (s : Mount) : (Fs2.saveIblockC s).gp = s.gp := wrOutcome_gp _
@[simp] theorem saveHblock_gp (s : Mount) : (saveHblock s).gp = s.gp := wrOutcome_gp _
@[simp] theorem saveDblockC_gp (s : Mount) : (saveDblockC s).gp = s.gp := wrOutcome_gp _

theorem rblk_gp {s t : Mount} {a : UInt32} {x : Buffer} {b : Option Block} (run : rblk s a x = (t,b)) : t.gp = s.gp := by
  cases run
  rfl

@[simp] theorem loadDblockC_gp (s : Mount) (a : UInt32) (dry : Bool) : (loadDblockC s a dry).gp = s.gp := by
  unfold loadDblockC
  split
  · split
    · rfl
    · split
      · rename_i read
        have same := rblk_gp read
        exact same
      · rename_i read
        have same := rblk_gp read
        exact same
  · rfl

theorem findFreeRegion_gp {s t : Mount} {rsz : UInt8} {save : Bool} {a : UInt32}
    (run : findFreeRegion s rsz save = some (t,a)) : t.gp = s.gp := by
  unfold findFreeRegion at run
  split at run
  · cases run
  · dsimp only at run
    split at run
    · cases run
      rfl
    · split at run
      · cases run
        exact saveHblock_gp _
      · cases run
        rfl

theorem getIblock_gp {s t : Mount} {q a : UInt32} {save : Bool} (run : getIblock s q save = some (t,a)) : t.gp = s.gp := by
  unfold getIblock at run
  dsimp only at run
  split at run
  · cases run
  · split at run
    · rename_i read
      cases run
      have same := rblk_gp read
      exact same
    · rename_i read
      cases run
      have same := rblk_gp read
      exact same
  · split at run
    · cases run
      rfl
    · obtain ⟨⟨u,start⟩,region,run⟩ := Option.bind_eq_some_iff.mp run
      have taken := findFreeRegion_gp region
      dsimp only at run
      split at run
      · cases run
        exact taken
      · split at run
        · cases run
          exact (saveHblock_gp _).trans taken
        · cases run
          exact taken

theorem cacheIblock_gp {s t : Mount} {q : UInt32} {save : Bool} (run : cacheIblock s q save = some t) : t.gp = s.gp := by
  unfold cacheIblock at run
  obtain ⟨⟨u,a⟩,block,run⟩ := Option.bind_eq_some_iff.mp run
  have loaded := getIblock_gp block
  dsimp only at run
  split at run
  · cases run
    exact loaded
  · cases run
    exact loaded

theorem getIblockC_gp {s t : Mount} {q : UInt32} {save keep : Bool} (run : getIblockC s q save keep = some t) :
    t.gp = s.gp := by
  unfold getIblockC at run
  split at run
  · split at run
    · dsimp only at run
      split at run
      · cases run
        exact saveIblockC_gp s
      · exact (cacheIblock_gp run).trans (saveIblockC_gp s)
    · exact cacheIblock_gp run
  · cases run
    rfl

theorem initInode_gp {s t : Mount} {i : UInt32} {ftype fperm : UInt8} (run : initInode s i ftype fperm = some t) :
    t.gp = s.gp := by
  unfold initInode at run
  dsimp only at run
  split at run
  · obtain ⟨⟨u,a⟩,region,run⟩ := Option.bind_eq_some_iff.mp run
    have taken := findFreeRegion_gp region
    dsimp only at run
    split at run
    · cases run
      exact taken
    · cases run
      exact taken
  · cases run
    rfl

theorem addDirEntry_gp {s t : Mount} {name : List UInt8} {d c : UInt32} (run : addDirEntry s name d c = some t) :
    t.gp = s.gp := by
  unfold addDirEntry addDirEntryFrom at run
  dsimp only at run
  split at run
  · split at run
    · cases run
      exact loadDblockC_gp ..
    · split at run
      · cases run
        exact (saveDblockC_gp _).trans (loadDblockC_gp ..)
      · cases run
        exact (saveDblockC_gp _).trans (loadDblockC_gp ..)
  · split at run
    · cases run
      rfl
    · obtain ⟨⟨u,a⟩,region,run⟩ := Option.bind_eq_some_iff.mp run
      have taken := findFreeRegion_gp region
      dsimp only at run
      split at run
      · cases run
        exact taken
      · split at run
        · cases run
        · cases run
          exact (saveDblockC_gp _).trans ((loadDblockC_gp ..).trans taken)

theorem populateDir_gp (s : Mount) (i p : UInt32) : (populateDir s i p).gp = s.gp := by
  unfold populateDir
  dsimp only
  rw [saveDblockC_gp,setCached_gp,setEntry_gp,setEntry_gp,loadDblockC_gp]

theorem finishCreate_gp (s : Mount) : (finishCreate s).gp = s.gp := (saveHblock_gp _).trans (saveIblockC_gp s)

theorem createFile_gp {s t : Mount} {name : List UInt8} {p : UInt32} {ftype : UInt8}
    (run : createFile s name p ftype = some t) : t.gp = s.gp := by
  unfold createFile at run
  obtain ⟨s₁,table,run⟩ := Option.bind_eq_some_iff.mp run
  have first := getIblockC_gp table
  split at run
  · cases run
    exact first
  obtain ⟨s₂,fresh,run⟩ := Option.bind_eq_some_iff.mp run
  have second := (initInode_gp fresh).trans first
  dsimp only at run
  split at run
  · cases run
    exact second
  have third : ∀ {i q : UInt32} {n : Inode},(if ftype = ftypeDir then populateDir (s₂.setCached i n) i q
      else s₂.setCached i n).gp = s.gp := by
    intro i q n
    split
    · exact (populateDir_gp ..).trans second
    · exact second
  split at run
  · obtain ⟨s₃,back,run⟩ := Option.bind_eq_some_iff.mp run
    have fourth := (getIblockC_gp back).trans third
    split at run
    · cases run
      exact fourth
    · obtain ⟨s₄,added,run⟩ := Option.bind_eq_some_iff.mp run
      cases run
      exact (finishCreate_gp _).trans ((addDirEntry_gp added).trans fourth)
  · cases run
    exact (finishCreate_gp _).trans third

theorem findFile_gp {s t : Mount} {x : UInt32} {path : List UInt8} {p : Option UInt32}
    (run : findFile s path = some (t,x,p)) : t.gp = s.gp := by
  have aside := findFile_aside run
  unfold gp
  rw [aside.xcaddr,aside.xcache]

theorem create_gp {s t : Mount} {ftype : UInt8} {path : Path} {r : Bool} (run : create s ftype path = some (t,r)) :
    t.gp = s.gp := by
  unfold create at run
  obtain ⟨⟨s₁,_,_⟩,found,run⟩ := Option.bind_eq_some_iff.mp run
  have first := findFile_gp found
  dsimp only at run
  split at run
  · cases run
    exact first
  split at run
  · cases run
    exact first
  split at run
  · cases run
    exact first
  split at run
  · obtain ⟨s₂,made,run⟩ := Option.bind_eq_some_iff.mp run
    cases run
    exact (createFile_gp made).trans first
  · obtain ⟨⟨s₂,_,_⟩,parent,run⟩ := Option.bind_eq_some_iff.mp run
    have second := (findFile_gp parent).trans first
    dsimp only at run
    split at run
    · cases run
      exact second
    · obtain ⟨s₃,made,run⟩ := Option.bind_eq_some_iff.mp run
      cases run
      exact (createFile_gp made).trans second
end Mount
end ArchiveOs.Fs2
